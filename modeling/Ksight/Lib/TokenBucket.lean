/-
  Ksight.Lib.TokenBucket — a token bucket of capacity `cap`.

  Each call first credits the bucket (up to `cap`), then takes its length out if the
  bucket holds that much, and is refused otherwise. What a run of calls takes out, plus
  what it leaves, is at most what it found plus what its credits are worth, a credit
  being worth at most `cap` (`taken_add_left`). Calls spaced so that each is credited its
  own length are all served (`taken_spaced`); all are served if and only if no run of calls
  asks for more than there is (`taken_eq_asked_iff`).
-/

import Mathlib.Algebra.BigOperators.Group.List.Basic
import Mathlib.Algebra.Order.Ring.Nat

namespace Ksight.Lib.TokenBucket

structure Call where
  credit : Nat
  len : Nat

/-- The tokens a call finds once it is credited. -/
def level (cap tokens credit : Nat) : Nat := min cap (tokens + credit)

def serve (cap tokens : Nat) (c : Call) : Bool := decide (c.len ≤ level cap tokens c.credit)

def tokensAfter (cap tokens : Nat) (c : Call) : Nat :=
  if serve cap tokens c then level cap tokens c.credit - c.len else level cap tokens c.credit

/-- The sum of the lengths of the calls served. -/
def taken (cap : Nat) : Nat → List Call → Nat
  | _, [] => 0
  | tokens, c :: cs => (if serve cap tokens c then c.len else 0) + taken cap (tokensAfter cap tokens c) cs

def left (cap : Nat) : Nat → List Call → Nat
  | tokens, [] => tokens
  | tokens, c :: cs => left cap (tokensAfter cap tokens c) cs

/-- What the credits are worth to a bucket of capacity `cap`. -/
def worth (cap : Nat) (cs : List Call) : Nat := (cs.map fun c => min cap c.credit).sum

variable (cap : Nat)

theorem tokensAfter_le (tokens : Nat) (c : Call) : tokensAfter cap tokens c ≤ cap := by
  unfold tokensAfter level
  split <;> omega

/-- What one call takes and leaves is what it found. -/
theorem taken_one (tokens : Nat) (c : Call) :
    (if serve cap tokens c then c.len else 0) + tokensAfter cap tokens c = level cap tokens c.credit := by
  unfold tokensAfter
  split
  · rename_i h
    have := of_decide_eq_true h
    omega
  · omega

theorem level_le (tokens credit : Nat) : level cap tokens credit ≤ tokens + min cap credit := by
  unfold level; omega

theorem taken_add_left (tokens : Nat) (cs : List Call) :
    taken cap tokens cs + left cap tokens cs ≤ tokens + worth cap cs := by
  induction cs generalizing tokens with
  | nil => simp [taken, left, worth]
  | cons c cs ih =>
    have h1 := taken_one cap tokens c
    have h2 := level_le cap tokens c.credit
    have h3 := ih (tokensAfter cap tokens c)
    simp only [taken, left, worth, List.map_cons, List.sum_cons] at h3 ⊢
    omega

variable {cap}

/-- Calls that are each credited at least their own length `g ≤ cap` are all served. -/
theorem taken_spaced {g : Nat} (hg : g ≤ cap) (cs : List Call) (h : ∀ c ∈ cs, c.len = g ∧ g ≤ c.credit)
    (tokens : Nat) :
    taken cap tokens cs = cs.length * g := by
  induction cs generalizing tokens with
  | nil => simp [taken]
  | cons c cs ih =>
    obtain ⟨hl, hc⟩ := h c List.mem_cons_self
    have hs : serve cap tokens c = true := by
      simp only [serve, level, decide_eq_true_eq, hl]; omega
    simp only [taken, hs, if_true, List.length_cons, ih fun d hd => h d (List.mem_cons_of_mem _ hd)]
    rw [hl, Nat.add_mul, Nat.one_mul, Nat.add_comm]

/-! ## When everything is taken -/

/-- The sum of the lengths. -/
def asked (cs : List Call) : Nat := (cs.map Call.len).sum

def credited (cs : List Call) : Nat := (cs.map Call.credit).sum

/-- From each call on, no more is asked than a bucket that is full there can give. -/
def Within (cap : Nat) : List Call → Prop
  | [] => True
  | c :: cs => (∀ n, c.len + asked (cs.take n) ≤ cap + credited (cs.take n)) ∧ Within cap cs

/-- What a served call leaves. -/
theorem tokensAfter_add_len {tokens : Nat} {c : Call} (h : c.len ≤ level cap tokens c.credit) :
    tokensAfter cap tokens c + c.len = level cap tokens c.credit := by
  have hserve : serve cap tokens c = true := decide_eq_true h
  rw [tokensAfter, if_pos hserve, Nat.sub_add_cancel h]

theorem taken_le_asked (tokens : Nat) (cs : List Call) : taken cap tokens cs ≤ asked cs := by
  induction cs generalizing tokens with
  | nil => exact Nat.le_refl _
  | cons c cs ih =>
    have := ih (tokensAfter cap tokens c)
    simp only [taken, asked, List.map_cons, List.sum_cons] at this ⊢
    split <;> omega

/-- Everything is taken if and only if no call, and no run of calls, asks for more than there
    is: of the tokens found at first, and of a full bucket later. -/
theorem taken_eq_asked_iff (tokens : Nat) (cs : List Call) :
    taken cap tokens cs = asked cs ↔
      (∀ n, asked (cs.take n) ≤ tokens + credited (cs.take n)) ∧ Within cap cs := by
  induction cs generalizing tokens with
  | nil => simp [taken, asked, Within]
  | cons c cs ih =>
    have hrest : taken cap (tokensAfter cap tokens c) cs ≤ asked cs := taken_le_asked _ cs
    have hsplit : taken cap tokens (c :: cs) = asked (c :: cs) ↔
        c.len ≤ level cap tokens c.credit ∧ taken cap (tokensAfter cap tokens c) cs = asked cs := by
      simp only [taken, asked, List.map_cons, List.sum_cons, serve, decide_eq_true_eq] at hrest ⊢
      split <;> omega
    rw [hsplit, ih, Within]
    constructor
    · rintro ⟨hserve, hfirst, hwithin⟩
      have hleft := tokensAfter_add_len hserve
      unfold level at hleft
      refine ⟨fun n => ?_, fun n => ?_, hwithin⟩
      · rcases n with _ | n
        · simp [asked]
        · have := hfirst n
          simp only [asked, credited, List.take_succ_cons, List.map_cons, List.sum_cons] at this ⊢
          omega
      · have := hfirst n
        omega
    · rintro ⟨hfirst, hfull, hwithin⟩
      have hserve : c.len ≤ level cap tokens c.credit := by
        have h1 := hfirst 1
        have h0 := hfull 0
        simp only [asked, credited, List.take_succ_cons, List.take_zero, List.map_cons, List.map_nil,
          List.sum_cons, List.sum_nil] at h1 h0
        unfold level
        omega
      have hleft := tokensAfter_add_len hserve
      unfold level at hleft
      refine ⟨hserve, fun n => ?_, hwithin⟩
      have h1 := hfirst (n + 1)
      have h0 := hfull n
      simp only [asked, credited, List.take_succ_cons, List.map_cons, List.sum_cons] at h1 h0 ⊢
      omega

end Ksight.Lib.TokenBucket
