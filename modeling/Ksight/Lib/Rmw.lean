/-
  Ksight.Lib.Rmw — read-modify-write calls on a shared store, each inside an exclusive
  named lock.

  A call `c` works on key `key c` under the lock `lock c`. It takes the lock, reads the
  value at its key, writes `upd c v` back (or gives up when that is `none`) and releases
  the lock; each of these is one step, and the steps of any number of processes
  interleave freely. `log` records the calls that wrote, in the order they wrote.

  A lock excludes only the calls that name it (`excl`). So the store is the log replayed
  over the initial store (`replayed`) in every run whose writes are `Clear`: no call
  under another lock is between its read and its write of the same key. A call that runs
  by itself is such a run (`solo`).
-/

import Ksight.Lib.Run

namespace Ksight.Lib.Rmw

variable {ι κ μ γ α : Type} [DecidableEq ι] [DecidableEq κ] [DecidableEq μ]

/-- What the calls are. -/
structure Calls (κ μ γ α : Type) where
  key : γ → κ
  lock : γ → μ
  upd : γ → α → Option α

inductive Pc (γ α : Type) where
  | idle
  | start (c : γ)
  | locked (c : γ)
  | read (c : γ) (v : α)
  | wrote (c : γ)
  deriving DecidableEq

structure St (ι κ μ γ α : Type) where
  store : κ → α
  owner : μ → Option ι
  pc : ι → Pc γ α
  log : List γ

inductive Ev (ι γ : Type) where
  | call (i : ι) (c : γ)
  | acquire (i : ι)
  | look (i : ι)
  | write (i : ι)
  | release (i : ι)

def init (store : κ → α) : St ι κ μ γ α := ⟨store, fun _ => none, fun _ => .idle, []⟩

variable (C : Calls κ μ γ α)

def step : Ev ι γ → St ι κ μ γ α → Option (St ι κ μ γ α)
  | .call i c, s =>
    match s.pc i with
    | .idle => some { s with pc := Function.update s.pc i (.start c) }
    | _ => none
  | .acquire i, s =>
    match s.pc i with
    | .start c =>
      if s.owner (C.lock c) = none then
        some { s with
          owner := Function.update s.owner (C.lock c) (some i)
          pc := Function.update s.pc i (.locked c) }
      else none
    | _ => none
  | .look i, s =>
    match s.pc i with
    | .locked c => some { s with pc := Function.update s.pc i (.read c (s.store (C.key c))) }
    | _ => none
  | .write i, s =>
    match s.pc i with
    | .read c v =>
      match C.upd c v with
      | some v' =>
        some { s with store := Function.update s.store (C.key c) v', pc := Function.update s.pc i (.wrote c),
                      log := s.log ++ [c] }
      | none => some { s with pc := Function.update s.pc i (.wrote c) }
    | _ => none
  | .release i, s =>
    match s.pc i with
    | .wrote c =>
      some { s with
        owner := Function.update s.owner (C.lock c) none
        pc := Function.update s.pc i .idle }
    | _ => none

/-- No call is in progress. -/
def Quiet (s : St ι κ μ γ α) : Prop := ∀ i, s.pc i = .idle

/-- The call in progress under a lock, if the process holds one. -/
def holds : Pc γ α → Option γ
  | .locked c | .read c _ | .wrote c => some c
  | _ => none

/-- The write `i` is about to make is clear of the reads of calls under other locks. -/
def Clear (e : Ev ι γ) (s : St ι κ μ γ α) : Prop :=
  ∀ i c v, e = .write i → s.pc i = .read c v → ∀ j c' v', s.pc j = .read c' v' → C.key c' = C.key c →
    C.lock c' = C.lock c

/-- What the logged calls on a key make of a value, `none` if one of them gives up. -/
def replay (log : List γ) (k : κ) (v : α) : Option α :=
  (log.filter fun c => C.key c = k).foldlM (fun v c => C.upd c v) v

omit [DecidableEq μ] in
theorem replay_snoc (log : List γ) (c : γ) (k : κ) (v : α) :
    replay C (log ++ [c]) k v = (replay C log k v).bind fun w =>
      if C.key c = k then C.upd c w else some w := by
  unfold replay
  rw [List.filter_append, List.foldlM_append]
  split <;> simp [*]

/-! ## One step -/

/-- Every step moves one process to a next phase; what else it changes goes with the
    phase. -/
theorem step_cases {e : Ev ι γ} {s t : St ι κ μ γ α} (h : step C e s = some t) :
    (∃ i c, e = .call i c ∧ s.pc i = .idle ∧ t = { s with pc := Function.update s.pc i (.start c) }) ∨
    (∃ i c, e = .acquire i ∧ s.pc i = .start c ∧ s.owner (C.lock c) = none ∧
      t = { s with
        owner := Function.update s.owner (C.lock c) (some i)
        pc := Function.update s.pc i (.locked c) }) ∨
    (∃ i c, e = .look i ∧ s.pc i = .locked c ∧
      t = { s with pc := Function.update s.pc i (.read c (s.store (C.key c))) }) ∨
    (∃ i c v v', e = .write i ∧ s.pc i = .read c v ∧ C.upd c v = some v' ∧
      t = { s with store := Function.update s.store (C.key c) v', pc := Function.update s.pc i (.wrote c),
                   log := s.log ++ [c] }) ∨
    (∃ i c v, e = .write i ∧ s.pc i = .read c v ∧ C.upd c v = none ∧
      t = { s with pc := Function.update s.pc i (.wrote c) }) ∨
    (∃ i c, e = .release i ∧ s.pc i = .wrote c ∧
      t = { s with
        owner := Function.update s.owner (C.lock c) none
        pc := Function.update s.pc i .idle }) := by
  cases e with
  | call i c =>
    simp only [step] at h
    split at h
    · cases h; exact .inl ⟨i, c, rfl, ‹_›, rfl⟩
    · cases h
  | acquire i =>
    simp only [step] at h
    split at h
    · split at h
      · cases h; exact .inr (.inl ⟨i, _, rfl, ‹_›, ‹_›, rfl⟩)
      · cases h
    · cases h
  | look i =>
    simp only [step] at h
    split at h
    · cases h; exact .inr (.inr (.inl ⟨i, _, rfl, ‹_›, rfl⟩))
    · cases h
  | write i =>
    simp only [step] at h
    split at h
    · split at h
      · cases h; exact .inr (.inr (.inr (.inl ⟨i, _, _, _, rfl, ‹_›, ‹_›, rfl⟩)))
      · cases h; exact .inr (.inr (.inr (.inr (.inl ⟨i, _, _, rfl, ‹_›, ‹_›, rfl⟩))))
    · cases h
  | release i =>
    simp only [step] at h
    split at h
    · cases h; exact .inr (.inr (.inr (.inr (.inr ⟨i, _, rfl, ‹_›, rfl⟩))))
    · cases h

/-! ## Mutual exclusion -/

/-- Who is inside a call owns its lock. -/
def Owned (s : St ι κ μ γ α) : Prop := ∀ i c, holds (s.pc i) = some c → s.owner (C.lock c) = some i

theorem owned_step {e : Ev ι γ} {s t : St ι κ μ γ α} (hs : Owned C s) (h : step C e s = some t) :
    Owned C t := by
  have keep : ∀ (i : ι) (p : Pc γ α), (∀ c, holds p = some c → holds (s.pc i) = some c) →
      ∀ j c, holds (Function.update s.pc i p j) = some c → s.owner (C.lock c) = some j := by
    intro i p hp j c hc
    by_cases e : j = i
    · subst e; rw [Function.update_self] at hc; exact hs _ _ (hp c hc)
    · rw [Function.update_of_ne e] at hc; exact hs _ _ hc
  rcases step_cases C h with ⟨i, c, -, hpc, rfl⟩ | ⟨i, c, -, hpc, hfree, rfl⟩ | ⟨i, c, -, hpc, rfl⟩ |
    ⟨i, c, v, v', -, hpc, -, rfl⟩ | ⟨i, c, v, -, hpc, -, rfl⟩ | ⟨i, c, -, hpc, rfl⟩
  · exact keep i _ (by simp [holds])
  · intro j d hd
    simp only at hd ⊢
    by_cases ej : j = i
    · subst ej
      rw [Function.update_self] at hd
      cases hd
      rw [Function.update_self]
    · rw [Function.update_of_ne ej] at hd
      have hd := hs j d hd
      rw [Function.update_of_ne (fun e => by rw [e, hfree] at hd; cases hd)]
      exact hd
  · exact keep i _ (by simp [holds, hpc])
  · exact keep i _ (by simp [holds, hpc])
  · exact keep i _ (by simp [holds, hpc])
  · intro j d hd
    simp only at hd ⊢
    by_cases ej : j = i
    · subst ej; rw [Function.update_self] at hd; cases hd
    · rw [Function.update_of_ne ej] at hd
      have hi := hs i c (by simp [holds, hpc])
      have hd := hs j d hd
      rw [Function.update_of_ne (fun e => by rw [e, hi] at hd; cases hd; exact ej rfl)]
      exact hd

omit [DecidableEq ι] [DecidableEq κ] [DecidableEq μ] in
/-- Two calls under one lock are never inside it at once. -/
theorem excl {s : St ι κ μ γ α} (hs : Owned C s) {i j : ι} {c d : γ} (hi : holds (s.pc i) = some c)
    (hj : holds (s.pc j) = some d) (hl : C.lock c = C.lock d) : i = j := by
  have h1 := hs i c hi
  have h2 := hs j d hj
  rw [hl, h2] at h1
  cases h1; rfl

/-! ## The store is the log -/

/-- What a call has read is still there, and the store is the replayed log. -/
structure Inv (store : κ → α) (s : St ι κ μ γ α) : Prop where
  owned : Owned C s
  fresh : ∀ i c v, s.pc i = .read c v → v = s.store (C.key c)
  replayed : ∀ k, replay C s.log k (store k) = some (s.store k)

omit [DecidableEq ι] [DecidableEq μ] in
theorem init_inv (store : κ → α) : Inv C store (init store : St ι κ μ γ α) :=
  ⟨fun _ _ h => (by cases h), fun _ _ _ h => (by cases h), fun _ => rfl⟩

theorem step_inv {store : κ → α} {e : Ev ι γ} {s t : St ι κ μ γ α} (hs : Inv C store s) (hc : Clear C e s)
    (h : step C e s = some t) : Inv C store t := by
  refine ⟨owned_step C hs.owned h, ?_, ?_⟩
  · -- a process other than the mover keeps its phase, so only a new value can make its read stale
    have keep : ∀ (i : ι) (p : Pc γ α), (∀ c v, p = .read c v → v = s.store (C.key c)) →
        ∀ j c v, Function.update s.pc i p j = .read c v → v = s.store (C.key c) := by
      intro i p hp j c v hj
      by_cases e : j = i
      · subst e; rw [Function.update_self] at hj; exact hp c v hj
      · rw [Function.update_of_ne e] at hj; exact hs.fresh j c v hj
    rcases step_cases C h with ⟨i, c, -, hpc, rfl⟩ | ⟨i, c, -, hpc, hfree, rfl⟩ | ⟨i, c, -, hpc, rfl⟩ |
      ⟨i, c, v, v', he, hpc, -, rfl⟩ | ⟨i, c, v, -, hpc, -, rfl⟩ | ⟨i, c, -, hpc, rfl⟩
    · exact keep i _ (by simp)
    · exact keep i _ (by simp)
    · apply keep i _
      intro c' v' hv
      cases hv
      rfl
    · intro j d w hj
      simp only at hj ⊢
      by_cases ej : j = i
      · subst ej; rw [Function.update_self] at hj; cases hj
      · rw [Function.update_of_ne ej] at hj
        have hne : C.key d ≠ C.key c := fun hk =>
          ej (excl C hs.owned (by simp [holds, hj]) (by simp [holds, hpc]) (hc i c v he hpc j d w hj hk))
        rw [Function.update_of_ne hne]
        exact hs.fresh j d w hj
    · exact keep i _ (by simp)
    · exact keep i _ (by simp)
  · rcases step_cases C h with ⟨i, c, -, hpc, rfl⟩ | ⟨i, c, -, hpc, hfree, rfl⟩ | ⟨i, c, -, hpc, rfl⟩ |
      ⟨i, c, v, v', -, hpc, hu, rfl⟩ | ⟨i, c, v, -, hpc, -, rfl⟩ | ⟨i, c, -, hpc, rfl⟩
    · exact hs.replayed
    · exact hs.replayed
    · exact hs.replayed
    · intro k
      have hv := hs.fresh i c v hpc
      simp only
      rw [replay_snoc, hs.replayed k, Option.bind_some]
      by_cases ek : k = C.key c
      · subst ek
        rw [Function.update_self, if_pos rfl, ← hv, hu]
      · rw [Function.update_of_ne ek, if_neg (Ne.symm ek)]
    · exact hs.replayed
    · exact hs.replayed

/-- In a run whose writes are clear no update is lost. -/
theorem replayed {store : κ → α} {s : St ι κ μ γ α} (h : Run (step C) (Clear C) (init store) s) :
    ∀ k, replay C s.log k (store k) = some (s.store k) :=
  (h.inv (init_inv C store) fun _ _ _ hi hc hs => step_inv C hi hc hs).replayed

/-! ## A call by itself -/

/-- In a quiet state whose locks are free, a call that does not give up runs to its end
    and writes what it makes of the stored value. -/
theorem solo {s : St ι κ μ γ α} (hq : Quiet s) (hl : ∀ l, s.owner l = none) (i : ι) {c : γ} {v : α}
    (hu : C.upd c (s.store (C.key c)) = some v) :
    ∃ t, Run (step C) (Clear C) s t ∧ Quiet t ∧ (∀ l, t.owner l = none) ∧
      t.store = Function.update s.store (C.key c) v ∧ t.log = s.log ++ [c] := by
  have hpc : ∀ p q, Function.update (Function.update s.pc i p) i q = Function.update s.pc i q :=
    fun p q => Function.update_idem ..
  -- only `i` is ever inside a call, so what a write could spoil is its own read
  have clear : ∀ (e : Ev ι γ) (u : St ι κ μ γ α) p, u.pc = Function.update s.pc i p → Clear C e u := by
    intro e u p hu j d w _ hd k d' w' hd' _
    rw [hu] at hd hd'
    by_cases hj : j = i <;> by_cases hk : k = i
    · subst hj hk; rw [hd] at hd'; cases hd'; rfl
    · rw [Function.update_of_ne hk, hq k] at hd'; cases hd'
    · rw [Function.update_of_ne hj, hq j] at hd; cases hd
    · rw [Function.update_of_ne hj, hq j] at hd; cases hd
  let own := Function.update s.owner (C.lock c) (some i)
  have r1 : Run (step C) (Clear C) s { s with pc := Function.update s.pc i (.start c) } :=
    .snoc (.call i c) .refl (clear _ _ _ (Function.update_eq_self i s.pc).symm) (by simp [step, hq i])
  have r2 : Run (step C) (Clear C) s { s with owner := own, pc := Function.update s.pc i (.locked c) } :=
    .snoc (.acquire i) r1 (clear _ _ _ rfl) (by simp [step, hl, hpc, own])
  have r3 : Run (step C) (Clear C) s
      { s with owner := own, pc := Function.update s.pc i (.read c (s.store (C.key c))) } :=
    .snoc (.look i) r2 (clear _ _ _ rfl) (by simp [step, hpc])
  have r4 : Run (step C) (Clear C) s
      { store := Function.update s.store (C.key c) v, owner := own, pc := Function.update s.pc i (.wrote c),
        log := s.log ++ [c] } :=
    .snoc (.write i) r3 (clear _ _ _ rfl) (by simp [step, hpc, hu])
  refine ⟨_, .snoc (.release i) r4 (clear _ _ _ rfl) (by simp only [step, Function.update_self]; rfl),
    ?_, ?_, rfl, rfl⟩
  · intro j
    simp only [hpc]
    by_cases hj : j = i
    · subst hj; exact Function.update_self ..
    · rw [Function.update_of_ne hj]; exact hq j
  · intro l
    simp only [own]
    rw [Function.update_idem]
    by_cases e : l = C.lock c
    · subst e; exact Function.update_self ..
    · rw [Function.update_of_ne e]; exact hl l

end Ksight.Lib.Rmw
