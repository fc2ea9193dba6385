/-
  Ksight.Wirefisher.Parse — from the configuration text to the limit that is enforced
  (src/net/wirefisher/include/parse.h: `parse_rate_bps`, `parse_time_scale`;
  bpf/tc_port.bpf.h: `netfilter_handle`, whose `rate_limit` the other three handlers fill
  the same way).

  A rate is digits and one of the units K, M, G or none; a time is digits and one of s,
  ms, m. The parsers take the digits through `stoull` and `stoul` (`unsigned long` has 64
  bits), which throw from 2^64 on. What follows loses silently: the unit of a rate wraps
  at 64 bits, a time is cut to 32 bits before its unit is applied, milliseconds are
  divided by 1000, the rule's 64-bit rate is cut to the 32 bits of `struct rate_limit`,
  and rate * time_scale wraps at 32 bits.

  (1) `matched_rate`, `matched_time`: the texts the parsers match are the `RateText`s and
      the `TimeText`s.
  (2) `undistorted_iff`: a pair of texts is rejected, or enforced exactly as written, if
      and only if `Kept` holds of the two numbers. The manual's own example, a time_scale
      of 500ms, is divided to 0 s and gives a bucket that holds nothing
      (`half_a_second_is_none`).
-/

import Mathlib.Algebra.Order.Floor.Semifield
import Mathlib.Data.Rat.Floor
import Mathlib.Data.List.TakeWhile
import Mathlib.Data.Set.List
import Ksight.Wirefisher.RateLimit

namespace Ksight.Wirefisher

/-! ## The parsers -/

inductive ParseError where
  | runtimeError (what : String)
  | outOfRange (what : String)
  deriving DecidableEq

/-- `regex_match` on digits followed by one of `units`: its two groups. -/
def regexMatch (units : List (List Char)) (text : List Char) : Option (List Char × List Char) :=
  if text.takeWhile Char.isDigit ≠ [] ∧ text.dropWhile Char.isDigit ∈ units then
    some (text.takeWhile Char.isDigit, text.dropWhile Char.isDigit)
  else none

def number (digits : List Char) : Nat := digits.foldl (fun n c => 10 * n + (c.toNat - '0'.toNat)) 0

/-- `stoull` and `stoul` of a text of digits. -/
def stoull (what : String) (digits : List Char) : Except ParseError UInt64 :=
  if number digits < 2 ^ 64 then .ok (.ofNat (number digits)) else .error (.outOfRange what)

def rateUnits : List (List Char) := [[], ['K'], ['M'], ['G']]

def parseRateBps (rateStr : List Char) : Except ParseError UInt64 :=
  match regexMatch rateUnits rateStr with
  | some (digits, unit) => do
    let base ← stoull "stoull" digits
    if unit = ['K'] then return base * 1024
    if unit = ['M'] then return base * 1024 * 1024
    if unit = ['G'] then return base * 1024 * 1024 * 1024
    return base
  | none => .error (.runtimeError ("Invalid rate_bps format: " ++ String.ofList rateStr))

def timeUnits : List (List Char) := [['s'], ['m', 's'], ['m']]

def parseTimeScale (timeStr : List Char) : Except ParseError UInt32 :=
  match regexMatch timeUnits timeStr with
  | some (digits, unit) => do
    let base := (← stoull "stoul" digits).toUInt32
    if unit = ['m', 's'] then return base / 1000
    if unit = ['m'] then return base * 60
    return base
  | none => .error (.runtimeError ("Invalid time_scale format: " ++ String.ofList timeStr))

/-- The fields of a module's rule that a limit is made of. -/
structure LimitRule where
  rateBps : UInt64
  timeScale : UInt32
  deriving DecidableEq

/-- The part of `get_rule` that reads them. -/
def getRule (rateStr timeStr : List Char) : Except ParseError LimitRule := do
  let rateBps ← parseRateBps rateStr
  let timeScale ← parseTimeScale timeStr
  return ⟨rateBps, timeScale⟩

/-- The `rate_limit` `netfilter_handle` makes of a rule for a packet. -/
def rateLimitOf (rule : LimitRule) (packetLen : UInt32) : RateLimit :=
  ⟨rule.rateBps.toUInt32, rule.timeScale, packetLen⟩

/-! ## What the texts denote -/

structure Digits where
  list : List (Fin 10)
  nonempty : list ≠ []

namespace Digits

def chars (d : Digits) : List Char := d.list.map fun i : Fin 10 => Nat.digitChar i

def value (d : Digits) : Nat := d.list.foldl (fun n (i : Fin 10) => 10 * n + i.val) 0

end Digits

inductive RateUnit where
  | none
  | K
  | M
  | G
  deriving DecidableEq

namespace RateUnit

def chars : RateUnit → List Char
  | none => []
  | K => ['K']
  | M => ['M']
  | G => ['G']

def factor : RateUnit → Nat
  | none => 1
  | K => 1024
  | M => 1024 ^ 2
  | G => 1024 ^ 3

end RateUnit

inductive TimeUnit where
  | s
  | ms
  | m
  deriving DecidableEq

namespace TimeUnit

def chars : TimeUnit → List Char
  | s => ['s']
  | ms => ['m', 's']
  | m => ['m']

def seconds : TimeUnit → ℚ
  | s => 1
  | ms => 1 / 1000
  | m => 60

end TimeUnit

structure RateText where
  digits : Digits
  unit : RateUnit

structure TimeText where
  digits : Digits
  unit : TimeUnit

def RateText.text (t : RateText) : List Char := t.digits.chars ++ t.unit.chars

def TimeText.text (t : TimeText) : List Char := t.digits.chars ++ t.unit.chars

/-- Bytes per second. -/
def RateText.rate (t : RateText) : Nat := t.digits.value * t.unit.factor

def TimeText.seconds (t : TimeText) : ℚ := t.digits.value * t.unit.seconds

/-- The texts are rejected, or every packet is checked against the rate and the capacity
    they denote. -/
def Undistorted (rate : RateText) (time : TimeText) : Prop :=
  match getRule rate.text time.text with
  | .error _ => True
  | .ok rule => ∀ len, (rateLimitOf rule len).rateBps.toNat = rate.rate ∧
      (maxBucket (rateLimitOf rule len).rateBps (rateLimitOf rule len).timeScale).toNat =
        ⌊(rate.rate : ℚ) * time.seconds / 4⌋₊

/-- The digits are rejected, or the rate fits 32 bits and no step of the time's unit loses. -/
def Kept (rate : RateText) (time : TimeText) : Prop :=
  2 ^ 64 ≤ rate.digits.value ∨ 2 ^ 64 ≤ time.digits.value ∨ rate.rate < 2 ^ 32 ∧
    match time.unit with
    | .s => rate.rate * time.digits.value < 2 ^ 32
    | .m => rate.rate * (time.digits.value * 60) < 2 ^ 32
    | .ms => rate.rate = 0 ∨ time.digits.value < 2 ^ 32 ∧ rate.rate * (time.digits.value / 1000) < 2 ^ 32 ∧
        1000 * (rate.rate * (time.digits.value / 1000) % 4) + rate.rate * (time.digits.value % 1000) < 4000

/-! ## What the parsers match -/

theorem isDigit_digitChar : ∀ i : Fin 10, (Nat.digitChar i).isDigit = true := by decide

theorem toNat_digitChar (i : Fin 10) : (Nat.digitChar i).toNat = 48 + i :=
  Nat.toNat_digitChar_of_lt_ten i.isLt

theorem number_chars (d : Digits) : number d.chars = d.value := by
  have h : ∀ i : Fin 10, (Nat.digitChar i).toNat - '0'.toNat = i := fun i => by
    rw [toNat_digitChar]; exact Nat.add_sub_cancel_left 48 i
  simp only [number, Digits.chars, Digits.value, List.foldl_map, h]

theorem isDigit_chars (d : Digits) : ∀ c ∈ d.chars, c.isDigit = true := by
  intro c hc
  obtain ⟨i, -, rfl⟩ := List.mem_map.mp hc
  exact isDigit_digitChar i

/-- Digits followed by a text that starts with none are matched as these two groups. -/
theorem regexMatch_digits {units : List (List Char)} (d : Digits) {unit : List Char} (hu : unit ∈ units)
    (hn : unit.takeWhile Char.isDigit = []) : regexMatch units (d.chars ++ unit) = some (d.chars, unit) := by
  have ht : (d.chars ++ unit).takeWhile Char.isDigit = d.chars := by
    rw [List.takeWhile_append_of_pos (isDigit_chars d), hn, List.append_nil]
  have hd : (d.chars ++ unit).dropWhile Char.isDigit = unit := by
    have := List.takeWhile_append_dropWhile (p := Char.isDigit) (l := d.chars ++ unit)
    rw [ht] at this
    exact List.append_cancel_left this
  have hne : d.chars ≠ [] := fun h => d.nonempty (List.map_eq_nil_iff.mp h)
  rw [regexMatch, ht, hd, if_pos ⟨hne, hu⟩]

theorem exists_chars {l : List Char} (hl : ∀ c ∈ l, c.isDigit = true) (hne : l ≠ []) :
    ∃ d : Digits, d.chars = l := by
  have hc : ∀ c ∈ l, ∃ i : Fin 10, Nat.digitChar i = c := by
    intro c h
    obtain ⟨h1, h2⟩ := Char.isDigit_iff_toNat.mp (hl c h)
    have h1 : 48 ≤ c.toNat := h1
    have h2 : c.toNat ≤ 57 := h2
    refine ⟨⟨c.toNat - 48, by omega⟩, Char.toNat_inj.mp ?_⟩
    rw [toNat_digitChar]
    show 48 + (c.toNat - 48) = c.toNat
    omega
  obtain ⟨is, his⟩ : l ∈ Set.range (List.map fun i : Fin 10 => Nat.digitChar i) := by
    rw [Set.range_list_map]; exact hc
  exact ⟨⟨is, fun h => hne (by rw [← his, h]; rfl)⟩, his⟩

/-- The texts that match are those of digits and a unit. -/
theorem regexMatch_iff {units : List (List Char)} (hn : ∀ u ∈ units, u.takeWhile Char.isDigit = [])
    {text : List Char} :
    (regexMatch units text).isSome ↔ ∃ d : Digits, ∃ u ∈ units, d.chars ++ u = text := by
  constructor
  · intro h
    unfold regexMatch at h
    split at h
    · rename_i hm
      obtain ⟨d, hd⟩ := exists_chars (fun c hc => List.mem_takeWhile_imp hc) hm.1
      exact ⟨d, _, hm.2, by rw [hd, List.takeWhile_append_dropWhile]⟩
    · cases h
  · intro h
    obtain ⟨d, u, hu, rfl⟩ := h
    rw [regexMatch_digits d hu (hn u hu)]
    rfl

theorem matched_rate {text : List Char} :
    (regexMatch rateUnits text).isSome ↔ ∃ t : RateText, t.text = text := by
  rw [regexMatch_iff (by decide)]
  constructor
  · intro h
    obtain ⟨d, u, hu, rfl⟩ := h
    obtain ⟨unit, rfl⟩ : ∃ unit : RateUnit, unit.chars = u := by
      simp only [rateUnits, List.mem_cons, List.not_mem_nil, or_false] at hu
      rcases hu with rfl | rfl | rfl | rfl
      exacts [⟨.none, rfl⟩, ⟨.K, rfl⟩, ⟨.M, rfl⟩, ⟨.G, rfl⟩]
    exact ⟨⟨d, unit⟩, rfl⟩
  · intro h
    obtain ⟨t, rfl⟩ := h
    exact ⟨t.digits, t.unit.chars, by cases t.unit <;> decide, rfl⟩

theorem matched_time {text : List Char} :
    (regexMatch timeUnits text).isSome ↔ ∃ t : TimeText, t.text = text := by
  rw [regexMatch_iff (by decide)]
  constructor
  · intro h
    obtain ⟨d, u, hu, rfl⟩ := h
    obtain ⟨unit, rfl⟩ : ∃ unit : TimeUnit, unit.chars = u := by
      simp only [timeUnits, List.mem_cons, List.not_mem_nil, or_false] at hu
      rcases hu with rfl | rfl | rfl
      exacts [⟨.s, rfl⟩, ⟨.ms, rfl⟩, ⟨.m, rfl⟩]
    exact ⟨⟨d, unit⟩, rfl⟩
  · intro h
    obtain ⟨t, rfl⟩ := h
    exact ⟨t.digits, t.unit.chars, by cases t.unit <;> decide, rfl⟩

theorem parseRateBps_text (t : RateText) : parseRateBps t.text =
    if t.digits.value < 2 ^ 64 then .ok (.ofNat t.rate) else .error (.outOfRange "stoull") := by
  have hm : regexMatch rateUnits t.text = some (t.digits.chars, t.unit.chars) := by
    refine regexMatch_digits t.digits ?_ ?_ <;> cases t.unit <;> decide
  simp only [parseRateBps, hm, stoull, number_chars]
  split
  · cases h : t.unit <;>
      simp [RateText.rate, h, RateUnit.chars, RateUnit.factor, UInt64.ofNat_mul, bind, Except.bind, pure,
        Except.pure, UInt64.mul_assoc]
  · rfl

/-- The time scale as the parser computes it from digits of that value. -/
def timeScaleOf (unit : TimeUnit) (value : Nat) : Nat :=
  match unit with
  | .s => value % 2 ^ 32
  | .ms => value % 2 ^ 32 / 1000
  | .m => value % 2 ^ 32 * 60 % 2 ^ 32

theorem parseTimeScale_text (t : TimeText) : parseTimeScale t.text =
    if t.digits.value < 2 ^ 64 then .ok (.ofNat (timeScaleOf t.unit t.digits.value))
    else .error (.outOfRange "stoul") := by
  have hm : regexMatch timeUnits t.text = some (t.digits.chars, t.unit.chars) := by
    refine regexMatch_digits t.digits ?_ ?_ <;> cases t.unit <;> decide
  simp only [parseTimeScale, hm, stoull, number_chars]
  split
  · rename_i hlt
    have h32 : (UInt64.ofNat t.digits.value).toUInt32.toNat = t.digits.value % 2 ^ 32 := by
      rw [UInt64.toNat_toUInt32, UInt64.toNat_ofNat_of_lt' hlt]
    cases t.unit <;>
      simp only [TimeUnit.chars, bind, Except.bind, pure, Except.pure, timeScaleOf] <;>
      refine congrArg Except.ok (UInt32.toNat_inj.mp ?_)
    · exact h32.trans (UInt32.toNat_ofNat_of_lt' (Nat.mod_lt _ (by decide))).symm
    · rw [UInt32.toNat_div, h32, UInt32.toNat_ofNat_of_lt' (by show _ < 2 ^ 32; omega)]
      rfl
    · rw [UInt32.toNat_mul, h32, UInt32.toNat_ofNat_of_lt' (show _ < 2 ^ 32 from Nat.mod_lt _ (by decide))]
      rfl
  · rfl

/-! ## The limit as it is denoted -/

theorem getRule_text (rate : RateText) (time : TimeText) (hr : rate.digits.value < 2 ^ 64)
    (ht : time.digits.value < 2 ^ 64) :
    getRule rate.text time.text =
      .ok ⟨.ofNat rate.rate, .ofNat (timeScaleOf time.unit time.digits.value)⟩ := by
  simp only [getRule, parseRateBps_text, parseTimeScale_text, if_pos hr, if_pos ht]
  rfl

theorem getRule_rejects (rate : RateText) (time : TimeText)
    (h : 2 ^ 64 ≤ rate.digits.value ∨ 2 ^ 64 ≤ time.digits.value) :
    ∃ e, getRule rate.text time.text = .error e := by
  simp only [getRule, parseRateBps_text, parseTimeScale_text]
  by_cases hr : rate.digits.value < 2 ^ 64
  · rw [if_pos hr, if_neg (by omega)]
    exact ⟨_, rfl⟩
  · rw [if_neg hr]
    exact ⟨_, rfl⟩

/-- The capacity that is computed, and the one that is denoted, in natural numbers. -/
def computed (r : Nat) (unit : TimeUnit) (value : Nat) : Nat :=
  r % 2 ^ 32 * timeScaleOf unit value % 2 ^ 32 / 4

def denoted (r : Nat) (unit : TimeUnit) (value : Nat) : Nat :=
  match unit with
  | .s => r * value / 4
  | .ms => r * value / 4000
  | .m => r * (value * 60) / 4

theorem floor_denoted (r : Nat) (t : TimeText) :
    ⌊(r : ℚ) * t.seconds / 4⌋₊ = denoted r t.unit t.digits.value := by
  cases h : t.unit <;> simp only [TimeText.seconds, h, TimeUnit.seconds, denoted]
  · rw [← Nat.floor_div_eq_div (K := ℚ)]; push_cast; ring_nf
  · rw [← Nat.floor_div_eq_div (K := ℚ)]; push_cast; ring_nf
  · rw [← Nat.floor_div_eq_div (K := ℚ)]; push_cast; ring_nf

/-- Milliseconds lose what the division by 1000 drops, unless the quarter's own floor hides it. -/
theorem computed_ms {r : Nat} (hr : r < 2 ^ 32) (b : Nat) :
    computed r .ms b = denoted r .ms b ↔ r = 0 ∨ b < 2 ^ 32 ∧ r * (b / 1000) < 2 ^ 32 ∧
      1000 * (r * (b / 1000) % 4) + r * (b % 1000) < 4000 := by
  simp only [computed, denoted, timeScaleOf, Nat.mod_eq_of_lt hr]
  rcases Nat.eq_zero_or_pos r with rfl | h0
  · simp
  by_cases hb : b < 2 ^ 32
  · have hsplit : r * b = 1000 * (r * (b / 1000)) + r * (b % 1000) := by
      rw [Nat.mul_left_comm, ← Nat.mul_add, Nat.div_add_mod]
    rw [Nat.mod_eq_of_lt hb, hsplit]
    generalize r * (b / 1000) = q
    generalize r * (b % 1000) = e
    omega
  · -- the wrapped time is short by at least 2^32 ms
    have hsplit : r * b = r * (b % 2 ^ 32) + r * (2 ^ 32 * (b / 2 ^ 32)) := by
      rw [← Nat.mul_add, Nat.mod_add_div]
    have h1 : 2 ^ 32 ≤ r * (2 ^ 32 * (b / 2 ^ 32)) :=
      (by omega : 2 ^ 32 ≤ 2 ^ 32 * (b / 2 ^ 32)).trans (Nat.le_mul_of_pos_left _ h0)
    have h2 : 1000 * (r * (b % 2 ^ 32 / 1000)) ≤ r * (b % 2 ^ 32) := by
      rw [Nat.mul_left_comm]; exact Nat.mul_le_mul_left r (Nat.mul_div_le _ _)
    have h3 := Nat.mod_le (r * (b % 2 ^ 32 / 1000)) (2 ^ 32)
    rw [hsplit]
    omega

theorem computed_eq_denoted {r : Nat} (hr : r < 2 ^ 32) (unit : TimeUnit) (b : Nat) :
    computed r unit b = denoted r unit b ↔
      match unit with
      | .s => r * b < 2 ^ 32
      | .m => r * (b * 60) < 2 ^ 32
      | .ms => r = 0 ∨ b < 2 ^ 32 ∧ r * (b / 1000) < 2 ^ 32 ∧
        1000 * (r * (b / 1000) % 4) + r * (b % 1000) < 4000 := by
  cases unit with
  | s => simp only [computed, denoted, timeScaleOf, Nat.mod_eq_of_lt hr, Nat.mul_mod_mod]; omega
  | m =>
    have : r * (b % 2 ^ 32 * 60 % 2 ^ 32) % 2 ^ 32 = r * (b * 60) % 2 ^ 32 := by
      rw [Nat.mod_mul_mod, Nat.mul_mod_mod]
    simp only [computed, denoted, timeScaleOf, Nat.mod_eq_of_lt hr, this]
    omega
  | ms => exact computed_ms hr b

/-- The texts are rejected, or the limit enforced is the one they denote, exactly when `Kept`. -/
theorem undistorted_iff (rate : RateText) (time : TimeText) : Undistorted rate time ↔ Kept rate time := by
  unfold Undistorted Kept
  by_cases h : 2 ^ 64 ≤ rate.digits.value ∨ 2 ^ 64 ≤ time.digits.value
  · obtain ⟨e, he⟩ := getRule_rejects rate time h
    rw [he]
    simp only [true_iff]
    exact h.elim .inl fun h => .inr (.inl h)
  · obtain ⟨h1, h2⟩ := not_or.mp h
    have hrate : (UInt64.ofNat rate.rate).toUInt32.toNat = rate.rate % 2 ^ 32 := by
      simp
    have htime : (UInt32.ofNat (timeScaleOf time.unit time.digits.value)).toNat =
        timeScaleOf time.unit time.digits.value := by
      apply UInt32.toNat_ofNat_of_lt'
      show _ < 2 ^ 32
      cases time.unit <;> simp only [timeScaleOf] <;> omega
    have hfit : rate.rate % 2 ^ 32 = rate.rate ↔ rate.rate < 2 ^ 32 :=
      ⟨fun h => h ▸ Nat.mod_lt _ (by decide), Nat.mod_eq_of_lt⟩
    rw [getRule_text rate time (by omega) (by omega)]
    simp only [rateLimitOf, toNat_maxBucket, hrate, htime, floor_denoted, forall_const, h1, h2,
      false_or, hfit]
    exact and_congr_right fun hr => computed_eq_denoted hr _ _

/-- `rate_bps: 1M`, `time_scale: 500ms`: the bucket of 128 KiB holds nothing. -/
theorem half_a_second_is_none : ¬ Undistorted ⟨⟨[1], by decide⟩, .M⟩ ⟨⟨[5, 0, 0], by decide⟩, .ms⟩ := by
  intro h
  rw [Undistorted, getRule_text _ _ (by decide) (by decide)] at h
  have hcap := (h 0).2
  rw [floor_denoted] at hcap
  revert hcap
  decide

end Ksight.Wirefisher
