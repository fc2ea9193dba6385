/-
  Ksight.ProcImage.ExecArgs — the arguments of execve
  (src/process/proc_image/bpf/keytime_image.bpf.c: `tracepoint__syscalls__sys_enter_execve`;
  src/process/proc_image/src/proc_image.c: `print_info1`, `quoted_symbol`).

  The probe copies the file name and the arguments after argv[0], each cut to 127 bytes, one
  behind the other into `char_info`. It stops at the end of the vector, at `max_args`
  arguments, or where a whole argument may no longer fit. `print_info1` learns of an omission
  from `info_count` alone, which is one more than the strings in `char_info` when the loop has
  run to its end.

  The law (`Faithful`): the text is the strings that were captured, and " ..." stands at its
  end if and only if one was not. `enter_spec`: the probe stays inside `char_info`, and what it
  holds is what was captured. `text_faithful_iff`: the law holds if and only if the arguments do
  not number `max_args` - 1 and those the loop can take fit in. A vector of `max_args` strings
  has the mark though nothing is missing (`whole_vector_is_marked`), and long arguments are
  left out without it (`long_arguments_are_omitted`). argv[1] is read even where argv[0] ends
  the vector.
-/

import Mathlib.Data.List.Basic
import Ksight.ProcImage.Current

namespace Ksight.ProcImage.ExecArgs

def argSize : Nat := 128

def totalMaxArgs : Nat := 60

/-- `max_args` of the probe and of `env`; nothing sets them. -/
def maxArgs : Nat := 20

def fullMaxArgsArr : Nat := 440

def lastArg : Nat := fullMaxArgsArr - argSize

/-- A string in user memory, without its NUL. -/
structure CStr where
  bytes : List UInt8
  noNul : 0 ∉ bytes
  deriving DecidableEq

structure CharInfo where
  bytes : List UInt8
  length_eq : bytes.length = fullMaxArgsArr

/-- The bytes from `off` on; `none` outside of the array. -/
def CharInfo.store (buf : CharInfo) (off : Nat) (bs : List UInt8) : Option CharInfo :=
  if h : off + bs.length ≤ fullMaxArgsArr then
    some ⟨buf.bytes.take off ++ bs ++ buf.bytes.drop (off + bs.length), by
      have := buf.length_eq
      simp only [List.length_append, List.length_take, List.length_drop]
      omega⟩
  else none

structure ExecEvent where
  type : Nat
  pid : Int32
  infoCount : Nat
  infoSize : Nat
  enableCharInfo : Bool
  charInfo : CharInfo

/-- What is left of a string that is cut to `argSize`, with its NUL. -/
def cut (s : CStr) : CStr := ⟨s.bytes.take (argSize - 1), fun h => s.noNul (List.mem_of_mem_take h)⟩

def terminated (s : CStr) : List UInt8 := s.bytes ++ [0]

/-- `bpf_probe_read_user_str` of `argSize` bytes to `off`: the bytes copied, or a failure
    where there is no string, which clears them. `none` if `off` leaves no room for them. -/
def probeReadUserStr (buf : CharInfo) (off : Nat) (str : Option CStr) : Option (Option Nat × CharInfo) :=
  if off + argSize ≤ fullMaxArgsArr then
    match str with
    | none => (buf.store off (List.replicate argSize 0)).map fun buf => (none, buf)
    | some s => (buf.store off (terminated (cut s))).map fun buf => (some (terminated (cut s)).length, buf)
  else none

/-- The loop from the `i`th argument on, for `n` more; whether it ran to its end. `args i` is
    what is read at the `i`th place of the vector: nothing, or a pointer to a string or not. -/
def readArgs (args : Nat → Option (Option CStr)) : Nat → Nat → ExecEvent → Option (Bool × ExecEvent)
  | 0, _, e => some (true, e)
  | n + 1, i, e =>
    match args i with
    | none => some (false, e)
    | some argp =>
      if e.infoSize > lastArg then some (false, e)
      else
        match probeReadUserStr e.charInfo e.infoSize argp with
        | none => none
        | some (none, buf) => some (false, { e with charInfo := buf })
        | some (some ret, buf) =>
          readArgs args n (i + 1)
            { e with charInfo := buf, infoCount := e.infoCount + 1, infoSize := e.infoSize + ret }

/-- The event that is submitted, if any; `none` if it is written outside of `char_info`. The
    reserved memory holds `garbage`. -/
def sysEnterExecve (f : Filter) (cur : Current) (garbage : CharInfo) (filename : Option CStr)
    (args : Nat → Option (Option CStr)) : Option (Option ExecEvent) :=
  if f.traces cur.pid cur.tgid then
    if cur.reserve then do
      let e : ExecEvent := {
        type := 1
        pid := cur.pid
        infoCount := 0
        infoSize := 0
        enableCharInfo := true
        charInfo := garbage }
      match ← probeReadUserStr e.charInfo 0 filename with
      | (none, buf) => some (some { e with charInfo := buf })
      | (some ret, buf) =>
        let e ←
          if ret ≤ argSize then some { e with charInfo := buf, infoSize := e.infoSize + ret }
          else (buf.store 0 [0]).map fun buf => { e with charInfo := buf, infoSize := e.infoSize + 1 }
        let (done, e) ← readArgs args (min totalMaxArgs maxArgs - 1) 1 { e with infoCount := e.infoCount + 1 }
        if done then
          match args maxArgs with
          | none => some (some e)
          | some _ => some (some { e with infoCount := e.infoCount + 1 })
        else some (some e)
    else some none
  else some none

/-! ## The printed text -/

def quotedSymbol (c : UInt8) : List UInt8 :=
  if c = 34 then [92, 34] -- a quotation mark
  else if c = 9 then [92, 116] -- a tab
  else if c = 10 then [92, 110] -- a newline
  else [c]

/-- The loop over `char_info`, with `counter` strings behind it. -/
def printChars (quote : Bool) (infoCount : Nat) : Nat → List UInt8 → List UInt8
  | _, [] => []
  | counter, c :: cs =>
    if counter < infoCount then
      if quote then
        if c = 0 then
          34 :: 32 :: (if counter + 1 < infoCount then [34] else []) ++
            printChars quote infoCount (counter + 1) cs
        else quotedSymbol c ++ printChars quote infoCount counter cs
      else if c = 0 then 32 :: printChars quote infoCount (counter + 1) cs
      else c :: printChars quote infoCount counter cs
    else []

/-- " ..." -/
def dots : List UInt8 := [32, 46, 46, 46]

def printInfo1 (quote : Bool) (e : ExecEvent) : List UInt8 :=
  (if quote then [34] else []) ++ printChars quote e.infoCount 0 (e.charInfo.bytes.take e.infoSize) ++
    (if e.infoCount = maxArgs + 1 then dots else [])

/-! ## What the probe captures -/

/-- The strings in `char_info`. -/
structure ExecEvent.Holds (e : ExecEvent) (strs : List CStr) : Prop where
  size : e.infoSize = (strs.flatMap terminated).length
  chars : e.charInfo.bytes.take e.infoSize = strs.flatMap terminated

/-- What the loop captures behind `size` bytes. -/
def captured (args : Nat → Option (Option CStr)) : Nat → Nat → Nat → List CStr
  | 0, _, _ => []
  | n + 1, i, size =>
    match args i with
    | some (some s) =>
      if size > lastArg then [] else cut s :: captured args n (i + 1) (size + (terminated (cut s)).length)
    | _ => []

theorem length_captured_le (args : Nat → Option (Option CStr)) (n i size : Nat) :
    (captured args n i size).length ≤ n := by
  induction n generalizing i size with
  | zero => exact Nat.le_refl 0
  | succ n ih =>
    unfold captured
    split
    · split
      · exact Nat.zero_le _
      · exact Nat.succ_le_succ (ih ..)
    · exact Nat.zero_le _

theorem length_cut_le (s : CStr) : (terminated (cut s)).length ≤ argSize := by
  simp only [terminated, cut, List.length_append, List.length_take, List.length_singleton, argSize]
  omega

theorem store_spec (buf : CharInfo) (off : Nat) {bs : List UInt8} (h : off + bs.length ≤ fullMaxArgsArr) :
    ∃ buf', buf.store off bs = some buf' ∧
      buf'.bytes.take (off + bs.length) = buf.bytes.take off ++ bs := by
  refine ⟨_, dif_pos h, ?_⟩
  have hlen : (buf.bytes.take off ++ bs).length = off + bs.length := by
    rw [List.length_append, List.length_take, buf.length_eq]
    omega
  exact List.take_left' hlen

theorem probeReadUserStr_str (buf : CharInfo) {off : Nat} (h : off ≤ lastArg) (s : CStr) :
    ∃ buf', probeReadUserStr buf off (some s) = some (some (terminated (cut s)).length, buf') ∧
      buf'.bytes.take (off + (terminated (cut s)).length) = buf.bytes.take off ++ terminated (cut s) := by
  have hroom : off + argSize ≤ fullMaxArgsArr := by
    simp only [lastArg, fullMaxArgsArr, argSize] at h ⊢
    omega
  obtain ⟨buf', hbuf, hbytes⟩ :=
    store_spec buf off (Nat.le_trans (Nat.add_le_add_left (length_cut_le s) off) hroom)
  refine ⟨buf', ?_, hbytes⟩
  simp only [probeReadUserStr, hroom, if_true, hbuf, Option.map_some]

/-- A failure changes nothing of what was captured before. -/
theorem probeReadUserStr_none (buf : CharInfo) {off : Nat} (h : off ≤ lastArg) :
    ∃ buf', probeReadUserStr buf off none = some (none, buf') ∧ buf'.bytes.take off = buf.bytes.take off := by
  have hroom : off + (List.replicate argSize (0 : UInt8)).length ≤ fullMaxArgsArr := by
    simp only [lastArg, fullMaxArgsArr, argSize, List.length_replicate] at h ⊢
    omega
  obtain ⟨buf', hbuf, hbytes⟩ := store_spec buf off hroom
  refine ⟨buf', ?_, ?_⟩
  · rw [List.length_replicate] at hroom
    simp only [probeReadUserStr, hroom, if_true, hbuf, Option.map_some]
  · have hoff : off ≤ buf.bytes.length := by
      rw [buf.length_eq]
      omega
    have htake := congrArg (List.take off) hbytes
    rw [List.take_take, Nat.min_eq_left (Nat.le_add_right ..)] at htake
    rw [htake, List.take_left' (by rw [List.length_take]; omega)]

theorem readArgs_spec (args : Nat → Option (Option CStr)) (n i : Nat) {e : ExecEvent} {strs : List CStr}
    (h : e.Holds strs) :
    ∃ e', readArgs args n i e = some (decide ((captured args n i e.infoSize).length = n), e') ∧
      e'.Holds (strs ++ captured args n i e.infoSize) ∧
      e'.infoCount = e.infoCount + (captured args n i e.infoSize).length := by
  induction n generalizing i e strs with
  | zero => exact ⟨e, rfl, by simpa [captured] using h, rfl⟩
  | succ n ih =>
    -- the loop ends at this argument
    have hstop : ∀ e' : ExecEvent, e'.Holds strs → e'.infoCount = e.infoCount →
        captured args (n + 1) i e.infoSize = [] → readArgs args (n + 1) i e = some (false, e') →
        ∃ e', readArgs args (n + 1) i e =
            some (decide ((captured args (n + 1) i e.infoSize).length = n + 1), e') ∧
          e'.Holds (strs ++ captured args (n + 1) i e.infoSize) ∧
          e'.infoCount = e.infoCount + (captured args (n + 1) i e.infoSize).length := by
      intro e' hh hc hcap hr
      refine ⟨e', by rw [hr, hcap]; rfl, by rwa [hcap, List.append_nil], by rw [hcap, hc]; rfl⟩
    rcases ha : args i with _ | argp
    · exact hstop e h rfl (by simp [captured, ha]) (by simp [readArgs, ha])
    by_cases hsize : e.infoSize > lastArg
    · refine hstop e h rfl ?_ (by simp [readArgs, ha, hsize])
      cases argp <;> simp [captured, ha, hsize]
    cases argp with
    | none =>
      obtain ⟨buf, hbuf, hbytes⟩ := probeReadUserStr_none e.charInfo (Nat.not_lt.mp hsize)
      refine hstop { e with charInfo := buf } ⟨h.size, ?_⟩ rfl (by simp [captured, ha])
        (by simp [readArgs, ha, hsize, hbuf])
      exact hbytes.trans h.chars
    | some s =>
      obtain ⟨buf, hbuf, hbytes⟩ := probeReadUserStr_str e.charInfo (Nat.not_lt.mp hsize) s
      have hnext : ExecEvent.Holds { e with
          charInfo := buf, infoCount := e.infoCount + 1, infoSize := e.infoSize + (terminated (cut s)).length }
          (strs ++ [cut s]) := by
        refine ⟨?_, ?_⟩
        · simp only [h.size, List.flatMap_append, List.flatMap_singleton, List.length_append]
        · simp only [hbytes, h.chars, List.flatMap_append, List.flatMap_singleton]
      obtain ⟨e', hr, hh, hc⟩ := ih (i + 1) hnext
      have hcap : captured args (n + 1) i e.infoSize =
          cut s :: captured args n (i + 1) (e.infoSize + (terminated (cut s)).length) := by
        simp [captured, ha, hsize]
      rw [hcap]
      refine ⟨e', ?_, ?_, ?_⟩
      · simp only [readArgs, ha, hsize, if_false, hbuf, hr, List.length_cons, Nat.add_right_cancel_iff]
      · simpa [List.append_assoc] using hh
      · refine hc.trans ?_
        simp only [List.length_cons]
        omega

/-- What the loop captures after the file name. -/
def capturedArgs (file : CStr) (args : Nat → Option (Option CStr)) : List CStr :=
  captured args (maxArgs - 1) 1 (terminated (cut file)).length

/-- What is submitted holds the file name and the arguments that were captured; the count is
    one more if the loop ran to its end and the next place of the vector can be read. -/
theorem enter_spec {f : Filter} {cur : Current} (ht : f.traces cur.pid cur.tgid = true)
    (hr : cur.reserve = true) (garbage : CharInfo) (file : CStr) (args : Nat → Option (Option CStr)) :
    ∃ e, sysEnterExecve f cur garbage (some file) args = some (some e) ∧
      e.Holds (cut file :: capturedArgs file args) ∧
      e.infoCount = (capturedArgs file args).length + 1 +
        (if (capturedArgs file args).length = maxArgs - 1 ∧ args maxArgs ≠ none then 1 else 0) := by
  obtain ⟨buf, hbuf, hbytes⟩ := probeReadUserStr_str garbage (Nat.zero_le lastArg) file
  rw [Nat.zero_add, List.take_zero, List.nil_append] at hbytes
  have hfile : ExecEvent.Holds ⟨1, cur.pid, 1, (terminated (cut file)).length, true, buf⟩ [cut file] :=
    ⟨by simp, by simpa using hbytes⟩
  obtain ⟨e, hread, hholds, hcount⟩ := readArgs_spec args (maxArgs - 1) 1 hfile
  have hloop : min totalMaxArgs maxArgs - 1 = maxArgs - 1 := rfl
  simp only [sysEnterExecve, ht, hr, if_true, hbuf, Option.bind_eq_bind, Option.bind_some, length_cut_le,
    Nat.zero_add, hloop, hread]
  change e.Holds (cut file :: capturedArgs file args) at hholds
  change e.infoCount = 1 + (capturedArgs file args).length at hcount
  change ∃ e', (if decide ((capturedArgs file args).length = maxArgs - 1) = true then _ else _) = _ ∧ _
  rw [Nat.add_comm 1] at hcount
  by_cases hdone : (capturedArgs file args).length = maxArgs - 1
  · rcases hnext : args maxArgs with _ | next
    · exact ⟨e, by simp [hdone], hholds, by simpa using hcount⟩
    · exact ⟨{ e with infoCount := e.infoCount + 1 }, by simp [hdone], ⟨hholds.size, hholds.chars⟩,
        by simp [hdone, hcount]⟩
  · exact ⟨e, by simp [hdone], hholds, by simpa [hdone] using hcount⟩

/-! ## What is printed -/

/-- The text of a string, up to its end. -/
def shown (quote : Bool) (c : UInt8) : List UInt8 := if quote then quotedSymbol c else [c]

theorem printChars_append (quote : Bool) {count counter : Nat} (h : counter < count) {bytes : List UInt8}
    (hn : 0 ∉ bytes) (cs : List UInt8) :
    printChars quote count counter (bytes ++ cs) =
      bytes.flatMap (shown quote) ++ printChars quote count counter cs := by
  induction bytes with
  | nil => rfl
  | cons c bytes ih =>
    obtain ⟨hc, hn⟩ := not_or.mp (mt List.mem_cons.mpr hn)
    cases quote <;>
      simp [printChars, h, Ne.symm hc, ih hn, shown]

/-- Strings, each followed by a space. -/
def spaced (strs : List CStr) : List UInt8 := strs.flatMap fun s => s.bytes ++ [32]

theorem printChars_plain {strs : List CStr} {count counter : Nat} (h : counter + strs.length ≤ count) :
    printChars false count counter (strs.flatMap terminated) = spaced strs := by
  induction strs generalizing counter with
  | nil => rfl
  | cons s strs ih =>
    have hlt : counter < count := by
      rw [List.length_cons] at h
      omega
    have hnext : counter + 1 + strs.length ≤ count := by
      rw [List.length_cons] at h
      omega
    have hid : s.bytes.flatMap (shown false) = s.bytes := List.flatMap_singleton' s.bytes
    rw [List.flatMap_cons, terminated, List.append_assoc, printChars_append false hlt s.noNul, hid]
    simp only [List.singleton_append, printChars, hlt, if_true, Bool.false_eq_true, if_false, ih hnext, spaced,
      List.flatMap_cons, List.append_assoc]

theorem printInfo1_plain {e : ExecEvent} {strs : List CStr} (h : e.Holds strs)
    (hc : strs.length ≤ e.infoCount) :
    printInfo1 false e = spaced strs ++ if e.infoCount = maxArgs + 1 then dots else [] := by
  have htext : printChars false e.infoCount 0 (e.charInfo.bytes.take e.infoSize) = spaced strs := by
    rw [h.chars]
    exact printChars_plain (by omega)
  rw [printInfo1, htext]
  rfl

/-! ## The law -/

/-- In memory is a vector: pointers to strings, and NULL behind them. -/
structure IsVector (args : Nat → Option (Option CStr)) (argv : List CStr) : Prop where
  strs : ∀ i (h : i < argv.length), args i = some (some argv[i])
  null : args argv.length = some none

/-- The strings that are to be printed: the file name and the arguments after argv[0]. -/
def wanted (file : CStr) (argv : List CStr) : List CStr := (file :: argv.drop 1).map cut

/-- The text is the strings that are in `char_info`, and says whether one is missing. -/
def Faithful (file : CStr) (argv : List CStr) (e : ExecEvent) : Prop :=
  ∃ n ≤ (wanted file argv).length, e.Holds ((wanted file argv).take n) ∧
    printInfo1 false e = spaced ((wanted file argv).take n) ++ if n < (wanted file argv).length then dots else []

/-- The condition: the arguments do not number `max_args` - 1, a whole argument fits in behind
    the strings before the last that is to be captured, and where the vector is empty no
    string is behind its end. -/
def Fits (file : CStr) (argv : List CStr) (args : Nat → Option (Option CStr)) : Prop :=
  (argv.drop 1).length ≠ maxArgs - 1 ∧
    (((wanted file argv).take maxArgs).dropLast.flatMap terminated).length ≤ lastArg ∧
    (argv = [] → (args 1).join = none)

instance (file : CStr) (argv : List CStr) (args : Nat → Option (Option CStr)) : Decidable (Fits file argv args) :=
  inferInstanceAs (Decidable (_ ∧ _ ∧ _))

theorem IsVector.tail {args : Nat → Option (Option CStr)} {i : Nat} {s : CStr} {argv : List CStr}
    (h : IsVector (fun j => args (i + j)) (s :: argv)) :
    args i = some (some s) ∧ IsVector (fun j => args (i + 1 + j)) argv := by
  have hadd : ∀ j, i + 1 + j = i + (j + 1) := by
    intro j
    omega
  refine ⟨h.strs 0 (Nat.zero_lt_succ _), ?_, ?_⟩
  · intro j hj
    rw [hadd]
    exact h.strs (j + 1) (Nat.succ_lt_succ hj)
  · show args (i + 1 + argv.length) = some none
    rw [hadd]
    exact h.null

theorem IsVector.behind_zero {args : Nat → Option (Option CStr)} {s : CStr} {argv : List CStr}
    (h : IsVector args (s :: argv)) : IsVector (fun j => args (1 + j)) argv := by
  have hzero : IsVector (fun j => args (0 + j)) (s :: argv) := by simpa only [Nat.zero_add] using h
  exact hzero.tail.2

theorem IsVector.readable {args : Nat → Option (Option CStr)} {argv : List CStr} (h : IsVector args argv)
    {i : Nat} (hi : i ≤ argv.length) : args i ≠ none := by
  rcases Nat.lt_or_eq_of_le hi with hlt | rfl
  · rw [h.strs i hlt]
    exact Option.some_ne_none _
  · rw [h.null]
    exact Option.some_ne_none _

/-- Of a vector the loop captures strings from the next one on. -/
theorem captured_prefix {args : Nat → Option (Option CStr)} (n : Nat) {i : Nat} (size : Nat) {argv : List CStr}
    (h : IsVector (fun j => args (i + j)) argv) : captured args n i size <+: argv.map cut := by
  induction n generalizing i size argv with
  | zero => exact List.nil_prefix
  | succ n ih =>
    cases argv with
    | nil =>
      have hnull : args i = some none := h.null
      simp [captured, hnull]
    | cons s argv =>
      obtain ⟨hs, htail⟩ := h.tail
      simp only [captured, hs]
      split
      · exact List.nil_prefix
      · exact (List.prefix_cons_inj (cut s)).mpr (ih _ htail)

/-- It captures all it can take if and only if there is room for a whole argument behind those
    before the last. -/
theorem captured_eq_take {args : Nat → Option (Option CStr)} (n : Nat) {i size : Nat} {argv : List CStr}
    (h : IsVector (fun j => args (i + j)) argv) :
    captured args n i size = (argv.map cut).take n ↔
      (argv.map cut).take n = [] ∨
        size + (((argv.map cut).take n).dropLast.flatMap terminated).length ≤ lastArg := by
  induction n generalizing i size argv with
  | zero => exact iff_of_true rfl (.inl rfl)
  | succ n ih =>
    cases argv with
    | nil =>
      have hnull : args i = some none := h.null
      simp [captured, hnull]
    | cons s argv =>
      obtain ⟨hs, htail⟩ := h.tail
      simp only [captured, hs, List.map_cons, List.take_succ_cons, reduceCtorEq, false_or]
      by_cases hsize : size > lastArg
      · rw [if_pos hsize]
        refine iff_of_false nofun ?_
        omega
      · rw [if_neg hsize, List.cons_inj_right, ih htail]
        cases (argv.map cut).take n with
        | nil => simpa using Nat.not_lt.mp hsize
        | cons t strs =>
          simp only [reduceCtorEq, false_or, List.dropLast_cons_cons, List.flatMap_cons, List.length_append,
            Nat.add_assoc]

theorem count_terminated (strs : List CStr) : (strs.flatMap terminated).count 0 = strs.length := by
  induction strs with
  | nil => rfl
  | cons s strs ih =>
    rw [List.flatMap_cons, List.count_append, ih, terminated, List.count_append, List.count_eq_zero.mpr s.noNul]
    simp only [List.count_singleton_self, List.length_cons]
    omega

theorem ExecEvent.Holds.length_eq {e : ExecEvent} {strs strs' : List CStr} (h : e.Holds strs)
    (h' : e.Holds strs') : strs.length = strs'.length := by
  rw [← count_terminated, ← count_terminated, ← h.chars, ← h'.chars]

/-- The text is faithful if and only if nothing but wanted strings was captured, and the count
    says whether that was all of them. -/
theorem faithful_iff_count {e : ExecEvent} {file : CStr} {argv strs : List CStr} (hh : e.Holds strs)
    (hc : strs.length ≤ e.infoCount) (hp : strs <+: wanted file argv) :
    Faithful file argv e ↔ (strs.length < (wanted file argv).length ↔ e.infoCount = maxArgs + 1) := by
  have htake : (wanted file argv).take strs.length = strs := (List.prefix_iff_eq_take.mp hp).symm
  have hdots : ∀ {p q : Prop} [Decidable p] [Decidable q] (text : List UInt8),
      (text ++ if p then dots else []) = (text ++ if q then dots else []) ↔ (q ↔ p) := by
    intro p q _ _ text
    by_cases hp : p <;> by_cases hq : q <;> simp [hp, hq, dots]
  constructor
  · rintro ⟨n, hn, hheld, htext⟩
    obtain rfl : n = strs.length := by
      have := hh.length_eq hheld
      rw [List.length_take] at this
      omega
    rw [printInfo1_plain hh hc, htake] at htext
    exact (hdots _).mp htext
  · intro h
    refine ⟨strs.length, hp.length_le, htake.symm ▸ hh, ?_⟩
    rw [printInfo1_plain hh hc, htake]
    exact (hdots _).mpr h

/-- Behind an empty vector a string is captured if one is there. -/
theorem capturedArgs_nil_iff (file : CStr) (args : Nat → Option (Option CStr)) :
    capturedArgs file args = [] ↔ (args 1).join = none := by
  have hsize : ¬ (terminated (cut file)).length > lastArg := by
    have := length_cut_le file
    simp only [argSize, lastArg, fullMaxArgsArr] at this ⊢
    omega
  change captured args (18 + 1) 1 _ = [] ↔ _
  rw [captured]
  rcases args 1 with _ | _ | s
  · exact iff_of_true rfl rfl
  · exact iff_of_true rfl rfl
  · simp [hsize]

/-- The loop captures all it can take, if that fits in. -/
theorem capturedArgs_eq_take (file : CStr) {args : Nat → Option (Option CStr)} {s : CStr} {argv : List CStr}
    (h : IsVector args (s :: argv)) :
    capturedArgs file args = (argv.map cut).take (maxArgs - 1) ↔
      (((wanted file (s :: argv)).take maxArgs).dropLast.flatMap terminated).length ≤ lastArg := by
  refine (captured_eq_take (maxArgs - 1) h.behind_zero).trans ?_
  change _ ↔ ((cut file :: (argv.map cut).take (maxArgs - 1)).dropLast.flatMap terminated).length ≤ lastArg
  cases (argv.map cut).take (maxArgs - 1) with
  | nil => exact iff_of_true (.inl rfl) (Nat.zero_le lastArg)
  | cons t strs =>
    simp only [reduceCtorEq, false_or, List.dropLast_cons_cons, List.flatMap_cons, List.length_append]

theorem faithful_iff_fits {file : CStr} {argv : List CStr} {args : Nat → Option (Option CStr)}
    (hv : IsVector args argv) {e : ExecEvent} (hh : e.Holds (cut file :: capturedArgs file args))
    (hc : e.infoCount = (capturedArgs file args).length + 1 +
      (if (capturedArgs file args).length = maxArgs - 1 ∧ args maxArgs ≠ none then 1 else 0)) :
    Faithful file argv e ↔ Fits file argv args := by
  have hle : (cut file :: capturedArgs file args).length ≤ e.infoCount := by
    rw [hc, List.length_cons]
    omega
  cases argv with
  | nil =>
    have hfits : Fits file [] args ↔ (args 1).join = none := by simp [Fits, wanted, maxArgs]
    rw [hfits, ← capturedArgs_nil_iff file]
    constructor
    · rintro ⟨n, hn, hheld, -⟩
      have hlen := hh.length_eq hheld
      rw [List.length_cons, List.length_take] at hlen
      change n ≤ 1 at hn
      exact List.length_eq_zero_iff.mp (by omega)
    · intro hnil
      rw [hnil] at hh hc hle
      refine (faithful_iff_count hh hle (List.prefix_refl _)).mpr ?_
      have hne : ¬ ([] : List CStr).length = maxArgs - 1 := by decide
      rw [hc, if_neg fun h => hne h.1]
      simp [wanted, maxArgs]
  | cons s argv =>
    have hpre : capturedArgs file args <+: argv.map cut := captured_prefix (maxArgs - 1) _ hv.behind_zero
    have hwanted : cut file :: capturedArgs file args <+: wanted file (s :: argv) :=
      (List.prefix_cons_inj (cut file)).mpr hpre
    have hmax : (capturedArgs file args).length ≤ maxArgs - 1 := length_captured_le ..
    have hlen : (capturedArgs file args).length ≤ argv.length := by simpa using hpre.length_le
    have hcount : e.infoCount = maxArgs + 1 ↔ (capturedArgs file args).length = maxArgs - 1 := by
      rw [hc]
      by_cases hdone : (capturedArgs file args).length = maxArgs - 1
      · -- the loop ran to its end, so the next place is in the vector
        have hread : args maxArgs ≠ none := by
          refine hv.readable ?_
          simp only [maxArgs, List.length_cons] at hdone ⊢
          omega
        rw [if_pos ⟨hdone, hread⟩, hdone]
        exact iff_of_true rfl rfl
      · rw [if_neg fun h => hdone h.1]
        simp only [maxArgs] at hdone hmax ⊢
        omega
    have htake : capturedArgs file args = (argv.map cut).take (maxArgs - 1) ↔
        (capturedArgs file args).length = min (maxArgs - 1) argv.length := by
      constructor
      · intro h
        rw [h, List.length_take, List.length_map]
      · intro h
        refine (List.prefix_iff_eq_take.mp hpre).trans (List.take_eq_take_iff.mpr ?_)
        rw [h, List.length_map]
        omega
    rw [faithful_iff_count hh hle hwanted, hcount, Fits, ← capturedArgs_eq_take file hv, htake]
    simp only [List.length_cons, wanted, List.length_map, List.drop_succ_cons, List.drop_zero, maxArgs,
      reduceCtorEq, false_implies, and_true] at hmax ⊢
    omega

/-- The probe stays inside `char_info` whatever is executed, and the printed text is faithful if
    and only if the vector meets the condition. -/
theorem text_faithful_iff {f : Filter} {cur : Current} (ht : f.traces cur.pid cur.tgid = true)
    (hr : cur.reserve = true) (garbage : CharInfo) (file : CStr) {argv : List CStr}
    {args : Nat → Option (Option CStr)} (hv : IsVector args argv) :
    ∃ e, sysEnterExecve f cur garbage (some file) args = some (some e) ∧
      (Faithful file argv e ↔ Fits file argv args) := by
  obtain ⟨e, he, hh, hc⟩ := enter_spec ht hr garbage file args
  exact ⟨e, he, faithful_iff_fits hv hh hc⟩

/-! ## `ls` -/

/-- A vector with nothing but NULLs behind it. -/
def argsOf (argv : List CStr) (i : Nat) : Option (Option CStr) := some argv[i]?

theorem isVector_argsOf (argv : List CStr) : IsVector (argsOf argv) argv where
  strs _ h := congrArg some (List.getElem?_eq_getElem h)
  null := congrArg some (List.getElem?_eq_none (Nat.le_refl _))

def zeroed : CharInfo := ⟨List.replicate fullMaxArgsArr 0, List.length_replicate⟩

def ls : CStr := ⟨[108, 115], by decide⟩

def shell : Current := ⟨7, 7, 0, true⟩

theorem shell_traced : Filter.default.traces shell.pid shell.tgid = true := by decide

theorem short_arguments_are_faithful :
    ∃ e, sysEnterExecve .default shell zeroed (some ls) (argsOf [ls, ⟨[45, 108], by decide⟩]) = some (some e) ∧
      Faithful ls [ls, ⟨[45, 108], by decide⟩] e := by
  obtain ⟨e, he, hiff⟩ := text_faithful_iff shell_traced rfl zeroed ls
    (isVector_argsOf [ls, ⟨[45, 108], by decide⟩])
  exact ⟨e, he, hiff.mpr (by decide)⟩

/-- 19 arguments after argv[0] are all captured, and marked as if one were missing. -/
theorem whole_vector_is_marked :
    ∃ e, sysEnterExecve .default shell zeroed (some ls) (argsOf (List.replicate 20 ls)) = some (some e) ∧
      ¬ Faithful ls (List.replicate 20 ls) e := by
  obtain ⟨e, he, hh, hc⟩ := enter_spec shell_traced rfl zeroed ls
    (argsOf (List.replicate 20 ls))
  refine ⟨e, he, fun h => ?_⟩
  exact absurd rfl ((faithful_iff_fits (isVector_argsOf _) hh hc).mp h).1

/-- A file name of 127 bytes and two arguments as long: there is no room for a third, and no
    mark in its place. -/
theorem long_arguments_are_omitted (s : CStr) (hs : s.bytes.length = 127) :
    ∃ e, sysEnterExecve .default shell zeroed (some s) (argsOf [s, s, s, s]) = some (some e) ∧
      ¬ Faithful s [s, s, s, s] e := by
  obtain ⟨e, he, hh, hc⟩ := enter_spec shell_traced rfl zeroed s
    (argsOf [s, s, s, s])
  refine ⟨e, he, fun h => ?_⟩
  have hfits := ((faithful_iff_fits (isVector_argsOf _) hh hc).mp h).2.1
  have hlen : (terminated (cut s)).length = 128 := by simp [terminated, cut, argSize, hs]
  simp [wanted, maxArgs, hlen, lastArg, fullMaxArgsArr, argSize] at hfits

end Ksight.ProcImage.ExecArgs
