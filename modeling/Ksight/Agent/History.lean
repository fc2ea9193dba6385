/-
  Ksight.Agent.History — the messages of a conversation
  (src/agent/engine.py: `DiagnoseEngine.history`).

  A user or an assistant message opens a turn. The tool messages of a turn are the answers
  to the message that opened it, which is an assistant message if it has tool calls
  (`WellFormed`). `wellFormed_append`: what is appended without opening a turn matters only
  by the answers it has, and where nothing is due (`Due`) not at all.
-/

import Mathlib.Data.List.TakeWhile

namespace Ksight.Agent

inductive Role
  | system
  | user
  | assistant
  | tool
  | other (name : String)
  deriving DecidableEq

/-- `id` is `none` for a dict without one. -/
structure ToolCall where
  id : Option String
  name : String
  arguments : String
  deriving DecidableEq

/-- `toolCalls` is empty where the message has none, or a false value for them. -/
structure Message where
  role : Role
  content : Option String
  toolCalls : List ToolCall
  toolCallId : Option String
  name : Option String
  deriving DecidableEq

def Message.opens (m : Message) : Bool := m.role = .user || m.role = .assistant

/-- An assistant message with tool calls. -/
def Message.Calls (m : Message) : Prop := m.role = .assistant ∧ m.toolCalls ≠ []

instance (m : Message) : Decidable m.Calls := inferInstanceAs (Decidable (_ ∧ _))

theorem Message.Calls.opens {m : Message} (h : m.Calls) : m.opens = true := by simp [Message.opens, h.1]

/-- The ids of the tool messages up to the next turn. -/
def answers (rest : List Message) : List (Option String) :=
  ((rest.takeWhile fun m => !m.opens).filter fun m => m.role = .tool).map Message.toolCallId

/-- Each tool call of an assistant message is answered by one tool message of its turn, in
    order. -/
def WellFormed : List Message → Prop
  | [] => True
  | m :: rest => (m.Calls → answers rest = m.toolCalls.map ToolCall.id) ∧ WellFormed rest

instance decidableWellFormed : (h : List Message) → Decidable (WellFormed h)
  | [] => inferInstanceAs (Decidable True)
  | _ :: rest => @instDecidableAnd _ _ _ (decidableWellFormed rest)

/-- The turn that is open. -/
def latest (h : List Message) : Option Message := h.reverse.find? Message.opens

/-- The open turn has tool calls. -/
def Due (h : List Message) : Prop := ∃ m ∈ latest h, m.Calls

instance (h : List Message) : Decidable (Due h) := inferInstanceAs (Decidable (∃ m ∈ latest h, _))

/-! ## Appending -/

section
variable {xs ys : List Message}

def Opens (xs : List Message) : Prop := ∃ m ∈ xs, m.opens = true

theorem answers_append_of_opens (h : Opens xs) (ys : List Message) : answers (xs ++ ys) = answers xs := by
  induction xs with
  | nil => obtain ⟨m, hm, -⟩ := h; cases hm
  | cons x xs ih =>
    rcases hx : x.opens with _ | _
    · obtain ⟨m, hm, ho⟩ := h
      rcases List.mem_cons.mp hm with rfl | hm
      · simp [hx] at ho
      · have := ih ⟨m, hm, ho⟩
        simp only [answers, List.cons_append, hx, List.takeWhile_cons, Bool.not_false, if_true,
          List.filter_cons] at this ⊢
        split <;> simp [this]
    · simp [answers, hx]

theorem answers_append (h : ¬ Opens xs) (ys : List Message) : answers (xs ++ ys) = answers xs ++ answers ys := by
  have hall : ∀ m ∈ xs, (!m.opens) = true := fun m hm => by
    simpa using fun ho => h ⟨m, hm, ho⟩
  rw [answers, List.takeWhile_append_of_pos hall, List.filter_append, List.map_append, answers,
    List.takeWhile_eq_self_iff.mpr hall]
  rfl

theorem answers_cons_of_opens {m : Message} (h : m.opens = true) (rest : List Message) :
    answers (m :: rest) = [] := by
  simp [answers, h]

theorem wellFormed_of_not_opens (h : ¬ Opens xs) : WellFormed xs := by
  induction xs with
  | nil => trivial
  | cons x xs ih =>
    refine ⟨fun hc => absurd ⟨x, List.mem_cons_self, hc.opens⟩ h, ih fun ⟨m, hm, ho⟩ => h ⟨m, ?_, ho⟩⟩
    exact List.mem_cons_of_mem _ hm

/-- Without a new turn only the answers matter. -/
theorem wellFormed_append (hx : ¬ Opens xs) (hy : ¬ Opens ys) (ha : answers xs = answers ys)
    (h : List Message) : WellFormed (h ++ xs) ↔ WellFormed (h ++ ys) := by
  induction h with
  | nil => simp [wellFormed_of_not_opens, hx, hy]
  | cons m h ih =>
    have he : answers (h ++ xs) = answers (h ++ ys) := by
      by_cases ho : Opens h
      · rw [answers_append_of_opens ho, answers_append_of_opens ho]
      · rw [answers_append ho, answers_append ho, ha]
    simp only [List.cons_append, WellFormed, he, ih]

/-- A new turn closes the one before. -/
theorem wellFormed_turn {m : Message} (hm : m.opens = true) (h rest : List Message) :
    WellFormed (h ++ m :: rest) ↔ WellFormed h ∧ WellFormed (m :: rest) := by
  induction h with
  | nil => simp [WellFormed]
  | cons x h ih =>
    have he : answers (h ++ m :: rest) = answers h := by
      by_cases ho : Opens h
      · exact answers_append_of_opens ho _
      · rw [answers_append ho, answers_cons_of_opens hm, List.append_nil]
    simp only [List.cons_append, WellFormed, he, ih, and_assoc]

end

/-! ## The open turn -/

theorem latest_append (h xs : List Message) : latest (h ++ xs) = (latest xs).or (latest h) := by
  rw [latest, List.reverse_append, List.find?_append]
  rfl

theorem latest_eq_none {xs : List Message} : latest xs = none ↔ ¬ Opens xs := by
  simp [latest, Opens]

theorem latest_cons (m : Message) (h : List Message) :
    latest (m :: h) = (latest h).or (if m.opens then some m else none) := by
  rw [← List.singleton_append, latest_append]
  congr 1
  rcases hm : m.opens with _ | _ <;> simp [latest, hm]

/-- Where nothing is due, what opens no turn does not matter. -/
theorem wellFormed_append_of_not_due {h xs : List Message} (hd : ¬ Due h) (hx : ¬ Opens xs) :
    WellFormed (h ++ xs) ↔ WellFormed h := by
  induction h with
  | nil => simp [wellFormed_of_not_opens hx, WellFormed]
  | cons m h ih =>
    have hd' : ¬ Due h := by
      rintro ⟨x, hx, hc⟩
      exact hd ⟨x, by rw [latest_cons, Option.mem_def.mp hx]; rfl, hc⟩
    simp only [List.cons_append, WellFormed, ih hd']
    refine and_congr_left fun _ => ?_
    by_cases ho : Opens h
    · rw [answers_append_of_opens ho]
    · have hc : ¬ m.Calls := fun hc => hd ⟨m, by simp [latest_cons, latest_eq_none.mpr ho, hc.opens], hc⟩
      simp [hc]

/-- Where something is due, the answers to come are determined. -/
theorem answers_of_due {h xs ys : List Message} (hd : Due h) (hx : WellFormed (h ++ xs))
    (hy : WellFormed (h ++ ys)) : answers xs = answers ys := by
  induction h with
  | nil => obtain ⟨m, hm, -⟩ := hd; cases hm
  | cons m h ih =>
    by_cases ho : Opens h
    · refine ih ?_ hx.2 hy.2
      obtain ⟨x, hx, hc⟩ := hd
      rw [latest_cons] at hx
      rcases hl : latest h with _ | y
      · exact absurd ho (latest_eq_none.mp hl)
      · rw [hl] at hx
        exact ⟨y, hl, by obtain rfl : y = x := by simpa using hx
                         exact hc⟩
    · obtain ⟨x, hm, hc⟩ := hd
      rw [latest_cons, latest_eq_none.mpr ho, Option.none_or] at hm
      split at hm
      · obtain rfl : m = x := by simpa using hm
        have hx := hx.1 hc
        have hy := hy.1 hc
        rw [List.append_eq, answers_append ho] at hx hy
        exact List.append_cancel_left (hx.trans hy.symm)
      · cases hm

end Ksight.Agent
