/-
  Ksight.Agent.Engine — a session of the diagnosis agent
  (src/agent/engine.py: `DiagnoseEngine.chat`, `run_agent_chat`).

  `chat` appends the user's message and asks the model, at most `maxRounds` times, with the
  history; it appends the reply, and for each of its tool calls the tool message with the
  result. An exception, from the model or anywhere in the handling of a tool call, ends
  `chat`; `run_agent_chat` reports it and goes on with the same engine, whose history is
  what it was. A reply that is a dict is appended as it is, whatever its role.

  The law (`Sound`): every history the model was given is well-formed. `sound_iff`: it
  holds if and only if the model was given none after the first step that did not meet the
  condition (`Kept`): an assistant message's tool calls are all answered before an
  exception, and nothing else adds a tool message to its turn. An exception in a tool call
  leaves the calls without an answer for good (`bad_arguments_leave_a_call_open`).
-/

import Ksight.Agent.History
import Ksight.Lib.Run

namespace Ksight.Agent.Engine

open Ksight.Lib

/-- What `llm.chat` returns: a dict, or an object with `content` and `tool_calls`. -/
inductive Reply where
  | dict (msg : Message)
  | object (content : Option String) (toolCalls : List ToolCall)

def Reply.message : Reply → Message
  | .dict msg => msg
  | .object content toolCalls => ⟨.assistant, content, toolCalls, none, none⟩

def userMessage (input : String) : Message := ⟨.user, some input, [], none, none⟩

def toolMessage (call : ToolCall) (result : String) : Message :=
  ⟨.tool, some result, [], call.id, some call.name⟩

/-- Where `chat` is: not called, waiting for the model, or at the next of the tool calls of
    `reply`. -/
inductive Phase where
  | idle
  | asking (round : Nat)
  | calling (round : Nat) (reply : Message) (call : ToolCall) (calls : List ToolCall)
  deriving DecidableEq

structure St where
  history : List Message
  phase : Phase
  /-- Ghost: the histories the model was given. -/
  handed : List (List Message)

def init (systemPrompt : String) : St := ⟨[⟨.system, some systemPrompt, [], none, none⟩], .idle, []⟩

/-- The head of the loop over the rounds. -/
def ask (maxRounds round : Nat) (st : St) : St :=
  if round < maxRounds then { st with phase := .asking round, handed := st.handed ++ [st.history] }
  else { st with phase := .idle }

/-- The next tool call, and the next round after the last one. -/
def next (maxRounds round : Nat) (reply : Message) : List ToolCall → St → St
  | [], st => ask maxRounds (round + 1) st
  | call :: calls, st => { st with phase := .calling round reply call calls }

inductive Ev where
  | chat (input : String)
  | reply (r : Reply)
  | result (text : String)
  | raise

variable (maxRounds : Nat)

def step : Ev → St → Option St
  | .chat input, st =>
    match st.phase with
    | .idle => some (ask maxRounds 0 { st with history := st.history ++ [userMessage input] })
    | _ => none
  | .reply r, st =>
    match st.phase with
    | .asking round =>
      let st := { st with history := st.history ++ [r.message] }
      match r.message.toolCalls with
      | [] => some { st with phase := .idle }
      | call :: calls => some { st with phase := .calling round r.message call calls }
    | _ => none
  | .result text, st =>
    match st.phase with
    | .calling round reply call calls =>
      some (next maxRounds round reply calls { st with history := st.history ++ [toolMessage call text] })
    | _ => none
  | .raise, st =>
    match st.phase with
    | .idle => none
    | _ => some { st with phase := .idle }

/-! ## The law -/

def Sound (st : St) : Prop := ∀ h ∈ st.handed, WellFormed h

/-- The condition: no exception in the tool calls of an assistant message, and no tool
    message but theirs where they are due. -/
def Kept : Ev → St → Prop
  | .chat _, _ => True
  | .reply r, st => r.message.role = .tool → ¬ Due st.history
  | .result _, st =>
    match st.phase with
    | .calling _ reply _ _ => reply.role ≠ .assistant → ¬ Due st.history
    | _ => True
  | .raise, st =>
    match st.phase with
    | .calling _ reply _ _ => reply.role ≠ .assistant
    | _ => True

instance : ∀ (e : Ev) (st : St), Decidable (Kept e st)
  | .chat _, _ => inferInstanceAs (Decidable True)
  | .reply _, _ => inferInstanceAs (Decidable (_ → _))
  | .result _, ⟨_, .calling _ _ _ _, _⟩ => inferInstanceAs (Decidable (_ → _))
  | .result _, ⟨_, .idle, _⟩ => inferInstanceAs (Decidable True)
  | .result _, ⟨_, .asking _, _⟩ => inferInstanceAs (Decidable True)
  | .raise, ⟨_, .calling _ _ _ _, _⟩ => inferInstanceAs (Decidable (_ ≠ _))
  | .raise, ⟨_, .idle, _⟩ => inferInstanceAs (Decidable True)
  | .raise, ⟨_, .asking _, _⟩ => inferInstanceAs (Decidable True)

/-- The tool messages the pending calls of an assistant message will have. -/
def pending (calls : List ToolCall) : List Message := calls.map fun c => toolMessage c ""

/-- The history will be well-formed when the pending calls have been answered. -/
structure Inv (st : St) : Prop where
  quiet : (∀ r m c cs, st.phase ≠ .calling r m c cs) → WellFormed st.history
  assistant : ∀ r m c cs, st.phase = .calling r m c cs → m.role = .assistant →
    Due st.history ∧ WellFormed (st.history ++ pending (c :: cs))
  other : ∀ r m c cs, st.phase = .calling r m c cs → m.role ≠ .assistant → WellFormed st.history
  sound : Sound st

/-- It will not be well-formed any more, whatever is appended (`chat` opens a new turn). -/
structure Spoiled (st : St) : Prop where
  idle : st.phase = .idle → ¬ WellFormed st.history
  busy : st.phase ≠ .idle → ∀ xs, ¬ WellFormed (st.history ++ xs)

/-! ## Replies and tool messages -/

section
variable {h : List Message} {m : Message}

theorem opens_userMessage (input : String) : (userMessage input).opens = true := by
  simp [userMessage, Message.opens]

theorem opens_toolMessage (c : ToolCall) (text : String) : (toolMessage c text).opens = false := by
  simp [toolMessage, Message.opens]

theorem not_opens_singleton (hm : m.opens = false) : ¬ Opens [m] := by simp [Opens, hm]

theorem not_opens_pending (calls : List ToolCall) : ¬ Opens (pending calls) := by
  rintro ⟨m, hm, ho⟩
  obtain ⟨c, -, rfl⟩ := List.mem_map.mp hm
  cases ho

theorem answers_pending (calls : List ToolCall) : answers (pending calls) = calls.map ToolCall.id := by
  induction calls with
  | nil => rfl
  | cons c calls ih => exact congrArg (c.id :: ·) ih

theorem answers_tool (ht : m.role = .tool) (rest : List Message) :
    answers (m :: rest) = m.toolCallId :: answers rest := by
  simp [answers, Message.opens, ht]

theorem wellFormed_turn_of_not_calls (ho : m.opens = true) (hc : ¬ m.Calls) :
    WellFormed (h ++ [m]) ↔ WellFormed h := by
  rw [wellFormed_turn ho]
  simp [WellFormed, hc]

/-- A reply whose tool calls, if any, are not an assistant's. -/
theorem wellFormed_reply (hw : WellFormed h) (hc : ¬ m.Calls) (ht : m.role = .tool → ¬ Due h) :
    WellFormed (h ++ [m]) := by
  rcases ho : m.opens with _ | _
  · by_cases hr : m.role = .tool
    · exact (wellFormed_append_of_not_due (ht hr) (not_opens_singleton ho)).mpr hw
    · have ha : answers [m] = answers [] := by simp [answers, hr, ho]
      rw [wellFormed_append (not_opens_singleton ho) (by simp [Opens]) ha, List.append_nil]
      exact hw
  · exact (wellFormed_turn_of_not_calls ho hc).mpr hw

/-- An assistant's tool calls, all of them pending. -/
theorem due_reply (hw : WellFormed h) (hc : m.Calls) :
    Due (h ++ [m]) ∧ WellFormed (h ++ [m] ++ pending m.toolCalls) := by
  constructor
  · exact ⟨m, by simp [latest, hc.opens], hc⟩
  · rw [List.append_assoc, List.singleton_append, wellFormed_turn hc.opens]
    exact ⟨hw, fun _ => answers_pending _, wellFormed_of_not_opens (not_opens_pending _)⟩

theorem due_append (hm : m.opens = false) : Due (h ++ [m]) ↔ Due h := by
  rw [Due, Due, latest_append, latest_eq_none.mpr (not_opens_singleton hm), Option.none_or]

/-- A pending call gets its answer. -/
theorem wellFormed_result (c : ToolCall) (cs : List ToolCall) (text : String) :
    WellFormed (h ++ [toolMessage c text] ++ pending cs) ↔ WellFormed (h ++ pending (c :: cs)) := by
  have hx : ¬ Opens (toolMessage c text :: pending cs) := by
    simpa [Opens, opens_toolMessage] using not_opens_pending cs
  rw [List.append_assoc, List.singleton_append]
  exact wellFormed_append hx (not_opens_pending (c :: cs)) rfl h

/-- A tool message too many cannot be made up for. -/
theorem spoiled_of_due (hw : WellFormed h) (hd : Due h) (ht : m.role = .tool) (xs : List Message) :
    ¬ WellFormed (h ++ m :: xs) := by
  intro hx
  have := answers_of_due hd hx ((List.append_nil h).symm ▸ hw)
  rw [answers_tool ht] at this
  cases this

/-- Nor can a pending call be left out. -/
theorem spoiled_of_pending {c : ToolCall} {cs : List ToolCall} (hd : Due h)
    (hw : WellFormed (h ++ pending (c :: cs))) : ¬ WellFormed h := by
  intro hx
  have := answers_of_due hd hw ((List.append_nil h).symm ▸ hx)
  rw [answers_pending] at this
  cases this

end

/-! ## Rounds -/

variable {maxRounds}

/-- Where no tool call is pending. -/
theorem inv_of_quiet {st : St} (hp : ∀ r m c cs, st.phase ≠ .calling r m c cs) (hw : WellFormed st.history)
    (hs : Sound st) : Inv st :=
  ⟨fun _ => hw, fun r m c cs h => absurd h (hp r m c cs), fun r m c cs h => absurd h (hp r m c cs), hs⟩

theorem ask_inv {st : St} (hw : WellFormed st.history) (hs : Sound st) (round : Nat) :
    Inv (ask maxRounds round st) := by
  unfold ask
  split
  · refine inv_of_quiet (by simp) hw fun h hm => ?_
    rcases List.mem_append.mp hm with hm | hm
    · exact hs h hm
    · obtain rfl := List.mem_singleton.mp hm
      exact hw
  · exact inv_of_quiet (by simp) hw hs

theorem next_inv {st : St} (hs : Sound st) {reply : Message} {calls : List ToolCall}
    (ha : reply.role = .assistant → Due st.history ∧ WellFormed (st.history ++ pending calls))
    (ho : reply.role ≠ .assistant → WellFormed st.history) (round : Nat) :
    Inv (next maxRounds round reply calls st) := by
  cases calls with
  | nil =>
    refine ask_inv ?_ hs _
    by_cases hr : reply.role = .assistant
    · exact List.append_nil st.history ▸ (ha hr).2
    · exact ho hr
  | cons c cs =>
    refine ⟨fun h => absurd rfl (h round reply c cs), ?_, ?_, hs⟩
    · rintro _ _ _ _ ⟨⟩ hr
      exact ha hr
    · rintro _ _ _ _ ⟨⟩ hr
      exact ho hr

theorem ask_spoiled {st : St} (hb : ∀ xs, ¬ WellFormed (st.history ++ xs)) (round : Nat) :
    Spoiled (ask maxRounds round st) ∧
      ((ask maxRounds round st).handed = st.handed ∨ ¬ Sound (ask maxRounds round st)) := by
  have hn : ¬ WellFormed st.history := List.append_nil st.history ▸ hb []
  unfold ask
  split
  · exact ⟨⟨nofun, fun _ => hb⟩, .inr fun hs => hn (hs _ (by simp))⟩
  · exact ⟨⟨fun _ => hn, fun h => absurd rfl h⟩, .inl rfl⟩

theorem next_spoiled {st : St} (hb : ∀ xs, ¬ WellFormed (st.history ++ xs)) (round : Nat) (reply : Message)
    (calls : List ToolCall) :
    Spoiled (next maxRounds round reply calls st) ∧
      ((next maxRounds round reply calls st).handed = st.handed ∨
        ¬ Sound (next maxRounds round reply calls st)) := by
  cases calls with
  | nil => exact ask_spoiled hb _
  | cons c cs => exact ⟨⟨nofun, fun _ => hb⟩, .inl rfl⟩

theorem reply_eq {st st' : St} {r : Reply} (h : step maxRounds (.reply r) st = some st') :
    ∃ round, st.phase = .asking round ∧ st'.history = st.history ++ [r.message] ∧ st'.handed = st.handed ∧
      (r.message.toolCalls = [] ∧ st'.phase = .idle ∨
        ∃ c cs, r.message.toolCalls = c :: cs ∧ st'.phase = .calling round r.message c cs) := by
  rcases hp : st.phase with _ | round | _ <;> simp only [step, hp, reduceCtorEq] at h
  refine ⟨round, rfl, ?_⟩
  rcases hc : r.message.toolCalls with _ | ⟨c, cs⟩ <;> simp only [hc, Option.some.injEq] at h <;> subst h
  · exact ⟨rfl, rfl, .inl ⟨rfl, rfl⟩⟩
  · exact ⟨rfl, rfl, .inr ⟨c, cs, rfl, rfl⟩⟩

/-! ## Steps -/

theorem init_inv (prompt : String) : Inv (init prompt) :=
  inv_of_quiet (by simp [init]) (by simp [init, WellFormed, Message.Calls]) (by simp [Sound, init])

theorem step_inv {e : Ev} {st st' : St} (hi : Inv st) (hk : Kept e st) (h : step maxRounds e st = some st') :
    Inv st' := by
  cases e with
  | chat input =>
    rcases hp : st.phase with _ | _ | _ <;> simp only [step, hp, reduceCtorEq, Option.some.injEq] at h
    subst h
    refine ask_inv ?_ ?_ _
    · refine (wellFormed_turn_of_not_calls (opens_userMessage input) ?_).mpr (hi.quiet (by simp [hp]))
      simp [userMessage, Message.Calls]
    · exact hi.sound
  | reply r =>
    obtain ⟨round, hp, hh, hg, hnext⟩ := reply_eq h
    have hw : WellFormed st.history := hi.quiet (by simp [hp])
    have hs : Sound st' := by
      rw [Sound, hg]
      exact hi.sound
    rcases hnext with ⟨hc, hp'⟩ | ⟨c, cs, hc, hp'⟩
    · have hw' : WellFormed st'.history := hh ▸ wellFormed_reply hw (fun h => h.2 hc) hk
      exact inv_of_quiet (by simp [hp']) hw' hs
    · refine ⟨fun h => absurd hp' (h _ _ _ _), ?_, ?_, hs⟩ <;>
        rintro _ _ _ _ he hr <;> rw [hp'] at he <;> cases he <;> rw [hh]
      · rw [← hc]
        exact due_reply hw ⟨hr, by simp [hc]⟩
      · exact wellFormed_reply hw (fun h => hr h.1) hk
  | result text =>
    rcases hp : st.phase with _ | _ | ⟨round, reply, c, cs⟩ <;>
      simp only [step, hp, reduceCtorEq, Option.some.injEq] at h
    subst h
    simp only [Kept, hp] at hk
    refine next_inv ?_ (fun hr => ?_) (fun hr => ?_) _
    · exact hi.sound
    · obtain ⟨hd, hw⟩ := hi.assistant _ _ _ _ hp hr
      exact ⟨(due_append (opens_toolMessage c text)).mpr hd, (wellFormed_result c cs text).mpr hw⟩
    · have hx := not_opens_singleton (opens_toolMessage c text)
      exact (wellFormed_append_of_not_due (hk hr) hx).mpr (hi.other _ _ _ _ hp hr)
  | raise =>
    rcases hp : st.phase with _ | round | ⟨round, reply, c, cs⟩ <;>
      simp only [step, hp, reduceCtorEq, Option.some.injEq] at h <;> subst h
    · exact inv_of_quiet (by simp) (hi.quiet (by simp [hp])) hi.sound
    · simp only [Kept, hp] at hk
      exact inv_of_quiet (by simp) (hi.other _ _ _ _ hp hk) hi.sound

/-- The first step that does not meet the condition. -/
theorem step_spoils {e : Ev} {st st' : St} (hi : Inv st) (hk : ¬ Kept e st)
    (h : step maxRounds e st = some st') : Spoiled st' ∧ (st'.handed = st.handed ∨ ¬ Sound st') := by
  cases e with
  | chat input => exact absurd trivial hk
  | reply r =>
    obtain ⟨ht, hd⟩ := Classical.not_imp.mp hk
    obtain ⟨round, hp, hh, hg, -⟩ := reply_eq h
    have hb : ∀ xs, ¬ WellFormed (st'.history ++ xs) := fun xs => by
      rw [hh, List.append_assoc, List.singleton_append]
      exact spoiled_of_due (hi.quiet (by simp [hp])) (not_not.mp hd) ht xs
    exact ⟨⟨fun _ => List.append_nil st'.history ▸ hb [], fun _ => hb⟩, .inl hg⟩
  | result text =>
    rcases hp : st.phase with _ | _ | ⟨round, reply, c, cs⟩ <;>
      simp only [step, hp, reduceCtorEq, Option.some.injEq] at h
    subst h
    simp only [Kept, hp] at hk
    obtain ⟨hr, hd⟩ := Classical.not_imp.mp hk
    refine next_spoiled (fun xs => ?_) _ _ _
    rw [List.append_assoc, List.singleton_append]
    exact spoiled_of_due (hi.other _ _ _ _ hp hr) (not_not.mp hd) rfl xs
  | raise =>
    rcases hp : st.phase with _ | round | ⟨round, reply, c, cs⟩ <;>
      simp only [step, hp, reduceCtorEq, Option.some.injEq] at h <;> subst h
    · exact absurd (by simp [Kept, hp]) hk
    · simp only [Kept, hp, ne_eq, not_not] at hk
      obtain ⟨hd, hw⟩ := hi.assistant _ _ _ _ hp hk
      exact ⟨⟨fun _ => spoiled_of_pending hd hw, fun h => absurd rfl h⟩, .inl rfl⟩

theorem step_spoiled {e : Ev} {st st' : St} (hs : Spoiled st) (h : step maxRounds e st = some st') :
    Spoiled st' ∧ (st'.handed = st.handed ∨ ¬ Sound st') := by
  cases e with
  | chat input =>
    rcases hp : st.phase with _ | _ | _ <;> simp only [step, hp, reduceCtorEq, Option.some.injEq] at h
    subst h
    refine ask_spoiled (fun xs hw => hs.idle hp ?_) _
    rw [List.append_assoc, List.singleton_append] at hw
    exact ((wellFormed_turn (opens_userMessage input) _ _).mp hw).1
  | reply r =>
    obtain ⟨round, hp, hh, hg, -⟩ := reply_eq h
    have hb : ∀ xs, ¬ WellFormed (st'.history ++ xs) := fun xs => by
      rw [hh, List.append_assoc]
      exact hs.busy (by simp [hp]) _
    exact ⟨⟨fun _ => List.append_nil st'.history ▸ hb [], fun _ => hb⟩, .inl hg⟩
  | result text =>
    rcases hp : st.phase with _ | _ | ⟨round, reply, c, cs⟩ <;>
      simp only [step, hp, reduceCtorEq, Option.some.injEq] at h
    subst h
    refine next_spoiled (fun xs => ?_) _ _ _
    rw [List.append_assoc]
    exact hs.busy (by simp [hp]) _
  | raise =>
    have hb : st.phase ≠ .idle := fun hp => by simp [step, hp] at h
    rcases hp : st.phase with _ | round | ⟨round, reply, c, cs⟩ <;>
      simp only [step, hp, reduceCtorEq, Option.some.injEq] at h <;> subst h <;>
      exact ⟨⟨fun _ => List.append_nil st.history ▸ hs.busy hb [], fun h => absurd rfl h⟩, .inl rfl⟩

theorem subset_ask {hs : List (List Message)} {st : St} (h : hs ⊆ st.handed) (round : Nat) :
    hs ⊆ (ask maxRounds round st).handed := by
  unfold ask
  split
  · exact List.subset_append_of_subset_left _ h
  · exact h

/-- The model is given histories one after the other. -/
theorem step_handed {e : Ev} {st st' : St} (h : step maxRounds e st = some st') : st.handed ⊆ st'.handed := by
  cases e with
  | chat input =>
    rcases hp : st.phase with _ | _ | _ <;> simp only [step, hp, reduceCtorEq, Option.some.injEq] at h
    subst h
    refine subset_ask ?_ _
    exact List.Subset.refl _
  | reply r =>
    obtain ⟨_, _, _, hg, _⟩ := reply_eq h
    rw [hg]
    exact List.Subset.refl _
  | result text =>
    rcases hp : st.phase with _ | _ | ⟨round, reply, c, cs⟩ <;>
      simp only [step, hp, reduceCtorEq, Option.some.injEq] at h
    subst h
    cases cs with
    | nil =>
      refine subset_ask ?_ _
      exact List.Subset.refl _
    | cons c cs => exact List.Subset.refl _
  | raise =>
    rcases hp : st.phase with _ | round | ⟨round, reply, c, cs⟩ <;>
      simp only [step, hp, reduceCtorEq, Option.some.injEq] at h <;> subst h <;> exact List.Subset.refl _

theorem sound_of_step {e : Ev} {st st' : St} (h : step maxRounds e st = some st') (hs : Sound st') : Sound st :=
  fun x hx => hs x (step_handed h hx)

/-- After the first step that did not meet the condition, a history that is handed over is
    not well-formed. -/
theorem run_spoiled {u v t : St} {e : Ev} (hi : Inv u) (hk : ¬ Kept e u) (he : step maxRounds e u = some v)
    (hr : Run (step maxRounds) anyEvent v t) (hs : Sound t) : t.handed = u.handed := by
  have h := hr.inv (P := fun s => Spoiled s ∧ (s.handed = u.handed ∨ ¬ Sound s)) (step_spoils hi hk he) ?_
  · exact h.2.resolve_right fun h => h hs
  · intro e s s' hs _ hstep
    obtain ⟨hsp, hor⟩ := step_spoiled hs.1 hstep
    refine ⟨hsp, ?_⟩
    by_contra hno
    obtain ⟨hne, hsound⟩ := not_or.mp hno
    have hsound := not_not.mp hsound
    have hold := hs.2.resolve_right fun h => h (sound_of_step hstep hsound)
    exact hne ((hor.resolve_right fun h => h hsound).trans hold)

/-- The histories of a session are well-formed if and only if the model was given none
    after the first step that did not meet the condition. -/
theorem sound_iff {prompt : String} {es : List Ev} {t : St} (h : exec (step maxRounds) es (init prompt) = some t) :
    Sound t ↔ ∃ es₁ es₂ u, es = es₁ ++ es₂ ∧ execIf (step maxRounds) Kept es₁ (init prompt) = some u ∧
      t.handed = u.handed := by
  have hkept : ∀ {es u}, execIf (step maxRounds) Kept es (init prompt) = some u → Inv u := fun hu =>
    (run_of_execIf hu).inv (init_inv prompt) fun _ _ _ hi hk hs => step_inv hi hk hs
  constructor
  · intro hs
    rcases exec_splits Kept h with hif | ⟨es₁, e, es₂, u, v, rfl, hu, hk, he, hes⟩
    · exact ⟨es, [], t, (List.append_nil es).symm, hif, rfl⟩
    · exact ⟨es₁, e :: es₂, u, rfl, hu, run_spoiled (hkept hu) hk he (run_of_exec hes) hs⟩
  · rintro ⟨es₁, es₂, u, -, hu, ht⟩
    rw [Sound, ht]
    exact (hkept hu).sound

/-! ## A session -/

def topCall : ToolCall := ⟨some "call_1", "system_top", "-b"⟩

/-- One call, answered; the model is given the history again and concludes. -/
def diagnosis (arguments : String) : List Ev :=
  [.chat "load?", .reply (.object none [{ topCall with arguments }]), .result "top - 10:00:00",
    .reply (.object (some "idle") [])]

theorem answered_call_is_sound :
    ∃ st, exec (step 10) (diagnosis "null") (init "") = some st ∧ st.handed.length = 2 ∧ Sound st := by
  obtain ⟨st, hexec, hif, hs⟩ := execIf_any (step 10) Kept (init "") (diagnosis "null")
    (fun st => decide (st.handed.length = 2)) (by decide +kernel)
  exact ⟨st, hexec, of_decide_eq_true hs, (sound_iff hexec).mpr ⟨_, [], st, by simp, hif, rfl⟩⟩

/-- The arguments are not JSON, which raises an exception; the user asks again. -/
theorem bad_arguments_leave_a_call_open :
    ∃ st, Run (step 10) anyEvent (init "") st ∧ ¬ Sound st := by
  obtain ⟨st, hr, hs⟩ := run_of_exec_any (step 10) (init "")
    [.chat "load?", .reply (.object none [topCall]), .raise, .chat "and now?"]
    (fun st => decide (∃ h ∈ st.handed, ¬ WellFormed h)) (by decide +kernel)
  obtain ⟨h, hm, hw⟩ := of_decide_eq_true hs
  exact ⟨st, hr, fun hsound => hw (hsound h hm)⟩

end Ksight.Agent.Engine
