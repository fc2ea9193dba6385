/-
  Ksight.Rms.Dispatch — rate-monotonic order at a dispatch.

  `rms_dispatch` pops the CPU's queue, inserts each pid into the CPU's DSQ with its period
  as vtime, and moves the first task of the DSQ to the CPU's local queue. What the loop
  does is `loaded_spec`: it inserts the pids up to the first one that has no task or no
  entry in `task_attr_hmap`, takes that one too, and ends; 2048 iterations are enough, since
  a queue holds at most 2047 pids.

  So one pid of a task that died or left while it was queued hides the tasks behind it
  (`a_stale_pid_hides_a_task`). `rate_monotonic_iff` says exactly when a dispatch is
  rate-monotonic: when only the last pid of the queue can be stale, and when no released
  task the dispatch does not see comes before those it does see. It does not see the task
  that is running on the CPU, which the kick of a period callback preempts for a task of a
  longer period, and one whose push failed because the queue was full.
-/

import Ksight.Rms.Places

namespace Ksight.Rms.Dispatch

open Ksight.Lib

/-- `bpf_task_from_pid` and `task_attr_hmap` find the pid. -/
def found (s : St) (pid : Pid) : Bool := (s.tasks pid).isSome && (s.maps.taskAttr.lookup pid).isSome

/-- After the loop and before the move. -/
def loaded (f : Features) (clk : Nat → UInt64) (cpu : Cpu) (s : St) : St :=
  bpfLoop (dispatchLoop f clk cpu) maxTaskNr 0 s

def InDsq (s : St) (cpu : Cpu) (pid : Pid) : Prop := pid ∈ (s.dsq (cpuToDsq cpu)).map Prod.snd

/-- A registered task whose period has begun and that has not yielded in it, to be run by
    the CPU: it waits in the CPU's DSQ, or is left to the scheduler and the CPU is the one
    in its entry, or is on the CPU. -/
def Released (s : St) (cpu : Cpu) (pid : Pid) : Prop :=
  (∃ t ∈ s.tasks pid, isLive t ∧ t.policy = schedExt) ∧
    ∃ a ∈ s.maps.taskAttr.lookup pid, a.isYield = 0 ∧
      (InDsq s cpu pid ∨ posOf s pid = some .held ∧ a.cpu = cpu ∨ s.curr cpu = some pid)

structure RateMonotonic (f : Features) (clk : Nat → UInt64) (cpu : Cpu) (s : St) : Prop where
  drained : queued (rmsDispatch f clk cpu s).cpuQueues cpu = []
  /-- A task that is not left to the scheduler is queued already or running. -/
  inserted : ∀ q ∈ queued s.cpuQueues cpu, posOf s q = some .held →
    ∀ v ∈ periodOf s q, (v, q) ∈ (loaded f clk cpu s).dsq (cpuToDsq cpu)
  first : ∀ q, (rmsDispatch f clk cpu s).localDsq cpu = s.localDsq cpu ++ [q] →
    ∃ v ∈ periodOf s q, ∀ r, Released s cpu r → ∀ w ∈ periodOf s r, v ≤ w

/-- The tasks a dispatch finds: in the DSQ, or in the queue and left to the scheduler. -/
def Waiting (s : St) (cpu : Cpu) (pid : Pid) : Prop :=
  InDsq s cpu pid ∨ pid ∈ queued s.cpuQueues cpu ∧ posOf s pid = some .held ∧ periodOf s pid ≠ none

structure Clear (cpu : Cpu) (s : St) : Prop where
  /-- Only the last pid of the queue can be stale. -/
  fresh : ∀ pid ∈ (queued s.cpuQueues cpu).dropLast, found s pid = true
  /-- A released task that is not waiting has no shorter period than all that are. -/
  seen : ∀ r, Released s cpu r → ¬ Waiting s cpu r → ∀ w ∈ periodOf s r,
    (∃ q, Waiting s cpu q ∧ ∃ v ∈ periodOf s q, v ≤ w) ∨ ∀ q, ¬ Waiting s cpu q

/-! ## The loop -/

/-- `s'` is `s` with the found pids of `l` popped and inserted. -/
structure Inserted (cpu : Cpu) (s : St) (l : List Pid) (s' : St) : Prop where
  known : ∀ q, s'.tasks q = none ↔ s.tasks q = none
  held : ∀ q, posOf s' q = some .held ↔ posOf s q = some .held ∧ q ∉ l
  dsq : ∀ v q, (v, q) ∈ s'.dsq (cpuToDsq cpu) ↔
    (v, q) ∈ s.dsq (cpuToDsq cpu) ∨ q ∈ l ∧ posOf s q = some .held ∧ periodOf s q = some v
  period : ∀ q, periodOf s' q = periodOf s q
  localDsq : s'.localDsq = s.localDsq
  queues : QueuesWF s'.cpuQueues

theorem Inserted.refl (cpu : Cpu) {s : St} (h : QueuesWF s.cpuQueues) : Inserted cpu s [] s :=
  ⟨fun _ => .rfl, fun _ => by simp, fun _ _ => by simp, fun _ => rfl, rfl, h⟩

/-- Nothing a dispatch decides by differs. -/
theorem Inserted.congr {cpu : Cpu} {s s₁ s₂ : St} {l : List Pid} (h : Inserted cpu s l s₁) (hq : Quiet s₁ s₂)
    (hp : ∀ q, periodOf s₂ q = periodOf s₁ q) (hw : QueuesWF s₂.cpuQueues) : Inserted cpu s l s₂ :=
  have hpos : ∀ q, posOf s₂ q = posOf s₁ q := fun q => by rw [posOf, hq.tasks]; rfl
  ⟨fun q => hq.tasks ▸ h.known q, fun q => hpos q ▸ h.held q, fun v q => hq.dsq ▸ h.dsq v q,
    fun q => (hp q).trans (h.period q), hq.localDsq.trans h.localDsq, hw⟩

theorem found_iff {s : St} {pid : Pid} : found s pid = true ↔ s.tasks pid ≠ none ∧ periodOf s pid ≠ none := by
  simp [found, periodOf, Option.isSome_iff_ne_none]

theorem Inserted.found_eq {cpu : Cpu} {s s' : St} {l : List Pid} (h : Inserted cpu s l s') (pid : Pid) :
    found s' pid = found s pid := by
  rw [Bool.eq_iff_iff, found_iff, found_iff, h.period, ne_eq, h.known]

/-- A task that is not left to the scheduler is not inserted. -/
theorem Inserted.ignored {cpu : Cpu} {s s' : St} {l : List Pid} (h : Inserted cpu s l s') {pid : Pid}
    (hpos : posOf s' pid ≠ some .held) : Inserted cpu s (l ++ [pid]) s' := by
  have hin : posOf s pid = some .held → pid ∈ l :=
    fun hp => by_contra fun hn => hpos ((h.held pid).mpr ⟨hp, hn⟩)
  refine ⟨h.known, fun q => (h.held q).trans ?_, fun v q => (h.dsq v q).trans ?_, h.period, h.localDsq,
    h.queues⟩
  all_goals
    simp only [List.mem_append, List.mem_singleton, not_or]
    by_cases hne : q = pid
    · subst hne
      grind
    · grind

/-- The insertion of a pid that is found. -/
theorem Inserted.insert {cpu : Cpu} {s s' : St} {l : List Pid} (h : Inserted cpu s l s') {pid : Pid}
    {v : UInt64} (hv : periodOf s pid = some v) :
    Inserted cpu s (l ++ [pid]) (dsqInsertVtime (cpuToDsq cpu) v pid s') := by
  unfold dsqInsertVtime
  split
  · rename_i t ht
    split
    · rename_i hheld
      obtain ⟨hp, hn⟩ := (h.held pid).mp (by simp [posOf, ht, hheld])
      refine ⟨?_, ?_, ?_, h.period, h.localDsq, h.queues⟩
      · intro q
        by_cases hne : q = pid
        · subst hne
          simpa [setTask, ht] using h.known q
        · simpa [setTask, hne] using h.known q
      · intro q
        by_cases hne : q = pid
        · subst hne
          simp [posOf, setTask]
        · simpa [posOf, setTask, hne] using h.held q
      · intro w q
        simp only [Function.update_self, mem_insertVtime, h.dsq, List.mem_append, List.mem_singleton,
          Prod.mk.injEq]
        constructor
        · intro hx
          rcases hx with ⟨rfl, rfl⟩ | h | ⟨h1, h2⟩
          · exact .inr ⟨.inr rfl, hp, hv⟩
          · exact .inl h
          · exact .inr ⟨.inl h1, h2⟩
        · intro hx
          rcases hx with h | ⟨h1 | rfl, h2, h3⟩
          · exact .inr (.inl h)
          · exact .inr (.inr ⟨h1, h2, h3⟩)
          · exact .inl ⟨Option.some.inj (h3.symm.trans hv), rfl⟩
    · rename_i hheld
      exact h.ignored (by simp [posOf, ht, hheld])
  · rename_i ht
    exact h.ignored (by simp [posOf, ht])

/-- One iteration: a found pid is inserted and the loop goes on, a stale one ends it. -/
theorem dispatchLoop_pop (f : Features) (clk : Nat → UInt64) {cpu : Cpu} (hc : hasQueue cpu = true)
    (i : Nat) {s s' : St} {l : List Pid} (h : Inserted cpu s l s') {pid : Pid} {rest : List Pid}
    (hq : queued s'.cpuQueues cpu = pid :: rest) :
    (dispatchLoop f clk cpu i s').1 = !found s pid ∧
      queued (dispatchLoop f clk cpu i s').2.cpuQueues cpu = rest ∧
      Inserted cpu s (if found s pid then l ++ [pid] else l) (dispatchLoop f clk cpu i s').2 := by
  rcases hp : cpuQueuePop s'.cpuQueues cpu with _ | ⟨pid', queues⟩
  · rw [(pop_eq_none h.queues hc).mp hp] at hq; cases hq
  obtain ⟨hwf, -, hcpu, -⟩ := pop_queued h.queues hp
  rw [hq] at hcpu
  obtain ⟨rfl, rfl⟩ := List.cons.inj hcpu
  have h' : Inserted cpu s l { s' with cpuQueues := queues } :=
    h.congr ⟨rfl, rfl, rfl, rfl, rfl⟩ (fun _ => rfl) hwf
  have hfound := h.found_eq pid
  unfold dispatchLoop
  simp only [hp]
  rcases ht : s'.tasks pid with _ | t
  · rw [← hfound, show found s' pid = false by simp [found, ht]]
    exact ⟨rfl, rfl, h'⟩
  rcases ha : s'.maps.taskAttr.lookup pid with _ | a
  · rw [← hfound, show found s' pid = false by simp [found, ha]]
    exact ⟨rfl, rfl, h'⟩
  rw [← hfound, show found s' pid = true by simp [found, ht, ha]]
  have hv : periodOf s pid = some a.period := by rw [← h.period pid]; simp [periodOf, ha]
  simp only [checkCpu, if_pos hc, Bool.not_true, true_and, if_true]
  split
  · have hm := restartMigrated_maps (fun j => clk (4 * i + j)) pid a { s' with cpuQueues := queues }
    refine ⟨by rw [cpuQueues_dsqInsertVtime, hm.cpuQueues], ?_⟩
    exact (h'.congr hm.quiet (periodOf_restartMigrated _ ha) (hm.cpuQueues ▸ hwf)).insert hv
  · exact ⟨by rw [cpuQueues_dsqInsertVtime], h'.insert hv⟩

theorem dispatchLoop_empty (f : Features) (clk : Nat → UInt64) {cpu : Cpu} (hc : hasQueue cpu = true)
    (i : Nat) {s : St} (hw : QueuesWF s.cpuQueues) (hq : queued s.cpuQueues cpu = []) :
    dispatchLoop f clk cpu i s = (true, s) := by
  simp only [dispatchLoop, (pop_eq_none hw hc).mpr hq]

/-- The loop inserts the pids up to the first stale one and takes that one too. -/
theorem bpfLoop_spec (f : Features) (clk : Nat → UInt64) {cpu : Cpu} (hc : hasQueue cpu = true) {s : St}
    (n i : Nat) {l : List Pid} {s' : St} (h : Inserted cpu s l s')
    (hn : (queued s'.cpuQueues cpu).length < n) :
    queued (bpfLoop (dispatchLoop f clk cpu) n i s').cpuQueues cpu =
        ((queued s'.cpuQueues cpu).dropWhile (found s)).tail ∧
      Inserted cpu s (l ++ (queued s'.cpuQueues cpu).takeWhile (found s))
        (bpfLoop (dispatchLoop f clk cpu) n i s') := by
  induction n generalizing i l s' with
  | zero => omega
  | succ n ih =>
    rw [bpfLoop]
    rcases hq : queued s'.cpuQueues cpu with _ | ⟨pid, rest⟩
    · rw [dispatchLoop_empty f clk hc i h.queues hq]
      simpa [hq] using h
    · obtain ⟨hend, hrest, hins⟩ := dispatchLoop_pop f clk hc i h hq
      rw [hq, List.length_cons] at hn
      rw [hend]
      rcases hf : found s pid with _ | _
      · rw [hf] at hins
        simpa [hf, hrest] using hins
      · rw [hf] at hins
        have := ih (i + 1) hins (by rw [hrest]; omega)
        rw [hrest] at this
        simpa [hf] using this

theorem loaded_spec (f : Features) (clk : Nat → UInt64) {cpu : Cpu} (hc : hasQueue cpu = true) {s : St}
    (hw : QueuesWF s.cpuQueues) :
    queued (loaded f clk cpu s).cpuQueues cpu = ((queued s.cpuQueues cpu).dropWhile (found s)).tail ∧
      Inserted cpu s ((queued s.cpuQueues cpu).takeWhile (found s)) (loaded f clk cpu s) := by
  simpa [loaded] using bpfLoop_spec f clk hc maxTaskNr 0 (.refl cpu hw) (length_queued_lt hw cpu)

/-! ## The move -/

theorem rmsDispatch_eq (f : Features) (clk : Nat → UInt64) {cpu : Cpu} (hc : hasQueue cpu = true) (s : St) :
    rmsDispatch f clk cpu s = dsqMoveToLocal (cpuToDsq cpu) cpu (loaded f clk cpu s) := by
  rw [rmsDispatch, checkCpu, if_pos hc]; rfl

theorem cpuQueues_moveToLocal (d : Nat) (cpu : Cpu) (s : St) :
    (dsqMoveToLocal d cpu s).cpuQueues = s.cpuQueues := by
  unfold dsqMoveToLocal; split <;> rfl

theorem moved_iff {d : Nat} {cpu : Cpu} {s : St} {q : Pid} :
    (dsqMoveToLocal d cpu s).localDsq cpu = s.localDsq cpu ++ [q] ↔ ∃ v rest, s.dsq d = (v, q) :: rest := by
  unfold dsqMoveToLocal
  split
  · rename_i h; simp [h]
  · rename_i v p rest h
    simp [h]

/-! ## The order -/

variable {cfg : Config} {s : St} {cpu : Cpu}

theorem waiting_iff (hp : Placed s) {q : Pid} : Waiting s cpu q ↔ ∃ v, periodOf s q = some v ∧
    ((v, q) ∈ s.dsq (cpuToDsq cpu) ∨ q ∈ queued s.cpuQueues cpu ∧ posOf s q = some .held) := by
  constructor
  · intro hw
    rcases hw with h | ⟨hq, hheld, hper⟩
    · obtain ⟨⟨v, q⟩, hx, rfl⟩ := List.mem_map.mp h
      exact ⟨v, (hp.entry _ _ hx).2, .inl hx⟩
    · obtain ⟨v, hv⟩ := Option.ne_none_iff_exists'.mp hper
      exact ⟨v, hv, .inr ⟨hq, hheld⟩⟩
  · intro hw
    obtain ⟨v, hv, h | ⟨hq, hheld⟩⟩ := hw
    · exact .inl (List.mem_map_of_mem h)
    · exact .inr ⟨hq, hheld, by simp [hv]⟩

/-- Nothing is left in the queue when only its last pid can be stale. -/
theorem tail_dropWhile {p : Pid → Bool} {l : List Pid} :
    (l.dropWhile p).tail = [] ↔ ∀ x ∈ l.dropLast, p x = true := by
  induction l with
  | nil => simp
  | cons x l ih =>
    rcases hx : p x with _ | _
    · cases l with
      | nil => simp [hx]
      | cons y l => simp [hx]
    · cases l with
      | nil => simp [hx]
      | cons y l => simpa [hx, List.dropLast_cons_cons] using ih

theorem mem_takeWhile_of_fresh {p : Pid → Bool} {l : List Pid} (h : ∀ x ∈ l.dropLast, p x = true)
    {x : Pid} (hx : x ∈ l) (hp : p x = true) : x ∈ l.takeWhile p := by
  rw [← List.takeWhile_append_dropWhile (p := p) (l := l), List.mem_append] at hx
  rcases hx with hx | hx
  · exact hx
  rcases hd : l.dropWhile p with _ | ⟨y, ys⟩
  · rw [hd] at hx; cases hx
  have ht := tail_dropWhile.mpr h
  rw [hd, List.tail_cons] at ht
  subst ht
  rw [hd, List.mem_singleton] at hx
  have hy : p y = false := by simpa [hd] using List.head_dropWhile_not (p := p) (l := l) (by simp [hd])
  rw [← hx, hp] at hy; cases hy

/-- After the loop the DSQ has only waiting tasks, and all of them if only the last pid
    can be stale. -/
theorem mem_loaded (f : Features) (clk : Nat → UInt64) (hc : hasQueue cpu = true) (hp : Placed s)
    (hw : QueuesWF s.cpuQueues) {v : UInt64} {q : Pid}
    (h : (v, q) ∈ (loaded f clk cpu s).dsq (cpuToDsq cpu)) :
    Waiting s cpu q ∧ periodOf s q = some v := by
  obtain ⟨-, hins⟩ := loaded_spec f clk hc hw
  rcases (hins.dsq v q).mp h with h | ⟨hq, hheld, hv⟩
  · have hv := (hp.entry _ _ h).2
    exact ⟨(waiting_iff hp).mpr ⟨v, hv, .inl h⟩, hv⟩
  · exact ⟨(waiting_iff hp).mpr ⟨v, hv, .inr ⟨(List.takeWhile_sublist _).mem hq, hheld⟩⟩, hv⟩

theorem loaded_of_waiting (f : Features) (clk : Nat → UInt64) (hc : hasQueue cpu = true) (hp : Placed s)
    (hw : QueuesWF s.cpuQueues) (hfresh : ∀ pid ∈ (queued s.cpuQueues cpu).dropLast, found s pid = true)
    {q : Pid} {v : UInt64} (h : Waiting s cpu q) (hv : periodOf s q = some v) :
    (v, q) ∈ (loaded f clk cpu s).dsq (cpuToDsq cpu) := by
  obtain ⟨-, hins⟩ := loaded_spec f clk hc hw
  apply (hins.dsq v q).mpr
  obtain ⟨v', hv', h | ⟨hq, hheld⟩⟩ := (waiting_iff hp).mp h
  · exact .inl (Option.some.inj (hv.symm.trans hv') ▸ h)
  · refine .inr ⟨mem_takeWhile_of_fresh hfresh hq (found_iff.mpr ⟨?_, by simp [hv]⟩), hheld, hv⟩
    intro hn
    simp [posOf, hn] at hheld

theorem sorted_loaded (f : Features) (clk : Nat → UInt64) (cpu : Cpu) (hp : Placed s) :
    ((loaded f clk cpu s).dsq (cpuToDsq cpu)).Pairwise fun x y => x.1 ≤ y.1 :=
  (bpfLoop_inv (fun i _ => placed_dispatchLoop i) maxTaskNr 0 hp : Placed (loaded f clk cpu s)).sorted _

theorem rate_monotonic_of_clear (f : Features) (clk : Nat → UInt64) (hc : hasQueue cpu = true) (hp : Placed s)
    (hw : QueuesWF s.cpuQueues) (h : Clear cpu s) : RateMonotonic f clk cpu s := by
  refine ⟨?_, ?_, ?_⟩
  · rw [rmsDispatch_eq f clk hc, cpuQueues_moveToLocal, (loaded_spec f clk hc hw).1]
    exact tail_dropWhile.mpr h.fresh
  · intro q hq hheld v hv
    have hv : periodOf s q = some v := hv
    exact loaded_of_waiting f clk hc hp hw h.fresh ((waiting_iff hp).mpr ⟨v, hv, .inr ⟨hq, hheld⟩⟩) hv
  · intro q hq
    rw [rmsDispatch_eq f clk hc, ← (loaded_spec f clk hc hw).2.localDsq] at hq
    obtain ⟨v, rest, hd⟩ := moved_iff.mp hq
    have hmem : (v, q) ∈ (loaded f clk cpu s).dsq (cpuToDsq cpu) := by simp [hd]
    -- the head of the DSQ comes before every waiting task
    have hfirst : ∀ r w, Waiting s cpu r → periodOf s r = some w → v ≤ w := by
      intro r w hr hrw
      have hm := loaded_of_waiting f clk hc hp hw h.fresh hr hrw
      have hs := sorted_loaded f clk cpu hp
      rw [hd] at hm hs
      rcases List.mem_cons.mp hm with he | hm
      · exact UInt64.le_of_eq (congrArg Prod.fst he).symm
      · exact (List.pairwise_cons.mp hs).1 _ hm
    obtain ⟨hwq, hvq⟩ := mem_loaded f clk hc hp hw hmem
    refine ⟨v, hvq, ?_⟩
    intro r hr w hrw
    by_cases hwr : Waiting s cpu r
    · exact hfirst r w hwr hrw
    · rcases h.seen r hr hwr w hrw with ⟨q', hq', u, hu, hle⟩ | hno
      · exact UInt64.le_trans (hfirst q' u hq' hu) hle
      · exact absurd hwq (hno q)

theorem clear_of_rate_monotonic (f : Features) (clk : Nat → UInt64) (hc : hasQueue cpu = true) (hp : Placed s)
    (hw : QueuesWF s.cpuQueues) (h : RateMonotonic f clk cpu s) : Clear cpu s := by
  have hfresh : ∀ pid ∈ (queued s.cpuQueues cpu).dropLast, found s pid = true := by
    have := h.drained
    rw [rmsDispatch_eq f clk hc, cpuQueues_moveToLocal, (loaded_spec f clk hc hw).1] at this
    exact tail_dropWhile.mp this
  refine ⟨hfresh, ?_⟩
  intro r hr hwr w hrw
  rcases hd : (loaded f clk cpu s).dsq (cpuToDsq cpu) with _ | ⟨⟨v, q⟩, rest⟩
  · apply Or.inr
    intro q hq
    obtain ⟨v, hv, -⟩ := (waiting_iff hp).mp hq
    have := loaded_of_waiting f clk hc hp hw hfresh hq hv
    rw [hd] at this; cases this
  · obtain ⟨hwq, hvq⟩ := mem_loaded f clk hc hp hw (v := v) (q := q) (by simp [hd])
    obtain ⟨v', hv', hall⟩ := h.first q (by
      rw [rmsDispatch_eq f clk hc, ← (loaded_spec f clk hc hw).2.localDsq]
      exact moved_iff.mpr ⟨v, rest, hd⟩)
    exact .inl ⟨q, hwq, v', hv', hall r hr w hrw⟩

theorem reachable (h : Run (step cfg) anyEvent init s) : Base s ∧ Placed s :=
  h.inv (P := fun s => Base s ∧ Placed s) ⟨base_init, placed_init⟩
    fun _ _ _ hi _ hs => ⟨base_step hi.1 hs, placed_step hi.1 hi.2 hs⟩

/-- A dispatch in a reachable state is rate-monotonic exactly when no stale pid hides
    others and no released task out of its sight has the shortest period. -/
theorem rate_monotonic_iff (h : Run (step cfg) anyEvent init s) (hc : hasQueue cpu = true)
    (clk : Nat → UInt64) :
    RateMonotonic cfg.features clk cpu s ↔ Clear cpu s :=
  ⟨clear_of_rate_monotonic _ _ hc (reachable h).2 (reachable h).1.1,
    rate_monotonic_of_clear _ _ hc (reachable h).2 (reachable h).1.1⟩

/-- A task of CPU 3 registers, enters SCHED_EXT, runs and yields. -/
def parked (pid : Pid) (period : UInt64) : List Ev :=
  enrolled pid 1 period ++
    [.enqueue pid 3, .dispatch 3 [], .running pid [], .yield pid [], .stopping pid true [],
    .enqueue pid 3]

/-- Task 8 is released before task 7, which has the shortest period there is. -/
theorem rate_monotonic_of_two :
    ∃ s, Run (step (config false)) anyEvent init s ∧ queued s.cpuQueues 3 = [8, 7] ∧
      ∀ clk, RateMonotonic (config false).features clk 3 s := by
  obtain ⟨s, hr, hs⟩ := run_of_exec_any (step (config false)) init
    (parked 7 1 ++ parked 8 20 ++ [.tick 20, .periodExpiry 8 [], .periodExpiry 7 []])
    (fun s => decide (queued s.cpuQueues 3 = [8, 7] ∧ found s 8 = true ∧ posOf s 7 = some .held ∧
      periodOf s 7 = some 1)) (by decide +kernel)
  obtain ⟨hq, h8, h7, hper⟩ := of_decide_eq_true hs
  refine ⟨s, hr, hq, fun clk => (rate_monotonic_iff hr (by decide) clk).mpr ⟨by simpa [hq] using h8, ?_⟩⟩
  intro r _ _ w hw
  obtain ⟨a, ha, rfl⟩ := Option.map_eq_some_iff.mp hw
  refine .inl ⟨7, .inr ⟨by simp [hq], h7, by simp [hper]⟩, 1, hper, ?_⟩
  have := (((reachable hr).1.2 r).params a ha).2
  grind

/-- Task 7 dies while its pid is queued. The dispatch that pops it leaves task 8 behind it
    in the queue. -/
theorem a_stale_pid_hides_a_task : ∃ s, Run (step (config false)) anyEvent init s ∧
    ¬ RateMonotonic (config false).features (fun _ => 0) 3 s := by
  obtain ⟨s, hr, hs⟩ := run_of_exec_any (step (config false)) init
    (parked 7 10 ++ parked 8 20 ++ [.tick 20, .periodExpiry 7 [], .periodExpiry 8 [], .dequeue 7,
      .enqueue 7 3, .running 7 [], .die 7, .stopping 7 false []])
    (fun s => decide (queued (rmsDispatch (config false).features (fun _ => 0) 3 s).cpuQueues 3 = [8]))
    (by decide +kernel)
  refine ⟨s, hr, ?_⟩
  intro h
  have := h.drained
  rw [of_decide_eq_true hs] at this
  cases this

end Ksight.Rms.Dispatch
