/-
  Ksight.Rms.Places — where the tasks are.

  A task's `pos`, the dispatch queues and the CPUs' current tasks tell one story in every
  state of every run (`placed_step`): a DSQ is in the order of vtime and its entries are
  tasks that are queued, at their period; a task that waits is a live task of SCHED_EXT;
  and a CPU runs the tasks that are on it, one at most.
-/

import Ksight.Rms.Step

namespace Ksight.Rms

open Ksight.Lib

def posOf (s : St) (pid : Pid) : Option Pos := (s.tasks pid).map (·.pos)

def placeOf (s : St) (pid : Pid) : Option (Pos × Cpu) := (s.tasks pid).map fun t => (t.pos, t.cpu)

def periodOf (s : St) (pid : Pid) : Option UInt64 := (s.maps.taskAttr.lookup pid).map (·.period)

structure Placed (s : St) : Prop where
  sorted : ∀ d, (s.dsq d).Pairwise fun x y => x.1 ≤ y.1
  entry : ∀ d, ∀ x ∈ s.dsq d, posOf s x.2 = some .queued ∧ periodOf s x.2 = some x.1
  waiting : ∀ pid, ∀ t ∈ s.tasks pid, t.pos = .held ∨ t.pos = .queued → isLive t ∧ t.policy = schedExt
  running : ∀ cpu pid, s.curr cpu = some pid ↔ placeOf s pid = some (.on, cpu)

variable {cfg : Config}

/-! ## The order of a DSQ -/

theorem mem_insertVtime {x y : UInt64 × Pid} {entries : List (UInt64 × Pid)} :
    y ∈ insertVtime x entries ↔ y = x ∨ y ∈ entries := List.mem_orderedInsert _

theorem sorted_insertVtime (x : UInt64 × Pid) {entries : List (UInt64 × Pid)}
    (h : entries.Pairwise fun x y => x.1 ≤ y.1) : (insertVtime x entries).Pairwise fun x y => x.1 ≤ y.1 := by
  induction entries with
  | nil => simp [insertVtime]
  | cons y ys ih =>
    obtain ⟨hy, hys⟩ := List.pairwise_cons.mp h
    rw [insertVtime, List.orderedInsert_cons]
    split
    · rename_i hlt
      refine List.pairwise_cons.mpr ⟨?_, h⟩
      intro z hz
      rcases List.mem_cons.mp hz with rfl | hz
      · exact UInt64.le_of_lt hlt
      · exact UInt64.le_trans (UInt64.le_of_lt hlt) (hy z hz)
    · rename_i hge
      refine List.pairwise_cons.mpr ⟨?_, ih hys⟩
      intro z hz
      rcases mem_insertVtime.mp hz with rfl | hz
      · exact UInt64.not_lt.mp hge
      · exact hy z hz

/-! ## Periods -/

theorem period_cpumask {f : Features} {clk : Nat → UInt64} {q : Pid} {keeps : Bool} {v v' : View}
    (h : CpumaskStep f clk q keeps v v') : v'.attr.map (·.period) = v.attr.map (·.period) := by
  cases h with
  | same | init => rfl
  | cancel =>
    simp only [cancelView]
    split
    · rw [Option.map_map]; rfl
    · rfl

/-- Only a task that registers, stops or is reaped has its period changed. -/
theorem period_kept {s : St} {q : Pid} {e : Ev} {v v' : View} (h : ViewStep cfg s q e v v')
    (hc : ∀ c ∈ v.task, c.live = true ∧ c.on = false ∧ c.policy = schedExt) :
    v'.attr.map (·.period) = v.attr.map (·.period) := by
  cases h with
  | same | fork | repolicy | die => rfl
  | register ht _ hex => exact absurd hex (by simp [hc _ ht])
  | enter _ _ _ _ h => exact (period_cpumask h).trans rfl
  | reap ht hl _ => exact absurd hl (by simp [hc _ ht])
  | running =>
    unfold runningView
    split
    · split <;> rfl
    · rfl
  | stopping ht ho _ => exact absurd ho (by simp [hc _ ht])
  | yield =>
    unfold yieldView
    split
    · rename_i ha
      split
      · simp [ha]
      · rfl
    · rfl
  | setCpumask _ _ _ h => exact (period_cpumask h).trans rfl
  | budgetExpiry _ h =>
    cases h with
    | other | noAttr | overrun => rfl
    | spent _ ha => simp [budgetView, ha]
  | periodExpiry _ h =>
    cases h with
    | release _ _ ha => simp [releaseView, ha]
    | exit => rfl

theorem period_dispatch {f : Features} {q : Pid} {s s' : St} (h : DispatchStep f q s s') :
    periodOf s' q = periodOf s q := by
  show (view s' q).attr.map _ = (view s q).attr.map _
  cases h with
  | same hv _ => rw [hv]
  | restart _ ha _ hv => rw [hv]; simp [restartView, ha]

/-- The period of a task in a DSQ stays. -/
theorem periodOf_act {e : Ev} {s s' : St} (hb : Base s) (hp : Placed s) (h : act cfg e s = some s') {q : Pid}
    (hq : posOf s q = some .queued) : periodOf s' q = periodOf s q := by
  cases (act_effect hb h).2 q with
  | dispatch hd => exact period_dispatch hd
  | other _ hv =>
    apply period_kept hv
    intro c hc
    obtain ⟨t, ht, rfl⟩ := Option.map_eq_some_iff.mp hc
    have hpos : t.pos = .queued := by simpa [posOf, ht] using hq
    obtain ⟨hl, hpol⟩ := hp.waiting q t ht (.inr hpos)
    exact ⟨core_live.mpr hl, core_off (by simp [hpos]), hpol⟩

/-! ## One step -/

theorem Placed.congr {s s' : St} (h : Placed s) (ht : s'.tasks = s.tasks) (hd : s'.dsq = s.dsq)
    (hc : s'.curr = s.curr) (hp : ∀ q, posOf s q = some .queued → periodOf s' q = periodOf s q) :
    Placed s' := by
  have hpos : ∀ q, posOf s' q = posOf s q := fun q => by simp [posOf, ht]
  refine ⟨hd ▸ h.sorted, ?_, ht ▸ h.waiting, ?_⟩
  · intro d x hx
    rw [hd] at hx
    obtain ⟨h1, h2⟩ := h.entry d x hx
    exact ⟨hpos x.2 ▸ h1, (hp x.2 h1).trans h2⟩
  · intro cpu pid
    simpa [hc, placeOf, ht] using h.running cpu pid

/-- A change of one task, which is in no DSQ afterwards. -/
theorem Placed.update {s s' : St} (h : Placed s) {pid : Pid} {o : Option Task} {r : Cpu → Option Pid}
    (ht : s'.tasks = Function.update s.tasks pid o) (hd : ∀ d, s'.dsq d = (s.dsq d).filter (·.2 ≠ pid))
    (hc : s'.curr = r) (hp : ∀ q, posOf s q = some .queued → periodOf s' q = periodOf s q)
    (hw : ∀ t ∈ o, t.pos = .held ∨ t.pos = .queued → isLive t ∧ t.policy = schedExt)
    (hr : ∀ cpu q, r cpu = some q ↔
      (Function.update s.tasks pid o q).map (fun t => (t.pos, t.cpu)) = some (.on, cpu)) : Placed s' := by
  refine ⟨fun d => hd d ▸ (h.sorted d).filter _, ?_, ?_, ?_⟩
  · intro d x hx
    rw [hd, List.mem_filter] at hx
    obtain ⟨h1, h2⟩ := h.entry d x hx.1
    have hne : x.2 ≠ pid := by simpa using hx.2
    exact ⟨by simpa [posOf, ht, hne] using h1, (hp x.2 h1).trans h2⟩
  · intro q t hq
    rw [ht] at hq
    by_cases hne : q = pid
    · subst hne
      exact hw t (by simpa using hq)
    · exact h.waiting q t (by simpa [hne] using hq)
  · intro cpu q
    rw [hc, hr, placeOf, ht]

theorem Placed.filter {s : St} (h : Placed s) {pid : Pid} (hq : posOf s pid ≠ some .queued) (d : Nat) :
    s.dsq d = (s.dsq d).filter (·.2 ≠ pid) := by
  refine (List.filter_eq_self.mpr ?_).symm
  intro x hx
  have h1 := (h.entry d x hx).1
  simp only [ne_eq, decide_not, Bool.not_eq_eq_eq_not, Bool.not_true, decide_eq_false_iff_not]
  intro e
  exact hq (e ▸ h1)

/-- A change of one task that waits in no DSQ and is on its CPU, if it is, as before. -/
theorem Placed.retask {s s' : St} (h : Placed s) {pid : Pid} {o : Option Task}
    (ht : s'.tasks = Function.update s.tasks pid o) (hd : s'.dsq = s.dsq) (hc : s'.curr = s.curr)
    (hp : ∀ q, posOf s q = some .queued → periodOf s' q = periodOf s q)
    (hq : posOf s pid ≠ some .queued)
    (hw : ∀ t ∈ o, t.pos = .held ∨ t.pos = .queued → isLive t ∧ t.policy = schedExt)
    (hr : ∀ cpu, o.map (fun t => (t.pos, t.cpu)) = some (.on, cpu) ↔ placeOf s pid = some (.on, cpu)) :
    Placed s' := by
  apply h.update ht (fun d => hd ▸ h.filter hq d) hc hp hw
  intro cpu q
  rw [h.running]
  by_cases hne : q = pid
  · subst hne
    rw [← hr, Function.update_self]
  · rw [placeOf, Function.update_of_ne hne]

/-- A CPU that no other task is on takes or loses a task of its own. -/
theorem Placed.occupant {s : St} (h : Placed s) {pid : Pid} {t t' : Task} {c : Option Pid}
    (ht : s.tasks pid = some t) (hcpu : t'.cpu = t.cpu) (hcur : ∀ q ≠ pid, s.curr t.cpu ≠ some q)
    (hc : ∀ q, c = some q ↔ q = pid ∧ t'.pos = .on) (cpu : Cpu) (q : Pid) :
    Function.update s.curr t.cpu c cpu = some q ↔
      (Function.update s.tasks pid (some t') q).map (fun t => (t.pos, t.cpu)) = some (.on, cpu) := by
  have hrun := h.running cpu q
  rcases eq_or_ne q pid with rfl | hne <;> rcases eq_or_ne cpu t.cpu with rfl | hne'
  · simp [hc, hcpu]
  · simp only [Function.update_self, Function.update_of_ne hne', hrun, placeOf, ht]
    simp [hcpu, hne'.symm]
  · simp only [Function.update_self, Function.update_of_ne hne, hc, hne, false_and]
    exact iff_of_false id fun hq => hcur q hne (hrun.mpr hq)
  · simpa [hne, hne', placeOf] using hrun

theorem placed_insertVtime {s : St} (h : Placed s) {d : Nat} {vtime : UInt64} {pid : Pid}
    (hv : periodOf s pid = some vtime) :
    Placed (dsqInsertVtime d vtime pid s) := by
  unfold dsqInsertVtime
  split
  · rename_i t ht
    split
    · rename_i hheld
      have hpos : ∀ q, posOf s q = some .queued → q ≠ pid := by
        intro q hq e
        subst e
        simp [posOf, ht, hheld] at hq
      refine ⟨?_, ?_, ?_, ?_⟩
      · intro d'
        by_cases hne : d' = d
        · subst hne
          simpa using sorted_insertVtime _ (h.sorted d')
        · simpa [hne] using h.sorted d'
      · intro d' x hx
        have hx' : x = (vtime, pid) ∨ x ∈ s.dsq d' := by
          by_cases hne : d' = d
          · subst hne
            simpa [mem_insertVtime] using hx
          · exact .inr (by simpa [hne] using hx)
        rcases hx' with rfl | hx'
        · exact ⟨by simp [posOf, setTask], hv⟩
        · obtain ⟨h1, h2⟩ := h.entry d' x hx'
          exact ⟨by simpa [posOf, setTask, hpos _ h1] using h1, h2⟩
      · intro q t' hq
        by_cases hne : q = pid
        · subst hne
          obtain rfl : _ = t' := by simpa [setTask] using hq
          exact fun _ => h.waiting q t ht (.inl hheld)
        · exact h.waiting q t' (by simpa [setTask, hne] using hq)
      · intro cpu q
        by_cases hne : q = pid
        · subst hne
          simpa [setTask, placeOf, ht, hheld] using h.running cpu q
        · simpa [setTask, placeOf, hne] using h.running cpu q
    · exact h
  · exact h

theorem placed_insertLocal {s : St} (h : Placed s) (pid : Pid) : Placed (dsqInsertLocal pid s) := by
  unfold dsqInsertLocal
  split
  · rename_i t ht
    split
    · rename_i hheld
      refine h.retask (o := some { t with pos := .queued }) rfl rfl rfl (fun _ _ => rfl)
        (by simp [posOf, ht, hheld]) ?_
        (by simp [placeOf, ht, hheld])
      intro t' ht' _
      cases ht'
      exact h.waiting pid t ht (.inl hheld)
    · exact h
  · exact h

theorem placed_moveToLocal {s : St} (h : Placed s) (d : Nat) (cpu : Cpu) :
    Placed (dsqMoveToLocal d cpu s) := by
  unfold dsqMoveToLocal
  split
  · exact h
  · rename_i v pid rest hd
    have hq : posOf s pid = some .queued := (h.entry d (v, pid) (by simp [hd])).1
    obtain ⟨t, ht, hpos⟩ := Option.map_eq_some_iff.mp hq
    have hpos' : ∀ q, posOf { s with
        tasks := Function.update s.tasks pid ((s.tasks pid).map fun t => { t with cpu := cpu }) } q =
        posOf s q := by
      intro q
      by_cases hne : q = pid
      · subst hne
        simp [posOf, ht]
      · simp [posOf, hne]
    refine ⟨?_, ?_, ?_, ?_⟩
    · intro d'
      by_cases hne : d' = d
      · subst hne
        have := h.sorted d'
        rw [hd] at this
        simpa using (List.pairwise_cons.mp this).2
      · simpa [hne] using h.sorted d'
    · intro d' x hx
      have hx' : x ∈ s.dsq d' := by
        by_cases hne : d' = d
        · subst hne
          rw [hd]; exact List.mem_cons_of_mem _ (by simpa using hx)
        · simpa [hne] using hx
      obtain ⟨h1, h2⟩ := h.entry d' x hx'
      exact ⟨(hpos' x.2).trans h1, h2⟩
    · intro q t' hq'
      by_cases hne : q = pid
      · subst hne
        obtain rfl : _ = t' := by simpa [ht] using hq'
        exact fun _ => h.waiting q t ht (.inr hpos)
      · exact h.waiting q t' (by simpa [hne] using hq')
    · intro c q
      by_cases hne : q = pid
      · subst hne
        simpa [placeOf, ht, hpos] using h.running c q
      · simpa [placeOf, hne] using h.running c q

theorem placed_quiet {s s' : St} (h : Placed s) (hq : Quiet s s')
    (hp : ∀ q, posOf s q = some .queued → periodOf s' q = periodOf s q) : Placed s' :=
  h.congr hq.tasks hq.dsq hq.curr hp

theorem periodOf_view {s s' : St} (h : view s' = view s) (q : Pid) : periodOf s' q = periodOf s q := by
  show (view s' q).attr.map _ = (view s q).attr.map _
  rw [h]

theorem periodOf_checkCpu (cpu : Cpu) (s : St) (q : Pid) : periodOf (checkCpu cpu s) q = periodOf s q :=
  periodOf_view (view_checkCpu cpu s) q

theorem periodOf_restartMigrated (clk : Nat → UInt64) {pid : Pid} {a : TaskAttr} {s : St}
    (ha : s.maps.taskAttr.lookup pid = some a) (q : Pid) :
    periodOf (restartMigrated clk pid a s) q = periodOf s q := by
  obtain ⟨expire, remain, hv⟩ := view_restartMigrated clk (s := s) ha
  show (view _ q).attr.map _ = (view s q).attr.map _
  rw [hv]
  by_cases hne : q = pid
  · subst hne
    simp [restartView, show (view s q).attr = some a from ha]
  · simp [hne]

theorem placed_checkCpu {s : St} (h : Placed s) (cpu : Cpu) : Placed (checkCpu cpu s) :=
  placed_quiet h (checkCpu_quiet cpu s) fun q _ => periodOf_checkCpu cpu s q

theorem placed_dispatchLoop {f : Features} {clk : Nat → UInt64} {cpu : Cpu} (i : Nat) {s : St}
    (h : Placed s) :
    Placed (dispatchLoop f clk cpu i s).2 := by
  unfold dispatchLoop
  split
  · exact h
  rename_i pid queues _
  have h' : Placed { s with cpuQueues := queues } := h.congr rfl rfl rfl fun _ _ => rfl
  simp only
  split
  · exact h'
  split
  · exact h'
  rename_i a ha
  split
  · have hper := periodOf_restartMigrated (fun j => clk (4 * i + j)) (s := { s with cpuQueues := queues }) ha
    refine placed_insertVtime
      (placed_checkCpu (placed_quiet h' (restartMigrated_maps ..).quiet fun q _ => hper q) cpu) ?_
    rw [periodOf_checkCpu, hper]
    simp [periodOf, show s.maps.taskAttr.lookup pid = some a from ha]
  · apply placed_insertVtime (placed_checkCpu h' cpu)
    rw [periodOf_checkCpu]
    simp [periodOf, show s.maps.taskAttr.lookup pid = some a from ha]

theorem placed_dispatch {f : Features} {clk : Nat → UInt64} {cpu : Cpu} {s : St} (h : Placed s) :
    Placed (rmsDispatch f clk cpu s) :=
  placed_moveToLocal (placed_checkCpu (bpfLoop_inv (fun i _ => placed_dispatchLoop i) maxTaskNr 0 h) cpu) _ _

theorem placed_enqueue {u : Pid} {curCpu : Cpu} {pid : Pid} {p : Task} {s : St} (h : Placed s) :
    Placed (rmsEnqueue u curCpu pid p s) := by
  unfold rmsEnqueue
  split
  · exact placed_insertLocal h pid
  split
  · exact h
  · rename_i a ha
    split
    · have hins : Placed (dsqInsertVtime (cpuToDsq p.cpu) a.period pid (checkCpu p.cpu s)) := by
        apply placed_insertVtime (placed_checkCpu h _)
        rw [periodOf_checkCpu]
        simp [periodOf, ha]
      simp only
      split
      · exact placed_quiet hins (kickCpu_quiet _ _) fun q _ => periodOf_view (view_kickCpu _ _) q
      · exact hins
    · exact h

theorem placed_act {e : Ev} {s s' : St} (hb : Base s) (hp : Placed s) (h : act cfg e s = some s') :
    Placed s' := by
  have hper := fun q hq => periodOf_act hb hp h (q := q) hq
  -- a task that is off its CPU or whose policy is another waits nowhere
  have hoff : ∀ {pid : Pid} {t : Task} {p : Pos}, s.tasks pid = some t → t.pos = p → p ≠ .queued →
      posOf s pid ≠ some .queued := fun ht hpos hne => by simp [posOf, ht, hpos, hne]
  cases e with
  | tick d =>
    simp only [act, Option.ite_none_right_eq_some, Option.some.injEq] at h
    obtain ⟨-, rfl⟩ := h
    exact hp.congr rfl rfl rfl hper
  | fork pid policy cpumask cpu =>
    simp only [act, Option.ite_none_right_eq_some, Option.some.injEq] at h
    obtain ⟨hn, rfl⟩ := h
    exact hp.retask rfl rfl rfl hper (by simp [posOf, hn]) (by simp) (by simp [placeOf, hn])
  | register pid cpu budget period =>
    obtain ⟨t, -, -, rfl⟩ := onTask_eq_some.mp h
    exact hp.congr rfl rfl rfl hper
  | setscheduler pid policy lags =>
    obtain ⟨t, ht, ⟨-, hpos, -⟩, rfl⟩ := onTask_eq_some.mp h
    have hq := setscheduler_quiet cfg (clkOf s.now lags) pid policy t s
    exact hp.retask hq.tasks hq.dsq hq.curr hper (hoff ht hpos (by simp)) (by simp [hpos])
      (by simp [placeOf, ht])
  | die pid =>
    obtain ⟨t, ht, ⟨-, hex⟩, rfl⟩ := onTask_eq_some.mp h
    have hw : ¬ (t.pos = .held ∨ t.pos = .queued) := by
      intro hw
      rcases hex with hon | hpol
      · simp [hon] at hw
      · exact hpol (hp.waiting pid t ht hw).2
    refine hp.retask (o := some { t with state := taskDead }) rfl rfl rfl hper ?_ ?_ (by simp [placeOf, ht])
    · simpa [posOf, ht] using fun hq => hw (.inr hq)
    · intro t' ht' hw'
      cases ht'
      exact absurd hw' hw
  | reap pid lags =>
    obtain ⟨t, ht, ⟨-, hpos, -⟩, rfl⟩ := onTask_eq_some.mp h
    have hq := (rmsDisable_maps (clkOf s.now lags) pid t s).quiet
    refine hp.retask (o := none) ?_ hq.dsq hq.curr hper (hoff ht hpos (by simp)) (by simp)
      (by simp [placeOf, ht, hpos])
    show Function.update (rmsDisable _ _ _ _).tasks pid none = _
    rw [hq.tasks]
  | selectCpu pid anyCpu =>
    obtain ⟨t, ht, ⟨-, -, hpos, -⟩, rfl⟩ := onTask_eq_some.mp h
    exact hp.retask rfl rfl rfl hper (hoff ht hpos (by simp)) (by simp [hpos]) (by simp [placeOf, ht, hpos])
  | migrate pid cpu =>
    obtain ⟨t, ht, ⟨-, hpos, -⟩, rfl⟩ := onTask_eq_some.mp h
    exact hp.retask rfl rfl rfl hper (hoff ht hpos (by simp)) (by simp [hpos]) (by simp [placeOf, ht, hpos])
  | enqueue pid curCpu =>
    obtain ⟨t, ht, ⟨hl, hpol, hpos⟩, rfl⟩ := onTask_eq_some.mp h
    refine placed_enqueue (hp.retask (o := some { t with pos := .held }) rfl rfl rfl (fun _ _ => rfl)
      (hoff ht hpos (by simp)) ?_ (by simp [placeOf, ht, hpos]))
    intro t' ht' _
    cases ht'
    exact ⟨hl, hpol⟩
  | dequeue pid =>
    obtain ⟨t, ht, hpos, rfl⟩ := onTask_eq_some.mp h
    apply hp.update (o := some { t with pos := .off }) rfl (fun _ => rfl) rfl hper (by simp)
    intro cpu q
    refine (hp.running cpu q).trans ?_
    by_cases hne : q = pid
    · subst hne
      rcases hpos with hpos | hpos <;> simp [placeOf, ht, hpos]
    · simp [placeOf, hne]
  | dispatch cpu lags =>
    simp only [act, Option.ite_none_right_eq_some, Option.some.injEq] at h
    obtain ⟨-, rfl⟩ := h
    exact (placed_dispatch hp).congr rfl rfl rfl fun _ _ => rfl
  | running pid lags =>
    obtain ⟨t, ht, ⟨-, hpol, hpos, hidle, -⟩, rfl⟩ := onTask_eq_some.mp h
    have hq := (rmsRunning_maps cfg.features (clkOf s.now lags) pid (setTask pid { t with pos := .on }
      { unqueue pid s with curr := Function.update s.curr t.cpu (some pid) })).quiet
    refine hp.update (o := some { t with pos := .on }) (r := Function.update s.curr t.cpu (some pid)) hq.tasks
      (fun d => congrFun hq.dsq d) hq.curr hper (by simp) ?_
    exact hp.occupant ht rfl (by simp [hidle]) (by simp [eq_comm])
  | stopping pid runnable lags =>
    obtain ⟨t, ht, ⟨hpos, -, -⟩, rfl⟩ := onTask_eq_some.mp h
    have hq := (rmsStopping_maps (clkOf s.now lags) pid t runnable { setTask pid { t with pos := .off } s with
      curr := Function.update s.curr t.cpu none, resched := s.resched.erase t.cpu }).quiet
    refine hp.update (o := some { t with pos := .off }) (r := Function.update s.curr t.cpu none) hq.tasks
      (fun d => ?_) hq.curr hper (by simp) ?_
    · rw [← hp.filter (hoff ht hpos (by simp))]
      exact congrFun hq.dsq d
    · have hcur : s.curr t.cpu = some pid := (hp.running t.cpu pid).mpr (by simp [placeOf, ht, hpos])
      exact hp.occupant ht rfl (by simp +contextual [hcur, eq_comm]) (by simp)
  | yield pid lags =>
    obtain ⟨t, -, -, rfl⟩ := onTask_eq_some.mp h
    have hq := (rmsYield_maps cfg.userschedPid (clkOf s.now lags) pid t
      { s with resched := insert t.cpu s.resched }).quiet
    exact hp.congr hq.tasks hq.dsq hq.curr hper
  | setCpumask pid cpumask lags =>
    obtain ⟨t, ht, ⟨-, hpos, -⟩, rfl⟩ := onTask_eq_some.mp h
    have hq := (rmsSetCpumask_maps cfg.features cfg.userschedPid (clkOf s.now lags) pid
      { t with cpusPtr := cpumask } cpumask (setTask pid { t with cpusPtr := cpumask } s)).quiet
    exact hp.retask hq.tasks hq.dsq hq.curr hper (hoff ht hpos (by simp)) (by simp [hpos])
      (by simp [placeOf, ht, hpos])
  | budgetExpiry pid cpu lags =>
    obtain ⟨b, -, -, rfl⟩ := act_budgetExpiry h
    have hq := (setBudget_quiet pid _ s).trans
      (rmsCallbackBudget_quiet cfg.features (clkOf s.now lags) pid cpu (fireBudget pid s))
    exact hp.congr hq.tasks hq.dsq hq.curr hper
  | periodExpiry pid lags =>
    obtain ⟨p, -, -, rfl⟩ := act_periodExpiry h
    have hq := (setSched_quiet pid _ s).trans
      (rmsCallbackPeriod_quiet (clkOf s.now lags) pid (fireSched pid s))
    exact hp.congr hq.tasks hq.dsq hq.curr hper

theorem placed_init : Placed init :=
  ⟨fun _ => .nil, fun _ _ h => by simp [init] at h, fun _ _ h => by simp [init] at h,
    fun _ _ => by simp [init, placeOf]⟩

/-- What is invariant of the scheduler's state, in any run. -/
theorem placed_step {e : Ev} {s s' : St} (hb : Base s) (hp : Placed s) (h : step cfg e s = some s') :
    Placed s' := placed_act hb hp (act_of_step h).2

end Ksight.Rms
