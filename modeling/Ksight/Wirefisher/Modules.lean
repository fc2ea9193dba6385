/-
  Ksight.Wirefisher.Modules — loading and unloading of the four modules
  (src/net/wirefisher/src/process_module.cpp, ip_pro_port_module.cpp, cgroup_module.cpp,
  eth_module.cpp: `load_…_module`, `unload_…_module`; main.cpp: `main`).

  A load acquires its resources one by one and leaves them in the module's static
  variables; a call that fails goes to its `error` label, which releases what there is.
  `main` unloads every registered module at the end, in reverse order, also those whose
  load has failed or never ran: unload tests the same variables. Where a module's configuration
  is a scalar, the library throws when its section is looked for; nobody catches that, and it
  ends the program without any unload.

  The law (`ReleasedOnce`): each resource is released exactly once, after it was acquired.
  The `error` labels reset the variable of the BPF object and the cgroup's descriptor, and
  no other: what they release of the rest is released again by unload. The interface
  module's unload never frees the ring buffer.

  `main_releasedOnce_iff`: the law holds if and only if the loads end well (`Config.Harmless`).
  - Where none throws, no configured module's load fails after the first resource of that kind,
    and the interface module's load fails before its first hook (`harmless` of each module;
    broken by `an_egress_link_fails` and `ring_buffer_is_left`).
  - Where one throws, the loads up to it have left nothing (`closed` of each module). The cgroup
    module alone looks for its section before it opens anything; the others leave their object
    (`a_scalar_leaves_the_object`).
-/

import Mathlib.Logic.Function.Basic
import Ksight.Lib.Uses

namespace Ksight.Wirefisher.Modules

open Ksight.Lib

/-- The static variables that tell what a module has. -/
inductive Var
  | obj
  | recvmsgKprobe
  | sendmsgKprobe
  | nfFdIngress
  | nfFdEgress
  | cgroupFd
  | attachedE
  | attachedI
  | hookCreatedE
  | hookCreatedI
  | rb
  deriving DecidableEq

/-- `held v` is that variable `v` is not null, not -1, or true. -/
structure St where
  held : Var → Bool
  log : List (Use Var)

def St.init : St := ⟨fun _ => false, []⟩

def acquire (v : Var) (s : St) : St := ⟨Function.update s.held v true, s.log ++ [.acquire v]⟩

/-- The variable is set without anything acquired. -/
def mark (v : Var) (s : St) : St := { s with held := Function.update s.held v true }

/-- Releases what the variable tells of and leaves the variable as it is. -/
def release (v : Var) (s : St) : St := if s.held v then { s with log := s.log ++ [.release v] } else s

/-- Releases and resets the variable. -/
def clear (v : Var) (s : St) : St :=
  if s.held v then ⟨Function.update s.held v false, s.log ++ [.release v]⟩ else s

/-! ## A load -/

section
variable {κ : Type} [DecidableEq κ]

/-- The results of the calls of a load, and whether the library throws when the module's section
    is looked for. -/
structure Outcome (κ : Type) where
  ok : κ → Bool
  throws : Bool

/-- How a load ends: by an exception, or at the first call that fails, if any does. -/
inductive End (κ : Type)
  | threw
  | returned (failed : Option κ)
  deriving DecidableEq

def failing (calls : List κ) : List (End κ) := calls.map fun c => .returned (some c)

def hasThrown : End κ → Bool
  | .threw => true
  | .returned _ => false

/-- A load whose call `c` looks for the section. -/
def runLoad (c : κ) (stages : List (Stage κ St)) (r : Outcome κ) : End κ × St :=
  let before := stages.takeWhile fun t => t.call ≠ c
  if r.throws ∧ firstFailure r.ok before = none then (.threw, (runStages r.ok before .init).2)
  else (.returned (firstFailure r.ok stages), (runStages r.ok stages .init).2)

theorem runLoad_returned {c : κ} {stages : List (Stage κ St)} {r : Outcome κ}
    (h : hasThrown (runLoad c stages r).1 = false) :
    (runLoad c stages r).1 = .returned (firstFailure r.ok stages) := by
  unfold runLoad at h ⊢
  dsimp only at h ⊢
  split at h
  · cases h
  · rename_i hreturned
    rw [if_neg hreturned]

/-- What holds for each end of a load holds for all results. -/
theorem runLoad_cases {c : κ} {stages : List (Stage κ St)} {P : End κ → St → Prop}
    (hn : (stages.map Stage.call).Nodup)
    (hthrew : P .threw (runStages (fun _ => true) (stages.takeWhile fun t => t.call ≠ c) .init).2)
    (hreturned : ∀ f ∈ failures stages, P (.returned f) (runStages (fun c => decide (f ≠ some c)) stages .init).2)
    (r : Outcome κ) : P (runLoad c stages r).1 (runLoad c stages r).2 := by
  unfold runLoad
  dsimp only
  split
  · rename_i h
    have hbefore : ((stages.takeWhile fun t => t.call ≠ c).map Stage.call).Nodup :=
      hn.sublist ((List.takeWhile_sublist _).map Stage.call)
    rw [← runStages_firstFailure r.ok hbefore, h.2]
    exact hthrew
  · exact runStages_cases (P := fun f s => P (.returned f) s) hn hreturned r.ok

end

/-! ## The process module -/

namespace Process

/-- The calls of the load. `getRule` fails where it returns `false`; -1, for a rule that
    cannot be parsed, is not `false`. A program that is not found is a failure to attach. -/
inductive Call
  | getuid
  | openFile
  | load
  | attachRecvmsg
  | attachSendmsg
  | getRule
  | setupLocalIpMap
  | findHook
  | linkIngress
  | linkEgress
  | ringBufferNew
  deriving DecidableEq

def error (s : St) : St :=
  clear .obj (release .nfFdEgress (release .nfFdIngress (release .sendmsgKprobe (release .recvmsgKprobe s))))

def loadNetfilterModule : List (Stage Call St) :=
  [⟨.getuid, id, id⟩,
    ⟨.openFile, id, acquire .obj⟩,
    ⟨.load, clear .obj, id⟩,
    ⟨.attachRecvmsg, error, acquire .recvmsgKprobe⟩,
    ⟨.attachSendmsg, error, acquire .sendmsgKprobe⟩,
    ⟨.getRule, error, id⟩,
    ⟨.setupLocalIpMap, error, id⟩,
    ⟨.findHook, error, id⟩,
    ⟨.linkIngress, error, acquire .nfFdIngress⟩,
    ⟨.linkEgress, error, acquire .nfFdEgress⟩,
    ⟨.ringBufferNew, error, acquire .rb⟩]

def unloadNetfilterModule (s : St) : St :=
  clear .obj (release .nfFdEgress (release .nfFdIngress (release .sendmsgKprobe
    (release .recvmsgKprobe (release .rb s)))))

def loaded : Outcome Call → End Call × St := runLoad .getRule loadNetfilterModule

/-- The first failures, if any, that leave nothing to release twice. -/
def harmless : List (Option Call) :=
  [none, some .getuid, some .openFile, some .load, some .attachRecvmsg]

/-- The ends after which nothing is left: any failure. -/
def closed : List (End Call) :=
  failing [.getuid, .openFile, .load, .attachRecvmsg, .attachSendmsg, .getRule, .setupLocalIpMap, .findHook,
    .linkIngress, .linkEgress, .ringBufferNew]

end Process

/-! ## The port module -/

namespace Port

inductive Call
  | getuid
  | openFile
  | load
  | getRule
  | findHook
  | linkIngress
  | linkEgress
  | ringBufferNew
  deriving DecidableEq

def error (s : St) : St := clear .obj (release .nfFdEgress (release .nfFdIngress s))

def loadNetfilterModule : List (Stage Call St) :=
  [⟨.getuid, id, id⟩,
    ⟨.openFile, id, acquire .obj⟩,
    ⟨.load, clear .obj, id⟩,
    ⟨.getRule, error, id⟩,
    ⟨.findHook, error, id⟩,
    ⟨.linkIngress, error, acquire .nfFdIngress⟩,
    ⟨.linkEgress, error, acquire .nfFdEgress⟩,
    ⟨.ringBufferNew, error, acquire .rb⟩]

def unloadNetfilterModule (s : St) : St :=
  clear .obj (release .nfFdEgress (release .nfFdIngress (release .rb s)))

def loaded : Outcome Call → End Call × St := runLoad .getRule loadNetfilterModule

def harmless : List (Option Call) :=
  [none, some .getuid, some .openFile, some .load, some .getRule, some .findHook, some .linkIngress]

def closed : List (End Call) :=
  failing [.getuid, .openFile, .load, .getRule, .findHook, .linkIngress, .linkEgress, .ringBufferNew]

end Port

/-! ## The cgroup module -/

namespace Cgroup

inductive Call
  | getuid
  | cgroupRule
  | openFile
  | load
  | getRule
  | openCgroup
  | findEgress
  | attachEgress
  | findIngress
  | attachIngress
  | ringBufferNew
  deriving DecidableEq

/-- The object is left for unload. -/
def error (s : St) : St := clear .cgroupFd (release .attachedE (release .attachedI s))

def loadCgroupModule : List (Stage Call St) :=
  [⟨.getuid, id, id⟩,
    ⟨.cgroupRule, id, id⟩,
    ⟨.openFile, id, acquire .obj⟩,
    ⟨.load, clear .obj, id⟩,
    ⟨.getRule, error, id⟩,
    ⟨.openCgroup, error, acquire .cgroupFd⟩,
    ⟨.findEgress, error, id⟩,
    ⟨.attachEgress, error, acquire .attachedE⟩,
    ⟨.findIngress, error, id⟩,
    ⟨.attachIngress, error, acquire .attachedI⟩,
    ⟨.ringBufferNew, error, acquire .rb⟩]

def unloadCgroupModule (s : St) : St :=
  clear .obj (clear .rb (clear .cgroupFd (clear .attachedE (clear .attachedI s))))

/-- It looks for its section before it opens the object. -/
def loaded : Outcome Call → End Call × St := runLoad .cgroupRule loadCgroupModule

def harmless : List (Option Call) :=
  [none, some .getuid, some .cgroupRule, some .openFile, some .load, some .getRule, some .openCgroup,
    some .findEgress, some .attachEgress]

/-- The `error` label leaves the object. -/
def closed : List (End Call) :=
  .threw :: failing [.getuid, .cgroupRule, .openFile, .load]

end Cgroup

/-! ## The interface module -/

namespace Eth

inductive Call
  | getuid
  | openFile
  | load
  | getRule
  | findPrograms
  | createEgress
  | createIngress
  | attachEgress
  | attachIngress
  | ringBufferNew
  deriving DecidableEq

def error (s : St) : St :=
  clear .obj (release .hookCreatedE (release .hookCreatedI (release .attachedE (release .attachedI s))))

/-- A hook that exists already (`-EEXIST`) is taken for created. -/
def hookCreate (exist : Bool) (v : Var) : St → St := if exist then mark v else acquire v

def loadEthModule (existE existI : Bool) : List (Stage Call St) :=
  [⟨.getuid, id, id⟩,
    ⟨.openFile, id, acquire .obj⟩,
    ⟨.load, clear .obj, id⟩,
    ⟨.getRule, error, id⟩,
    ⟨.findPrograms, error, id⟩,
    ⟨.createEgress, error, hookCreate existE .hookCreatedE⟩,
    ⟨.createIngress, error, hookCreate existI .hookCreatedI⟩,
    ⟨.attachEgress, error, acquire .attachedE⟩,
    ⟨.attachIngress, error, acquire .attachedI⟩,
    ⟨.ringBufferNew, error, acquire .rb⟩]

/-- The same as `error`. -/
def unloadEthModule (s : St) : St :=
  clear .obj (release .hookCreatedE (release .hookCreatedI (release .attachedE (release .attachedI s))))

def loaded (r : Outcome Call) (existE existI : Bool) : End Call × St := runLoad .getRule (loadEthModule existE existI) r

/-- It does not succeed: the ring buffer would be left. -/
def harmless : List (Option Call) :=
  [some .getuid, some .openFile, some .load, some .getRule, some .findPrograms, some .createEgress]

/-- The `error` label also destroys a hook that existed already. -/
def closed (existE existI : Bool) : List (End Call) :=
  failing ([.getuid, .openFile, .load, .getRule, .findPrograms, .createEgress] ++
    (if existE then [] else [.createIngress]) ++
    if existE || existI then [] else [.attachEgress, .attachIngress, .ringBufferNew])

end Eth

/-! ## The program -/

inductive Module
  | process
  | port
  | cgroup
  | eth
  deriving DecidableEq

/-- The results of the loads, `none` for a module that is not configured. -/
structure Config where
  process : Option (Outcome Process.Call)
  port : Option (Outcome Port.Call)
  cgroup : Option (Outcome Cgroup.Call)
  eth : Option (Outcome Eth.Call × Bool × Bool)

/-- The load of the module throws. -/
def Config.throws (c : Config) : Module → Bool
  | .process => c.process.any fun r => hasThrown (Process.loaded r).1
  | .port => c.port.any fun r => hasThrown (Port.loaded r).1
  | .cgroup => c.cgroup.any fun r => hasThrown (Cgroup.loaded r).1
  | .eth => c.eth.any fun (r, existE, existI) => hasThrown (Eth.loaded r existE existI).1

/-- A module after its turn in the loop over the registry. -/
def Config.loaded (c : Config) : Module → St
  | .process => c.process.elim .init fun r => (Process.loaded r).2
  | .port => c.port.elim .init fun r => (Port.loaded r).2
  | .cgroup => c.cgroup.elim .init fun r => (Cgroup.loaded r).2
  | .eth => c.eth.elim .init fun (r, existE, existI) => (Eth.loaded r existE existI).2

def unload : Module → St → St
  | .process => Process.unloadNetfilterModule
  | .port => Port.unloadNetfilterModule
  | .cgroup => Cgroup.unloadCgroupModule
  | .eth => Eth.unloadEthModule

/-- What is done when a module is unloaded. -/
def Config.unloadLog (c : Config) (m : Module) : List (Use Var) :=
  (unload m { c.loaded m with log := [] }).log

/-- The modules whose turn comes: all, or those up to the first whose load throws. -/
def Config.reached (c : Config) : List Module → List Module
  | [] => []
  | m :: ms => if c.throws m then [m] else m :: c.reached ms

/-- What the program does to the resources. Each module has static variables of its own. -/
def main (registry : List Module) (c : Config) : List (Use (Module × Var)) :=
  ((c.reached registry).flatMap fun m => (c.loaded m).log.map (Use.tag m)) ++
    if registry.any c.throws then []
    else registry.reverse.flatMap fun m => (c.unloadLog m).map (Use.tag m)

/-! ## One module -/

variable {κ : Type}

/-- What is done to a module's resources after its load has left `s`. -/
def released (unload : St → St) (s : St) : List (Use Var) := s.log ++ (unload { s with log := [] }).log

/-- The law for one module, by the end of its load, which is its own end if a load throws. -/
def SafeAt (unload : St → St) (harmless : List (Option κ)) (closed : List (End κ)) (e : End κ) (s : St) : Prop :=
  (ReleasedOnce s.log ↔ e ∈ closed) ∧
    match e with
    | .threw => True
    | .returned f => ReleasedOnce (released unload s) ↔ f ∈ harmless

instance [DecidableEq κ] (unload : St → St) (harmless : List (Option κ)) (closed : List (End κ)) (s : St) :
    ∀ e, Decidable (SafeAt unload harmless closed e s)
  | .threw => inferInstanceAs (Decidable ((_ ↔ _) ∧ True))
  | .returned _ => inferInstanceAs (Decidable ((_ ↔ _) ∧ (_ ↔ _)))

theorem process_safe (r : Outcome Process.Call) :
    SafeAt Process.unloadNetfilterModule Process.harmless Process.closed (Process.loaded r).1 (Process.loaded r).2 :=
  runLoad_cases (by decide) (by decide) (by decide) r

theorem port_safe (r : Outcome Port.Call) :
    SafeAt Port.unloadNetfilterModule Port.harmless Port.closed (Port.loaded r).1 (Port.loaded r).2 :=
  runLoad_cases (by decide) (by decide) (by decide) r

theorem cgroup_safe (r : Outcome Cgroup.Call) :
    SafeAt Cgroup.unloadCgroupModule Cgroup.harmless Cgroup.closed (Cgroup.loaded r).1 (Cgroup.loaded r).2 :=
  runLoad_cases (by decide) (by decide) (by decide) r

theorem eth_safe (existE existI : Bool) (r : Outcome Eth.Call) :
    SafeAt Eth.unloadEthModule Eth.harmless (Eth.closed existE existI) (Eth.loaded r existE existI).1
      (Eth.loaded r existE existI).2 := by
  cases existE <;> cases existI <;> exact runLoad_cases (by decide) (by decide) (by decide) r

/-- A module that was never loaded has nothing to release. -/
theorem unconfigured (m : Module) : ReleasedOnce (released (unload m) .init) := by
  cases m <;> decide

/-! ## The law -/

/-- The load of a configured module fails, if at all, where unload does no harm. -/
def Config.Released (c : Config) : Module → Prop
  | .process => ∀ r ∈ c.process, firstFailure r.ok Process.loadNetfilterModule ∈ Process.harmless
  | .port => ∀ r ∈ c.port, firstFailure r.ok Port.loadNetfilterModule ∈ Port.harmless
  | .cgroup => ∀ r ∈ c.cgroup, firstFailure r.ok Cgroup.loadCgroupModule ∈ Cgroup.harmless
  | .eth => ∀ r ∈ c.eth, firstFailure r.1.ok (Eth.loadEthModule r.2.1 r.2.2) ∈ Eth.harmless

/-- The load of a configured module has left nothing. -/
def Config.Closed (c : Config) : Module → Prop
  | .process => ∀ r ∈ c.process, (Process.loaded r).1 ∈ Process.closed
  | .port => ∀ r ∈ c.port, (Port.loaded r).1 ∈ Port.closed
  | .cgroup => ∀ r ∈ c.cgroup, (Cgroup.loaded r).1 ∈ Cgroup.closed
  | .eth => ∀ r ∈ c.eth, (Eth.loaded r.1 r.2.1 r.2.2).1 ∈ Eth.closed r.2.1 r.2.2

instance (c : Config) (m : Module) : Decidable (c.Released m) :=
  match m with
  | .process => inferInstanceAs (Decidable (∀ _ ∈ c.process, _))
  | .port => inferInstanceAs (Decidable (∀ _ ∈ c.port, _))
  | .cgroup => inferInstanceAs (Decidable (∀ _ ∈ c.cgroup, _))
  | .eth => inferInstanceAs (Decidable (∀ _ ∈ c.eth, _))

instance (c : Config) (m : Module) : Decidable (c.Closed m) :=
  match m with
  | .process => inferInstanceAs (Decidable (∀ _ ∈ c.process, _))
  | .port => inferInstanceAs (Decidable (∀ _ ∈ c.port, _))
  | .cgroup => inferInstanceAs (Decidable (∀ _ ∈ c.cgroup, _))
  | .eth => inferInstanceAs (Decidable (∀ _ ∈ c.eth, _))

/-- The condition. -/
def Config.Harmless (c : Config) (registry : List Module) : Prop :=
  if registry.any c.throws then ∀ m ∈ c.reached registry, c.Closed m else ∀ m ∈ registry, c.Released m

instance (c : Config) (registry : List Module) : Decidable (c.Harmless registry) :=
  inferInstanceAs (Decidable (if registry.any c.throws then ∀ m ∈ c.reached registry, c.Closed m
    else ∀ m ∈ registry, c.Released m))

theorem elim_iff {α : Type} (o : Option α) {load : α → St} {P : St → Prop} {Q : α → Prop} (hnone : P .init)
    (h : ∀ a ∈ o, P (load a) ↔ Q a) : P (o.elim .init load) ↔ ∀ a ∈ o, Q a := by
  cases o with
  | none => simpa using hnone
  | some a => simpa using h a rfl

theorem closed_iff (c : Config) (m : Module) : ReleasedOnce (c.loaded m).log ↔ c.Closed m := by
  have hinit : ReleasedOnce St.init.log := by decide
  cases m with
  | process => exact elim_iff (P := fun s => ReleasedOnce s.log) c.process hinit fun r _ => (process_safe r).1
  | port => exact elim_iff (P := fun s => ReleasedOnce s.log) c.port hinit fun r _ => (port_safe r).1
  | cgroup => exact elim_iff (P := fun s => ReleasedOnce s.log) c.cgroup hinit fun r _ => (cgroup_safe r).1
  | eth => exact elim_iff (P := fun s => ReleasedOnce s.log) c.eth hinit fun r _ => (eth_safe r.2.1 r.2.2 r.1).1

/-- A load that returns is judged by its first failure. -/
theorem SafeAt.of_returned [DecidableEq κ] {unload : St → St} {harmless : List (Option κ)} {closed : List (End κ)}
    {c : κ} {stages : List (Stage κ St)} {r : Outcome κ}
    (h : SafeAt unload harmless closed (runLoad c stages r).1 (runLoad c stages r).2)
    (hr : hasThrown (runLoad c stages r).1 = false) :
    ReleasedOnce (released unload (runLoad c stages r).2) ↔ firstFailure r.ok stages ∈ harmless := by
  rw [runLoad_returned hr] at h
  exact h.2

theorem released_iff (c : Config) (m : Module) (h : c.throws m = false) :
    ReleasedOnce ((c.loaded m).log ++ c.unloadLog m) ↔ c.Released m := by
  cases m with
  | process =>
    refine elim_iff (P := fun s => ReleasedOnce (released Process.unloadNetfilterModule s)) c.process
      (unconfigured .process) fun r hr => ?_
    have hreturned : hasThrown (Process.loaded r).1 = false := by simpa [Config.throws, Option.mem_def.mp hr] using h
    exact (process_safe r).of_returned hreturned
  | port =>
    refine elim_iff (P := fun s => ReleasedOnce (released Port.unloadNetfilterModule s)) c.port
      (unconfigured .port) fun r hr => ?_
    have hreturned : hasThrown (Port.loaded r).1 = false := by simpa [Config.throws, Option.mem_def.mp hr] using h
    exact (port_safe r).of_returned hreturned
  | cgroup =>
    refine elim_iff (P := fun s => ReleasedOnce (released Cgroup.unloadCgroupModule s)) c.cgroup
      (unconfigured .cgroup) fun r hr => ?_
    have hreturned : hasThrown (Cgroup.loaded r).1 = false := by simpa [Config.throws, Option.mem_def.mp hr] using h
    exact (cgroup_safe r).of_returned hreturned
  | eth =>
    refine elim_iff (P := fun s => ReleasedOnce (released Eth.unloadEthModule s)) c.eth
      (unconfigured .eth) fun r hr => ?_
    have hreturned : hasThrown (Eth.loaded r.1 r.2.1 r.2.2).1 = false := by
      simpa [Config.throws, Option.mem_def.mp hr] using h
    exact (eth_safe r.2.1 r.2.2 r.1).of_returned hreturned

theorem reached_sublist (c : Config) (registry : List Module) : (c.reached registry).Sublist registry := by
  induction registry with
  | nil => exact .slnil
  | cons m ms ih =>
    rw [Config.reached]
    split
    · exact (List.nil_sublist ms).cons_cons m
    · exact ih.cons_cons m

theorem reached_eq {c : Config} {registry : List Module} (h : ∀ m ∈ registry, c.throws m = false) :
    c.reached registry = registry := by
  induction registry with
  | nil => rfl
  | cons m ms ih =>
    obtain ⟨hm, hms⟩ := List.forall_mem_cons.mp h
    simp [Config.reached, hm, ih hms]

theorem main_releasedOnce_iff {registry : List Module} (hn : registry.Nodup) (c : Config) :
    ReleasedOnce (main registry c) ↔ c.Harmless registry := by
  unfold main Config.Harmless
  by_cases h : registry.any c.throws = true
  · -- an exception: no unload
    have hreached := hn.sublist (reached_sublist c registry)
    have hparties := releasedOnce_parties hreached hreached (fun _ => Iff.rfl) (fun m => (c.loaded m).log)
      fun _ => []
    have hnil : ((c.reached registry).flatMap fun _ => ([] : List (Use (Module × Var)))) = [] := by simp
    rw [if_pos h, if_pos h, ← hnil]
    refine hparties.trans ?_
    simp only [List.append_nil]
    exact forall₂_congr fun m _ => closed_iff c m
  · have hnone : ∀ m ∈ registry, c.throws m = false := by simpa using h
    rw [if_neg h, if_neg h, reached_eq hnone,
      releasedOnce_parties hn (List.nodup_reverse.mpr hn) (fun _ => List.mem_reverse)]
    exact forall₂_congr fun m hm => released_iff c m (hnone m hm)

/-- The modules as they may register. -/
def allModules : List Module := [.cgroup, .eth, .port, .process]

/-- All calls succeed, or all but one. -/
def allBut {κ : Type} [DecidableEq κ] (f : Option κ) : Outcome κ := ⟨fun c => decide (f ≠ some c), false⟩

/-- The interface module is not configured, the cgroup module finds no cgroup, and the process
    module finds no program to attach; or the process module's second link fails, and the cgroup
    module's configuration is a scalar. Each resource is released once. -/
theorem released_once :
    ReleasedOnce (main allModules
        ⟨some (allBut (some .attachRecvmsg)), some (allBut none), some (allBut (some .openCgroup)), none⟩) ∧
      ReleasedOnce (main allModules.reverse
        ⟨some (allBut (some .linkEgress)), none, some ⟨fun _ => true, true⟩, none⟩) :=
  ⟨(main_releasedOnce_iff (by decide) _).mpr (by decide), (main_releasedOnce_iff (by decide) _).mpr (by decide)⟩

/-- The second link of the port module fails: the first one's descriptor is closed by the
    load and again by unload. -/
theorem an_egress_link_fails :
    ¬ ∀ registry c, registry.Nodup → ReleasedOnce (main registry c) := by
  intro h
  exact absurd (h allModules ⟨none, some (allBut (some .linkEgress)), none, none⟩ (by decide)) (by decide)

/-- The interface module's load succeeds, and its ring buffer is never freed. -/
theorem ring_buffer_is_left :
    ¬ ReleasedOnce (main allModules ⟨none, none, none, some (allBut none, false, false)⟩) := by
  decide

/-- The port module's configuration is a scalar: its object stays open, and so does all that the
    cgroup module has. -/
theorem a_scalar_leaves_the_object :
    main allModules ⟨none, some ⟨fun _ => true, true⟩, some (allBut none), none⟩ =
      [.acquire (.cgroup, .obj), .acquire (.cgroup, .cgroupFd), .acquire (.cgroup, .attachedE),
        .acquire (.cgroup, .attachedI), .acquire (.cgroup, .rb), .acquire (.port, .obj)] := by
  decide

end Ksight.Wirefisher.Modules
