/-
  Ksight.ProcImage.Children — threads that make children and exit, under the probes of
  KeytimeImage (src/process/proc_image/bpf/keytime_image.bpf.c).

  Threads call fork, vfork and pthread_create and exit, in any order. The return probe of
  fork and the tracepoint of clone3 run in the parent some time after the child is there;
  in the child, where the result is 0, they do nothing. The return probe of a vfork that
  succeeds runs in the child, one that fails returns to its caller. An exit_group ends the
  other threads of the process where they are.
-/

import Mathlib.Logic.Function.Basic
import Ksight.ProcImage.KeytimeImage

namespace Ksight.ProcImage.KeytimeImage

open Ksight.Lib

inductive Kind where
  | fork
  | vfork
  | pthread
  deriving DecidableEq

def Kind.type : Kind → Int32
  | .fork => 4
  | .vfork => 6
  | .pthread => 8

@[ext]
structure Creation where
  kind : Kind
  parent : Int32
  child : Int32
  deriving DecidableEq

def Creation.info (k : Creation) : ChildInfo := ⟨k.kind.type, k.parent⟩

def Creation.enterEvent (k : Creation) : KeytimeEvent := childEvent k.kind.type k.parent k.child

def Creation.exitEvent (k : Creation) : KeytimeEvent := childEvent (k.kind.type + 1) k.parent k.child

/-- Where a thread is: in a call that has made the child `ret` or failed, a child that has
    not returned from vfork yet, or in a part of pthread_create without a child. -/
inductive Call where
  | run
  | fork (ret : Int32)
  | vfork (ret : Int32)
  | vforkChild
  | pthread
  | clone3 (ret : Int32)
  deriving DecidableEq

/-- A thread, with the creation it comes from if its parent passed the filter, and whether
    the probe of that creation has run. -/
structure Thread where
  tgid : Int32
  realParent : Int32
  call : Call
  origin : Option Creation
  noticed : Bool

structure St where
  maps : Maps
  thread : Int32 → Option Thread
  /-- All threads there have been. -/
  tids : List Int32
  /-- The children made by parents that pass the filter, and those of them that exited. -/
  created : Creation → Nat
  exited : Creation → Nat

/-- A thread that is there when the probes are attached. -/
structure Existing where
  tid : Int32
  tgid : Int32
  realParent : Int32
  pos : 0 < tid

def init (start : List Existing) : St where
  maps := .empty
  thread t := (start.find? (·.tid = t)).map fun x => ⟨x.tgid, x.realParent, .run, none, true⟩
  tids := start.map Existing.tid
  created _ := 0
  exited _ := 0

inductive Ev where
  | fork (t c : Int32)
  | forkFails (t : Int32)
  | forkReturn (t : Int32)
  | vfork (t c : Int32)
  | vforkFails (t : Int32)
  | vforkReturn (t : Int32)
  /-- The parent goes on after its child has returned from vfork. -/
  | vforkResume (t : Int32)
  | pthreadCreate (t : Int32)
  | clone3 (t c : Int32)
  | clone3Fails (t : Int32)
  | clone3Exit (t : Int32)
  | pthreadReturn (t : Int32)
  /-- The children of the thread, or of the process, get another parent. -/
  | exit (t reaper : Int32) (status : UInt64)
  | exitGroup (t reaper : Int32) (status : UInt64)

variable (f : Filter)

/-- The filter of the law on a parent: `target_pid` is -1 or the parent. -/
def Passes (t : Int32) : Prop := f.targetPid = -1 ∨ f.targetPid = t

instance (t : Int32) : Decidable (Passes f t) := inferInstanceAs (Decidable (_ ∨ _))

def Thread.current (x : Thread) (t : Int32) : Current := ⟨t, x.tgid, 0, true⟩

theorem Thread.current_reserve (x : Thread) (t : Int32) : (x.current t).reserve = true := rfl

def St.setCall (st : St) (t : Int32) (call : Call) : St :=
  { st with thread := Function.update st.thread t ((st.thread t).map fun x => { x with call := call }) }

/-- A child comes to life. -/
def St.create (st : St) (k : Creation) (tgid realParent : Int32) (call : Call) : St :=
  { st with
    thread := Function.update st.thread k.child
      (some ⟨tgid, realParent, call, if Passes f k.parent then some k else none, false⟩)
    tids := k.child :: st.tids
    created := if Passes f k.parent then Function.update st.created k (st.created k + 1) else st.created }

/-- The probe of a creation has run. -/
def St.notice (st : St) (k : Creation) : St :=
  { st with
    thread := Function.update st.thread k.child
      ((st.thread k.child).map fun x => if x.origin = some k then { x with noticed := true } else x) }

def St.die (st : St) (dead : Int32 → Bool) (reaper : Int32) : St :=
  { st with
    thread := fun u =>
      if dead u then none
      else (st.thread u).map fun x => if dead x.realParent then { x with realParent := reaper } else x
    exited := fun k =>
      st.exited k + if dead k.child ∧ (st.thread k.child).bind Thread.origin = some k then 1 else 0 }

/-- The other threads of a process. -/
def St.group (st : St) (tgid : Int32) (u : Int32) : Bool := (st.thread u).any (·.tgid = tgid)

def step (e : Ev) (st : St) : Option St :=
  match e with
  | .fork t c => (st.thread t).bind fun x =>
    if x.call = .run ∧ (st.thread c).isNone ∧ 0 < c then
      some ((st.setCall t (.fork c)).create f ⟨.fork, t, c⟩ c t .run)
    else none
  | .forkFails t => (st.thread t).bind fun x =>
    if x.call = .run then some (st.setCall t (.fork (-1))) else none
  | .forkReturn t => (st.thread t).bind fun x =>
    match x.call with
    | .fork ret =>
      if st.maps.child.HasRoom ret then
        some ({ st.setCall t .run with maps := forkExit f (x.current t) ret st.maps }.notice ⟨.fork, t, ret⟩)
      else none
    | _ => none
  | .vfork t c => (st.thread t).bind fun x =>
    if x.call = .run ∧ (st.thread c).isNone ∧ 0 < c then
      some ((st.setCall t (.vfork c)).create f ⟨.vfork, t, c⟩ c t .vforkChild)
    else none
  | .vforkFails t => (st.thread t).bind fun x =>
    if x.call = .run then some (st.setCall t (.vfork (-1))) else none
  | .vforkReturn t => (st.thread t).bind fun x =>
    if st.maps.child.HasRoom t then
      let st' := { st.setCall t .run with maps := vforkExit f (x.current t) x.realParent st.maps }
      match x.call with
      | .vforkChild => some (st'.notice ⟨.vfork, x.realParent, t⟩)
      | .vfork ret => if ret = -1 then some st' else none
      | _ => none
    else none
  | .vforkResume t => (st.thread t).bind fun x =>
    match x.call with
    | .vfork ret =>
      if ret ≠ -1 ∧ ∀ y ∈ st.thread ret, ¬ (y.call = .vforkChild ∧ y.realParent = t) then some (st.setCall t .run)
      else none
    | _ => none
  | .pthreadCreate t => (st.thread t).bind fun x =>
    if x.call = .run ∧ st.maps.pthreadCreateEnable.HasRoom t then
      some { st.setCall t .pthread with maps := pthreadCreateEnter f (x.current t) st.maps }
    else none
  | .clone3 t c => (st.thread t).bind fun x =>
    if x.call = .pthread ∧ (st.thread c).isNone ∧ 0 < c then
      some ((st.setCall t (.clone3 c)).create f ⟨.pthread, t, c⟩ x.tgid x.realParent .run)
    else none
  | .clone3Fails t => (st.thread t).bind fun x =>
    if x.call = .pthread then some (st.setCall t (.clone3 (-1))) else none
  | .clone3Exit t => (st.thread t).bind fun x =>
    match x.call with
    | .clone3 ret =>
      if st.maps.child.HasRoom ret then
        some ({ st.setCall t .pthread with maps := sysExitClone3 f (x.current t) ret st.maps }.notice
          ⟨.pthread, t, ret⟩)
      else none
    | _ => none
  | .pthreadReturn t => (st.thread t).bind fun x =>
    if x.call = .pthread then
      some { st.setCall t .run with maps := pthreadCreateExit f (x.current t) st.maps }
    else none
  | .exit t reaper status => (st.thread t).bind fun x =>
    if x.call = .run then
      some { st.die (· = t) reaper with maps := sysEnterExit f (x.current t) status st.maps }
    else none
  | .exitGroup t reaper status => (st.thread t).bind fun x =>
    if x.call = .run then
      some { st.die (st.group x.tgid) reaper with maps := sysEnterExitGroup f (x.current t) status st.maps }
    else none

end Ksight.ProcImage.KeytimeImage
