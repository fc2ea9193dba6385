/-
  Ksight.Uringtrace.Handlers — the handlers of the io_uring events
  (src/net/uringtrace/bpf/uringtrace.bpf.c).

  All handlers are one program with parameters: count the event in `total`; where it is
  about a request, ask `__filter_event` and count it in `skipped` if it is not sampled; count it
  in `user`, reserve a record, and count it in `lost` if there is none. A counter is
  incremented by `__incr`, in four accesses (`Ksight.Lib.Increments`). Handlers run in any
  contexts (the CPUs, and what nests on them), each context one at a time, and their accesses
  come in any order. Lookups of the array `globals` never fail. The type of the events is
  missing under src/, but for its names; of a record the model has its type and the request,
  not the fields that are copied from the event.

  `inc_run`: what a run does to the counters is a run of increments.
-/

import Ksight.Lib.Increments

namespace Ksight.Uringtrace

open Ksight.Lib

/-- The elements of `globals`. -/
inductive Global where
  | pid
  | total
  | lost
  | skipped
  | unrelated
  | sampling
  | user
  deriving DecidableEq

/-- `enum tracepoint_t`. -/
inductive Tracepoint where
  | ioUringCreate
  | ioUringRegister
  | ioUringFileGet
  | ioUringSubmitSqe
  | ioUringQueueAsyncWork
  | ioUringPollArm
  | ioUringTaskAdd
  | ioUringTaskWorkRun
  | ioUringShortWrite
  | ioUringDefer
  | ioUringLink
  | ioUringFailLink
  | ioUringCqringWait
  | ioUringReqFailed
  | ioUringCqeOverflow
  | ioUringComplete
  | kprobeIoInitNewWorker
  | sysEnterIoUringSetup
  | sysExitIoUringSetup
  | sysEnterIoUringRegister
  | sysExitIoUringRegister
  | sysEnterIoUringEnter
  | sysExitIoUringEnter
  deriving DecidableEq

/-- A handler on its event: the type it submits, and the request that it filters by. -/
structure Handler where
  ty : Tracepoint
  req : Option UInt64
  deriving DecidableEq

/-- A handler that filters. -/
def handleRequest (ty : Tracepoint) (req : UInt64) : Handler := ⟨ty, some req⟩

/-- A handler that does not. -/
def handleEvent (ty : Tracepoint) : Handler := ⟨ty, none⟩

def handleCreate := handleEvent .ioUringCreate
def handleRegister := handleEvent .ioUringRegister
def handleFileGet := handleRequest .ioUringFileGet
def handleSubmitReq := handleRequest .ioUringSubmitSqe
def handleQueueAsyncWork := handleRequest .ioUringQueueAsyncWork
def handlePollArm := handleRequest .ioUringPollArm
def handleTaskAdd := handleRequest .ioUringTaskAdd
def handleTaskWorkRun := handleEvent .ioUringTaskWorkRun
def handleShortWrite := handleEvent .ioUringShortWrite
/-- It submits the type of the other one. -/
def handleLocalWorkRun := handleEvent .ioUringTaskWorkRun
def handleDefer := handleRequest .ioUringDefer
def handleLink := handleRequest .ioUringLink
def handleFailLink := handleRequest .ioUringFailLink
def handleCqringWait := handleEvent .ioUringCqringWait
def handleReqFailed := handleRequest .ioUringReqFailed
def handleCqeOverflow := handleEvent .ioUringCqeOverflow
def handleComplete := handleRequest .ioUringComplete
def handleIoInitNewWorker := handleEvent .kprobeIoInitNewWorker
def handleSysEnterIoUringSetup := handleEvent .sysEnterIoUringSetup
def handleSysExitIoUringSetup := handleEvent .sysExitIoUringSetup
def handleSysEnterIoUringRegister := handleEvent .sysEnterIoUringRegister
def handleSysExitIoUringRegister := handleEvent .sysExitIoUringRegister
def handleSysEnterIoUringEnter := handleEvent .sysEnterIoUringEnter
def handleSysExitIoUringEnter := handleEvent .sysExitIoUringEnter

/-- The product is computed in 64 bits and cut to 32. -/
def hash (req : UInt64) : UInt32 := (req.toUInt32.toUInt64 * 2654435761).toUInt32

/-- `true` for a request that is skipped. -/
def filterEvent (sampling : Int64) (req : UInt64) : Bool := sampling = 1 && hash req % 10 ≠ 0

/-! ## The contexts -/

/-- Where a handler is: inside the increment of a counter, or in front of a step. -/
inductive Pc where
  | total
  | filter (req : UInt64)
  | skipped
  | init
  | user
  | reserve
  | lost
  deriving DecidableEq

inductive Outcome where
  | skipped
  | lost
  | submitted
  deriving DecidableEq

structure St (ι : Type) where
  inc : Increments.St Global ι
  pc : ι → Option (Handler × Pc)
  /-- Ghost: the handlers that are through, and what became of their events. -/
  done : List (Handler × Outcome)

inductive Ev (ι : Type) where
  | enter (i : ι) (h : Handler)
  /-- The next access or step of a handler; `reserved` is what `bpf_ringbuf_reserve` says. -/
  | next (i : ι) (reserved : Bool)

variable {ι : Type} [DecidableEq ι]

/-- The user side sets `sampling` before it attaches the programs. -/
def init (sampling : Int64) : St ι :=
  ⟨Increments.init fun k => if k = .sampling then sampling else 0, fun _ => none, []⟩

/-- Where a handler goes when it is through an increment; `none` when it returns. -/
def afterIncrement (h : Handler) : Pc → Option Pc
  | .total => match h.req with
    | some req => some (.filter req)
    | none => some .init
  | .user => some .reserve
  | _ => none

/-- The outcome of a handler that returns there. -/
def outcomeAt : Pc → Outcome
  | .skipped => .skipped
  | _ => .lost

/-- A handler begins to increment a counter. -/
def St.begin (s : St ι) (i : ι) (h : Handler) (k : Global) (pc : Pc) : Option (St ι) :=
  (Increments.step (.begin i k) s.inc).map fun inc =>
    { s with inc := inc, pc := Function.update s.pc i (some (h, pc)) }

/-- The next access of a handler that is inside an increment. -/
def St.access (s : St ι) (i : ι) (h : Handler) (pc : Pc) : Option (St ι) :=
  (Increments.step (.next i) s.inc).map fun inc =>
    match inc.inside i, afterIncrement h pc with
    | some _, _ => { s with inc := inc }
    | none, some pc' => { s with inc := inc, pc := Function.update s.pc i (some (h, pc')) }
    | none, none => ⟨inc, Function.update s.pc i none, s.done ++ [(h, outcomeAt pc)]⟩

def step (e : Ev ι) (s : St ι) : Option (St ι) :=
  match e with
  | .enter i h =>
    match s.pc i with
    | some _ => none
    | none => s.begin i h .total .total
  | .next i reserved =>
    match s.pc i with
    | none => none
    | some (h, .filter req) =>
      if filterEvent (s.inc.cells .sampling) req then s.begin i h .skipped .skipped
      else some { s with pc := Function.update s.pc i (some (h, .init)) }
    | some (h, .init) => s.begin i h .user .user
    | some (h, .reserve) =>
      if reserved then
        some { s with pc := Function.update s.pc i none, done := s.done ++ [(h, .submitted)] }
      else s.begin i h .lost .lost
    | some (h, pc) => s.access i h pc

end Ksight.Uringtrace
