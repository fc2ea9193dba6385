/-
  Ksight.ProcImage.Current — what the probes of proc_image ask the kernel about the thread
  they run in (src/process/proc_image/bpf/*.bpf.c).
-/

namespace Ksight.ProcImage

/-- `pid` is the thread and `tgid` its process, as in the kernel. -/
structure Current where
  pid : Int32
  tgid : Int32
  ktime : UInt64
  /-- `bpf_ringbuf_reserve` succeeds. -/
  reserve : Bool

/-- The constants that select the threads. -/
structure Filter where
  targetPid : Int32
  ignoreTgid : Int32

def Filter.default : Filter := ⟨-1, -1⟩

/-- The condition at the head of the probes that read both constants. -/
def Filter.traces (f : Filter) (pid tgid : Int32) : Bool :=
  tgid ≠ f.ignoreTgid && (f.targetPid = -1 || pid = f.targetPid)

end Ksight.ProcImage
