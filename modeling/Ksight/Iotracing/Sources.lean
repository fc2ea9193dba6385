/-
  Ksight.Iotracing.Sources — the probes on block requests and file accesses
  (src/fs/iotracing/bpf/iotracing.bpf.c: `should_process_device`, `bpf_rq_qos_issue`,
  `bpf_rq_qos_done`, `init_io_data`, `bpf_file_read_write`, `bpf_filemap_page_mkwrite`,
  `bpf_filemap_fault`).

  `start_info_map` has who issued a request under its device and first sector, until it is done.
  `io_source_map` has an entry for each file, or for a process and a device where the
  request has no file, with the bytes and the delays of its accesses. A request is its fields
  that the probes read; it completes as a whole, so that its sector stays what it was. The file
  of an access is open and has a dentry. A probe is one step. Nothing reads `max_d2c` and
  `max_q2c`, which are left out.
-/

import Ksight.Lib.BoundedMap

namespace Ksight.Iotracing

open Ksight.Lib

/-- The constants that select the devices. -/
structure Options where
  filterDevs : Vector UInt32 16
  filterDevCount : UInt32

def Options.shouldProcessDevice (o : Options) (dev : UInt32) : Bool :=
  if o.filterDevCount = 0 then true else (o.filterDevs.toList.take o.filterDevCount.toNat).contains dev

/-- A `comm`, and a name in a path. -/
abbrev Name := List UInt8

structure IoKey where
  pid : UInt32
  dev : UInt32
  inode : UInt64
  deriving DecidableEq

structure HashKey where
  dev : UInt32
  sector : UInt64
  deriving DecidableEq

structure IoStartInfo where
  inode : UInt64
  pid : UInt32
  dev : UInt32
  dataLen : UInt64
  biBlkg : UInt64
  comm : Name
  deriving DecidableEq

structure LatencyInfo where
  cnt : UInt64
  sumD2c : UInt64
  sumQ2c : UInt64
  deriving DecidableEq

structure IoData where
  tgid : UInt32
  pid : UInt32
  dev : UInt32
  flag : UInt32
  fsWriteBytes : UInt64
  fsReadBytes : UInt64
  blockWriteBytes : UInt64
  blockReadBytes : UInt64
  inode : UInt64
  blkcgGq : UInt64
  latency : LatencyInfo
  comm : Name
  filepath : List Name
  deriving DecidableEq

/-- `struct io_data data = {}`. -/
def IoData.zero : IoData := ⟨0, 0, 0, 0, 0, 0, 0, 0, 0, 0, ⟨0, 0, 0⟩, [], []⟩

structure Maps where
  ioSourceMap : BoundedMap IoKey IoData 512
  startInfoMap : BoundedMap HashKey IoStartInfo 4096

def Maps.empty : Maps := ⟨.empty, .empty⟩

/-- What the probes ask about the thread they run in. -/
structure Current where
  pidTgid : UInt64
  comm : Name

/-! ## Block requests -/

structure Request where
  /-- `major` and `first_minor` of the disk; `none` where they cannot be read. -/
  devn : Option (UInt32 × UInt32)
  partno : UInt32
  sector : UInt64
  cmdFlags : UInt32
  dataLen : UInt32
  startTimeNs : UInt64
  ioStartTimeNs : UInt64
  /-- The file of the first page; `i_ino` reads as 0 where it has none. -/
  inode : UInt64
  sDev : UInt32
  blkg : UInt64
  deriving DecidableEq

def reqOpMask : UInt32 := 0xff

/-- `1 << __REQ_META`. -/
def reqMeta : UInt32 := 0x1000

def reqOpRead : UInt32 := 0

def reqOpWrite : UInt32 := 1

def isWriteRequest (cmdFlags : UInt32) : Bool := cmdFlags &&& reqOpMask = reqOpWrite

/-- The sum binds tighter than the bitwise or. -/
def Request.hashKey (req : Request) : Option HashKey :=
  req.devn.map fun (major, firstMinor) =>
    let dev : UInt32 := (major &&& 0xfff) <<< 20 ||| (firstMinor &&& 0xff) + req.partno
    ⟨dev, req.sector⟩

/-- What the issuing thread is noted with. -/
def Request.startInfo (req : Request) (key : HashKey) (cur : Current) : IoStartInfo where
  inode := req.inode
  dev := if req.inode = 0 then key.dev else req.sDev
  pid := (cur.pidTgid >>> 32).toUInt32
  biBlkg := req.blkg
  dataLen := req.dataLen.toUInt64
  comm := cur.comm

variable (o : Options)

def rqQosIssue (req : Request) (cur : Current) (m : Maps) : Maps :=
  if req.cmdFlags &&& reqMeta ≠ 0 then m
  else
    match req.hashKey with
    | none => m
    | some key =>
      if o.shouldProcessDevice key.dev then
        { m with startInfoMap := (m.startInfoMap.update key (req.startInfo key cur)).getD m.startInfoMap }
      else m

/-- For direct IO the key has the process. -/
def IoStartInfo.ioKey (info : IoStartInfo) : IoKey where
  dev := info.dev
  inode := info.inode
  pid := if info.inode = 0 then info.pid else 0

/-- `none` for what is neither a read nor a write. -/
def account (req : Request) (info : IoStartInfo) (now : UInt64) (entry : IoData) : Option IoData :=
  let latency : LatencyInfo := {
    sumQ2c := entry.latency.sumQ2c + (now - req.startTimeNs)
    sumD2c := entry.latency.sumD2c + (now - req.ioStartTimeNs)
    cnt := entry.latency.cnt + 1 }
  if isWriteRequest req.cmdFlags then
    some { entry with blockWriteBytes := entry.blockWriteBytes + info.dataLen, latency }
  else if req.cmdFlags &&& reqOpMask = reqOpRead then
    some { entry with blockReadBytes := entry.blockReadBytes + info.dataLen, latency }
  else none

/-- What a new entry is labelled with. -/
def IoStartInfo.label (info : IoStartInfo) (data : IoData) : IoData :=
  { data with
    blkcgGq := info.biBlkg
    pid := info.pid
    dev := info.dev
    inode := info.inode
    comm := info.comm }

def rqQosDone (req : Request) (now : UInt64) (m : Maps) : Maps :=
  match req.hashKey with
  | none => m
  | some infoKey =>
    if o.shouldProcessDevice infoKey.dev then
      match m.startInfoMap.lookup infoKey with
      | none => m
      | some info =>
        let ioKey := info.ioKey
        let startInfoMap := m.startInfoMap.delete infoKey
        match m.ioSourceMap.lookup ioKey with
        | some entry =>
          match account req info now entry with
          | none => { m with startInfoMap }
          | some entry => ⟨(m.ioSourceMap.update ioKey entry).getD m.ioSourceMap, startInfoMap⟩
        | none =>
          match account req info now .zero with
          | none => { m with startInfoMap }
          | some data => ⟨(m.ioSourceMap.update ioKey (info.label data)).getD m.ioSourceMap, startInfoMap⟩
    else m

/-! ## File accesses -/

/-- The parent of the root is the root. -/
inductive Dentry where
  | root (name : Name)
  | child (name : Name) (parent : Dentry)

def Dentry.name : Dentry → Name
  | .root name => name
  | .child name _ => name

def Dentry.parent : Dentry → Dentry
  | .root name => .root name
  | .child _ parent => parent

def filepathMaxDepth : Nat := 8

def dnameInlineLen : Nat := 32

/-- A name as `bpf_probe_read_str` copies it, its end dotted if it reaches the last byte but one
    of the array. -/
def component (name : Name) : Name :=
  let copied := name.take (dnameInlineLen - 1)
  if copied.length > dnameInlineLen - 2 then copied.take (dnameInlineLen - 4) ++ [46, 46, 46] else copied

def filepathOf : Nat → Dentry → List Name
  | 0, _ => []
  | n + 1, dentry =>
    if component dentry.name = [] then [] else component dentry.name :: filepathOf n dentry.parent

structure File where
  inode : UInt64
  sDev : UInt32
  dentry : Dentry

/-- `pid` and `tgid` are the other way round. The path of the entry is still zero. -/
def initIoData (file : File) (cur : Current) (entry : IoData) : IoData :=
  { entry with
    pid := (cur.pidTgid >>> 32).toUInt32
    tgid := cur.pidTgid.toUInt32
    comm := cur.comm
    filepath := filepathOf filepathMaxDepth file.dentry }

def File.ioKey (file : File) : IoKey := ⟨0, file.sDev, file.inode⟩

/-- An entry that no file access has labelled yet is the file's from here on. -/
def File.adopt (file : File) (cur : Current) (entry : IoData) : IoData :=
  if entry.tgid = 0 then
    { initIoData file cur entry with dev := file.ioKey.dev, inode := file.ioKey.inode }
  else entry

/-- The probes on file accesses; `count` is what each of them does with the entry. -/
def fsAccess (file : File) (cur : Current) (count : IoData → IoData) (m : Maps) : Maps :=
  let key := file.ioKey
  if o.shouldProcessDevice key.dev then
    let entry := file.adopt cur ((m.ioSourceMap.lookup key).getD .zero)
    { m with ioSourceMap := (m.ioSourceMap.update key (count entry)).getD m.ioSourceMap }
  else m

def IoData.addWrite (entry : IoData) (count : UInt64) : IoData :=
  { entry with fsWriteBytes := entry.fsWriteBytes + count }

def IoData.addRead (entry : IoData) (count : UInt64) : IoData :=
  { entry with fsReadBytes := entry.fsReadBytes + count }

/-- `anyfs_file_read_iter` and `anyfs_file_write_iter`; `write` is the direction of the iterator. -/
def fileReadWrite (file : File) (cur : Current) (write : Bool) (count : UInt64) (kiFlags : UInt32) : Maps → Maps :=
  fsAccess o file cur fun entry =>
    { (if write then entry.addWrite count else entry.addRead count) with flag := kiFlags }

def pageSize : UInt64 := 4096

def filemapPageMkwrite (file : File) (cur : Current) : Maps → Maps :=
  fsAccess o file cur (·.addWrite pageSize)

def filemapFault (file : File) (cur : Current) : Maps → Maps :=
  fsAccess o file cur (·.addRead pageSize)

end Ksight.Iotracing
