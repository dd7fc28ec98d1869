import Sandcube.Prog.Does
import Sandcube.Runtime.Basic

/-!
# The world of the runtime adapter

`services/containerd-runtime`: the state the adapter works on.

Three parts survive a crash of the adapter: containerd's records (`Containerd`), the host's
kernel objects with the journals about them (`Net`, `Quota`), and the process history on disk
(`History`).  The registry of processes, the goroutines that watch them and the requests that
wait for them are in its memory (`Memory`).

`Trace` is not part of the system.  It records what happened, for statements about whole runs;
no program reads it.
-/

namespace Sandcube.Adapter

/-- A process of a sandbox: the sandbox and the identifier of the process. -/
abbrev Key := String × String

/-- A sequence of bytes. -/
abbrev Bytes := List UInt8

/-- The errors of the adapter: the classes of `errdefs` it tells apart, and the others. -/
inductive Err where
  | notFound
  | alreadyExists
  | failedPrecondition
  | invalidArgument
  | other (message : String)
  deriving DecidableEq, Repr

/-! ### Identifiers -/

/-- `[a-zA-Z0-9_-]` -/
def wordChar (c : Char) : Bool := c.isAlphanum || c = '_' || c = '-'

/-- `validID`: `^sbx_[a-zA-Z0-9_-]{1,80}$` -/
def validID (id : String) : Bool :=
  match id.toList with
  | 's' :: 'b' :: 'x' :: '_' :: rest => 1 ≤ rest.length && rest.length ≤ 80 && rest.all wordChar
  | _ => false

/-- `[a-f0-9]` -/
def hexChar (c : Char) : Bool := c.isDigit || ('a' ≤ c && c ≤ 'f')

/-- `validProcessID`: `^proc_[a-f0-9]{32}$` -/
def validProcessID (id : String) : Bool :=
  match id.toList with
  | 'p' :: 'r' :: 'o' :: 'c' :: '_' :: rest => rest.length = 32 && rest.all hexChar
  | _ => false

/-! ### containerd -/

/-- The state of a task or of an exec, as far as the adapter's own calls can take it. -/
inductive TaskStatus where
  | created | running | stopped
  deriving DecidableEq, Repr

/-- An exec record.  A stopped one has an exit status and perhaps an exit time. -/
inductive ExecState where
  | created
  | running
  | stopped (code : UInt32) (time : Option Time)
  deriving DecidableEq, Repr

/-- The runtime of sandboxes. -/
def runtimeName : String := "io.containerd.runsc.v1"

/-- A container record: its labels, its runtime and its snapshot. -/
structure Container where
  /-- The label `sandcube.managed`, empty where it is not set. -/
  owner : String
  runtime : String
  /-- The label `sandcube.config`. -/
  config : String
  /-- The label `sandcube.disk_mb`. -/
  diskMb : ℤ
  snapshotKey : String
  deriving DecidableEq

/-- What `load` requires of a container. -/
def Container.managed (c : Container) : Bool := c.owner = "true" ∧ c.runtime = runtimeName

/-- A snapshot record: its label `sandcube.managed`, and the number that names its directory. -/
structure Snapshot where
  owner : String
  number : ℕ
  deriving DecidableEq

/-- The snapshot has the label of the adapter. -/
def Snapshot.managed (s : Snapshot) : Bool := s.owner = "true"

@[simp] theorem Snapshot.managed_mk (number : ℕ) : Snapshot.managed ⟨"true", number⟩ = true := by
  simp [managed]

/-- The records of containerd. -/
structure Containerd where
  containers : Table String Container
  tasks : Table String TaskStatus
  execs : Table Key ExecState
  snapshots : Table String Snapshot
  /-- The number of the next snapshot; numbers are not used twice. -/
  nextSnapshot : ℕ

/-! ### Processes -/

/-- The status words of a process record. -/
inductive ProcessStatus where
  | starting | running | exited | error
  deriving DecidableEq, Repr

/-- `ProcessInfo`, also the content of `process.json`. -/
structure ProcessInfo where
  requestHash : String
  timeout : ℤ
  timedOut : Bool
  id : String
  sandboxId : String
  command : List String
  status : ProcessStatus
  exitCode : Option UInt32
  startedAt : Time
  completedAt : Option Time
  error : String
  deriving DecidableEq

/-- The process a record is about. -/
def ProcessInfo.key (info : ProcessInfo) : Key := (info.sandboxId, info.id)

/-- `ExecRequest`.  The environment is a map; its entries are in the order of their names. -/
structure ExecRequest where
  requestId : String
  command : List String
  cwd : String
  env : List (String × String)
  timeout : ℤ
  deriving DecidableEq

/-- `ExecResult` -/
structure ExecResult where
  stdout : Bytes
  stderr : Bytes
  exitCode : UInt32
  timedOut : Bool
  truncated : Bool
  deriving DecidableEq

/-- Where the goroutine of `watchProcess` is. -/
inductive WatchPhase where
  /-- At the head of the loop. -/
  | poll
  /-- The deadline has passed; the kill is next. -/
  | late
  /-- The runtime does not know the process. -/
  | missing
  /-- The runtime reported the exit. -/
  | stopped (code : UInt32) (time : Option Time)
  /-- The exit is saved; the runtime's record goes next. -/
  | saved
  deriving DecidableEq

/-- How far a call of `StartProcess` has come: it made the pipes, it called `proc.Start`, and that
call succeeded. -/
inductive Launch where
  | fresh | piped | tried | begun
  deriving DecidableEq

/-- What recovery has learned about the exec of a record. -/
inductive Seen where
  | nothing | missing | created | begun
  deriving DecidableEq

/-- Who writes a record: the call of `StartProcess` that made it, the recovery that read it, its
watcher, or nobody any more (`done` is closed). -/
inductive Stage where
  | building (launch : Launch)
  | recovering (seen : Seen)
  | watched (phase : WatchPhase)
  | done
  deriving DecidableEq

/-- `trackedProcess` -/
structure Tracked where
  info : ProcessInfo
  /-- `proc` is set: the runtime's exec can be addressed. -/
  proc : Bool
  stage : Stage
  deriving DecidableEq

/-- Where a call of `waitExec` is. -/
inductive WaitPhase where
  /-- In the `select`. -/
  | select
  /-- The timer fired; `KillProcess` begins. -/
  | kill
  /-- `KillProcess` sends its signal to the exec of this record. -/
  | signal (object : ℕ)
  /-- `KillProcess` waits for this record. -/
  | killed (object : ℕ)
  /-- The snapshot is next. -/
  | finish
  /-- The files are read one after the other. -/
  | readStdout (result : ExecResult)
  | readStderr (result : ExecResult)
  | statStdout (result : ExecResult)
  | statStderr (result : ExecResult)
  /-- The call has returned. -/
  | ended
  deriving DecidableEq

/-- A call of `waitExec`. -/
structure Waiter where
  key : Key
  /-- The record it got from `PrepareExec`. -/
  object : ℕ
  timedOut : Bool
  phase : WaitPhase
  deriving DecidableEq

/-- The memory of the adapter. -/
structure Memory where
  /-- Every record made since the start, in order; a record is addressed by its position. -/
  heap : List Tracked
  /-- `Runtime.processes`: the process identifiers, over all sandboxes. -/
  registry : Table String ℕ
  waiters : List Waiter
  /-- The socket is open: recovery is over. -/
  serving : Bool

/-- The adapter before recovery. -/
def Memory.fresh : Memory := ⟨[], .empty, [], false⟩

/-- The directory of one process.  `stdout` and `stderr` are there once the collector opened
them. -/
structure Dir where
  /-- `process.json` -/
  record : Option ProcessInfo
  pipes : List String
  /-- The collector runs. -/
  collecting : Bool
  stdout : Option Bytes
  stderr : Option Bytes
  stdoutTruncated : Bool
  stderrTruncated : Bool
  /-- `logs.done` -/
  logsDone : Bool
  deriving DecidableEq

/-- A directory that was just made. -/
def Dir.fresh : Dir := ⟨none, [], false, none, none, false, false, false⟩

/-- The process history: the directories of the sandboxes and of their processes. -/
structure History where
  homes : List String
  dirs : Table Key Dir

/-- `process.json` of a process. -/
def History.record? (h : History) (k : Key) : Option ProcessInfo := (h.dirs.find? k).bind Dir.record

/-! ### The network -/

/-- An IPv4 address. -/
structure Address where
  a : ℕ
  b : ℕ
  c : ℕ
  d : ℕ
  deriving DecidableEq

/-- `networkRecord`, the content of `.networks/<id>.json`. -/
structure NetworkRecord where
  id : String
  name : String
  guest : Address
  gateway : Address
  subnet : Address
  deriving DecidableEq

/-- A veth pair, by its end on the host. -/
structure Link where
  gateway : Option Address
  guest : Option Address
  up : Bool
  deriving DecidableEq

/-- A connection tracking entry, with the sandbox whose traffic made it. -/
structure Flow where
  sandbox : String
  guest : Address
  inbound : Bool
  deriving DecidableEq

/-- The network objects of the host, with the adapter's journal. -/
structure Net where
  records : Table String NetworkRecord
  /-- The nft tables, with the guest address each one names. -/
  tables : Table String Address
  links : Table String Link
  namespaces : List String
  conntrack : List Flow
  /-- The directories `.networks/<id>`. -/
  resolvers : List String
  /-- Subnets of the pool that others route or filter. -/
  foreign : Address → Bool

/-! ### Disk quotas -/

/-- A path, by its components. -/
structure Path where
  absolute : Bool
  parts : List String
  deriving DecidableEq

/-- Blocks and inodes: limits of a project or charges to it. -/
structure Amount where
  blocks : ℕ
  inodes : ℕ
  deriving DecidableEq

/-- No limits, or nothing charged. -/
def Amount.zero : Amount := ⟨0, 0⟩

/-- `quotaRecord`, the content of `.quotas/<id>.json`. -/
structure QuotaRecord where
  id : String
  parent : Path
  project : ℕ
  diskMb : ℤ
  deriving DecidableEq

/-- The snapshot directories, the kernel's project quotas and the adapter's journal. -/
structure Quota where
  /-- The snapshot directories that exist, by their numbers. -/
  directories : List ℕ
  limits : ℕ → Amount
  usage : ℕ → Amount
  /-- Directories under a snapshot that carry the project of the snapshot. -/
  attributes : List (ℕ × String)
  journals : Table String QuotaRecord

/-! ### What happened -/

/-- Events that some results exclude. -/
inductive Incident where
  /-- The task of the sandbox was deleted before its processes were settled. -/
  | unsettled (id : String)
  /-- The process was registered under an identifier that another sandbox had. -/
  | collision (k : Key)
  /-- The timer of a call of `waitExec` fired after the exit was noted. -/
  | overdue (k : Key)
  /-- `KillProcess` returned to a call of `waitExec` before the exit was saved. -/
  | early (k : Key)
  /-- The exit was noted while the collector was at work. -/
  | cutLogs (k : Key)
  /-- The runtime's record went missing after the exit was noted. -/
  | lateMissing (k : Key)
  /-- Recovery found a process alive that the record says has ended. -/
  | revived (k : Key)
  /-- Recovery found a process alive whose exit code the record has. -/
  | undead (k : Key)
  deriving DecidableEq

/-- The history of a run. -/
structure Trace where
  /-- The calls of `Start` on execs, since the container was created. -/
  invoked : List Key
  /-- Those that succeeded. -/
  started : List Key
  /-- The exit status of each exec that stopped. -/
  exits : Key → Option UInt32
  /-- The requests for which processes were registered. -/
  requests : List (Key × ExecRequest)
  /-- The results that `waitExec` returned. -/
  results : List (Key × ExecResult)
  incidents : List Incident

/-- The state of the host. -/
structure World where
  containerd : Containerd
  history : History
  memory : Memory
  net : Net
  quota : Quota
  trace : Trace

/-- What the adapter computes with hashes, and where the snapshots are. -/
structure Host where
  /-- SHA-256 of the JSON text of a request for a process. -/
  requestHash : ExecRequest → String
  /-- SHA-256 of the JSON text of a configuration. -/
  configHash : Spec → String
  /-- `networkName`: SHA-256 of namespace and sandbox. -/
  networkName : String → String
  /-- The place in the address pool where the search begins. -/
  networkStart : String → ℕ
  /-- The components of the snapshotter's directory. -/
  snapshots : List String

namespace World

/-- The record at an address. -/
def object? (w : World) (a : ℕ) : Option Tracked := w.memory.heap[a]?

/-- The records of the registry that belong to a sandbox: `lookupProcess`. -/
def lookupProcess (w : World) (id pid : String) : Option (ℕ × Tracked) :=
  (w.memory.registry.find? pid).bind fun a =>
    (w.object? a).bind fun p => if p.info.sandboxId = id then some (a, p) else none

/-- The registered records of a sandbox. -/
def registered (w : World) (id : String) : List ℕ :=
  (w.memory.registry.rows.map Prod.snd).filter fun a =>
    (w.object? a).any fun p => p.info.sandboxId = id

/-- A change of the records in memory. -/
def setObject (w : World) (a : ℕ) (f : Tracked → Tracked) : World :=
  { w with memory := { w.memory with heap := w.memory.heap.modify a f } }

/-- A change of one call of `waitExec`. -/
def setWaiter (w : World) (i : ℕ) (f : Waiter → Waiter) : World :=
  { w with memory := { w.memory with waiters := w.memory.waiters.modify i f } }

/-- A change of the exec records. -/
def setExecs (w : World) (f : Table Key ExecState → Table Key ExecState) : World :=
  { w with containerd := { w.containerd with execs := f w.containerd.execs } }

/-- A change of the directory of a process. -/
def setDir (w : World) (k : Key) (f : Dir → Dir) : World :=
  { w with history := { w.history with dirs := w.history.dirs.modify k f } }

/-- An event for the record. -/
def note (w : World) (e : Incident) : World :=
  { w with trace := { w.trace with incidents := e :: w.trace.incidents } }

/-- The adapter dies.  The collectors, containerd and the kernel go on. -/
def die (w : World) : World := { w with memory := .fresh }

end World

end Sandcube.Adapter
