import Sandcube.Disk.Basic
import Sandcube.Adapter.Processes
import Sandcube.Transition.Basic

/-!
# The files of the process history

`processes.go` and `reliability.go` once more, now at the level of single file operations.

The model of the adapter writes `process.json` in one step.  Here `atomicJSON` creates, writes,
synchronizes and renames a file, `os.RemoveAll` removes one entry after the other, and the process
can die between any two of these operations.  In return there is less around it: of containerd
there are the containers, tasks and execs, the network and the quotas are left out, and the
operations follow one after the other.

`log` is not part of the system.  It records the calls of `saveProcess` and of `forgetProcesses`,
the newest first; no program reads it.
-/

namespace Sandcube.Metadata

open Adapter (Key Err Fault ProcessInfo ExecRequest ExecState TaskStatus Host validID validProcessID
  failedInfo globOrder)
open Prog (raise rescue forEach when)

/-! ### The state -/

/-- How a record is written to a file.  What is read back is a record of the same process. -/
structure Codec (β : Type) where
  encode : ProcessInfo → β
  decode : β → Option ProcessInfo
  decode_encode : ∀ info, ∃ info', decode (encode info) = some info' ∧ info'.key = info.key

/-- The names in the directory of a process. -/
inductive FileName where
  /-- `process.json` -/
  | processJson
  /-- `.pending-` with a number. -/
  | pending (number : ℕ)
  /-- The pipes, and the files of the collector. -/
  | file (name : String)
  deriving DecidableEq

/-- A call of `saveProcess`, and whether it returned nil; or a call of `forgetProcesses`. -/
inductive Event where
  | save (info : ProcessInfo) (returned : Bool)
  | forget (id : String)
  deriving DecidableEq

/-- The errors: those of recovery about the content of a file are told apart. -/
inductive Failure where
  | err (e : Err)
  /-- `corrupt process metadata` -/
  | corrupt (k : Key)
  /-- `invalid process metadata` -/
  | invalid (k : Key)
  deriving DecidableEq

/-- `trackedProcess` -/
structure Object where
  info : ProcessInfo
  /-- `proc` is set. -/
  proc : Bool
  /-- `done` is closed. -/
  done : Bool
  deriving DecidableEq

/-- The memory of the adapter. -/
structure Memory where
  /-- Every record made since the start, in order. -/
  heap : List Object
  /-- `Runtime.processes` -/
  registry : Table String ℕ
  serving : Bool

/-- The adapter before recovery. -/
def Memory.fresh : Memory := ⟨[], .empty, false⟩

/-- The records of containerd. -/
structure Containerd where
  /-- The containers, and whether `load` accepts them. -/
  containers : Table String Bool
  /-- The tasks of those that it accepts. -/
  tasks : Table String TaskStatus
  execs : Table Key ExecState

/-- The host, with files that hold values of type `β`. -/
structure Site (β : Type) where
  disk : Disk Key FileName β
  containerd : Containerd
  memory : Memory
  log : List Event

namespace Site

variable {β : Type}

/-- `process.json` of a process. -/
def record? (s : Site β) (k : Key) : Option (File β) := s.disk.file? k .processJson

/-- `load` finds the container. -/
def managed (s : Site β) (id : String) : Bool := s.containerd.containers.find? id = some true

def setDisk (s : Site β) (f : Disk Key FileName β → Disk Key FileName β) : Site β :=
  { s with disk := f s.disk }

def setExecs (s : Site β) (f : Table Key ExecState → Table Key ExecState) : Site β :=
  { s with containerd := { s.containerd with execs := f s.containerd.execs } }

def setObject (s : Site β) (a : ℕ) (f : Object → Object) : Site β :=
  { s with memory := { s.memory with heap := s.memory.heap.modify a f } }

/-- `lookupProcess` -/
def lookupProcess (s : Site β) (id pid : String) : Option Object :=
  (s.memory.registry.find? pid).bind fun a =>
    (s.memory.heap[a]?).filter fun p => p.info.sandboxId = id

/-- A new record, under its identifier. -/
def enroll (info : ProcessInfo) (s : Site β) : Site β :=
  { s with
    memory :=
      { s.memory with
        heap := s.memory.heap ++ [⟨info, false, false⟩]
        registry := s.memory.registry.put info.id s.memory.heap.length } }

/-- The records of a sandbox leave the registry. -/
def unregister (id : String) (s : Site β) : Site β :=
  { s with
    memory :=
      { s.memory with
        registry := s.memory.registry.eraseWhere fun pid => (s.lookupProcess id pid).isSome } }

/-- The registered records of a sandbox. -/
def registered (s : Site β) (id : String) : List Object :=
  ((s.memory.registry.rows.map Prod.snd).filterMap fun a => s.memory.heap[a]?).filter fun p =>
    p.info.sandboxId = id

/-- The task goes, and its execs with it. -/
def removeTask (id : String) (s : Site β) : Site β :=
  { s with
    containerd :=
      { s.containerd with
        tasks := s.containerd.tasks.erase id
        execs := s.containerd.execs.eraseWhere fun k => k.1 = id } }

/-- The newest call in the log has returned nil. -/
def acknowledge (s : Site β) : Site β :=
  match s.log with
  | .save info _ :: es => { s with log := .save info true :: es }
  | _ => s

/-- The machine stops, and the adapter is gone. -/
def die (loss : Key → FileName → β) (s : Site β) : Site β :=
  { s with disk := s.disk.crash loss, memory := .fresh }

end Site

/-! ### Steps -/

/-- What the environment decides for one step. -/
structure Env (β : Type) where
  fault : Option Fault
  now : Time
  /-- A number drawn at random, or the place of the next entry of a directory. -/
  pick : ℕ
  /-- What a failed write leaves in the file. -/
  garbage : β

section Programs

-- The content of an empty file is `default`.
variable {β : Type} [Inhabited β] {α : Type}

instance : Inhabited (Env β) := ⟨⟨none, 0, 0, default⟩⟩

/-- An operation of the adapter, or a part of one. -/
abbrev Op (β α : Type) := Prog (Site β) (Env β) Failure α

/-- A call out of the process, which can fail with or without its effect. -/
def call (f : Env β → Site β → Except Failure α × Site β) : Op β α :=
  Prog.atomic fun env s =>
    match env.fault with
    | none => f env s
    | some fault => (.error (.err (.other fault.message)), if fault.late then (f env s).2 else s)

/-- A call that only asks. -/
def query (f : Site β → Except Failure α) : Op β α := call fun _ s => (f s, s)

/-- A look at the memory. -/
def look (f : Site β → α) : Op β α := Prog.read fun s => .ok (f s)

/-- A change of the memory or of the log. -/
def update (f : Time → Site β → Site β) : Op β Unit :=
  Prog.atomic fun env s => (.ok (), f env.now s)

/-- The error of a part of an operation, as a value. -/
def attempt (p : Op β Unit) : Op β (Option Failure) :=
  rescue (do p; return none) fun e => pure (some e)

/-- An error that ends the operation. -/
def check (e : Option Failure) : Op β Unit :=
  match e with
  | none => pure ()
  | some e => raise e

/-- An error that nobody looks at. -/
def ignoring (p : Op β Unit) : Op β Unit := rescue p fun _ => pure ()

/-- `defer` -/
def deferring (cleanup : Op β Unit) (p : Op β Unit) : Op β Unit := do
  let e ← attempt p
  ignoring cleanup
  check e

/-- `if errdefs.IsNotFound(err)`: what to do instead. -/
def ifNotFound (p q : Op β α) : Op β α :=
  rescue p fun e => if e = .err .notFound then q else raise e

/-- What is there, or nothing when it is not found. -/
def optional (p : Op β α) : Op β (Option α) := ifNotFound (do return some (← p)) (pure none)

/-- Every turn is taken; the last error counts. -/
def forAll {ι : Type} : List ι → (ι → Op β Unit) → Op β Unit
  | [], _ => pure ()
  | i :: is, body => do
    let e ← attempt (body i)
    forAll is body
    check e

/-! ### Files -/

def noSuchFile : Failure := .err (.other "no such file or directory")

def fileExists : Failure := .err (.other "file exists")

/-- `os.CreateTemp`: the number of the new file. -/
def createTemp (k : Key) : Op β ℕ :=
  call fun env s =>
    if ¬ s.disk.HasDir k then (.error noSuchFile, s)
    else if (s.disk.file? k (.pending env.pick)).isSome then (.error fileExists, s)
    else (.ok env.pick, s.setDisk fun d => d.put k (.pending env.pick) ⟨default, false⟩)

/-- `f.Write` -/
def write (k : Key) (n : ℕ) (b : β) : Op β Unit :=
  Prog.atomic fun env s =>
    match env.fault with
    | none => (.ok (), s.setDisk fun d => d.put k (.pending n) ⟨b, false⟩)
    | some fault =>
      (.error (.err (.other fault.message)),
        s.setDisk fun d => d.put k (.pending n) ⟨env.garbage, false⟩)

/-- `f.Sync` -/
def sync (k : Key) (n : ℕ) : Op β Unit :=
  call fun _ s =>
    match s.disk.file? k (.pending n) with
    | none => (.error noSuchFile, s)
    | some file => (.ok (), s.setDisk fun d => d.put k (.pending n) { file with synced := true })

/-- `os.Rename` of the new file to `process.json`. -/
def rename (k : Key) (n : ℕ) : Op β Unit :=
  call fun _ s =>
    match s.disk.file? k (.pending n) with
    | none => (.error noSuchFile, s)
    | some _ => (.ok (), s.setDisk fun d => d.rename k (.pending n) .processJson)

/-- `os.Remove` of the new file. -/
def removeTemp (k : Key) (n : ℕ) : Op β Unit :=
  call fun _ s =>
    match s.disk.file? k (.pending n) with
    | none => (.error noSuchFile, s)
    | some _ => (.ok (), s.setDisk fun d => d.unlink k (.pending n))

/-- `atomicJSON`, for `process.json` of a process. -/
def atomicJSON (k : Key) (b : β) : Op β Unit := do
  let n ← createTemp k
  deferring (removeTemp k n) do
    let err ← attempt (do write k n b; sync k n)
    -- f.Close
    let closeErr ← attempt (query fun _ => .ok ())
    check err
    check closeErr
    rename k n
    -- os.Open of the directory, and d.Sync
    query fun _ => .ok ()
    query fun _ => .ok ()

/-- One entry of a directory goes, in the order of the directory. -/
def removeEntry (k : Key) : Op β Unit :=
  call fun env s =>
    match (s.disk.names k)[env.pick % (s.disk.names k).length]? with
    | none => (.ok (), s)
    | some name => (.ok (), s.setDisk fun d => d.unlink k name)

/-- `unlinkat` of a directory, which has to be empty. -/
def removeDir (k : Key) : Op β Unit :=
  call fun _ s =>
    if s.disk.names k = [] then (.ok (), s.setDisk fun d => d.rmdir k)
    else (.error (.err (.other "directory not empty")), s)

/-- `os.RemoveAll` of the directory of a process. -/
def removeAll (k : Key) : Op β Unit := do
  let count ← look fun s => (s.disk.names k).length
  let err ← attempt (forAll (List.range count) fun _ => removeEntry k)
  let dirErr ← attempt (removeDir k)
  match dirErr with
  | none => pure ()
  | some e => raise (err.getD e)

/-- The directories of the processes of a sandbox. -/
def dirsOf (id : String) (s : Site β) : List Key := s.disk.dirs.keys.filter fun k => k.1 = id

/-- The next directory of a sandbox. -/
def nextDir (id : String) : Op β (Option Key) :=
  Prog.atomic fun env s => (.ok (dirsOf id s)[env.pick % (dirsOf id s).length]?, s)

/-- `os.RemoveAll` of the history of a sandbox. -/
def removeHistory (id : String) : Op β Unit := do
  let count ← look fun s => (dirsOf id s).length
  forAll (List.range count) fun _ => do
    match ← nextDir id with
    | none => pure ()
    | some k => removeAll k

/-- `syscall.Mkfifo` -/
def mkfifo (k : Key) (name : String) : Op β Unit :=
  call fun _ s =>
    if ¬ s.disk.HasDir k then (.error noSuchFile, s)
    else if (s.disk.file? k (.file name)).isSome then (.error fileExists, s)
    else (.ok (), s.setDisk fun d => d.put k (.file name) ⟨default, true⟩)

/-! ### containerd -/

/-- `load` -/
def load (id : String) : Op β Unit :=
  query fun s => if s.managed id then .ok () else .error (.err .notFound)

/-- `c.Task` and `t.Status` -/
def taskStatus (id : String) : Op β TaskStatus :=
  query fun s => (s.containerd.tasks.find? id).elim (.error (.err .notFound)) .ok

/-- `proc.Status` -/
def execState (k : Key) : Op β ExecState :=
  query fun s => (s.containerd.execs.find? k).elim (.error (.err .notFound)) .ok

/-- `t.Exec` -/
def createExec (k : Key) : Op β Unit :=
  call fun _ s =>
    match s.containerd.tasks.find? k.1, s.containerd.execs.find? k with
    | none, _ => (.error (.err .notFound), s)
    | some _, some _ => (.error (.err .alreadyExists), s)
    | some _, none => (.ok (), s.setExecs fun execs => execs.put k .created)

/-- `proc.Start` -/
def startExec (k : Key) : Op β Unit :=
  call fun _ s =>
    match s.containerd.execs.find? k with
    | some .created => (.ok (), s.setExecs fun execs => execs.modify k fun _ => .running)
    | _ => (.error (.err .failedPrecondition), s)

/-- `proc.Delete`: a running exec stays, unless it is killed. -/
def deleteExec (k : Key) (kill : Bool) : Op β Unit :=
  call fun _ s =>
    match s.containerd.execs.find? k with
    | none => (.error (.err .notFound), s)
    | some state =>
      if state = .running ∧ ¬ kill then (.error (.err .failedPrecondition), s)
      else (.ok (), s.setExecs fun execs => execs.erase k)

/-- `deleteTask` -/
def deleteTask (id : String) : Op β Unit :=
  ifNotFound
    (do
      let _ ← taskStatus id
      call fun _ s => (.ok (), s.removeTask id))
    (pure ())

/-- `c.Delete` -/
def deleteContainer (id : String) : Op β Unit :=
  call fun _ s =>
    match s.containerd.tasks.find? id with
    | some _ => (.error (.err .failedPrecondition), s)
    | none =>
      (.ok (),
        { s with
          containerd :=
            { s.containerd with containers := s.containerd.containers.erase id } })

/-! ### Records -/

section Records

variable (codec : Codec β)

/-- `saveProcess` -/
def saveProcess (info : ProcessInfo) : Op β Unit := do
  update fun _ s => { s with log := .save info false :: s.log }
  atomicJSON info.key (codec.encode info)
  update fun _ s => s.acknowledge

/-- Change the record at `a` and save it. -/
def save (a : ℕ) (f : Time → ProcessInfo → ProcessInfo) : Op β Unit := do
  update fun now s => s.setObject a fun p => { p with info := f now p.info }
  match ← look fun s => s.memory.heap[a]? with
  | none => pure ()
  | some p => saveProcess codec p.info

/-- `p.proc = proc` -/
def attach (a : ℕ) : Op β Unit := update fun _ s => s.setObject a fun p => { p with proc := true }

/-- `close(p.done)` -/
def closeDone (a : ℕ) : Op β Unit := update fun _ s => s.setObject a fun p => { p with done := true }

/-- `forgetProcesses` -/
def forgetProcesses (id : String) : Op β Unit := do
  update fun _ s => { s with log := .forget id :: s.log }
  removeHistory id
  update fun _ s => s.unregister id

/-! ### `StartProcess` -/

/-- What remains of an exec whose start failed is removed, if possible. -/
def discardExec (k : Key) : Op β Unit := do
  let state ← rescue (do return some (← execState k)) fun _ => pure none
  ignoring (deleteExec k (state = some .running))

/-- From the directory to the running process. -/
def begin (a : ℕ) (k : Key) : Op β Unit := do
  -- os.MkdirAll
  call fun _ s => (.ok (), s.setDisk fun d => d.mkdir k)
  save codec a fun _ info => info
  mkfifo k "stdout.pipe"
  mkfifo k "stderr.pipe"
  -- os.Executable, and the start of the collector
  query fun _ => .ok ()
  query fun _ => .ok ()
  createExec k
  attach a
  rescue (startExec k) fun e => do
    discardExec k
    raise e

/-- `StartProcess` from its registered record on.  A record that is not done at the end has its
watcher. -/
def bringUp (a : ℕ) (k : Key) : Op β Unit := do
  rescue (begin codec a k) fun e => do
    ignoring (save codec a (failedInfo "Process start failed"))
    closeDone a
    raise e
  save codec a fun _ info => { info with status := .running }

/-- The process with the identifier of the request. -/
def known (id : String) (req : ExecRequest) (s : Site β) : Option ProcessInfo :=
  if req.requestId = "" then none else (s.lookupProcess id req.requestId).map Object.info

/-- `StartProcess`.  A request without an identifier gets the drawn one. -/
def startProcess (host : Host) (id : String) (req : ExecRequest) (draw : String) : Op β Unit := do
  load id
  when (req.requestId ≠ "" ∧ ¬ validProcessID req.requestId) (raise (.err .invalidArgument))
  match ← look (known id req) with
  | some info =>
    if info.requestHash = host.requestHash req then pure () else raise (.err .alreadyExists)
  | none =>
    let status ← ifNotFound (taskStatus id) (raise (.err .failedPrecondition))
    when (status ≠ .running) (raise (.err .failedPrecondition))
    -- c.Spec
    query fun _ => .ok ()
    let pid := if req.requestId = "" then draw else req.requestId
    let a ← look fun s => s.memory.heap.length
    update fun now s => s.enroll (Adapter.World.newInfo host id req pid now)
    bringUp codec a (id, pid)

/-! ### `watchProcess` -/

/-- One turn of the loop of `watchProcess`.  A turn that raises is followed by another one. -/
def watchProcess (a : ℕ) : Op β Unit := do
  match ← look fun s => s.memory.heap[a]? with
  | none => pure ()
  | some p =>
    match ← optional (execState p.info.key) with
    | none =>
      save codec a fun now info => Adapter.World.lost info now
      closeDone a
    | some (.stopped code time) =>
      -- The wait for logs.done is over.
      let complete ← look fun s => (s.disk.file? p.info.key (.file "logs.done")).isSome
      save codec a fun now info => Adapter.World.exited info complete code (time.getD now)
      ignoring (deleteExec p.info.key false)
      closeDone a
    | some _ =>
      -- The kill takes effect when the process exits.
      update fun now s => s.setObject a fun p =>
        { p with
          info := if Adapter.World.late p.info now then { p.info with timedOut := true } else p.info }

/-! ### `Delete` and `Reconcile` -/

/-- `settleProcesses`: the wait ends with the request. -/
def settleProcesses (id : String) : Op β Unit :=
  query fun s =>
    if (s.registered id).all Object.done then .ok ()
    else
      .error (.err (.other "waiting for sandbox processes to stop: context deadline exceeded"))

/-- `Stop`, where it is about processes.  The kills take effect when the processes exit. -/
def stop (id : String) : Op β Unit := do
  load id
  match ← optional (taskStatus id) with
  | none => pure ()
  | some _ =>
    settleProcesses id
    deleteTask id
    settleProcesses id

/-- `Delete` -/
def delete (id : String) : Op β Unit := do
  match ← optional (load id) with
  | none =>
    -- A container that load does not accept is not an orphan.
    query fun s =>
      match s.containerd.containers.find? id with
      | some _ => .error (.err .notFound)
      | none => .ok ()
    settleProcesses id
    forgetProcesses id
  | some _ =>
    stop id
    deleteContainer id
    forgetProcesses id

/-- The turn of one record in `cleanupProcessRecords`. -/
def cleanupRecord (a : ℕ) : Op β Unit := do
  match ← look fun s => s.memory.heap[a]? with
  | none => pure ()
  | some p =>
    when (p.done ∧ p.proc) do
      ifNotFound
        (do
          let state ← execState p.info.key
          when (state ≠ .running) (deleteExec p.info.key false))
        (pure ())

/-- `cleanupProcessRecords` -/
def cleanupProcessRecords : Op β Unit := do
  let ps ← look fun s => s.memory.registry.rows.map Prod.snd
  forEach ps cleanupRecord

/-- The turn of one sandbox directory: without a container it is garbage. -/
def reconcileHistory (id : String) : Op β Unit :=
  when (validID id) do
    match ← optional (load id) with
    | some _ => pure ()
    | none =>
      settleProcesses id
      forgetProcesses id

/-- `Reconcile`, where it is about processes. -/
def reconcile : Op β Unit := do
  cleanupProcessRecords
  let homes ← query fun s => .ok (s.disk.dirs.keys.map Prod.fst).dedup
  forEach homes reconcileHistory

/-! ### Recovery -/

/-- The pattern `sbx_*/proc_*`. -/
def globbed (k : Key) : Bool :=
  "sbx_".toList.isPrefixOf k.1.toList && "proc_".toList.isPrefixOf k.2.toList

/-- A directory without `process.json` was never committed. -/
def sweepDir (k : Key) : Op β Unit :=
  when (validID k.1 ∧ validProcessID k.2) do
    let found ← query fun s => .ok (s.record? k).isSome
    when (found = false) (removeAll k)

/-- `r.load`, `c.Task` and `t.LoadProcess` -/
def loadProcess (a : ℕ) (k : Key) : Op β Unit := do
  load k.1
  let _ ← taskStatus k.1
  let _ ← execState k
  attach a

/-- What recovery makes of a process that the runtime knows. -/
def reattach (a : ℕ) (k : Key) (terminal : Bool) : ExecState → Op β Unit
  | .created => do
    -- The intent was durable, but Start never completed; do not execute it twice.
    save codec a (failedInfo "Process start interrupted")
    ignoring (deleteExec k false)
    closeDone a
  | .stopped _ _ =>
    if terminal then do
      ifNotFound (deleteExec k false) (pure ())
      closeDone a
    else pure ()
  | .running => save codec a fun _ info => { info with status := .running, error := "" }

/-- The turn of one `process.json`. -/
def recoverProcess (k : Key) : Op β Unit := do
  let b ← query fun s => (s.record? k).elim (.error noSuchFile) fun file => .ok file.content
  match codec.decode b with
  | none => raise (.corrupt k)
  | some info =>
    when (¬ (validID info.sandboxId ∧ validProcessID info.id ∧ info.key = k)) (raise (.invalid k))
    let a ← look fun s => s.memory.heap.length
    update fun _ s => s.enroll info
    let terminal : Bool := info.status = .exited ∨ info.status = .error
    match ← optional (loadProcess a k) with
    | some _ => reattach codec a k terminal (← execState k)
    | none =>
      when (terminal = false)
        (save codec a (failedInfo "Process missing after runtime restart; exit code unavailable"))
      closeDone a

/-- `recoverProcesses` -/
def recoverProcesses : Op β Unit := do
  -- os.MkdirAll of the history directory
  query fun _ => .ok ()
  let dirs ← look fun s => globOrder (s.disk.dirs.keys.filter globbed)
  forEach dirs sweepDir
  let paths ← look fun s =>
    globOrder (s.disk.dirs.keys.filter fun k => globbed k && (s.record? k).isSome)
  update fun _ s => { s with memory := { s.memory with registry := .empty } }
  forEach paths (recoverProcess codec)

/-- The start of the adapter: recovery and a sweep before the socket opens. -/
def boot : Op β Unit := do
  recoverProcesses codec
  reconcile
  update fun _ s => { s with memory := { s.memory with serving := true } }

end Records

end Programs

/-! ### The system -/

/-- What containerd does on behalf of others, or of operations of the adapter that touch no
history. -/
inductive Change where
  | createContainer (id : String) (managed : Bool)
  | removeContainer (id : String)
  | newTask (id : String)
  | startTask (id : String)
  | removeTask (id : String)
  /-- A process exits. -/
  | exit (k : Key) (code : UInt32) (time : Option Time)

/-- A change of the records.  A container with a task is not removed. -/
def Containerd.change (c : Containerd) : Change → Containerd
  | .createContainer id managed =>
    match c.containers.find? id with
    | some _ => c
    | none => { c with containers := c.containers.put id managed }
  | .removeContainer id =>
    match c.tasks.find? id with
    | some _ => c
    | none => { c with containers := c.containers.erase id }
  | .newTask id =>
    if c.containers.find? id = some true ∧ c.tasks.find? id = none then
      { c with tasks := c.tasks.put id .created }
    else c
  | .startTask id => { c with tasks := c.tasks.modify id fun _ => .running }
  | .removeTask id =>
    { c with tasks := c.tasks.erase id, execs := c.execs.eraseWhere fun k => k.1 = id }
  | .exit k code time => { c with execs := c.execs.modify k fun _ => .stopped code time }

/-- What can happen. -/
inductive Act (β : Type) where
  | startProcess (id : String) (req : ExecRequest) (draw : String)
  | watch (object : ℕ)
  | delete (id : String)
  | reconcile
  | boot
  /-- The collector of a process writes a file. -/
  | collect (k : Key) (name : FileName) (file : File β)
  | containerd (change : Change)
  | die

/-- An act, with what the environment does to it: the fates of its steps, and what a crash leaves
in files that were not synchronized. -/
structure Turn (β : Type) where
  act : Act β
  fates : List (Fate (Env β))
  loss : Key → FileName → β

section System

variable {β : Type} [Inhabited β] (codec : Codec β) (host : Host)

/-- The program of an act. -/
def Act.program : Act β → Op β Unit
  | .startProcess id req draw => Metadata.startProcess codec host id req draw
  | .watch a => watchProcess codec a
  | .delete id => Metadata.delete id
  | .reconcile => Metadata.reconcile
  | .boot => Metadata.boot codec
  | .collect k name file => update fun _ s => s.setDisk fun d => d.put k name file
  | .containerd change => update fun _ s => { s with containerd := s.containerd.change change }
  | .die => fun s fs => ⟨.crashed, s, fs⟩

/-- An error ends the adapter only while it starts. -/
def Act.fatal : Act β → Bool
  | .boot => true
  | _ => false

/-- The state after a turn. -/
def next (s : Site β) (t : Turn β) : Site β :=
  let r := t.act.program codec host s t.fates
  match r.outcome with
  | .ok _ => r.state
  | .raised _ => if t.act.fatal then r.state.die t.loss else r.state
  | .crashed => r.state.die t.loss

/-- What the HTTP layer, the order of events in the adapter and the collectors allow. -/
def Ok (s : Site β) (t : Turn β) : Prop :=
  match t.act with
  | .startProcess id _ draw => s.memory.serving ∧ validID id ∧ validProcessID draw
  | .watch a => (s.memory.heap[a]?).any fun p => p.done = false
  | .delete id => s.memory.serving ∧ validID id
  | .reconcile => s.memory.serving
  | .boot => ¬ s.memory.serving
  | .collect _ name _ => name ≠ .processJson
  | .containerd _ | .die => True

instance (s : Site β) (t : Turn β) : Decidable (Ok s t) := by
  unfold Ok
  cases t.act <;> infer_instance

/-- A host before the first start of the adapter. -/
def Init (s : Site β) : Prop :=
  s.disk = .empty ∧ s.containerd.tasks = .empty ∧ s.containerd.execs = .empty ∧
    s.memory = .fresh ∧ s.log = []

/-- The states that can occur. -/
abbrev Reachable (s : Site β) : Prop := Transition.Reach (next codec host) Ok Init s

end System

end Sandcube.Metadata
