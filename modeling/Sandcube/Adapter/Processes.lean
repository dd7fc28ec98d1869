import Sandcube.Adapter.Calls

/-!
# Processes

`processes.go`, and the recovery of `reliability.go`: starting, killing, settling, forgetting
and recovering the processes of sandboxes.

The adapter's `main` always gives a history directory, so only the branches with one are here.
-/

namespace Sandcube.Adapter

open Prog (raise rescue forEach when)

/-! ### Changes -/

namespace World

/-- The record a call of `StartProcess` makes. -/
def newInfo (host : Host) (id : String) (req : ExecRequest) (pid : String) (now : Time) :
    ProcessInfo where
  requestHash := host.requestHash req
  timeout := req.timeout
  timedOut := false
  id := pid
  sandboxId := id
  command := req.command
  status := .starting
  exitCode := none
  startedAt := now
  completedAt := none
  error := ""

/-- Another sandbox has the identifier. -/
def taken (w : World) (id pid : String) : Bool :=
  (w.memory.registry.find? pid).any fun a => (w.object? a).any fun p => p.info.sandboxId ≠ id

/-- A new record, under its identifier. -/
def enroll (w : World) (info : ProcessInfo) (stage : Stage) : World :=
  { w with
    memory :=
      { w.memory with
        heap := w.memory.heap ++ [⟨info, false, stage⟩]
        registry := w.memory.registry.put info.id w.memory.heap.length } }

/-- `StartProcess` registers its record. -/
def register (host : Host) (id : String) (req : ExecRequest) (pid : String) (now : Time)
    (w : World) : World :=
  let w := if w.taken id pid then w.note (.collision (id, pid)) else w
  let w := w.enroll (newInfo host id req pid now) (.building .fresh)
  { w with trace := { w.trace with requests := ((id, pid), req) :: w.trace.requests } }

/-- `os.MkdirAll` of a process directory. -/
def makeDir (w : World) (k : Key) : World :=
  { w with
    history :=
      { homes := if k.1 ∈ w.history.homes then w.history.homes else k.1 :: w.history.homes
        dirs := match w.history.dirs.find? k with
          | some _ => w.history.dirs
          | none => w.history.dirs.put k .fresh } }

/-- The directory of a process goes. -/
def eraseDir (w : World) (k : Key) : World :=
  { w with history := { w.history with dirs := w.history.dirs.erase k } }

/-- The directory of a sandbox goes. -/
def eraseHome (w : World) (id : String) : World :=
  { w with history := { w.history with homes := w.history.homes.filter (· ≠ id) } }

/-- `syscall.Mkfifo` for the record at `a` -/
def mkfifo (a : ℕ) (k : Key) (name : String) (w : World) : Except Err Unit × World :=
  match w.history.dirs.find? k with
  | none => (.error (.other "no such file or directory"), w)
  | some dir =>
    if name ∈ dir.pipes then (.error (.other "file exists"), w)
    else
      (.ok (), (w.setDir k fun dir => { dir with pipes := name :: dir.pipes }).enter a
        (.building .piped))

/-- `t.Exec` -/
def createExec (k : Key) (w : World) : Except Err Unit × World :=
  match w.containerd.tasks.find? k.1, w.containerd.execs.find? k with
  | none, _ => (.error .notFound, w)
  | some _, some _ => (.error .alreadyExists, w)
  | some _, none => (.ok (), w.setExecs fun execs => execs.put k .created)

/-- The runtime starts the process of an exec that was created. -/
def launch (k : Key) (w : World) : World := w.setExecs fun execs => execs.put k .running

/-- `proc.Start` is called on the exec of the record at `a`. -/
def invoke (a : ℕ) (k : Key) (w : World) : World :=
  { w.enter a (.building .tried) with trace := { w.trace with invoked := k :: w.trace.invoked } }

/-- `proc.Start` returned without an error. -/
def succeed (a : ℕ) (k : Key) (w : World) : World :=
  { w.enter a (.building .begun) with trace := { w.trace with started := k :: w.trace.started } }

/-- The records of a sandbox leave the registry. -/
def unregister (id : String) (w : World) : World :=
  { w with
    memory :=
      { w.memory with
        registry := w.memory.registry.eraseWhere fun pid => (w.lookupProcess id pid).isSome } }

/-- The process is not as ended as the record says. -/
def revives (info : ProcessInfo) : ExecState → Bool
  | .created => info.exitCode.isSome
  | .running => info.completedAt.isSome
  | .stopped _ _ => false

/-- Recovery learns the state of the exec of the record at `a`. -/
def meet (a : ℕ) (info : ProcessInfo) (state : ExecState) (w : World) : World :=
  let w := if revives info state then w.note (.revived info.key) else w
  match state with
  | .created =>
    (if info.exitCode.isSome then w.note (.undead info.key) else w).enter a (.recovering .created)
  | .running =>
    (if info.exitCode.isSome then w.note (.undead info.key) else w).enter a (.recovering .begun)
  | .stopped _ _ => w.enter a (.recovering .begun)

/-- Recovery learns that the container, the task or the exec is not there. -/
def miss {α : Type} (a : ℕ) (answer : Except Err α) (w : World) : World :=
  match answer with
  | .ok _ => w
  | .error _ => w.enter a (.recovering .missing)

/-- A call of `waitExec`. -/
def addWaiter (k : Key) (a : ℕ) (w : World) : World :=
  { w with memory := { w.memory with waiters := w.memory.waiters ++ [⟨k, a, false, .select⟩] } }

end World

/-- A record that ends with an error. -/
def failedInfo (message : String) (now : Time) (info : ProcessInfo) : ProcessInfo :=
  { info with status := .error, error := message, completedAt := some now }

section Programs

variable (host : Host)

/-! ### `StartProcess` -/

/-- `proc.Status` -/
def execState (k : Key) : Op ExecState :=
  query host fun w => (w.containerd.execs.find? k).elim (.error .notFound) .ok

/-- `proc.Kill`: the process exits in its own time. -/
def signal (k : Key) : Op Unit :=
  query host fun w => (w.containerd.execs.find? k).elim (.error .notFound) fun _ => .ok ()

/-- `proc.Delete` -/
def deleteExec (k : Key) : Op Unit := call host fun _ w => w.deleteExec k

/-- `proc.Start`.  When it fails its effect may have happened. -/
def startExec (a : ℕ) (k : Key) : Op Unit :=
  Prog.atomic fun env w =>
    let w := (w.pass host env.background).invoke a k
    match w.containerd.execs.find? k, env.fault with
    | some .created, none => (.ok (), (w.launch k).succeed a k)
    | some .created, some fault =>
      (.error (.other fault.message), if fault.late then w.launch k else w)
    | _, _ => (.error .failedPrecondition, w)

/-- `proc.Delete` with `WithProcessKill` -/
def killExec (k : Key) : Op Unit :=
  call host fun _ w =>
    match w.containerd.execs.find? k with
    | none => (.error .notFound, w)
    | some _ => (.ok (), w.setExecs fun execs => execs.erase k)

/-- What remains of an exec whose start failed is removed, if possible. -/
def discardExec (k : Key) : Op Unit := do
  let state ← rescue (do return some (← execState host k)) fun _ => pure none
  if state = some .running then ignoring (killExec host k) else ignoring (deleteExec host k)

/-- From the directory to the running process. -/
def begin (a : ℕ) (k : Key) : Op Unit := do
  effect host fun w => w.makeDir k
  check (← save host a fun _ info => info)
  call host fun _ w => w.mkfifo a k "stdout.pipe"
  call host fun _ w => w.mkfifo a k "stderr.pipe"
  -- os.Executable
  query host fun _ => .ok ()
  effect host fun w => w.setDir k fun dir => { dir with collecting := true }
  call host fun _ w => w.createExec k
  update host fun _ w => w.setObject a fun p => { p with proc := true }
  rescue (startExec host a k) fun e => do
    discardExec host k
    raise e

/-- The deferred end of a failed start. -/
def abort (a : ℕ) : Op Unit := do
  let _ ← save host a (failedInfo "Process start failed")
  update host fun _ w => w.enter a .done

/-- `p.snapshot` -/
def snapshot (a : ℕ) : Op ProcessInfo := do
  match ← look host fun w => w.object? a with
  | some p => return p.info
  | none => raise (.other "invalid address")

/-- `StartProcess` from its registered record on. -/
def bringUp (a : ℕ) (k : Key) : Op ProcessInfo := do
  rescue (begin host a k) fun e => do
    abort host a
    raise e
  let err ← save host a fun _ info => { info with status := .running }
  update host fun _ w => w.enter a (.watched .poll)
  check err
  snapshot host a

/-- `StartProcess` after its checks. -/
def track (id : String) (req : ExecRequest) (pid : String) : Op ProcessInfo := do
  let a ← look host fun w => w.memory.heap.length
  update host (World.register host id req pid)
  bringUp host a (id, pid)

/-- The process with the identifier of the request. -/
def known (id : String) (req : ExecRequest) (w : World) : Option ProcessInfo :=
  if req.requestId = "" then none else (w.lookupProcess id req.requestId).map fun q => q.2.info

/-- The task has to run. -/
def requireRunning (id : String) : Op Unit := do
  let status ← ifNotFound (taskStatus host id) (raise .failedPrecondition)
  if status = .running then pure () else raise .failedPrecondition

/-- `StartProcess`.  A request without an identifier gets the drawn one. -/
def startProcess (id : String) (req : ExecRequest) (draw : String) : Op ProcessInfo := do
  let _ ← load host id
  when (req.requestId ≠ "" ∧ ¬ validProcessID req.requestId) (raise .invalidArgument)
  match ← look host (known id req) with
  | some info => if info.requestHash = host.requestHash req then return info else raise .alreadyExists
  | none =>
    requireRunning host id
    -- c.Spec
    query host fun _ => .ok ()
    track host id req (if req.requestId = "" then draw else req.requestId)

/-! ### Waiting and looking -/

/-- `PrepareExec`, and the call of `waitExec` it hands out. -/
def prepareExec (id : String) (req : ExecRequest) (draw : String) : Op Unit := do
  let info ← startProcess host id req draw
  match ← look host fun w => w.lookupProcess id info.id with
  | some (a, _) => update host fun _ w => w.addWaiter (id, info.id) a
  | none => raise .notFound

/-- `Process` -/
def process (id pid : String) : Op ProcessInfo := do
  let _ ← load host id
  match ← look host fun w => w.lookupProcess id pid with
  | some (_, p) => return p.info
  | none => raise .notFound

/-- `Processes`, by the time they were started. -/
def processes (id : String) : Op (List ProcessInfo) := do
  let _ ← load host id
  look host fun w =>
    (((w.registered id).filterMap w.object?).map Tracked.info).insertionSort
      fun i j => i.startedAt ≤ j.startedAt

/-- `ProcessLogs`: the two streams and whether something is missing from them. -/
def processLogs (id pid : String) : Op (Bytes × Bytes × Bool) := do
  let _ ← process host id pid
  query host fun w =>
    match w.history.dirs.find? (id, pid) with
    | some dir =>
      .ok (dir.stdout.getD [], dir.stderr.getD [], dir.stdoutTruncated || dir.stderrTruncated)
    | none => .ok ([], [], false)

/-- `KillProcess` -/
def killProcess (id pid : String) : Op ProcessInfo := do
  let _ ← process host id pid
  match ← look host fun w => w.lookupProcess id pid with
  | none => raise .notFound
  | some (a, p) =>
    if p.info.status ≠ .running then return p.info
    else
      ifNotFound (signal host (id, pid)) (pure ())
      await host (fun w => w.isDone a) "context deadline exceeded"
      snapshot host a

/-! ### Settling and forgetting -/

/-- `settleProcesses` -/
def settleProcesses (id : String) : Op Unit := do
  let ps ← look host fun w => w.registered id
  forEach ps fun a =>
    await host (fun w => w.isDone a)
      "waiting for sandbox processes to stop: context deadline exceeded"

/-- `os.RemoveAll` of the history of a sandbox. -/
def removeHistory (id : String) : Op Unit := do
  let ks ← look host fun w => w.history.dirs.keys.filter fun k => k.1 = id
  forEach ks fun k => effect host fun w => w.eraseDir k
  effect host fun w => w.eraseHome id

/-- `forgetProcesses` -/
def forgetProcesses (id : String) : Op Unit := do
  removeHistory host id
  update host fun _ w => w.unregister id

/-! ### Recovery -/

/-- The order in which `filepath.Glob` gives the directories. -/
def globOrder (ks : List Key) : List Key :=
  ks.insertionSort fun k k' => k.1 < k'.1 ∨ k.1 = k'.1 ∧ k.2 ≤ k'.2

/-- A directory without `process.json` was never committed. -/
def sweepDir (k : Key) : Op Unit := do
  if validID k.1 ∧ validProcessID k.2 then
    let record ← query host fun w => .ok (w.history.record? k)
    if record = none then effect host fun w => w.eraseDir k else pure ()
  else pure ()

/-- `r.load`, `c.Task` and `t.LoadProcess` -/
def loadProcess (a : ℕ) (k : Key) : Op Unit := do
  let _ ← observe host (fun w => (w.managed? k.1).elim (.error .notFound) .ok) (World.miss a)
  let _ ← observe host (fun w => (w.containerd.tasks.find? k.1).elim (.error .notFound) .ok)
    (World.miss a)
  let _ ← observe host (fun w => (w.containerd.execs.find? k).elim (.error .notFound) .ok)
    (World.miss a)
  update host fun _ w => w.setObject a fun p => { p with proc := true }

/-- The record at `a` gets its watcher. -/
def watchProcess (a : ℕ) : Op Unit := update host fun _ w => w.enter a (.watched .poll)

/-- `close(p.done)` -/
def closeDone (a : ℕ) : Op Unit := update host fun _ w => w.enter a .done

/-- `proc.Status` in recovery. -/
def findExec (a : ℕ) (info : ProcessInfo) : Op ExecState :=
  observe host (fun w => (w.containerd.execs.find? info.key).elim (.error .notFound) .ok)
    fun answer w =>
      match answer with
      | .ok state => World.meet a info state w
      | .error _ => w

/-- What recovery makes of a process that the runtime knows. -/
def reattach (a : ℕ) (info : ProcessInfo) (terminal : Bool) : ExecState → Op Unit
  | .created => do
    -- The intent was durable, but Start never completed; do not execute it twice.
    check (← save host a (failedInfo "Process start interrupted"))
    ignoring (deleteExec host info.key)
    closeDone host a
  | .stopped _ _ =>
    if terminal then do
      ifNotFound (deleteExec host info.key) (pure ())
      closeDone host a
    else watchProcess host a
  | .running => do
    check (← save host a fun _ info => { info with status := .running, error := "" })
    watchProcess host a

/-- The turn of one `process.json`. -/
def recoverProcess (k : Key) : Op Unit := do
  let info ← query host fun w =>
    match w.history.record? k with
    | some info => .ok info
    | none => .error (.other "no such file or directory")
  if validID info.sandboxId ∧ validProcessID info.id ∧ info.key = k then
    let a ← look host fun w => w.memory.heap.length
    update host fun _ w => w.enroll info (.recovering .nothing)
    let terminal : Bool := info.status = .exited ∨ info.status = .error
    let found ← ifNotFound (do loadProcess host a k; return true) (pure false)
    if found then
      reattach host a info terminal (← findExec host a info)
    else if terminal then closeDone host a
    else
      check (← save host a
        (failedInfo "Process missing after runtime restart; exit code unavailable"))
      closeDone host a
  else raise (.other "invalid process metadata")

/-- `recoverProcesses` -/
def recoverProcesses : Op Unit := do
  -- os.MkdirAll of the history directory
  query host fun _ => .ok ()
  let ks ← look host fun w => globOrder w.history.dirs.keys
  forEach ks (sweepDir host)
  let paths ← look host fun w =>
    globOrder (w.history.dirs.keys.filter fun k => (w.history.record? k).isSome)
  forEach paths (recoverProcess host)

/-- The turn of one record in `cleanupProcessRecords`. -/
def cleanupRecord (a : ℕ) : Op Unit := do
  match ← look host fun w => w.object? a with
  | none => pure ()
  | some p =>
    if p.stage = .done ∧ p.proc then
      ifNotFound
        (do
          match ← execState host p.info.key with
          | .running => pure ()
          | .created | .stopped _ _ => deleteExec host p.info.key)
        (pure ())
    else pure ()

/-- `cleanupProcessRecords` -/
def cleanupProcessRecords : Op Unit := do
  let ps ← look host fun w => w.memory.registry.rows.map Prod.snd
  forEach ps (cleanupRecord host)

end Programs

end Sandcube.Adapter
