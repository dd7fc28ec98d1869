import Sandcube.Adapter.Network
import Sandcube.Adapter.Processes
import Sandcube.Adapter.Quota

/-!
# The lifecycle of a sandbox

`runtime.go` and the sweep of `reliability.go`: create, start, stop, delete and reconcile.
-/

namespace Sandcube.Adapter

open Prog (raise rescue forEach)

/-! ### Changes -/

namespace World

/-- The snapshotter prepares a snapshot with the adapter's label. -/
def prepareSnapshot (key : String) (w : World) : Except Err Unit × World :=
  match w.containerd.snapshots.find? key with
  | some _ => (.error .alreadyExists, w)
  | none =>
    (.ok (),
      { w with
        containerd :=
          { w.containerd with
            snapshots := w.containerd.snapshots.put key ⟨"true", w.containerd.nextSnapshot⟩
            nextSnapshot := w.containerd.nextSnapshot + 1 }
        quota :=
          { w.quota with directories := w.containerd.nextSnapshot :: w.quota.directories } })

/-- The record of a snapshot goes.  Its directory goes now or later. -/
def removeSnapshot (key : String) (w : World) : Except Err Unit × World :=
  match w.containerd.snapshots.find? key with
  | none => (.error .notFound, w)
  | some _ =>
    (.ok (),
      { w with
        containerd := { w.containerd with snapshots := w.containerd.snapshots.erase key } })

/-- The record of a container is committed. -/
def commitContainer (id : String) (c : Container) (w : World) : Except Err Unit × World :=
  match w.containerd.containers.find? id with
  | some _ => (.error .alreadyExists, w)
  | none =>
    (.ok (),
      { w with
        containerd := { w.containerd with containers := w.containerd.containers.put id c } })

/-- The record of a container goes. -/
def eraseContainer (id : String) (w : World) : Except Err Unit × World :=
  match w.containerd.containers.find? id with
  | none => (.error .notFound, w)
  | some _ =>
    (.ok (),
      { w with
        containerd := { w.containerd with containers := w.containerd.containers.erase id }
        trace := { w.trace with invoked := w.trace.invoked.filter fun k => k.1 ≠ id } })

/-- `c.NewTask` -/
def newTask (id : String) (w : World) : Except Err Unit × World :=
  match w.containerd.containers.find? id, w.containerd.tasks.find? id with
  | none, _ => (.error .notFound, w)
  | some _, some _ => (.error .alreadyExists, w)
  | some _, none =>
    (.ok (),
      { w with containerd := { w.containerd with tasks := w.containerd.tasks.put id .created } })

/-- `t.Start` -/
def startTask (id : String) (w : World) : Except Err Unit × World :=
  match w.containerd.tasks.find? id with
  | some .created =>
    (.ok (),
      { w with
        containerd :=
          { w.containerd with tasks := w.containerd.tasks.modify id fun _ => .running } })
  | some _ => (.error .failedPrecondition, w)
  | none => (.error .notFound, w)

end World

section Programs

variable (host : Host)

/-- What is there, or nothing when it is not found. -/
def optional {α : Type} (p : Op α) : Op (Option α) :=
  ifNotFound (do return some (← p)) (pure none)

/-! ### Create -/

/-- A snapshot of the adapter without a container is removed.  `strict`: also an error that
says it is gone counts. -/
def clearSnapshot (id : String) (strict : Bool) : Op Unit := do
  match ← query host fun w => .ok (w.containerd.snapshots.find? id) with
  | none => pure ()
  | some snapshot =>
    if snapshot.managed then
      if strict then call host fun _ w => w.removeSnapshot id
      else ifNotFound (call host fun _ w => w.removeSnapshot id) (pure ())
    else pure ()

/-- `NewContainer` after its snapshot: the options, then the record. -/
def furnish (spec : Spec) : Op Unit := do
  let number ← query host fun w =>
    match w.containerd.snapshots.find? spec.id with
    | some snapshot => .ok snapshot.number
    | none => .error .notFound
  prepareQuota host spec.id spec.diskMb (host.mounts number)
  -- WithNewSpec
  query host fun _ => .ok ()
  call host fun _ w =>
    w.commitContainer spec.id
      ⟨"true", runtimeName, host.configHash spec, spec.diskMb, spec.id⟩

/-- `NewContainer`, with the rollback of `Create`. -/
def newContainer (spec : Spec) : Op Unit := do
  call host fun _ w => w.prepareSnapshot spec.id
  rescue (furnish host spec) fun e => do
    -- A failed rollback is joined to the error, which keeps its class.
    ignoring (call host fun _ w => w.removeSnapshot spec.id)
    raise e

/-- `Create`: whether the sandbox runs. -/
def create (spec : Spec) (polls : ℕ) : Op Bool := do
  match ← optional (load host spec.id) with
  | some c => if c.config = host.configHash spec then describe host spec.id else raise .alreadyExists
  | none =>
    -- An ID collision with an unmanaged container is not an orphan snapshot.
    match ← optional (loadContainer host spec.id) with
    | some _ => raise .alreadyExists
    | none =>
      clearSnapshot host spec.id true
      reclaimQuota host spec.id polls
      -- GetImage or Pull, and Unpack
      query host fun _ => .ok ()
      newContainer host spec
      return false

/-! ### Start and stop -/

/-- `NewTask` and `t.Start`, with the rollback of `Start`. -/
def runTask (id : String) : Op Unit := do
  call host fun _ w => w.newTask id
  rescue (call host fun _ w => w.startTask id) fun e => do
    ignoring (deleteTask host id)
    raise e

/-- `Start` where no task runs. -/
def launchTask (id : String) : Op Bool := do
  checkQuota host id
  setupNetwork host id
  runTask host id
  describe host id

/-- `Start` -/
def start (id : String) : Op Bool := do
  let _ ← load host id
  match ← optional (taskStatus host id) with
  | some .running => describe host id
  | some _ =>
    deleteTask host id
    launchTask host id
  | none => launchTask host id

/-- The kill of one process in `Stop`. -/
def killTracked (a : ℕ) : Op Unit := do
  let info ← snapshot host a
  if info.status = .running then ifNotFound (signal host info.key) (pure ()) else pure ()

/-- `Stop` -/
def stop (id : String) : Op Bool := do
  let _ ← load host id
  match ← optional (taskStatus host id) with
  | none =>
    removeNetwork host id
    describe host id
  | some _ =>
    let ps ← look host fun w => w.registered id
    forEach ps (killTracked host)
    settleProcesses host id
    -- Delete only the task. The container and its writable snapshot are retained.
    deleteTask host id
    settleProcesses host id
    removeNetwork host id
    describe host id

/-! ### Delete -/

/-- `c.Delete` with `WithSnapshotCleanup` -/
def deleteContainer (id : String) (c : Container) : Op Unit := do
  match ← optional (taskStatus host id) with
  | some _ => raise .failedPrecondition
  | none =>
    ifNotFound (call host fun _ w => w.removeSnapshot c.snapshotKey) (pure ())
    call host fun _ w => w.eraseContainer id

/-- `Delete` of a sandbox without a container: what is left of it. -/
def deleteRemains (id : String) (polls : ℕ) : Op Unit := do
  match ← optional (loadContainer host id) with
  | some _ => raise .notFound
  | none =>
    clearSnapshot host id false
    reclaimQuota host id polls
    settleProcesses host id
    removeNetwork host id
    forgetProcesses host id

/-- `Delete` -/
def delete (id : String) (polls : ℕ) : Op Unit := do
  match ← optional (load host id) with
  | none => deleteRemains host id polls
  | some c =>
    let _ ← stop host id
    deleteContainer host id c
    reclaimQuota host id polls
    forgetProcesses host id

/-! ### Reconcile -/

/-- The labelled snapshots that no container uses. -/
def orphanSnapshots (w : World) : List String :=
  w.containerd.snapshots.keysWhere fun key snapshot =>
    snapshot.managed && w.containerd.containers.rows.all fun row => row.2.snapshotKey ≠ key

/-- The turn of one sandbox directory: without a container it is garbage. -/
def reconcileHistory (id : String) : Op Unit := do
  if validID id then
    match ← optional (load host id) with
    | some _ => pure ()
    | none =>
      settleProcesses host id
      forgetProcesses host id
  else pure ()

/-- `Reconcile` -/
def reconcile (polls : ℕ) : Op Unit := do
  cleanupProcessRecords host
  let keys ← query host fun w => .ok (orphanSnapshots w)
  forEach keys fun key => ifNotFound (call host fun _ w => w.removeSnapshot key) (pure ())
  let homes ← query host fun w => .ok w.history.homes
  forEach homes (reconcileHistory host)
  reconcileQuotas host polls
  reconcileNetworks host

/-- The start of the adapter: recovery and a sweep before the socket opens. -/
def boot (polls : ℕ) : Op Unit := do
  recoverProcesses host
  reconcile host polls
  update host fun _ w => { w with memory := { w.memory with serving := true } }

end Programs

end Sandcube.Adapter
