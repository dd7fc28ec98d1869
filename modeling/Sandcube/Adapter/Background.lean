import Sandcube.Adapter.World

/-!
# What goes on beside the operations

Lifecycle operations exclude each other (`server.lock`).  Beside them run the watchers of
processes, the calls of `waitExec`, the log collectors, the processes themselves and the
kernel.  A `Back` is one step of one of them, and before each step of an operation any number
of them may happen.

`watch` is the loop of `watchProcess` and `wait` the body of `waitExec`, cut where other steps
can come between.  A change of a record and the write of `process.json` are one step: both
happen under the record's mutex.
-/

namespace Sandcube.Adapter

/-- How a call fails: with or without its effect. -/
structure Fault where
  late : Bool
  message : String

/-- What a call of `waitExec` does when it has a choice. -/
inductive WaitChoice where
  | proceed | timer | cancel

/-- What a collector does. -/
inductive Collect where
  | start
  | write (stderr : Bool) (bytes : Bytes)
  | finish
  | die

/-- A step beside the operations. -/
inductive Back where
  /-- A process exits, by itself or because it was killed. -/
  | exit (k : Key) (code : UInt32) (time : Option Time)
  /-- The init process of a sandbox exits, and the others with it. -/
  | taskExit (id : String) (codes : String → UInt32) (time : Option Time)
  | watch (object : ℕ) (now : Time) (fault : Option Fault)
  | wait (waiter : ℕ) (choice : WaitChoice) (fault : Option Fault)
  | collect (k : Key) (step : Collect)
  /-- The exec record of a process changes against containerd's rules. -/
  | drift (k : Key) (state : Option ExecState)
  /-- A snapshot directory whose removal containerd had put off. -/
  | removeDirectory (number : ℕ)
  /-- The workload writes or removes files. -/
  | charge (number : ℕ) (amount : Amount)
  /-- The kernel has freed the storage of a directory that is gone. -/
  | discharge (number : ℕ)
  /-- A packet from or to the sandbox makes a connection tracking entry. -/
  | traffic (id : String) (inbound : Bool)

namespace World

/-! ### Saving a record -/

/-- `process.json` has this content. -/
def saved (w : World) (info : ProcessInfo) : World :=
  w.setDir info.key fun dir => { dir with record := some info }

/-- `saveProcess`: a temporary file in the directory, renamed.  It can fail before the rename or
after it. -/
def saveProcess (w : World) (info : ProcessInfo) (fault : Option Fault) : Option Err × World :=
  match w.history.dirs.find? info.key, fault with
  | none, _ => (some (.other "no such file or directory"), w)
  | some _, none => (none, w.saved info)
  | some _, some fault => (some (.other fault.message), if fault.late then w.saved info else w)

/-- Change the record at `a` and save it. -/
def store (w : World) (a : ℕ) (info : ProcessInfo) (fault : Option Fault) : Option Err × World :=
  (w.setObject a fun p => { p with info := info }).saveProcess info fault

/-- Whoever writes the record at `a` goes on. -/
def enter (w : World) (a : ℕ) (stage : Stage) : World :=
  w.setObject a fun p => { p with stage := stage }

/-! ### The processes -/

/-- A running exec stops. -/
def exit (w : World) (k : Key) (code : UInt32) (time : Option Time) : World :=
  if w.containerd.execs.find? k = some .running then
    { w.setExecs fun execs => execs.modify k fun _ => .stopped code time with
      trace := { w.trace with exits := fun k' => if k' = k then some code else w.trace.exits k' } }
  else w

/-- The task of a sandbox stops with everything in it. -/
def taskExit (w : World) (id : String) (codes : String → UInt32) (time : Option Time) : World :=
  if w.containerd.tasks.find? id = some .running then
    { w with
      containerd :=
        { w.containerd with
          tasks := w.containerd.tasks.modify id fun _ => .stopped
          execs := w.containerd.execs.mapRows fun k state =>
            if k.1 = id ∧ state = .running then .stopped (codes k.2) time else state }
      trace :=
        { w.trace with
          exits := fun k =>
            if k.1 = id ∧ w.containerd.execs.find? k = some .running then some (codes k.2)
            else w.trace.exits k } }
  else w

/-! ### `watchProcess` -/

/-- The deadline of a process has passed. -/
def late (info : ProcessInfo) (now : Time) : Bool :=
  0 < info.timeout && info.startedAt + 1000 * info.timeout ≤ (now : ℤ)

/-- The head of the loop: `proc.Status` and what follows from it. -/
def watchPoll (w : World) (a : ℕ) (info : ProcessInfo) (now : Time) (fault : Option Fault) :
    World :=
  match fault, w.containerd.execs.find? info.key with
  | some _, _ => w
  | none, none => w.enter a (.watched .missing)
  | none, some (.stopped code time) => w.enter a (.watched (.stopped code time))
  | none, some _ =>
    if late info now then
      (w.setObject a fun p => { p with info := { p.info with timedOut := true } }).enter a
        (.watched .late)
    else w

/-- The record of a process that the runtime does not know. -/
def lost (info : ProcessInfo) (now : Time) : ProcessInfo :=
  { info with
    status := .error
    error := "Runtime process missing; exit code unavailable"
    completedAt := some now }

/-- The runtime does not know the process. -/
def watchMissing (w : World) (a : ℕ) (info : ProcessInfo) (now : Time) (fault : Option Fault) :
    World :=
  let w := if info.exitCode.isSome then w.note (.lateMissing info.key) else w
  match w.store a (lost info now) fault with
  | (none, w) => w.enter a .done
  | (some _, w) => w.enter a (.watched .poll)

/-- The record of a process that exited. -/
def exited (info : ProcessInfo) (complete : Bool) (code : UInt32) (time : Time) : ProcessInfo :=
  { info with
    error := if complete then info.error else "Log capture did not finish successfully"
    status := .exited
    exitCode := some code
    completedAt := some time }

/-- The collector of a process is through. -/
def logsDone (w : World) (k : Key) : Bool := (w.history.dirs.find? k).any Dir.logsDone

/-- The collector of a process is at work. -/
def collecting (w : World) (k : Key) : Bool := (w.history.dirs.find? k).any Dir.collecting

/-- The process stopped.  The wait for the collector ends when it is through, or after a
second. -/
def watchStopped (w : World) (a : ℕ) (info : ProcessInfo) (code : UInt32) (time : Option Time)
    (now : Time) (fault : Option Fault) : World :=
  let complete := w.logsDone info.key
  let w := if w.collecting info.key then w.note (.cutLogs info.key) else w
  match w.store a (exited info complete code (time.getD now)) fault with
  | (none, w) => w.enter a (.watched .saved)
  | (some _, w) => w.enter a (.watched .poll)

/-- `proc.Delete`: a running exec stays. -/
def deleteExec (w : World) (k : Key) : Except Err Unit × World :=
  match w.containerd.execs.find? k with
  | none => (.error .notFound, w)
  | some .running => (.error .failedPrecondition, w)
  | some _ => (.ok (), w.setExecs fun execs => execs.erase k)

/-- The exit is saved: the runtime's record can go. -/
def watchSaved (w : World) (a : ℕ) (info : ProcessInfo) (fault : Option Fault) : World :=
  let gone := match fault with
    | some fault => fault.late
    | none => true
  (if gone then (w.deleteExec info.key).2 else w).enter a .done

/-- One step of the watcher of the record at `a`.  A kill takes no effect here: the process may
exit at any time, killed or not. -/
def watch (w : World) (a : ℕ) (now : Time) (fault : Option Fault) : World :=
  match w.object? a with
  | none => w
  | some p =>
    match p.stage with
    | .building _ | .recovering _ | .done => w
    | .watched .poll => w.watchPoll a p.info now fault
    | .watched .late => w.enter a (.watched .poll)
    | .watched .missing => w.watchMissing a p.info now fault
    | .watched (.stopped code time) => w.watchStopped a p.info code time now fault
    | .watched .saved => w.watchSaved a p.info fault

/-! ### `waitExec` -/

/-- `done` of the record at `a` is closed. -/
def isDone (w : World) (a : ℕ) : Bool := (w.object? a).any fun p => p.stage = .done

/-- A container of the adapter: what `load` finds. -/
def managed? (w : World) (id : String) : Option Container :=
  (w.containerd.containers.find? id).filter Container.managed

/-- A call of `waitExec` goes on. -/
def resume (w : World) (i : ℕ) (phase : WaitPhase) : World :=
  w.setWaiter i fun q => { q with phase := phase }

/-- The exit of the record at `a` is noted, without a timeout. -/
def inTime (w : World) (a : ℕ) : Bool :=
  (w.object? a).any fun p => p.info.exitCode.isSome && !p.info.timedOut

/-- The `select` of `waitExec`. -/
def waitSelect (w : World) (i : ℕ) (q : Waiter) : WaitChoice → World
  | .proceed => if w.isDone q.object then w.resume i .finish else w
  | .timer =>
    let w := if w.inTime q.object then w.note (.overdue q.key) else w
    (w.setObject q.object fun p => { p with info := { p.info with timedOut := true } }).setWaiter i
      fun q => { q with timedOut := true, phase := .kill }
  | .cancel => w.resume i .ended

/-- `KillProcess` up to its signal. -/
def waitKill (w : World) (i : ℕ) (q : Waiter) : World :=
  match w.managed? q.key.1, w.lookupProcess q.key.1 q.key.2 with
  | some _, some (b, p) =>
    if p.info.status ≠ .running then
      (if p.info.exitCode.isSome ∧ p.stage ≠ .done then w.note (.early q.key) else w).resume i
        .finish
    else w.resume i (.signal b)
  | _, _ => w.resume i .ended

/-- `KillProcess` waits for the record at `b`. -/
def waitKilled (w : World) (i b : ℕ) : WaitChoice → World
  | .proceed => if w.isDone b then w.resume i .finish else w
  | .timer | .cancel => w.resume i .ended

/-- The snapshot after the wait. -/
def waitFinish (w : World) (i : ℕ) (q : Waiter) : World :=
  match w.object? q.object with
  | none => w.resume i .ended
  | some p =>
    match p.info.exitCode with
    | none => w.resume i .ended
    | some code => w.resume i (.readStdout ⟨[], [], code, q.timedOut || p.info.timedOut, false⟩)

/-- `waitExec` returns a result. -/
def deliver (w : World) (i : ℕ) (k : Key) (result : ExecResult) : World :=
  { w.resume i .ended with trace := { w.trace with results := (k, result) :: w.trace.results } }

/-- The output files, one after the other. -/
def waitRead (w : World) (i : ℕ) (q : Waiter) : World :=
  match q.phase, w.history.dirs.find? q.key with
  | .readStdout r, some dir =>
    match dir.stdout with
    | some bytes => w.resume i (.readStderr { r with stdout := bytes })
    | none => w.resume i .ended
  | .readStderr r, some dir =>
    match dir.stderr with
    | some bytes => w.resume i (.statStdout { r with stderr := bytes })
    | none => w.resume i .ended
  | .statStdout r, dir => w.resume i (.statStderr { r with truncated := dir.any Dir.stdoutTruncated })
  | .statStderr r, dir =>
    w.deliver i q.key { r with truncated := r.truncated || dir.any Dir.stderrTruncated }
  | _, _ => w.resume i .ended

/-- One step of a call of `waitExec`. -/
def wait (w : World) (i : ℕ) (choice : WaitChoice) (fault : Option Fault) : World :=
  match w.memory.waiters[i]? with
  | none => w
  | some q =>
    match q.phase with
    | .ended => w
    | .select => w.waitSelect i q choice
    | .killed b => w.waitKilled i b choice
    | .finish => w.waitFinish i q
    | .kill => if fault.isSome then w.resume i .ended else w.waitKill i q
    | .signal b => if fault.isSome then w.resume i .ended else w.resume i (.killed b)
    | .readStdout _ | .readStderr _ => if fault.isSome then w.resume i .ended else w.waitRead i q
    | .statStdout _ | .statStderr _ => w.waitRead i q

/-! ### The collectors -/

/-- `logLimit` -/
def logLimit : ℕ := 1048576

/-- `captureLog`: what is kept of a stream, and whether something was dropped. -/
def capture (kept bytes : Bytes) : Bytes × Bool :=
  (kept ++ bytes.take (logLimit - kept.length), logLimit - kept.length < bytes.length)

/-- One step of the collector of a process. -/
def Collect.apply (step : Collect) (dir : Dir) : Dir :=
  if dir.collecting then
    match step with
    | .start =>
      { dir with stdout := some (dir.stdout.getD []), stderr := some (dir.stderr.getD []) }
    | .write false bytes =>
      match dir.stdout with
      | some kept =>
        { dir with
          stdout := some (capture kept bytes).1
          stdoutTruncated := dir.stdoutTruncated || (capture kept bytes).2 }
      | none => dir
    | .write true bytes =>
      match dir.stderr with
      | some kept =>
        { dir with
          stderr := some (capture kept bytes).1
          stderrTruncated := dir.stderrTruncated || (capture kept bytes).2 }
      | none => dir
    | .finish => { dir with logsDone := true, collecting := false }
    | .die => { dir with collecting := false }
  else dir

/-! ### The kernel -/

/-- A change of the network objects. -/
def withNet (w : World) (f : Net → Net) : World := { w with net := f w.net }

/-- A change of the quota objects. -/
def withQuota (w : World) (f : Quota → Quota) : World := { w with quota := f w.quota }

/-- Some snapshot has this number. -/
def inUse (c : Containerd) (number : ℕ) : Bool :=
  c.snapshots.rows.any fun row => row.2.number = number

/-- One step beside the operations. -/
def back (host : Host) (w : World) : Back → World
  | .exit k code time => w.exit k code time
  | .taskExit id codes time => w.taskExit id codes time
  | .watch a now fault => w.watch a now fault
  | .wait i choice fault => w.wait i choice fault
  | .collect k step => w.setDir k (Collect.apply step)
  | .drift k none => w.setExecs fun execs => execs.erase k
  | .drift k (some state) => w.setExecs fun execs => execs.put k state
  | .removeDirectory number =>
    if inUse w.containerd number then w
    else w.withQuota fun q => { q with directories := q.directories.filter (· ≠ number) }
  | .charge number amount =>
    -- Only directories that carry the project are charged to it.
    if number ∈ w.quota.directories ∧ number ∈ w.quota.attributes.map Prod.fst then
      w.withQuota fun q => { q with usage := fun n => if n = number then amount else q.usage n }
    else w
  | .discharge number =>
    if number ∈ w.quota.directories then w
    else w.withQuota fun q => { q with usage := fun n => if n = number then .zero else q.usage n }
  | .traffic id inbound =>
    match (w.net.links.find? (host.networkName id)).bind Link.guest with
    | some guest => w.withNet fun n => { n with conntrack := ⟨id, guest, inbound⟩ :: n.conntrack }
    | none => w

/-- What happens before a step of an operation. -/
def pass (host : Host) (w : World) (steps : List Back) : World := steps.foldl (back host) w

end World

end Sandcube.Adapter
