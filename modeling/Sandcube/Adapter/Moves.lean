import Sandcube.Adapter.Touches

/-!
# The moves of the adapter

Every change that an operation makes to the state is one of the moves below, with what the
operation knows when it makes it.  The programs are shown to consist of moves once (`Steps`);
invariants are then proved by cases over the moves.

A move is made for a sandbox, its `target`.  Background steps can come before each of them.
-/

namespace Sandcube.Adapter

variable {id : String} {w w' : World} {host : Host} {a : ℕ} {May : Back → Prop}

/-! ### Kinds -/

/-- What a move changes. -/
inductive Kind where
  | setup | net | create | drop | quota | erase | task | register (pid : String) | start | forget
  | clean | boot
  deriving DecidableEq

/-- The move works on the record of a process. -/
def Kind.works : Kind → Bool
  | .register _ | .start | .boot => true
  | .setup | .net | .create | .drop | .quota | .erase | .task | .forget | .clean => false

/-! ### The network -/

/-- A record that `removeNetworkLocked` accepts. -/
structure NetworkRecord.Owned (r : NetworkRecord) (host : Host) (id : String) : Prop where
  self : r.id = id
  name : r.name = host.networkName id
  guest : inPool r.guest = true

/-- The sandbox has no task that runs. -/
def World.Idle (w : World) (id : String) : Prop :=
  w.containerd.tasks.find? id ≠ some .running ∨ w.managed? id = none

/-- The changes of the network objects.  Journal record and firewall are made by `setupNetwork`
alone. -/
inductive NetMove (host : Host) (w : World) (id : String) : Kind → Net → Prop
  | record {r : NetworkRecord} (owned : r.Owned host id) (free : w.net.records.find? id = none)
      (unfiltered : r.guest ∉ w.net.filtered) :
      NetMove host w id .setup { w.net with records := w.net.records.put id r }
  | table {r : NetworkRecord} (owner : w.net.records.find? id = some r)
      (unfiltered : r.guest ∉ w.net.filtered) :
      NetMove host w id .setup { w.net with tables := w.net.tables.put r.name r.guest }
  | command {r : NetworkRecord} (c : NetCommand) (owner : w.net.records.find? id = some r)
      (fenced : (w.net.tables.find? r.name).isSome) : NetMove host w id .net (c.run r w.net).2
  | resolver (owner : (w.net.records.find? id).isSome) :
      NetMove host w id .net
        { w.net with
          resolvers := if id ∈ w.net.resolvers then w.net.resolvers else id :: w.net.resolvers }
  | dropLink {r : NetworkRecord} (owner : w.net.records.find? id = some r) :
      NetMove host w id .net { w.net with links := w.net.links.erase r.name }
  | dropNamespace {r : NetworkRecord} (owner : w.net.records.find? id = some r) :
      NetMove host w id .net { w.net with namespaces := w.net.namespaces.filter (· ≠ r.name) }
  | dropFlows {r : NetworkRecord} (inbound : Bool) (owner : w.net.records.find? id = some r) :
      NetMove host w id .net
        { w.net with
          conntrack := w.net.conntrack.filter fun e => ¬ (e.guest = r.guest ∧ e.inbound = inbound) }
  | dropTable {r : NetworkRecord} (owner : w.net.records.find? id = some r)
      (name : r.name = host.networkName id) (unlinked : w.net.links.find? r.name = none)
      (left : r.name ∉ w.net.namespaces) (idle : w.Idle id)
      (quiet : ∀ f ∈ w.net.conntrack, f.guest = r.guest → f.sandbox ≠ id) :
      NetMove host w id .net { w.net with tables := w.net.tables.erase r.name }
  | dropResolver : NetMove host w id .net { w.net with resolvers := w.net.resolvers.filter (· ≠ id) }
  | dropRecord {r : NetworkRecord} (owner : w.net.records.find? id = some r)
      (name : r.name = host.networkName id) (unlinked : w.net.links.find? r.name = none)
      (left : r.name ∉ w.net.namespaces) (open' : w.net.tables.find? r.name = none)
      (quiet : ∀ f ∈ w.net.conntrack, f.guest = r.guest → f.sandbox ≠ id)
      (resolver : id ∉ w.net.resolvers) :
      NetMove host w id .net { w.net with records := w.net.records.erase id }

/-! ### Operations in progress -/

/-- No operation works on the record. -/
def Stage.Resting : Stage → Prop
  | .building _ | .recovering _ => False
  | .watched _ | .done => True

/-- No operation works on any record. -/
def World.AtRest (w : World) : Prop := ∀ a p, w.object? a = some p → p.stage.Resting

/-! ### Containers, snapshots and quotas -/

/-- The journal of a sandbox names the project of its snapshot. -/
def World.Snapped (w : World) (id : String) (project : ℕ) : Prop :=
  ∃ s, w.containerd.snapshots.find? id = some s ∧ s.number = project

/-- Only snapshots with the adapter's label have the key. -/
def World.Labelled (w : World) (key : String) : Prop :=
  ∀ s, w.containerd.snapshots.find? key = some s → s.managed = true

/-- No snapshot with the adapter's label has the key. -/
def World.Unlabelled (w : World) (key : String) : Prop :=
  ∀ s, w.containerd.snapshots.find? key = some s → s.managed = false

/-- The changes of containers, snapshots and quota objects: those that `Create` alone makes, and those
that give something back.  A snapshot goes for its label, or with the container that it belongs to. -/
inductive QuotaMove (host : Host) (w : World) (id : String) : Kind → World → Prop
  | prepareSnapshot (absent : w.containerd.containers.find? id = none)
      (unclaimed : w.quota.journals.find? id = none) :
      QuotaMove host w id .create (w.prepareSnapshot id).2
  | removeSnapshot (labelled : w.Labelled id) : QuotaMove host w id .drop (w.removeSnapshot id).2
  | dropSnapshot {c : Container} (managed : w.managed? id = some c) :
      QuotaMove host w id .erase (w.removeSnapshot c.snapshotKey).2
  | claim {parent : Path} {number project : ℕ} (diskMb : ℤ)
      (absent : w.containerd.containers.find? id = none)
      (unclaimed : w.quota.journals.find? id = none) (snapshot : w.Snapped id number)
      (path : snapshotQuotaPath (host.mounts number) = .ok (parent, project)) :
      QuotaMove host w id .create
        (w.withQuota fun q =>
          { q with journals := q.journals.put id ⟨id, parent, project, diskMb⟩ })
  | limit {r : QuotaRecord} (absent : w.containerd.containers.find? id = none)
      (claimed : w.quota.journals.find? id = some r) (snapshot : w.Snapped id r.project)
      (bounds : 16 ≤ r.diskMb ∧ r.diskMb ≤ 1048576) :
      QuotaMove host w id .create (w.withQuota (Quota.setLimits r.project (limitsFor r.diskMb)))
  | mark (project : ℕ) (sub : String) :
      QuotaMove host w id .create (w.withQuota fun q => (q.setAttr project sub).2)
  | commit {r : QuotaRecord} {config : String} (claimed : w.quota.journals.find? id = some r)
      (snapshot : w.Snapped id r.project) (bounds : 16 ≤ r.diskMb ∧ r.diskMb ≤ 1048576)
      (limited : w.quota.limits r.project = limitsFor r.diskMb) :
      QuotaMove host w id .create
        (w.commitContainer id ⟨"true", runtimeName, config, r.diskMb, id⟩).2
  | cleanup :
      QuotaMove host w id .quota
        (w.withQuota fun q =>
          { q with directories := q.directories.filter (World.inUse w.containerd) })
  | unlimit {r : QuotaRecord} (absent : w.containerd.containers.find? id = none)
      (claimed : w.quota.journals.find? id = some r) (gone : r.project ∉ w.quota.directories)
      (unused : w.quota.usage r.project = .zero) :
      QuotaMove host w id .quota (w.withQuota (Quota.setLimits r.project .zero))
  | release {r : QuotaRecord} (absent : w.containerd.containers.find? id = none)
      (claimed : w.quota.journals.find? id = some r) (gone : r.project ∉ w.quota.directories)
      (unused : w.quota.usage r.project = .zero) (unlimited : w.quota.limits r.project = .zero) :
      QuotaMove host w id .quota
        (w.withQuota fun q => { q with journals := q.journals.erase id })

/-- The record of a container goes. -/
inductive EraseMove (w : World) (id : String) : World → Prop
  | eraseContainer (rest : w.AtRest) (taskless : w.containerd.tasks.find? id = none)
      (managed : (w.managed? id).isSome) :
      EraseMove w id (w.eraseContainer id).2

/-! ### Tasks -/

/-- Every registered process of the sandbox is done. -/
def World.Settled (w : World) (id : String) : Prop := ∀ a ∈ w.registered id, w.isDone a = true

/-- The changes of tasks. -/
inductive TaskMove (host : Host) (w : World) (id : String) : World → Prop
  | new (managed : (w.managed? id).isSome) : TaskMove host w id (w.newTask id).2
  | start (fenced : (w.net.tables.find? (host.networkName id)).isSome)
      (managed : (w.managed? id).isSome) : TaskMove host w id (w.startTask id).2
  | remove (managed : (w.managed? id).isSome) : TaskMove host w id (w.removeTask id)
  | removeSettled (settled : w.Settled id) (managed : (w.managed? id).isSome) :
      TaskMove host w id (w.removeTask id)

/-! ### Processes -/

/-- The record has ended. -/
def ProcessInfo.Ended (info : ProcessInfo) : Prop := info.status = .exited ∨ info.status = .error

/-- `StartProcess` registers its record. -/
inductive RegisterMove (host : Host) (w : World) (id pid : String) : World → Prop
  | register (req : ExecRequest) (now : Time) (rest : w.AtRest)
      (serving : w.memory.serving = true) (managed : (w.managed? id).isSome)
      (valid : validProcessID pid = true) (free : w.lookupProcess id pid = none) :
      RegisterMove host w id pid (World.register host id req pid now w)

/-- The other changes of `StartProcess`.  `p` is the record in memory, at the address `a`, of the
process that is worked on. -/
inductive StartMove (host : Host) (w : World) (id : String) : World → Prop
  | makeDir {a : ℕ} {p : Tracked} (obj : w.object? a = some p) (mine : p.info.sandboxId = id)
      (stage : p.stage = .building .fresh) (managed : (w.managed? id).isSome) :
      StartMove host w id (w.makeDir p.info.key)
  | saveStarting {a : ℕ} {p : Tracked} (fault : Option Fault) (obj : w.object? a = some p)
      (mine : p.info.sandboxId = id) (stage : p.stage = .building .fresh)
      (managed : (w.managed? id).isSome) (status : p.info.status = .starting) :
      StartMove host w id (w.store a p.info fault).2
  | mkfifo {a : ℕ} {p : Tracked} {launch : Launch} {name : String} (obj : w.object? a = some p)
      (mine : p.info.sandboxId = id) (stage : p.stage = .building launch)
      (first : launch = .fresh ∧ name = "stdout.pipe" ∨ launch = .piped)
      (recorded : w.Recorded p.info.key) : StartMove host w id (w.mkfifo a p.info.key name).2
  | collect {a : ℕ} {p : Tracked} (obj : w.object? a = some p) (mine : p.info.sandboxId = id)
      (stage : p.stage = .building .piped) :
      StartMove host w id (w.setDir p.info.key fun dir => { dir with collecting := true })
  | createExec {a : ℕ} {p : Tracked} (obj : w.object? a = some p) (mine : p.info.sandboxId = id)
      (stage : p.stage = .building .piped) (managed : (w.managed? id).isSome)
      (recorded : w.Recorded p.info.key) : StartMove host w id (w.createExec p.info.key).2
  | adopt {a : ℕ} {p : Tracked} (obj : w.object? a = some p) (mine : p.info.sandboxId = id)
      (stage : p.stage = .building .piped) :
      StartMove host w id (w.setObject a fun p => { p with proc := true })
  | invoke {a : ℕ} {p : Tracked} (obj : w.object? a = some p) (mine : p.info.sandboxId = id)
      (stage : p.stage = .building .piped) (managed : (w.managed? id).isSome)
      (recorded : w.Recorded p.info.key) : StartMove host w id (w.invoke a p.info.key)
  | launch {a : ℕ} {p : Tracked} (obj : w.object? a = some p) (mine : p.info.sandboxId = id)
      (stage : p.stage = .building .tried)
      (created : w.containerd.execs.find? p.info.key = some .created) :
      StartMove host w id (w.launch p.info.key)
  | succeed {a : ℕ} {p : Tracked} (obj : w.object? a = some p) (mine : p.info.sandboxId = id)
      (stage : p.stage = .building .tried)
      (created : w.containerd.execs.find? p.info.key = some .created)
      (starting : p.info.status = .starting) :
      StartMove host w id ((w.launch p.info.key).succeed a p.info.key)
  | discard {a : ℕ} {p : Tracked} (obj : w.object? a = some p) (mine : p.info.sandboxId = id)
      (stage : p.stage = .building .tried) :
      StartMove host w id (w.setExecs fun execs => execs.erase p.info.key)
  | abort {a : ℕ} {p : Tracked} {launch : Launch} (now : Time) (fault : Option Fault)
      (obj : w.object? a = some p) (mine : p.info.sandboxId = id)
      (stage : p.stage = .building launch) (unbegun : launch ≠ .begun)
      (managed : (w.managed? id).isSome) (exitless : p.info.exitCode = none) :
      StartMove host w id (w.store a (failedInfo "Process start failed" now p.info) fault).2
  | close {a : ℕ} {p : Tracked} {launch : Launch} (obj : w.object? a = some p)
      (mine : p.info.sandboxId = id) (stage : p.stage = .building launch)
      (unbegun : launch ≠ .begun) (failed : p.info.status = .error) :
      StartMove host w id (w.enter a .done)
  | saveRunning {a : ℕ} {p : Tracked} (fault : Option Fault) (obj : w.object? a = some p)
      (mine : p.info.sandboxId = id) (stage : p.stage = .building .begun)
      (managed : (w.managed? id).isSome) (exitless : p.info.exitCode = none)
      (incomplete : p.info.completedAt = none) :
      StartMove host w id (w.store a { p.info with status := .running } fault).2
  | watch {a : ℕ} {p : Tracked} (obj : w.object? a = some p) (mine : p.info.sandboxId = id)
      (stage : p.stage = .building .begun) (running : p.info.status = .running) :
      StartMove host w id (w.enter a (.watched .poll))
  | wait {pid : String} {a : ℕ} {p : Tracked} (found : w.lookupProcess id pid = some (a, p)) :
      StartMove host w id (w.addWaiter (id, pid) a)

/-- The changes of `forgetProcesses` and `cleanupProcessRecords`. -/
inductive ForgetMove (host : Host) (w : World) (id : String) : Kind → World → Prop
  | eraseDir {pid : String} (rest : w.AtRest) (unmanaged : w.managed? id = none) :
      ForgetMove host w id .forget (w.eraseDir (id, pid))
  | eraseHome (unmanaged : w.managed? id = none) : ForgetMove host w id .forget (w.eraseHome id)
  | unregister (rest : w.AtRest) (unmanaged : w.managed? id = none)
      (empty : ∀ pid, w.history.dirs.find? (id, pid) = none) :
      ForgetMove host w id .forget (World.unregister id w)
  | cleanup {a : ℕ} {p : Tracked} (obj : w.object? a = some p) (mine : p.info.sandboxId = id)
      (done : p.stage = .done) : ForgetMove host w id .clean (w.deleteExec p.info.key).2

/-- The changes of `recoverProcesses`, and the opening of the socket. -/
inductive BootMove (host : Host) (w : World) (id : String) : World → Prop
  | sweepDir {pid : String} (down : w.memory.serving = false) (fresh : w.memory.heap = [])
      (unrecorded : w.history.record? (id, pid) = none) :
      BootMove host w id (w.eraseDir (id, pid))
  | enroll {info : ProcessInfo} (rest : w.AtRest) (mine : info.sandboxId = id)
      (down : w.memory.serving = false) (valid : validProcessID info.id = true)
      (recorded : w.history.record? info.key = some info)
      (new : ∀ a p, w.object? a = some p → p.info.key ≠ info.key) :
      BootMove host w id (w.enroll info (.recovering .nothing))
  | miss {a : ℕ} {p : Tracked} (obj : w.object? a = some p) (mine : p.info.sandboxId = id)
      (stage : p.stage = .recovering .nothing)
      (missing : w.managed? id = none ∨ w.containerd.tasks.find? id = none ∨
        w.containerd.execs.find? p.info.key = none) :
      BootMove host w id (w.enter a (.recovering .missing))
  | adopt {a : ℕ} {p : Tracked} (obj : w.object? a = some p) (mine : p.info.sandboxId = id)
      (stage : p.stage = .recovering .nothing) :
      BootMove host w id (w.setObject a fun p => { p with proc := true })
  | meet {a : ℕ} {p : Tracked} (state : ExecState) (obj : w.object? a = some p)
      (mine : p.info.sandboxId = id) (stage : p.stage = .recovering .nothing)
      (found : w.containerd.execs.find? p.info.key = some state) :
      BootMove host w id (World.meet a p.info state w)
  | lose {a : ℕ} {p : Tracked} (now : Time) (fault : Option Fault) (obj : w.object? a = some p)
      (mine : p.info.sandboxId = id) (stage : p.stage = .recovering .missing)
      (going : ¬ p.info.Ended) :
      BootMove host w id
        (w.store a (failedInfo "Process missing after runtime restart; exit code unavailable" now
          p.info) fault).2
  | interrupt {a : ℕ} {p : Tracked} (now : Time) (fault : Option Fault)
      (obj : w.object? a = some p) (mine : p.info.sandboxId = id)
      (stage : p.stage = .recovering .created)
      (revived : p.info.exitCode.isSome → .revived p.info.key ∈ w.trace.incidents)
      (undead : p.info.exitCode.isSome → .undead p.info.key ∈ w.trace.incidents) :
      BootMove host w id (w.store a (failedInfo "Process start interrupted" now p.info) fault).2
  | resume {a : ℕ} {p : Tracked} (fault : Option Fault) (obj : w.object? a = some p)
      (mine : p.info.sandboxId = id) (stage : p.stage = .recovering .begun)
      (revived : p.info.completedAt.isSome → .revived p.info.key ∈ w.trace.incidents)
      (undead : p.info.exitCode.isSome → .undead p.info.key ∈ w.trace.incidents) :
      BootMove host w id (w.store a { p.info with status := .running, error := "" } fault).2
  | dropInterrupted {a : ℕ} {p : Tracked} (obj : w.object? a = some p)
      (mine : p.info.sandboxId = id) (stage : p.stage = .recovering .created) :
      BootMove host w id (w.deleteExec p.info.key).2
  | dropEnded {a : ℕ} {p : Tracked} (obj : w.object? a = some p) (mine : p.info.sandboxId = id)
      (stage : p.stage = .recovering .begun) (ended : p.info.Ended) :
      BootMove host w id (w.deleteExec p.info.key).2
  | close {a : ℕ} {p : Tracked} {seen : Seen} (obj : w.object? a = some p)
      (mine : p.info.sandboxId = id) (stage : p.stage = .recovering seen) (known : seen ≠ .nothing)
      (ended : p.info.Ended) : BootMove host w id (w.enter a .done)
  | rewatch {a : ℕ} {p : Tracked} (obj : w.object? a = some p) (mine : p.info.sandboxId = id)
      (stage : p.stage = .recovering .begun) (going : ¬ p.info.Ended) :
      BootMove host w id (w.enter a (.watched .poll))
  | serve (rest : w.AtRest)
      (complete : ∀ k, w.Recorded k → ∃ a p, w.object? a = some p ∧ p.info.key = k) :
      BootMove host w id { w with memory := { w.memory with serving := true } }

/-! ### All of them -/

/-- The moves some operation may make: their kinds and targets. -/
abbrev Scope := Kind → String → Prop

namespace Scope

/-- Every move. -/
def any : Scope := fun _ _ => True

/-- The moves for one sandbox. -/
def on (id : String) : Scope := fun _ id' => id' = id

/-- The moves of one kind for one sandbox. -/
def only (kind : Kind) (id : String) : Scope := fun kind' id' => kind' = kind ∧ id' = id

/-- Moves of these kinds for one sandbox. -/
def onKinds (kinds : List Kind) (id : String) : Scope := fun kind id' => kind ∈ kinds ∧ id' = id

theorem onKinds_le {scope : Scope} {kinds : List Kind} (h : ∀ kind ∈ kinds, scope kind id) :
    ∀ kind id', onKinds kinds id kind id' → scope kind id' := by
  rintro kind _ ⟨hkind, rfl⟩
  exact h kind hkind

end Scope

/-- One step: a background step or a move in the scope. -/
inductive Move (host : Host) (May : Back → Prop) (scope : Scope) (w : World) : World → Prop
  | back {b : Back} (may : May b) : Move host May scope w (w.back host b)
  | net {kind : Kind} {id : String} {n : Net} (inScope : scope kind id)
      (move : NetMove host w id kind n) :
      Move host May scope w (w.withNet fun _ => n)
  | quota {kind : Kind} {id : String} {w' : World} (inScope : scope kind id)
      (move : QuotaMove host w id kind w') :
      Move host May scope w w'
  | erase {id : String} {w' : World} (inScope : scope .erase id) (move : EraseMove w id w') :
      Move host May scope w w'
  | task {id : String} {w' : World} (inScope : scope .task id) (move : TaskMove host w id w') :
      Move host May scope w w'
  | register {id pid : String} {w' : World} (inScope : scope (.register pid) id)
      (move : RegisterMove host w id pid w') : Move host May scope w w'
  | start {id : String} {w' : World} (inScope : scope .start id) (move : StartMove host w id w') :
      Move host May scope w w'
  | forget {kind : Kind} {id : String} {w' : World} (inScope : scope kind id)
      (move : ForgetMove host w id kind w') : Move host May scope w w'
  | boot {id : String} {w' : World} (inScope : scope .boot id) (move : BootMove host w id w') :
      Move host May scope w w'

namespace Move

variable {host : Host} {May : Back → Prop} {scope scope' : Scope}

theorem isOpen (scope : Scope) : Open host May (Move host May scope) := fun _ _ h => .back h

theorem mono (h : ∀ kind id, scope kind id → scope' kind id) (hm : Move host May scope w w') :
    Move host May scope' w w' := by
  cases hm with
  | back may => exact .back may
  | net inScope move => exact .net (h _ _ inScope) move
  | quota inScope move => exact .quota (h _ _ inScope) move
  | erase inScope move => exact .erase (h _ _ inScope) move
  | task inScope move => exact .task (h _ _ inScope) move
  | register inScope move => exact .register (h _ _ inScope) move
  | start inScope move => exact .start (h _ _ inScope) move
  | forget inScope move => exact .forget (h _ _ inScope) move
  | boot inScope move => exact .boot (h _ _ inScope) move

end Move

/-- Nothing is known when the operation fails. -/
def unknown : Err → World → Prop := fun _ _ => True

/-- A program whose steps are moves in the scope. -/
abbrev Runs {α : Type} (host : Host) (May : Back → Prop) (scope : Scope) (P : World → Prop)
    (p : Op α) (Q : α → World → Prop) (R : Err → World → Prop) : Prop :=
  Prog.Does (within May) (Move host May scope) P p Q R

/-! ### What moves leave alone -/

variable {scope : Scope} {kind : Kind}

/-- The record of a snapshot goes, if there is one. -/
theorem World.removeSnapshot_eq (w : World) (key : String) :
    (w.removeSnapshot key).2 =
      { w with
        containerd := { w.containerd with snapshots := w.containerd.snapshots.erase key } } := by
  unfold removeSnapshot
  cases h : w.containerd.snapshots.find? key with
  | none => rw [Table.erase_of_find?_eq_none _ h]
  | some s => rfl

/-- Quotas and snapshots have nothing to do with processes, tasks and networks. -/
theorem QuotaMove.frame (h : QuotaMove host w id kind w') :
    ∃ containers snapshots next quota,
      w' =
        { w with
          containerd :=
            { w.containerd with
              containers := containers
              snapshots := snapshots
              nextSnapshot := next }
          quota := quota } := by
  cases h with
  | prepareSnapshot => unfold World.prepareSnapshot; split <;> exact ⟨_, _, _, _, rfl⟩
  | removeSnapshot | dropSnapshot => exact ⟨_, _, _, _, w.removeSnapshot_eq _⟩
  | claim | limit | mark | cleanup | unlimit | release => exact ⟨_, _, _, _, rfl⟩
  | commit => unfold World.commitContainer; split <;> exact ⟨_, _, _, _, rfl⟩

theorem NetMove.still {n : Net} (_ : NetMove host w id kind n) :
    (w.withNet fun _ => n).memory = w.memory ∧ (w.withNet fun _ => n).history = w.history :=
  ⟨rfl, rfl⟩

theorem QuotaMove.still (h : QuotaMove host w id kind w') :
    w'.memory = w.memory ∧ w'.history = w.history := by
  obtain ⟨_, _, _, _, rfl⟩ := h.frame
  exact ⟨rfl, rfl⟩

/-- The other tasks stay as they are. -/
theorem TaskMove.frame (h : TaskMove host w id w') :
    ∃ tasks execs incidents, w.trace.incidents ⊆ incidents ∧
      w' =
        { w with
          containerd := { w.containerd with tasks := tasks, execs := execs }
          trace := { w.trace with incidents := incidents } } := by
  cases h with
  | new => unfold World.newTask; split <;> exact ⟨_, _, _, fun _ hi => hi, rfl⟩
  | start => unfold World.startTask; split <;> exact ⟨_, _, _, fun _ hi => hi, rfl⟩
  | remove | removeSettled =>
    unfold World.removeTask
    dsimp only
    split_ifs
    · exact ⟨_, _, _, List.subset_cons_self .., rfl⟩
    · exact ⟨_, _, _, fun _ hi => hi, rfl⟩

/-- An erased container was managed, and its attempts are no longer told from new ones. -/
theorem EraseMove.inv (h : EraseMove w id w') :
    w.AtRest ∧ w.containerd.tasks.find? id = none ∧ (w.managed? id).isSome ∧
      w' =
        { w with
          containerd := { w.containerd with containers := w.containerd.containers.erase id }
          trace := { w.trace with invoked := w.trace.invoked.filter fun k => k.1 ≠ id } } := by
  cases h with
  | eraseContainer rest taskless managed =>
    refine ⟨rest, taskless, managed, ?_⟩
    unfold World.eraseContainer
    split
    · next hnone =>
      rw [World.managed?, hnone] at managed
      cases managed
    · rfl

theorem EraseMove.still (h : EraseMove w id w') :
    w'.memory = w.memory ∧ w'.history = w.history := by
  obtain ⟨-, -, -, rfl⟩ := h.inv
  exact ⟨rfl, rfl⟩

theorem TaskMove.still (h : TaskMove host w id w') :
    w'.memory = w.memory ∧ w'.history = w.history := by
  obtain ⟨_, _, _, -, rfl⟩ := h.frame
  exact ⟨rfl, rfl⟩

theorem TaskMove.containers_eq (h : TaskMove host w id w') :
    w'.containerd.containers = w.containerd.containers ∧ w'.quota = w.quota := by
  obtain ⟨_, _, _, -, rfl⟩ := h.frame
  exact ⟨rfl, rfl⟩

theorem TaskMove.snapshots_eq (h : TaskMove host w id w') :
    w'.containerd.snapshots = w.containerd.snapshots := by
  obtain ⟨_, _, _, -, rfl⟩ := h.frame
  rfl

/-- A container that is there stays. -/
theorem QuotaMove.managed (move : QuotaMove host w id kind w') {id' : String}
    (h : (w.managed? id').isSome) : (w'.managed? id').isSome := by
  cases move with
  | prepareSnapshot => unfold World.prepareSnapshot; split <;> exact h
  | removeSnapshot | dropSnapshot => rw [World.removeSnapshot_eq]; exact h
  | claim | limit | mark | cleanup | unlimit | release => exact h
  | commit =>
    unfold World.commitContainer
    split
    · exact h
    · next hnone =>
      unfold World.managed? at h ⊢
      dsimp only
      rw [Table.find?_put_of_ne]
      · exact h
      · rintro rfl
        rw [hnone] at h
        cases h

theorem ForgetMove.heap_eq (h : ForgetMove host w id kind w') :
    w'.memory.heap = w.memory.heap := by
  cases h with
  | eraseDir | eraseHome | unregister => rfl
  | cleanup => rw [World.deleteExec_memory]

/-! ### What the moves of processes leave alone -/

/-- What no move of a process changes. -/
structure Aside (w w' : World) : Prop where
  containers : w'.containerd.containers = w.containerd.containers
  tasks : w'.containerd.tasks = w.containerd.tasks
  snapshots : w'.containerd.snapshots = w.containerd.snapshots
  nextSnapshot : w'.containerd.nextSnapshot = w.containerd.nextSnapshot
  net : w'.net = w.net
  quota : w'.quota = w.quota
  /-- An open socket stays open. -/
  serving : w.memory.serving = true → w'.memory.serving = true

theorem Touches.aside {k : Key} (h : Touches a k w w') : Aside w w' :=
  ⟨h.containers, h.tasks, h.snapshots, h.nextSnapshot, h.net, h.quota, h.serving.trans⟩

/-! ### Work on one process -/

/-- A call of `StartProcess` works on the record. -/
def Tracked.Building (p : Tracked) : Prop := ∃ launch, p.stage = .building launch

theorem World.AtRest.not_building {p : Tracked} (h : w.AtRest) (hp : w.object? a = some p) :
    ¬ p.Building := by
  rintro ⟨launch, hlaunch⟩
  have hrest := h a p hp
  rw [hlaunch] at hrest
  exact hrest

/-- What most moves of processes do: the record `p` at `a` becomes `q`.  `StartProcess` alone makes a
directory, makes the pipe where there is none, and calls `proc.Start` after that. -/
structure Work (w : World) (a : ℕ) (p q : Tracked) (w' : World) : Prop where
  touches : Touches a p.info.key w w'
  before : w.object? a = some p
  after : w'.object? a = some q
  building : q.Building → p.Building
  resting : p.stage.Resting → q.stage.Resting
  made : w'.HasDir p.info.key → w.HasDir p.info.key ∨ p.Building
  pipe : q.stage = .building .piped →
    p.stage = .building .piped ∨ ¬ w.Piped p.info.key ∧ w'.Piped p.info.key
  invoked : w'.trace.invoked = w.trace.invoked ∨
    p.stage = .building .piped ∧ q.stage = .building .tried ∧ (w.managed? p.info.sandboxId).isSome ∧
      w.Recorded p.info.key ∧ w'.trace.invoked = p.info.key :: w.trace.invoked

namespace Work

variable {w w' : World} {a : ℕ} {p q : Tracked} {info : ProcessInfo}

theorem key (h : Work w a p q w') : q.info.key = p.info.key := by
  obtain ⟨p', hp', hkey⟩ := h.touches.before h.after
  rw [h.before] at hp'
  rwa [← Option.some.inj hp'] at hkey

/-- The record stays as it is. -/
theorem around (obj : w.object? a = some p) (ht : Touches a p.info.key w w')
    (hheap : w'.memory.heap = w.memory.heap) (hinvoked : w'.trace.invoked = w.trace.invoked)
    (hmade : w'.HasDir p.info.key → w.HasDir p.info.key ∨ p.Building) : Work w a p p w' where
  touches := ht
  before := obj
  after := by rw [World.object?, hheap]; exact obj
  building h := h
  resting h := h
  made := hmade
  pipe := .inl
  invoked := .inl hinvoked

theorem refl (obj : w.object? a = some p) : Work w a p p w :=
  around obj (.refl _ _ _) rfl rfl .inl

/-- The record changes, but not its stage. -/
theorem setObject {f : Tracked → Tracked} (obj : w.object? a = some p)
    (hkey : ∀ p, (f p).info.key = p.info.key) (hstage : ∀ p, (f p).stage = p.stage) :
    Work w a p (f p) (w.setObject a f) where
  touches := .setObject fun p _ => hkey p
  before := obj
  after := World.object?_setObject_of_eq obj f
  building := by rintro ⟨launch, h⟩; exact ⟨launch, (hstage p).symm.trans h⟩
  resting h := by rw [hstage]; exact h
  made := .inl
  pipe h := .inl ((hstage p).symm.trans h)
  invoked := .inl rfl

/-- The work comes to a stage other than those of `StartProcess`. -/
theorem enter {v : World} {stage : Stage} (obj : w.object? a = some p)
    (hv : Touches a p.info.key w v) (hobj : v.object? a = some p)
    (hdirs : v.history.dirs = w.history.dirs) (hinvoked : v.trace.invoked = w.trace.invoked)
    (hstage : ∀ launch, stage ≠ .building launch) (hrest : p.stage.Resting → stage.Resting) :
    Work w a p { p with stage := stage } (v.enter a stage) where
  touches := hv.trans (.enter stage)
  before := obj
  after := World.object?_enter hobj stage
  building := by rintro ⟨launch, h⟩; exact absurd h (hstage launch)
  resting := hrest
  made h := by
    have h : v.HasDir p.info.key := h
    rw [World.HasDir, hdirs] at h
    exact .inl h
  pipe h := absurd h (hstage _)
  invoked := .inl hinvoked

theorem store (obj : w.object? a = some p) (hkey : info.key = p.info.key) (fault : Option Fault) :
    Work w a p { p with info := info } (w.store a info fault).2 where
  touches := .store obj hkey fault
  before := obj
  after := World.object?_store obj info fault
  building h := h
  resting h := h
  made h := by
    unfold World.store at h
    rcases World.saveProcess_cases (w.setObject a fun p => { p with info := info }) info fault
      with hsame | hsaved
    · rw [hsame] at h
      exact .inl h
    · rw [hsaved] at h
      exact .inl (World.hasDir_setDir.mp h)
  pipe := .inl
  invoked := .inl (by rw [World.trace_store])

theorem deleteExec (obj : w.object? a = some p) : Work w a p p (w.deleteExec p.info.key).2 := by
  rcases deleteExec_cases w p.info.key with h | h
  · rw [h]
    exact refl obj
  · rw [h]
    exact around obj (.eraseExec _) rfl rfl .inl

/-- A pipe is made. -/
theorem pipe_made {launch : Launch} {name : String} {dir : Dir} (obj : w.object? a = some p)
    (hstage : p.stage = .building launch)
    (hfirst : launch = .fresh ∧ name = "stdout.pipe" ∨ launch = .piped)
    (hdir : w.history.dirs.find? p.info.key = some dir) (hname : name ∉ dir.pipes) :
    Work w a p { p with stage := .building .piped }
      ((w.setDir p.info.key fun dir => { dir with pipes := name :: dir.pipes }).enter a
        (.building .piped)) where
  touches := (Touches.addPipe name).trans (.enter _)
  before := obj
  after := World.object?_enter (w := w.setDir _ _) obj _
  building _ := ⟨launch, hstage⟩
  resting h := by rw [hstage] at h; exact h.elim
  made h := .inl (World.hasDir_setDir.mp h)
  pipe _ := by
    rcases hfirst with ⟨-, rfl⟩ | rfl
    · refine .inr ⟨?_, { dir with pipes := "stdout.pipe" :: dir.pipes }, ?_, List.mem_cons_self⟩
      · rintro ⟨dir', hdir', hpipe⟩
        rw [hdir] at hdir'
        rw [← Option.some.inj hdir'] at hpipe
        exact hname hpipe
      · refine (Table.find?_modify_self _ _ _).trans ?_
        rw [hdir, Option.map_some]
    · exact .inl hstage
  invoked := .inl rfl

theorem invoke (obj : w.object? a = some p) (hstage : p.stage = .building .piped)
    (hmanaged : (w.managed? p.info.sandboxId).isSome) (hrecorded : w.Recorded p.info.key) :
    Work w a p { p with stage := .building .tried } (w.invoke a p.info.key) where
  touches := (Touches.enter (.building .tried)).trans { Touches.refl _ _ _ with }
  before := obj
  after := World.object?_enter obj _
  building _ := ⟨_, hstage⟩
  resting h := by rw [hstage] at h; exact h.elim
  made := .inl
  pipe h := by cases h
  invoked := .inr ⟨hstage, rfl, hmanaged, hrecorded, rfl⟩

theorem succeed (obj : w.object? a = some p) (hstage : p.stage = .building .tried)
    (hcreated : w.containerd.execs.find? p.info.key = some .created) :
    Work w a p { p with stage := .building .begun }
      ((w.launch p.info.key).succeed a p.info.key) where
  touches := by
    have hlaunch : Touches a p.info.key w (w.launch p.info.key) :=
      .putExec _ _ (.inl (Option.isSome_of_eq_some hcreated))
    exact (hlaunch.trans (.enter (.building .begun))).trans
      { Touches.refl _ _ _ with started := fun k hk => List.mem_cons.trans (or_iff_right hk) }
  before := obj
  after := World.object?_enter (w := World.launch p.info.key w) obj _
  building _ := ⟨_, hstage⟩
  resting h := by rw [hstage] at h; exact h.elim
  made := .inl
  pipe h := by cases h
  invoked := .inl rfl

theorem meet {state : ExecState} (obj : w.object? a = some p)
    (hstage : p.stage = .recovering .nothing) :
    ∃ seen, (seen = .created → state = .created) ∧ seen ≠ .missing ∧
      Work w a p { p with stage := .recovering seen } (World.meet a p.info state w) := by
  have hrest : ∀ seen, p.stage.Resting → (Stage.recovering seen).Resting := by
    intro seen h
    rw [hstage] at h
    exact h.elim
  have hrevived : Touches a p.info.key w
      (if World.revives p.info state then w.note (.revived p.info.key) else w) :=
    .noteIf _ fun _ _ h => by cases h
  have hundead : ∀ v : World, Touches a p.info.key v
      (if p.info.exitCode.isSome then v.note (.undead p.info.key) else v) :=
    fun v => .noteIf _ fun k hk h => hk (Incident.undead.inj h).symm
  have hnote : ∀ (v : World) (c : Prop) [Decidable c] (i : Incident),
      (if c then v.note i else v).history.dirs = v.history.dirs ∧
        (if c then v.note i else v).trace.invoked = v.trace.invoked := by
    intro v c _ i
    split_ifs <;> exact ⟨rfl, rfl⟩
  have hfirst := hnote w (World.revives p.info state = true) (.revived p.info.key)
  have hsecond := hnote (if World.revives p.info state then w.note (.revived p.info.key) else w)
    (p.info.exitCode.isSome = true) (.undead p.info.key)
  cases state with
  | created =>
    refine ⟨.created, fun _ => rfl, nofun, enter obj (hrevived.trans (hundead _)) ?_
      (hsecond.1.trans hfirst.1)
      (hsecond.2.trans hfirst.2) (fun _ h => by cases h) (hrest _)⟩
    rw [World.object?_noteIf, World.object?_noteIf, obj]
  | running =>
    refine ⟨.begun, nofun, nofun, enter obj (hrevived.trans (hundead _)) ?_ (hsecond.1.trans hfirst.1)
      (hsecond.2.trans hfirst.2) (fun _ h => by cases h) (hrest _)⟩
    rw [World.object?_noteIf, World.object?_noteIf, obj]
  | stopped code time =>
    refine ⟨.begun, nofun, nofun, enter obj hrevived ?_ hfirst.1 hfirst.2 (fun _ h => by cases h) (hrest _)⟩
    rw [World.object?_noteIf, obj]

end Work

theorem StartMove.work (move : StartMove host w id w') :
    ∃ a p q, p.info.sandboxId = id ∧ Work w a p q w' := by
  cases move with
  | @makeDir a p obj mine stage managed =>
    refine ⟨a, p, p, mine, .around obj (.makeDir ?_) rfl rfl fun _ => .inr ⟨_, stage⟩⟩
    rw [ProcessInfo.key, mine]
    exact managed
  | saveStarting fault obj mine | abort now fault obj mine | saveRunning fault obj mine =>
    refine ⟨_, _, _, mine, .store obj ?_ fault⟩
    rfl
  | @mkfifo a p launch name obj mine stage first =>
    rcases mkfifo_cases w a p.info.key name with ⟨e, he⟩ | ⟨dir, hdir, hname, hok⟩
    · rw [he]
      exact ⟨_, _, _, mine, .refl obj⟩
    · rw [hok]
      exact ⟨_, _, _, mine, .pipe_made obj stage first hdir hname⟩
  | collect obj mine =>
    exact ⟨_, _, _, mine, .around obj (.setDir (fun _ h => h) fun _ => List.Subset.refl _) rfl rfl
      fun h => .inl (World.hasDir_setDir.mp h)⟩
  | createExec obj mine =>
    unfold World.createExec
    split
    · exact ⟨_, _, _, mine, .refl obj⟩
    · exact ⟨_, _, _, mine, .refl obj⟩
    · next htask hexec =>
      exact ⟨_, _, _, mine, .around obj (.putExec _ _ (.inr (Option.isSome_of_eq_some htask))) rfl rfl
        .inl⟩
  | adopt obj mine => exact ⟨_, _, _, mine, .setObject obj (fun _ => rfl) fun _ => rfl⟩
  | invoke obj mine stage managed recorded =>
    exact ⟨_, _, _, mine, .invoke obj stage (mine ▸ managed) recorded⟩
  | launch obj mine stage created =>
    exact ⟨_, _, _, mine, .around obj (.putExec _ _ (.inl (Option.isSome_of_eq_some created))) rfl rfl
      .inl⟩
  | succeed obj mine stage created =>
    exact ⟨_, _, _, mine, .succeed obj stage created⟩
  | discard obj mine => exact ⟨_, _, _, mine, .around obj (.eraseExec _) rfl rfl .inl⟩
  | close obj mine | watch obj mine =>
    exact ⟨_, _, _, mine, .enter obj (.refl _ _ _) obj rfl rfl (fun _ h => by cases h)
      fun _ => trivial⟩
  | wait found =>
    obtain ⟨-, hobj, hmine⟩ := World.lookupProcess_eq_some.mp found
    exact ⟨_, _, _, hmine, .around hobj { Touches.refl _ _ _ with } rfl rfl .inl⟩

theorem BootMove.work (move : BootMove host w id w') :
    (∃ a p q, p.info.sandboxId = id ∧ Work w a p q w') ∨
    (∃ pid, w.memory.heap = [] ∧ w.history.record? (id, pid) = none ∧ w' = w.eraseDir (id, pid)) ∨
    (∃ info, w.AtRest ∧ w.memory.serving = false ∧ validProcessID info.id = true ∧
      w.history.record? info.key = some info ∧
      (∀ a p, w.object? a = some p → p.info.key ≠ info.key) ∧
      w' = w.enroll info (.recovering .nothing)) ∨
    (w.AtRest ∧ (∀ k, w.Recorded k → ∃ a p, w.object? a = some p ∧ p.info.key = k) ∧
      w' = { w with memory := { w.memory with serving := true } }) := by
  cases move with
  | sweepDir down fresh unrecorded => exact .inr (.inl ⟨_, fresh, unrecorded, rfl⟩)
  | enroll rest mine down valid recorded new =>
    exact .inr (.inr (.inl ⟨_, rest, down, valid, recorded, new, rfl⟩))
  | miss obj mine stage =>
    refine .inl ⟨_, _, _, mine, .enter obj (.refl _ _ _) obj rfl rfl (fun _ h => by cases h)
      fun h => ?_⟩
    rw [stage] at h
    exact h.elim
  | adopt obj mine => exact .inl ⟨_, _, _, mine, .setObject obj (fun _ => rfl) fun _ => rfl⟩
  | meet state obj mine stage =>
    obtain ⟨seen, -, -, hwork⟩ := Work.meet obj stage
    exact .inl ⟨_, _, _, mine, hwork⟩
  | lose now fault obj mine | interrupt now fault obj mine | resume fault obj mine =>
    refine .inl ⟨_, _, _, mine, .store obj ?_ fault⟩
    rfl
  | dropInterrupted obj mine | dropEnded obj mine => exact .inl ⟨_, _, _, mine, .deleteExec obj⟩
  | close obj mine | rewatch obj mine =>
    exact .inl ⟨_, _, _, mine, .enter obj (.refl _ _ _) obj rfl rfl (fun _ h => by cases h)
      fun _ => trivial⟩
  | serve rest complete => exact .inr (.inr (.inr ⟨rest, complete, rfl⟩))

theorem RegisterMove.aside {pid : String} (h : RegisterMove host w id pid w') : Aside w w' := by
  cases h with
  | register req now =>
    unfold World.register
    dsimp only
    split_ifs <;> exact ⟨rfl, rfl, rfl, rfl, rfl, rfl, fun hs => hs⟩

theorem StartMove.aside (h : StartMove host w id w') : Aside w w' := by
  obtain ⟨a, p, q, -, hwork⟩ := h.work
  exact hwork.touches.aside

theorem ForgetMove.aside (h : ForgetMove host w id kind w') : Aside w w' := by
  cases h with
  | eraseDir | eraseHome | unregister => exact ⟨rfl, rfl, rfl, rfl, rfl, rfl, fun hs => hs⟩
  | cleanup obj => exact (Work.deleteExec obj).touches.aside

theorem BootMove.aside (h : BootMove host w id w') : Aside w w' := by
  rcases h.work with ⟨a, p, q, -, hwork⟩ | ⟨pid, -, -, rfl⟩ | ⟨info, -, -, -, -, -, rfl⟩ | ⟨-, -, rfl⟩
  · exact hwork.touches.aside
  · exact ⟨rfl, rfl, rfl, rfl, rfl, rfl, fun hs => hs⟩
  · exact ⟨rfl, rfl, rfl, rfl, rfl, rfl, fun hs => hs⟩
  · exact ⟨rfl, rfl, rfl, rfl, rfl, rfl, fun _ => rfl⟩

theorem WatchMove.touches (h : WatchMove w a w') : ∃ k, Touches a k w w' := by
  cases h with
  | @missing p | @stopped p | @resume p => exact ⟨p.info.key, .enter _⟩
  | @late p => exact ⟨p.info.key, Touches.timedOut.trans (.enter _)⟩
  | @lose p now fault obj | @save p code time now fault obj =>
    refine ⟨p.info.key, (Touches.noteIf _ fun _ _ hi => ?_).trans
      ((Touches.store ((World.object?_noteIf ..).trans obj) ?_ fault).trans (.enter _))⟩
    · cases hi
    · rfl
  | @close p gone obj =>
    refine ⟨p.info.key, Touches.trans ?_ (.enter _)⟩
    split_ifs
    · exact .deleteExec _
    · exact .refl _ _ _

theorem WaitMove.touches {i : ℕ} (h : WaitMove w i w') : ∃ a k, Touches a k w w' := by
  have hwaiter : ∀ (w : World) a k f, Touches a k w (w.setWaiter i f) :=
    fun w a k f => { Touches.refl a k w with }
  cases h with
  | @timer q =>
    refine ⟨q.object, q.key, ((Touches.noteIf _ fun _ _ hi => ?_).trans .timedOut).trans
      (hwaiter _ _ _ _)⟩
    cases hi
  | @unneeded q =>
    refine ⟨q.object, q.key, (Touches.noteIf _ fun _ _ hi => ?_).trans (hwaiter _ _ _ _)⟩
    cases hi
  | @deliver q => exact ⟨q.object, q.key, { Touches.refl _ _ w with }⟩
  | @proceed q | @leave q | @signal q | @signalled q | @killed q | @finish q | @readStdout q
  | @readStderr q | @statStdout q => exact ⟨q.object, q.key, hwaiter w _ _ _⟩

theorem Stage.Resting.besides {p p' : Tracked} (h : p.Besides p') (hp : p.stage.Resting) :
    p'.stage.Resting := by
  cases hstage : p.stage with
  | building launch | recovering seen => rw [hstage] at hp; exact hp.elim
  | watched phase =>
    rcases h.watched phase hstage with hdone | ⟨phase', hphase'⟩
    · rw [hdone]; trivial
    · rw [hphase']; trivial
  | done => rw [h.done hstage]; trivial

theorem steady_atRest : Steady host May World.AtRest := by
  refine .of_beside fun w w' h hw a p' hp' => ?_
  obtain ⟨p, hp, hbesides⟩ := h.object_before hp'
  exact (hw a p hp).besides hbesides

/-- Only `StartProcess` and recovery work on records. -/
theorem Move.atRest {scope : Scope} (hscope : ∀ kind id, scope kind id → kind.works = false)
    (hm : Move host May scope w w') (hw : w.AtRest) : w'.AtRest := by
  have hheap : w'.memory.heap = w.memory.heap → w'.AtRest := by
    intro h a p hp
    unfold World.object? at hp
    rw [h] at hp
    exact hw a p hp
  cases hm with
  | back may => exact steady_atRest w _ may hw
  | net inScope move | quota inScope move | erase inScope move | task inScope move =>
    exact hheap (congrArg Memory.heap move.still.1)
  | register inScope move | start inScope move => cases hscope _ _ inScope
  | forget inScope move => exact hheap move.heap_eq
  | boot inScope move => cases hscope _ _ inScope

/-- An open socket stays open until the adapter dies. -/
theorem Move.serving {host : Host} {May : Back → Prop} {scope : Scope} {w w' : World}
    (hm : Move host May scope w w') (hw : w.memory.serving = true) : w'.memory.serving = true := by
  cases hm with
  | @back b may => exact (Beside.back b : Beside host w _).serving.trans hw
  | net inScope move | quota inScope move | erase inScope move | task inScope move =>
    rw [move.still.1]
    exact hw
  | register inScope move | start inScope move | forget inScope move | boot inScope move =>
    exact move.aside.serving hw

theorem QuotaMove.labelled {key : String} (move : QuotaMove host w id kind w')
    (hw : w.Labelled key) : w'.Labelled key := by
  cases move with
  | prepareSnapshot =>
    unfold World.prepareSnapshot
    split
    · exact hw
    · intro s hs
      dsimp only at hs
      rw [Table.find?_put] at hs
      split_ifs at hs
      · rw [← Option.some.inj hs, Snapshot.managed_mk]
      · exact hw s hs
  | removeSnapshot | dropSnapshot =>
    rw [World.removeSnapshot_eq]
    exact fun s hs => hw s (Table.find?_of_find?_erase hs)
  | commit => unfold World.commitContainer; split <;> exact hw
  | claim | limit | mark | cleanup | unlimit | release => exact hw

/-- The adapter labels every snapshot it makes. -/
theorem Move.labelled {key : String} (hm : Move host May scope w w') (hw : w.Labelled key) :
    w'.Labelled key := by
  have hsame : w'.containerd.snapshots = w.containerd.snapshots → w'.Labelled key :=
    fun h s hs => hw s (h ▸ hs)
  cases hm with
  | @back b may => exact hsame (Beside.back b : Beside host w _).snapshots
  | net inScope move => exact hw
  | quota inScope move => exact move.labelled hw
  | erase inScope move =>
    obtain ⟨-, -, -, rfl⟩ := move.inv
    exact hw
  | task inScope move => exact hsame move.snapshots_eq
  | register inScope move | start inScope move | forget inScope move | boot inScope move =>
    exact hsame move.aside.snapshots

section Runs

variable {host : Host} {May : Back → Prop} {scope scope' : Scope} {α : Type} {P : World → Prop}
  {Q : α → World → Prop} {R : Err → World → Prop}

theorem Runs.widen {p : Op α} (h : Runs host May scope P p Q R)
    (hscope : ∀ kind id, scope kind id → scope' kind id) : Runs host May scope' P p Q R :=
  Prog.Does.mono h fun _ _ => Move.mono hscope

/-- An operation that starts no process and recovers none leaves the records at rest. -/
theorem Runs.keepRest {p : Op α} (h : Runs host May scope P p Q R)
    (hscope : ∀ kind id, scope kind id → kind.works = false) :
    Runs host May scope (fun w => P w ∧ w.AtRest) p (fun a w => Q a w ∧ w.AtRest)
      (fun e w => R e w ∧ w.AtRest) :=
  Prog.Does.keep h fun _ _ hw hm => hm.atRest hscope hw

section

variable (hP : Steady host May P)
include hP

/-- A question whose failure ends the program. -/
theorem runs_ask {f : World → Except Err α} (hok : ∀ w a, P w → f w = .ok a → Q a w) :
    Runs host May scope P (query host f) Q unknown :=
  does_query (Move.isOpen scope) hP hok (fun _ _ _ _ => trivial) (fun _ _ _ => trivial)

theorem runs_query {f : World → Except Err α} :
    Runs host May scope P (query host f) (fun _ => P) (fun _ => P) :=
  does_query (Move.isOpen scope) hP (fun _ _ hw _ => hw) (fun _ _ hw _ => hw) (fun _ _ hw => hw)

theorem runs_look {f : World → α} : Runs host May scope P (look host f) (fun _ => P) R :=
  does_look (Move.isOpen scope) hP fun _ hw => hw

/-- A question where "not found" is an answer. -/
theorem runs_optional {f : World → Except Err α} {Q : Option α → World → Prop}
    (hok : ∀ w a, P w → f w = .ok a → Q (some a) w)
    (hnone : ∀ w, P w → f w = .error .notFound → Q none w) :
    Runs host May scope P (optional (query host f)) Q unknown := by
  refine does_ifNotFound (E := fun e w => e = .notFound → Q none w) ?_ (.pure fun w hw => hw rfl)
    fun _ _ _ _ => trivial
  refine .bind (K := fun a w => Q (some a) w) (does_query (Move.isOpen scope) hP hok ?_ ?_)
    fun a => .pure fun w hw => hw
  · intro w e hw he hnf
    rw [hnf] at he
    exact hnone w hw he
  · exact fun _ _ _ => nofun

end

end Runs

end Sandcube.Adapter
