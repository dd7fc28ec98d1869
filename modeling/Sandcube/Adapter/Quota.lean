import Sandcube.Adapter.Calls

/-!
# Disk quotas

`quota.go`: project quotas on the snapshot directories.  The journal record of a sandbox is
written before the limits are set and removed after they are cleared.
-/

namespace Sandcube.Adapter

open Prog (raise rescue forEach when)

/-! ### Snapshot paths -/

/-- `filepath.Dir` -/
def Path.dir (p : Path) : Path := { p with parts := p.parts.dropLast }

/-- `filepath.Base` -/
def Path.base (p : Path) : String := p.parts.getLastD "/"

/-- `strconv.ParseUint(s, 10, 32)` -/
def parseUint32 (s : String) : Option ℕ :=
  if s ≠ "" ∧ s.toList.all Char.isDigit ∧ Nat.ofDigitChars 10 s.toList 0 < 4294967296 then
    some (Nat.ofDigitChars 10 s.toList 0)
  else none

/-- A mount: its type, and those of its options that are paths. -/
structure Mount where
  type : String
  options : List (String × Path)

/-- `snapshotQuotaPath`: the first `upperdir` of an overlay mount. -/
def snapshotQuotaPath (ms : List Mount) : Except Err (Path × ℕ) :=
  match (ms.filter (·.type = "overlay")).findSome? fun m => m.options.lookup "upperdir" with
  | none => .error (.other "writable overlay snapshot required for disk quota")
  | some upper =>
    match parseUint32 upper.dir.base with
    | none => .error (.other "unsupported snapshot quota path")
    | some project =>
      if project = 0 ∨ ¬ upper.absolute ∨ upper.base ≠ "fs" then
        .error (.other "unsupported snapshot quota path")
      else .ok (upper.dir, project)

/-- The mounts of a snapshot. -/
def Host.mounts (host : Host) (number : ℕ) : List Mount :=
  [⟨"overlay",
    [("workdir", ⟨true, host.snapshots ++ [Nat.repr number, "work"]⟩),
      ("upperdir", ⟨true, host.snapshots ++ [Nat.repr number, "fs"]⟩)]⟩]

/-- The hard limits of a sandbox. -/
def limitsFor (diskMb : ℤ) : Amount := ⟨diskMb.toNat * 2048, diskMb.toNat * 256⟩

/-- What `reclaimQuota` requires of a journal record. -/
def QuotaRecord.Valid (r : QuotaRecord) (id : String) : Prop :=
  r.id = id ∧ r.parent.absolute = true ∧ r.project ≠ 0 ∧ parseUint32 r.parent.base = some r.project

instance (r : QuotaRecord) (id : String) : Decidable (r.Valid id) := by
  unfold QuotaRecord.Valid; infer_instance

/-! ### The kernel -/

namespace Quota

/-- `Q_XSETQLIM` -/
def setLimits (project : ℕ) (amount : Amount) (q : Quota) : Quota :=
  { q with limits := fun n => if n = project then amount else q.limits n }

/-- `Q_XGETQUOTA`: the limits and the charges.  A project that has neither is not known. -/
def get (project : ℕ) (q : Quota) : Except Err (Amount × Amount) :=
  if q.limits project = .zero ∧ q.usage project = .zero then
    .error (.other "no such file or directory")
  else .ok (q.limits project, q.usage project)

/-- `projectAttr` that sets. -/
def setAttr (project : ℕ) (sub : String) (q : Quota) : Except Err Unit × Quota :=
  if project ∈ q.directories then (.ok (), { q with attributes := (project, sub) :: q.attributes })
  else (.error (.other "no such file or directory"), q)

/-- `projectAttr` that checks. -/
def checkAttr (project : ℕ) (sub : String) (q : Quota) : Except Err Unit :=
  if project ∈ q.directories ∧ (project, sub) ∈ q.attributes then .ok ()
  else .error (.other "snapshot project quota identity mismatch")

end Quota

section Programs

variable (host : Host)

/-- `quotaDevice`: the mount is there and enforces project quotas. -/
def quotaDevice : Op Unit := query host fun _ => .ok ()

/-- A call that changes the quota objects. -/
def quotaCall (f : Quota → Except Err Unit × Quota) : Op Unit :=
  call host fun _ w => ((f w.quota).1, w.withQuota fun _ => (f w.quota).2)

/-- A change of the quota objects. -/
def quotaEffect (f : Quota → Quota) : Op Unit := effect host fun w => w.withQuota f

/-- The directories of a snapshot that carry its project. -/
def projectPaths : List String := ["", "fs", "work"]

/-- The limits and the identity of the directories, set when preparing. -/
def assignQuota (project : ℕ) (want : Amount) : Op Unit := do
  quotaEffect host (Quota.setLimits project want)
  forEach projectPaths fun sub => quotaCall host (Quota.setAttr project sub)

/-- `enforceQuota` -/
def enforceQuota (ms : List Mount) (diskMb : ℤ) (prepare : Bool) : Op Unit := do
  if diskMb < 16 ∨ 1048576 < diskMb then raise (.other "invalid disk quota")
  else
    let (_, project) ← Prog.ofExcept (snapshotQuotaPath ms)
    quotaDevice host
    when (prepare = true) (assignQuota host project (limitsFor diskMb))
    let (limits, _) ← query host fun w => w.quota.get project
    if limits = limitsFor diskMb then
      forEach projectPaths fun sub => query host fun w => w.quota.checkAttr project sub
    else raise (.other "project quota limits do not match sandbox configuration")

/-- `prepareQuota` -/
def prepareQuota (id : String) (diskMb : ℤ) (ms : List Mount) : Op Unit := do
  let (parent, project) ← Prog.ofExcept (snapshotQuotaPath ms)
  quotaDevice host
  -- os.MkdirAll of the journal's directory
  query host fun _ => .ok ()
  quotaEffect host fun q => { q with journals := q.journals.put id ⟨id, parent, project, diskMb⟩ }
  enforceQuota host ms diskMb true

/-- `checkQuota` -/
def checkQuota (id : String) : Op Unit := do
  let c ← load host id
  let number ← query host fun w =>
    match w.containerd.snapshots.find? c.snapshotKey with
    | some snapshot => .ok snapshot.number
    | none => .error .notFound
  enforceQuota host (host.mounts number) c.diskMb false

/-- The wait of `reclaimQuota` for the storage of a project, for so many polls. -/
def awaitReclaimed (project : ℕ) : ℕ → Op Unit
  | 0 => raise (.other "snapshot storage has not yet been reclaimed")
  | polls + 1 => do
    let there ← query host fun w => .ok (decide (project ∈ w.quota.directories))
    let (_, usage) ← query host fun w => w.quota.get project
    if there = false ∧ usage = .zero then pure () else awaitReclaimed project polls

/-- `reclaimQuota` with the record. -/
def reclaim (id : String) (r : QuotaRecord) (polls : ℕ) : Op Unit := do
  quotaDevice host
  -- The snapshotter's Cleanup: directories of removed snapshots go now.
  effect host fun w => w.withQuota fun q =>
    { q with directories := q.directories.filter (World.inUse w.containerd) }
  awaitReclaimed host r.project (polls + 1)
  quotaEffect host (Quota.setLimits r.project .zero)
  quotaEffect host fun q => { q with journals := q.journals.erase id }

/-- `reclaimQuota`.  The first poll comes before the deadline. -/
def reclaimQuota (id : String) (polls : ℕ) : Op Unit := do
  match ← query host fun w => .ok (w.quota.journals.find? id) with
  | none => pure ()
  | some r =>
    if r.Valid id then reclaim host id r polls
    else raise (.other "invalid quota ownership journal")

/-- The turn of one journal record in `reconcileQuotas`. -/
def reconcileQuota (polls : ℕ) (id : String) : Op Unit := do
  if validID id then
    let container ← query host fun w => .ok (w.containerd.containers.find? id).isSome
    let snapshot ← query host fun w => .ok (w.containerd.snapshots.find? id).isSome
    if container ∨ snapshot then pure () else reclaimQuota host id polls
  else raise (.other "invalid quota journal filename")

/-- `reconcileQuotas` -/
def reconcileQuotas (polls : ℕ) : Op Unit := do
  let ids ← query host fun w => .ok w.quota.journals.keys
  forEach ids (reconcileQuota host polls)

end Programs

end Sandcube.Adapter
