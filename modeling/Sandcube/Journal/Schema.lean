import Sandcube.Table.Sum
import Sandcube.Value.Json

/-!
# The journal

The journal: the tables of the SQLite database that survive a crash of the API.

The columns are those of `migrations/*.sql`.  Left out are the timestamps
(`created_at`, `updated_at`), which nothing reads.  A text column whose values are a
fixed set of words is an enumeration; the status of a sandbox is such a set plus whatever
else the runtime may have answered (`Status.other`), because the reconciler stores that
answer as it is.
-/

namespace Sandcube

/-- Milliseconds since the epoch. -/
abbrev Time := ℕ

/-! ### Words -/

/-- A lifecycle operation; also the content of the `intent` column. -/
inductive Action where
  | create | start | stop | restart | delete
  deriving DecidableEq, Repr

/-- `{"create", "start", "stop", "restart", "delete"}.includes?` -/
def Action.ofText? : String → Option Action
  | "create" => some .create
  | "start" => some .start
  | "stop" => some .stop
  | "restart" => some .restart
  | "delete" => some .delete
  | _ => none

/-- `{"create", "start", "restart"}.includes?`: the operations that make a task run. -/
def Action.Starts : Action → Prop
  | .create | .start | .restart => True
  | .stop | .delete => False

instance : DecidablePred Action.Starts
  | .create | .start | .restart => inferInstanceAs (Decidable True)
  | .stop | .delete => inferInstanceAs (Decidable False)

/-- The content of the `status` column of a sandbox. -/
inductive Status where
  | creating | starting | stopping | deleting
  | running | stopped | deleted | error
  | other (text : String)
  deriving DecidableEq, Repr

/-- The status a text stands for. -/
def Status.ofText : String → Status
  | "creating" => .creating
  | "starting" => .starting
  | "stopping" => .stopping
  | "deleting" => .deleting
  | "running" => .running
  | "stopped" => .stopped
  | "deleted" => .deleted
  | "error" => .error
  | text => .other text

/-- The status a sandbox has once the operation is done. -/
def Action.target : Action → Status
  | .delete => .deleted
  | .stop => .stopped
  | .create | .start | .restart => .running

/-- The status of an image. -/
inductive ImageStatus where
  | building | ready | error | deleting | deleted
  deriving DecidableEq, Repr

/-- The text of an image status. -/
def ImageStatus.text : ImageStatus → String
  | .building => "BUILDING"
  | .ready => "READY"
  | .error => "ERROR"
  | .deleting => "DELETING"
  | .deleted => "DELETED"

/-! ### Rows -/

/-- The command and the resources a create request may ask for. -/
def Limits (command : List String) (cpu memory disk pids : ℤ) : Prop :=
  (16 ≤ disk ∧ disk ≤ 1048576) ∧ command ≠ [] ∧ command.head? ≠ some "" ∧
  (1 ≤ cpu ∧ cpu ≤ 64) ∧ (16 ≤ memory ∧ memory ≤ 262144) ∧ (1 ≤ pids ∧ pids ≤ 65536)

instance (command : List String) (cpu memory disk pids : ℤ) :
    Decidable (Limits command cpu memory disk pids) := by
  unfold Limits; infer_instance

/-- The `config` column.  Its text also repeats the key of its row. -/
structure Config where
  image : String
  imageId : Option String
  command : List String
  cpu : ℤ
  memoryMb : ℤ
  diskMb : ℤ
  pids : ℤ
  /-- Only a checked request is ever stored. -/
  limits : Limits command cpu memoryMb diskMb pids
  deriving DecidableEq

/-- A row of `sandboxes`. -/
structure Row where
  config : Config
  status : Status
  intent : Option Action
  expiresAt : Option Time
  errorMessage : Option String
  reservedCpu : ℤ
  reservedMemoryMb : ℤ
  reservedDiskMb : ℤ
  deriving DecidableEq

/-- What the API answers about a sandbox. -/
structure Response where
  id : String
  status : Status
  snapshotKey : String
  imageId : Option String
  diskMb : ℤ
  cpu : ℤ
  memoryMb : ℤ
  pids : ℤ
  expiresAt : Option Time
  errorMessage : Option String
  deriving DecidableEq

/-- The content of the `response` column: the text of a response, or the body of the
runtime's error as it came. -/
inductive Saved where
  | response (r : Response)
  | body (text : String)
  deriving DecidableEq

/-- A row of `lifecycle_requests`. -/
structure Record where
  fingerprint : String
  sandboxId : String
  action : Action
  response : Option Saved
  responseStatus : ℕ
  deriving DecidableEq

/-- A row of `images`. -/
structure Image where
  name : Option String
  status : ImageStatus
  ociReference : String
  ociDigest : Option String
  dockerfile : String
  errorMessage : Option String
  deriving DecidableEq

/-- The budgets of a host.  `Capacity.from_env` and the checks of `host_capacity` let only
positive budgets through. -/
structure Capacity where
  cpu : ℤ
  memoryMb : ℤ
  diskMb : ℤ
  positive : 0 < cpu ∧ 0 < memoryMb ∧ 0 < diskMb
  deriving DecidableEq

/-- The database. -/
structure Journal where
  sandboxes : Table String Row
  /-- `lifecycle_requests`, by idempotency key. -/
  requests : Table String Record
  /-- `sandbox_images`: the image a sandbox holds a reference to. -/
  sandboxImages : Table String String
  images : Table String Image
  /-- `reliability_counters`; a counter without a row is zero. -/
  counters : String → ℕ
  hostCapacity : Option Capacity

/-- The database after the migrations. -/
def Journal.empty : Journal :=
  ⟨.empty, .empty, .empty, .empty, fun _ => 0, none⟩

end Sandcube
