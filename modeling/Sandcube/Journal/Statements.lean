import Sandcube.Journal.Schema

/-!
# The statements of the lifecycle code

The statements and transactions that `src/reliability.cr` issues against the journal.

A single statement runs in its own transaction, so every definition here is one atomic
change of the database.  A transaction that may raise is a function into `Except`: when it
raises it is rolled back, which is why it returns no journal then.
-/

namespace Sandcube

variable {j : Journal} {id : String}

namespace Journal

/-- `UPDATE sandboxes SET … WHERE id=?1` -/
def setRow (j : Journal) (id : String) (f : Row → Row) : Journal :=
  { j with sandboxes := j.sandboxes.modify id f }

/-- `UPDATE lifecycle_requests SET … WHERE sandbox_id=?1 AND response IS NULL` -/
def answer (j : Journal) (id : String) (saved : Saved) (status : ℕ → ℕ) : Journal :=
  { j with
    requests := j.requests.mapRows fun _ rec =>
      if rec.sandboxId = id ∧ rec.response = none then
        { rec with response := some saved, responseStatus := status rec.responseStatus }
      else rec }

theorem find?_answer (j : Journal) (id : String) (saved : Saved) (status : ℕ → ℕ) (key : String) :
    (j.answer id saved status).requests.find? key = (j.requests.find? key).map fun rec =>
      if rec.sandboxId = id ∧ rec.response = none then
        { rec with response := some saved, responseStatus := status rec.responseStatus }
      else rec := by
  simp [answer]

/-- `Reliability#count` -/
def count (name : String) (j : Journal) : Journal :=
  { j with counters := fun n => if n = name then j.counters n + 1 else j.counters n }

/-- A row that is known can be replaced instead of updated. -/
theorem setRow_eq_of_find? {row : Row} (h : j.sandboxes.find? id = some row) (f : Row → Row) :
    j.setRow id f = j.setRow id fun _ => f row := by
  unfold setRow
  rw [Table.modify_congr j.sandboxes h (g := fun _ => f row) rfl]

theorem find?_setRow_self {row : Row} (h : j.sandboxes.find? id = some row) (f : Row → Row) :
    (j.setRow id f).sandboxes.find? id = some (f row) := by
  simp [setRow, h]

theorem find?_setRow_of_ne {id' : String} (h : id' ≠ id) (f : Row → Row) :
    (j.setRow id f).sandboxes.find? id' = j.sandboxes.find? id' :=
  Table.find?_modify_of_ne _ h _

/-- `Reliability#get` -/
def get (id : String) (j : Journal) : Except Ex Row :=
  match j.sandboxes.find? id with
  | some row => .ok row
  | none => .error (.image 404 "SANDBOX_NOT_FOUND" "Sandbox does not exist")

theorem get_eq_ok_iff {row : Row} : j.get id = .ok row ↔ j.sandboxes.find? id = some row := by
  unfold get
  cases j.sandboxes.find? id <;> simp

theorem eq_of_get_eq_error {e : Ex} (h : j.get id = .error e) :
    e = .image 404 "SANDBOX_NOT_FOUND" "Sandbox does not exist" := by
  unfold get at h
  cases hf : j.sandboxes.find? id <;> simp_all

end Journal

/-- The object `Reliability#response` builds from a row. -/
def Row.response (row : Row) (id : String) : Response where
  id := id
  status := row.status
  snapshotKey := id
  imageId := row.config.imageId
  diskMb := row.config.diskMb
  cpu := row.config.cpu
  memoryMb := row.config.memoryMb
  pids := row.config.pids
  expiresAt := row.expiresAt
  errorMessage := row.errorMessage

/-- The columns that a finished operation sets, with the releases that go with its status. -/
def Row.finished (row : Row) (status : Status) : Row where
  config := row.config
  status := status
  intent := none
  expiresAt := row.expiresAt
  errorMessage := none
  reservedCpu := if status = .stopped ∨ status = .deleted then 0 else row.reservedCpu
  reservedMemoryMb := if status = .stopped ∨ status = .deleted then 0 else row.reservedMemoryMb
  reservedDiskMb := if status = .deleted then 0 else row.reservedDiskMb

/-- The row of a sandbox whose deletion was decided. -/
def Row.doomed (row : Row) : Row := { row with intent := some .delete, status := .deleting }

namespace Journal

/-- `Reliability#response` -/
def response (id : String) (j : Journal) : Except Ex Response := do
  return (← j.get id).response id

/-! ### `converge` -/

/-- The transaction at the end of `converge`. -/
def complete (id : String) (status : Status) (j : Journal) : Except Ex Journal := do
  let j := j.setRow id fun row => { row with status := status, intent := none, errorMessage := none }
  let j := if status = .stopped ∨ status = .deleted then
    j.setRow id fun row => { row with reservedCpu := 0, reservedMemoryMb := 0 } else j
  let j := if status = .deleted then
    j.setRow id fun row => { row with reservedDiskMb := 0 } else j
  let j := if status = .deleted then
    { j with sandboxImages := j.sandboxImages.erase id } else j
  let r ← j.response id
  let j := j.answer id (.response r) fun code => code
  let j := j.count "lifecycle_completed"
  return if status = .deleted then j.count "cleanup_completed" else j

/-- The boundary inside a restart: `UPDATE sandboxes SET intent='start'`. -/
def passStop (id : String) (j : Journal) : Journal :=
  j.setRow id fun row => { row with intent := some .start }

/-- `UPDATE sandboxes SET error_message=?2` -/
def noteError (id message : String) (j : Journal) : Journal :=
  j.setRow id fun row => { row with errorMessage := some message }

/-- `UPDATE sandboxes SET intent='delete',status='deleting'`, as the expiry of a sandbox and
the compensation of a failed create do it. -/
def doom (id : String) (j : Journal) : Journal :=
  j.setRow id Row.doomed

/-- The transaction that compensates a create that failed definitively. -/
def compensate (id : String) (status : ℕ) (body : String) (j : Journal) : Journal :=
  (j.doom id).answer id (.body body) fun _ => status

/-! ### `reconcile` -/

/-- The status read from the runtime. -/
def refresh (id : String) (status : Status) (j : Journal) : Journal :=
  j.setRow id fun row => { row with status := status, errorMessage := none }

/-- A task that is not running gives its CPU and memory back. -/
def release (id : String) (j : Journal) : Journal :=
  j.setRow id fun row => { row with reservedCpu := 0, reservedMemoryMb := 0 }

/-- The runtime does not know the container. -/
def markMissing (id : String) (j : Journal) : Journal :=
  j.setRow id fun row =>
    { row with status := .error, errorMessage := some "Runtime container missing" }

/-- `DELETE FROM sandbox_images WHERE sandbox_id=?1` -/
def dropImage (id : String) (j : Journal) : Journal :=
  { j with sandboxImages := j.sandboxImages.erase id }

/-- `SELECT id FROM sandboxes WHERE status != 'deleted' OR intent IS NOT NULL` -/
def live (j : Journal) : List String :=
  j.sandboxes.keysWhere fun _ row => row.status ≠ .deleted ∨ row.intent ≠ none

/-- The columns a sandbox's fate depends on and that the transaction at the end of
`converge` writes, in one step. -/
theorem complete_of_find? {row : Row} (h : j.sandboxes.find? id = some row) (status : Status) :
    j.complete id status = .ok
      { sandboxes := j.sandboxes.modify id (·.finished status)
        requests := (j.answer id (.response ((row.finished status).response id)) fun c => c).requests
        sandboxImages := if status = .deleted then j.sandboxImages.erase id else j.sandboxImages
        images := j.images
        counters := (if status = .deleted then
          (j.count "lifecycle_completed").count "cleanup_completed"
          else j.count "lifecycle_completed").counters
        hostCapacity := j.hostCapacity } := by
  -- Three statuses matter: the releases differ between `stopped`, `deleted` and the others.
  by_cases hd : status = .deleted
  · subst hd
    simp [complete, setRow, response, get, h, answer, count, Row.finished, Function.comp_def, bind,
      pure, Except.bind, Except.pure]
  · by_cases hs : status = .stopped
    · subst hs
      simp [complete, setRow, response, get, h, answer, count, Row.finished, Function.comp_def, bind,
        pure, Except.bind, Except.pure]
    · simp [complete, setRow, response, get, h, hd, hs, answer, count, Row.finished, bind, pure,
        Except.bind, Except.pure]

theorem complete_of_find?_eq_none (h : j.sandboxes.find? id = none) (status : Status) :
    j.complete id status = .error (.image 404 "SANDBOX_NOT_FOUND" "Sandbox does not exist") := by
  by_cases hd : status = .deleted
  · subst hd
    simp [complete, setRow, response, get, h, bind, Except.bind]
  · by_cases hs : status = .stopped
    · subst hs
      simp [complete, setRow, response, get, h, bind, Except.bind]
    · simp [complete, setRow, response, get, h, hd, hs, bind, Except.bind]

end Journal

end Sandcube
