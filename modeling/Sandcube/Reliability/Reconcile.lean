import Sandcube.Reliability.Converge

/-!
# `reconcile`

`Reliability#reconcile`: one sweep over the journal and the runtime's inventory.
-/

namespace Sandcube

/-- What a sweep reads from outside: the clock at each sandbox's turn, and the order in which
the query returns the rows. -/
structure Sweep where
  clock : String → Time
  order : List String → List String
  perm : ∀ ids, (order ids).Perm ids

/-- `COALESCE(julianday(expires_at) <= julianday('now'),false)` -/
def Row.Expired (row : Row) (now : Time) : Prop := ∃ t, row.expiresAt = some t ∧ t ≤ now

instance (row : Row) (now : Time) : Decidable (row.Expired now) :=
  match h : row.expiresAt with
  | none => .isFalse (by rintro ⟨t, ht, -⟩; rw [h] at ht; cases ht)
  | some t =>
    if hle : t ≤ now then .isTrue ⟨t, h, hle⟩
    else .isFalse (by rintro ⟨t', ht', hle'⟩; rw [h] at ht'; cases ht'; exact hle hle')

namespace Reliability

open Prog (raise rescue ofExcept forEach when)

variable {ρ ψ : Type} [Inhabited ψ]

/-- The status the runtime reports. -/
def observe (R : Runtime ρ ψ) (id : String) : Op ρ ψ Unit := do
  let actual ← call R (.inspect id)
  let status ← ofExcept (actual.word "status")
  exec (Journal.refresh id (.ofText status))
  when (status = "stopped") (exec (Journal.release id))

/-- The status of a container that should exist. -/
def refresh (R : Runtime ρ ψ) (id : String) : Op ρ ψ Unit :=
  rescue (observe R id) fun ex =>
    match ex with
    | .runtime 404 _ => exec (Journal.markMissing id)
    | ex => raise ex

/-- The turn of one sandbox. -/
def visit (R : Runtime ρ ψ) (sweep : Sweep) (id : String) : Op ρ ψ Unit :=
  rescue
    (do
      let row ← query fun j =>
        match j.sandboxes.find? id with
        | some row => .ok row
        | none => .error .noResult
      -- Pending work is superseded by deletion, never restarted after TTL.
      when (row.Expired (sweep.clock id)) (exec (Journal.doom id))
      converge R id
      let row ← query (Journal.get id)
      when (row.status ≠ .deleted) (refresh R id))
    fun _ => exec (Journal.count "reconcile_failures")

/-- The turn of one container of the inventory. -/
def visitContainer (R : Runtime ρ ψ) (ids : List String) (container : Json) : Op ρ ψ Unit := do
  let id ← ofExcept (container.word "id")
  if id ∈ ids then pure ()
  else
    let known ← query fun j => .ok ((j.sandboxes.find? id).map Row.status)
    if known.any (· ≠ .deleted) then pure ()
    else
      rescue
        (do
          let _ ← call R (.delete id)
          exec (Journal.dropImage id)
          exec (Journal.count "orphans_cleaned"))
        fun _ => exec (Journal.count "cleanup_failures")

/-- `Reliability#reconcile`.  Whatever escapes the turns ends the sweep. -/
def reconcile (R : Runtime ρ ψ) (sweep : Sweep) : Op ρ ψ Unit :=
  rescue
    (do
      -- Inventory failure must never be interpreted as an empty runtime.
      let answer ← call R .list
      let inventory ← ofExcept answer.asArray
      let ids ← query fun j => .ok (sweep.order j.live)
      forEach ids (visit R sweep)
      forEach inventory (visitContainer R ids)
      let _ ← call R .reconcile
      exec (Journal.count "reconcile_completed"))
    fun _ => pure ()

end Reliability

end Sandcube
