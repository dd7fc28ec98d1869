import Sandcube.Reliability.Basic

/-!
# `converge`

`Reliability#converge`: bring the runtime to what the journal intends.

The source is recursive: a create that failed definitively is turned into a deletion and
`converge` is called again.  The second call finds the intent `delete`, which no failure
turns into anything else, so two levels are all there is.
-/

namespace Sandcube

namespace Reliability

open Prog (raise rescue when)

variable {ρ ψ : Type} [Inhabited ψ]

/-- The requests of one operation, with the journal write inside a restart. -/
def perform (R : Runtime ρ ψ) (id : String) (config : Config) : Action → Op ρ ψ Unit
  | .create => do
    let _ ← call R (.create (config.spec id))
    let _ ← call R (.start id)
  | .start => do
    let _ ← call R (.start id)
  | .restart => do
    let _ ← call R (.stop id)
    exec (Journal.passStop id)
    let _ ← call R (.start id)
  | .stop => do
    let _ ← call R (.stop id)
  | .delete => do
    let _ ← call R (.delete id)

/-- The end of the `rescue` of `converge`; `again` is the recursive call. -/
def recover (again : Op ρ ψ Unit) (id : String) (intent : Action) (ex : Ex) : Op ρ ψ Unit :=
  match intent, ex with
  | .create, .runtime status body => do
    -- A definitive failed create is compensated; transport failures retain the original
    -- intent because the runtime may have succeeded.
    exec (Journal.compensate id status body)
    rescue again fun _ => pure ()
    raise ex
  | _, _ => raise ex

/-- The `rescue` of `converge`. -/
def fail (again : Op ρ ψ Unit) (id : String) (intent : Action) (ex : Ex) : Op ρ ψ Unit := do
  exec (Journal.noteError id ex.message)
  exec (Journal.count "runtime_failures")
  when (intent = .delete) (exec (Journal.count "cleanup_failures"))
  recover again id intent ex

/-- The body of `converge`, with its recursive call as a parameter. -/
def attempt (R : Runtime ρ ψ) (again : Op ρ ψ Unit) (id : String) : Op ρ ψ Unit := do
  let row ← query (Journal.get id)
  match row.intent with
  | none => pure ()
  | some intent =>
    rescue
      (do
        perform R id row.config intent
        transaction (Journal.complete id intent.target))
      (fail again id intent)

/-- `Reliability#converge` -/
def converge (R : Runtime ρ ψ) (id : String) : Op ρ ψ Unit :=
  attempt R (attempt R (pure ()) id) id

end Reliability

end Sandcube
