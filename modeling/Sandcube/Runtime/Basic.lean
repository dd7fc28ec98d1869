import Sandcube.Journal.Schema

/-!
# The runtime interface

The runtime as the API sees it: the requests it sends over the socket and the answers.

`Runtime ρ ψ` is any runtime with state `ρ` whose behaviour on one request depends on a
choice `ψ` of the environment.  Nothing is assumed of what it answers; the container
runtime that the lifecycle rests on is one of them.
-/

namespace Sandcube

/-- The body of `POST /containers`: the configuration without `image_id`. -/
structure Spec where
  id : String
  image : String
  command : List String
  cpu : ℤ
  memoryMb : ℤ
  diskMb : ℤ
  pids : ℤ
  deriving DecidableEq

/-- `config.delete("image_id")` -/
def Config.spec (config : Config) (id : String) : Spec :=
  ⟨id, config.image, config.command, config.cpu, config.memoryMb, config.diskMb, config.pids⟩

/-- The requests of `src/reliability.cr`. -/
inductive Call where
  /-- `GET /containers` -/
  | list
  /-- `POST /containers` -/
  | create (spec : Spec)
  /-- `POST /containers/<id>/start` -/
  | start (id : String)
  /-- `POST /containers/<id>/stop` -/
  | stop (id : String)
  /-- `DELETE /containers/<id>` -/
  | delete (id : String)
  /-- `GET /containers/<id>` -/
  | inspect (id : String)
  /-- `POST /reconcile` -/
  | reconcile
  deriving DecidableEq

/-- The sandbox a request is about. -/
def Call.target? : Call → Option String
  | .create spec => some spec.id
  | .start id | .stop id | .delete id | .inspect id => some id
  | .list | .reconcile => none

/-- The requests that bring a container of the sandbox to life: `POST /containers` and
`POST /containers/<id>/start`. -/
def Call.Launches (id : String) : Call → Prop
  | .create spec => spec.id = id
  | .start id' => id' = id
  | _ => False

/-- What comes back: an answer, an answer with a status that is not a success, a success whose
body is not JSON, or nothing. -/
inductive Reply where
  | ok (body : Json)
  | http (status : ℕ) (body : String)
  | garbled (message : String)
  | lost (message : String)

/-- `Runtime#request` returns the body of a successful answer and raises otherwise. -/
def Reply.toExcept : Reply → Except Ex Json
  | .ok body => .ok body
  | .http status body => .error (.runtime status body)
  | .garbled message => .error (.parse message)
  | .lost message => .error (.io message)

theorem Reply.eq_ok_of_toExcept {reply : Reply} {body : Json} (h : reply.toExcept = .ok body) :
    reply = .ok body := by
  cases reply <;> simp_all [toExcept]

theorem Reply.eq_http_of_toExcept {reply : Reply} {status : ℕ} {body : String}
    (h : reply.toExcept = .error (.runtime status body)) : reply = .http status body := by
  cases reply <;> simp_all [toExcept]

/-- A runtime. -/
structure Runtime (ρ ψ : Type) where
  serve : ψ → Call → ρ → Reply × ρ

/-- Under the given choices, the runtime's errors have the statuses of HTTP errors. -/
def Runtime.ErrorStatuses {ρ ψ : Type} (R : Runtime ρ ψ) (choice : ψ → Prop) : Prop :=
  ∀ f c r status body, choice f → (R.serve f c r).1 = .http status body → 400 ≤ status

end Sandcube
