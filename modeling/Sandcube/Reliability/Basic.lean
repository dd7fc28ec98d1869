import Sandcube.Images.Manager
import Sandcube.Runtime.Basic
import Sandcube.Prog.Does

/-!
# Operations on the world

The state the lifecycle code works on, and its three ways of touching it.

`World ρ` is everything outside the code of one operation: the journal, the fibers of the
image side, the runtime and the requests sent to it so far.  An operation reads the
journal, runs a transaction against it, or calls the runtime.  Operations exclude each
other (`Reliability#locked`), but the image side does not wait for them: before each
transaction and each call any number of its steps may run.
-/

namespace Sandcube

/-- The durable state, the fibers of the process and the history of its requests. -/
structure World (ρ : Type) where
  journal : Journal
  fibers : Fibers
  runtime : ρ
  /-- Every request sent to the runtime so far, the latest first. -/
  sent : List Call
  /-- The last request of the operation in progress, with what came back.  No operation reads
  it; it ties what an operation writes to what it was told. -/
  last : Option (Call × Reply)

/-- What the environment decides for one step of an operation: what the image side does just
before it, and the runtime's choice when the step is a call. -/
structure Env (ψ : Type) where
  images : List ImageStep
  runtime : ψ

instance {ψ : Type} [Inhabited ψ] : Inhabited (Env ψ) := ⟨⟨[], default⟩⟩

namespace World

variable {ρ : Type}

/-- One step of the image side. -/
def image (w : World ρ) (step : ImageStep) : World ρ :=
  { w with
    journal := (step.apply w.journal w.fibers).1
    fibers := (step.apply w.journal w.fibers).2 }

/-- What the image side does before a step of an operation. -/
def interfere (w : World ρ) (steps : List ImageStep) : World ρ := steps.foldl image w

/-- The row of a sandbox. -/
def row? (w : World ρ) (id : String) : Option Row := w.journal.sandboxes.find? id

/-- The world when an operation is over: what it was told is forgotten. -/
def done (w : World ρ) : World ρ := { w with last := none }

/-- The world after the process died: its fibers are gone. -/
def die (w : World ρ) : World ρ := { w with fibers := .none, last := none }

/-- The world after a change of the journal. -/
def withJournal (w : World ρ) (f : Journal → Journal) : World ρ :=
  { w with journal := f w.journal }

/-- The world after a call. -/
def called {ψ : Type} (w : World ρ) (R : Runtime ρ ψ) (f : ψ) (c : Call) : World ρ :=
  { w with
    runtime := (R.serve f c w.runtime).2
    sent := c :: w.sent
    last := some (c, (R.serve f c w.runtime).1) }

end World

namespace Reliability

variable {ρ ψ α : Type} [Inhabited ψ]

/-- A lifecycle operation, or a part of one. -/
abbrev Op (ρ ψ α : Type) := Prog (World ρ) (Env ψ) Ex α

/-- A query.  The tables it reads are written by the running operation alone, so it sees what
the operation left. -/
def query (f : Journal → Except Ex α) : Op ρ ψ α := Prog.read fun w => f w.journal

/-- `conn.transaction`; a raised exception rolls back. -/
def transaction (f : Journal → Except Ex Journal) : Op ρ ψ Unit :=
  Prog.atomic fun env w =>
    match f (w.interfere env.images).journal with
    | .ok j => (.ok (), (w.interfere env.images).withJournal fun _ => j)
    | .error e => (.error e, w.interfere env.images)

/-- `conn.exec`: a statement that cannot fail. -/
def exec (f : Journal → Journal) : Op ρ ψ Unit := transaction fun j => .ok (f j)

/-- `@runtime.request` -/
def call (R : Runtime ρ ψ) (c : Call) : Op ρ ψ Json :=
  Prog.atomic fun env w =>
    ((R.serve env.runtime c (w.interfere env.images).runtime).1.toExcept,
      (w.interfere env.images).called R env.runtime c)

end Reliability

end Sandcube
