import Mathlib

/-!
# Programs over a durable store

Programs over a durable store, run against a list of fates.

A program changes a store of type `σ` in atomic steps, may raise an exception of type
`ε`, and may be killed between any two of its steps.  What the environment does to it is
a list of fates, one for each atomic step: the step is carried out (`go`), the process
dies before it (`crash`), or the step is carried out and the process dies before it
learns of it (`crashAfter`).  A fate that lets the step happen carries a value of type
`φ`, the environment's choices for that step.  When the list has run out every further
step is carried out with the default choice.

Given the fates a run is a function, so runs can be evaluated and two runs of the same
program can be compared.  A statement about every behaviour of the environment
quantifies over the list.

An exception can be rescued; a crash cannot.
-/

/-- What the environment decides for one atomic step. -/
inductive Fate (φ : Type) where
  | go (f : φ)
  | crash
  | crashAfter (f : φ)

/-- The process does not survive this fate. -/
def Fate.Fatal {φ : Type} : Fate φ → Prop
  | .go _ => False
  | .crash | .crashAfter _ => True

/-- How a program ends. -/
inductive Outcome (ε α : Type) where
  | ok (a : α)
  | raised (e : ε)
  | crashed
  deriving DecidableEq

/-- The end of a run: how it ended, the store it left and the fates it did not consume. -/
structure Result (σ φ ε α : Type) where
  outcome : Outcome ε α
  state : σ
  fates : List (Fate φ)

/-- A program over the store `σ`. -/
def Prog (σ φ ε α : Type) : Type := σ → List (Fate φ) → Result σ φ ε α

namespace Prog

variable {σ φ ε α β : Type}
variable {f : α → Prog σ φ ε β} {a : α} {e : ε} {handler : ε → Prog σ φ ε α}
variable {p : Prog σ φ ε α} {s s' : σ} {fs fs' : List (Fate φ)}

instance : Monad (Prog σ φ ε) where
  pure a := fun s fs => ⟨.ok a, s, fs⟩
  bind p f := fun s fs =>
    match p s fs with
    | ⟨.ok a, s', fs'⟩ => f a s' fs'
    | ⟨.raised e, s', fs'⟩ => ⟨.raised e, s', fs'⟩
    | ⟨.crashed, s', fs'⟩ => ⟨.crashed, s', fs'⟩

/-- Raise an exception. -/
def raise (e : ε) : Prog σ φ ε α := fun s fs => ⟨.raised e, s, fs⟩

/-- Run `p`; when it raises, run the handler instead.  A crash goes through. -/
def rescue (p : Prog σ φ ε α) (handler : ε → Prog σ φ ε α) : Prog σ φ ε α := fun s fs =>
  match p s fs with
  | ⟨.raised e, s', fs'⟩ => handler e s' fs'
  | r => r

/-- A pure computation that may raise. -/
def ofExcept : Except ε α → Prog σ φ ε α
  | .ok a => pure a
  | .error e => raise e

/-- Read the store.  Reading changes nothing and is not a step. -/
def read (f : σ → Except ε α) : Prog σ φ ε α := fun s fs => ofExcept (f s) s fs

/-- One atomic step on the store, under the next fate. -/
def atomic [Inhabited φ] (step : φ → σ → Except ε α × σ) : Prog σ φ ε α := fun s fs =>
  match fs with
  | [] => ofExcept (step default s).1 (step default s).2 []
  | .go f :: fs => ofExcept (step f s).1 (step f s).2 fs
  | .crash :: fs => ⟨.crashed, s, fs⟩
  | .crashAfter f :: fs => ⟨.crashed, (step f s).2, fs⟩

/-- The choice and the remaining fates, when the next step is carried out and survived. -/
def granted [Inhabited φ] : List (Fate φ) → Option (φ × List (Fate φ))
  | [] => some (default, [])
  | .go f :: fs => some (f, fs)
  | .crash :: _ | .crashAfter _ :: _ => none

/-- Run `p` under a condition. -/
def when (c : Prop) [Decidable c] (p : Prog σ φ ε Unit) : Prog σ φ ε Unit :=
  if c then p else pure ()

/-- Run `p` and then `q`, whether `p` returned or raised; what `q` raises goes before.  A crash goes
through. -/
def ensuring (p : Prog σ φ ε α) (q : Prog σ φ ε Unit) : Prog σ φ ε α := fun s fs =>
  match p s fs with
  | ⟨.ok a, s', fs'⟩ => (q >>= fun _ => pure a) s' fs'
  | ⟨.raised e, s', fs'⟩ => (q >>= fun _ => raise e) s' fs'
  | ⟨.crashed, s', fs'⟩ => ⟨.crashed, s', fs'⟩

/-- Run `body` for each element of a list, in order. -/
def forEach : List β → (β → Prog σ φ ε Unit) → Prog σ φ ε Unit
  | [], _ => pure ()
  | b :: bs, body => do
    body b
    forEach bs body

/-! ### Evaluation of the combinators on a state -/

theorem pure_apply (a : α) (s : σ) (fs : List (Fate φ)) :
    (pure a : Prog σ φ ε α) s fs = ⟨.ok a, s, fs⟩ := rfl

theorem raise_apply (e : ε) (s : σ) (fs : List (Fate φ)) :
    (raise e : Prog σ φ ε α) s fs = ⟨.raised e, s, fs⟩ := rfl

theorem bind_apply (p : Prog σ φ ε α) (f : α → Prog σ φ ε β) (s : σ) (fs : List (Fate φ)) :
    (p >>= f) s fs =
      match p s fs with
      | ⟨.ok a, s', fs'⟩ => f a s' fs'
      | ⟨.raised e, s', fs'⟩ => ⟨.raised e, s', fs'⟩
      | ⟨.crashed, s', fs'⟩ => ⟨.crashed, s', fs'⟩ := rfl

theorem bind_of_ok (h : p s fs = ⟨.ok a, s', fs'⟩) : (p >>= f) s fs = f a s' fs' := by
  rw [bind_apply, h]

theorem bind_of_raised (h : p s fs = ⟨.raised e, s', fs'⟩) :
    (p >>= f) s fs = ⟨.raised e, s', fs'⟩ := by
  rw [bind_apply, h]

theorem rescue_of_ok (h : p s fs = ⟨.ok a, s', fs'⟩) :
    rescue p handler s fs = ⟨.ok a, s', fs'⟩ := by
  rw [rescue, h]

theorem rescue_of_raised (h : p s fs = ⟨.raised e, s', fs'⟩) :
    rescue p handler s fs = handler e s' fs' := by
  rw [rescue, h]

theorem atomic_apply [Inhabited φ] {step : φ → σ → Except ε α × σ} {f : φ}
    (h : granted fs = some (f, fs')) :
    atomic step s fs = ofExcept (step f s).1 (step f s).2 fs' := by
  match fs with
  | [] | .go _ :: _ => cases h; rfl

end Prog
