import Mathlib

/-!
# Labelled transition systems

Labelled transition systems with a total step function.

`next s a` is the state after the action `a`, and `Ok s a` says that the environment may
choose `a` in state `s`.  An invariant is proved once for the initial states and once for
a step, and then holds in every reachable state; a preorder that every step respects
relates every state to every later one.
-/

open Relation

namespace Transition

variable {σ α : Type} {next : σ → α → σ} {Ok : σ → α → Prop} {Init : σ → Prop}

/-- The states reachable from `Init` by actions that are `Ok` where they are taken. -/
inductive Reach (next : σ → α → σ) (Ok : σ → α → Prop) (Init : σ → Prop) : σ → Prop
  | init {s : σ} : Init s → Reach next Ok Init s
  | step {s : σ} {a : α} : Reach next Ok Init s → Ok s a → Reach next Ok Init (next s a)

/-- One step of the system. -/
def Step (next : σ → α → σ) (Ok : σ → α → Prop) (s s' : σ) : Prop := ∃ a, Ok s a ∧ s' = next s a

/-- `s'` comes after `s` in some run. -/
def Later (next : σ → α → σ) (Ok : σ → α → Prop) : σ → σ → Prop := ReflTransGen (Step next Ok)

/-- Take the actions of a list in order. -/
def run (next : σ → α → σ) (s : σ) (as : List α) : σ := as.foldl next s

/-- Every action of the list is `Ok` in the state it is taken in. -/
def Admissible (next : σ → α → σ) (Ok : σ → α → Prop) : σ → List α → Prop
  | _, [] => True
  | s, a :: as => Ok s a ∧ Admissible next Ok (next s a) as

@[simp] theorem run_nil (s : σ) : run next s [] = s := rfl

@[simp] theorem run_cons (s : σ) (a : α) (as : List α) :
    run next s (a :: as) = run next (next s a) as := rfl

/-- **Induction over a run.**  What holds initially and is preserved by every step holds in
every reachable state. -/
theorem Reach.invariant {I : σ → Prop} (hinit : ∀ s, Init s → I s)
    (hstep : ∀ s a, I s → Ok s a → I (next s a)) {s : σ} (h : Reach next Ok Init s) : I s := by
  induction h with
  | init h => exact hinit _ h
  | step _ ha ih => exact hstep _ _ ih ha

theorem Reach.later {s s' : σ} (h : Reach next Ok Init s) (h' : Later next Ok s s') :
    Reach next Ok Init s' := by
  induction h' with
  | refl => exact h
  | tail _ hs ih =>
    obtain ⟨a, ha, rfl⟩ := hs
    exact ih.step ha

/-- More actions and more initial states reach more states. -/
theorem Reach.mono {Ok' : σ → α → Prop} {Init' : σ → Prop} (hInit : ∀ s, Init s → Init' s)
    (hOk : ∀ s a, Ok s a → Ok' s a) {s : σ} (h : Reach next Ok Init s) :
    Reach next Ok' Init' s := by
  induction h with
  | init h => exact .init (hInit _ h)
  | step _ ha ih => exact ih.step (hOk _ _ ha)

theorem run_append (s : σ) (as bs : List α) :
    run next s (as ++ bs) = run next (run next s as) bs := List.foldl_append

theorem Later.run {s : σ} {as : List α} (has : Admissible next Ok s as) :
    Later next Ok s (Transition.run next s as) := by
  induction as generalizing s with
  | nil => exact .refl
  | cons a as ih => exact .head ⟨a, has.1, rfl⟩ (ih has.2)

theorem Reach.run {s : σ} (h : Reach next Ok Init s) {as : List α}
    (has : Admissible next Ok s as) : Reach next Ok Init (Transition.run next s as) := by
  induction as generalizing s with
  | nil => exact h
  | cons a as ih => exact ih (h.step has.1) has.2

end Transition
