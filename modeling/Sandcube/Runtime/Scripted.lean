import Sandcube.Runtime.Containers

/-!
# A runtime with a script

The container runtime under failures that are settled beforehand, sandbox by sandbox.

In a run the environment decides what becomes of a request when it comes.  To compare two runs that
send the requests in different orders, the decisions have to be those of the requests and not of
their places in the run: a `Script` says for each sandbox which of the requests about it fail, and how.
It may look at all the requests about that sandbox so far, and at no other.
-/

namespace Sandcube

/-- Which requests fail, and whether before or after their effect. -/
structure Script where
  /-- For a request about a sandbox, by the requests about it so far, the latest first. -/
  about : String → List Call → Option (Bool × Failure)
  /-- For a request about no sandbox. -/
  whole : Call → Option (Bool × Failure)

/-- The containers, and the requests about each sandbox so far. -/
structure Scripted where
  containers : Containers
  made : String → List Call

namespace Script

/-- A request was sent. -/
def note (c : Call) (made : String → List Call) : String → List Call :=
  match c.target? with
  | some id => Function.update made id (c :: made id)
  | none => made

/-- What the script says about a request. -/
def failure (script : Script) (made : String → List Call) (c : Call) : Option (Bool × Failure) :=
  match c.target? with
  | some id => script.about id (c :: made id)
  | none => script.whole c

/-- The container runtime under a script. -/
def runtime (script : Script) : Runtime Scripted Unit where
  serve _ c s :=
    ((Containers.serve ⟨[], script.failure s.made c⟩ c s.containers).1,
      ⟨(Containers.serve ⟨[], script.failure s.made c⟩ c s.containers).2, note c s.made⟩)

end Script

/-! ### One container at a time -/

namespace Containers

/-- The answer to a request about a sandbox depends on the container of that sandbox. -/
theorem execute_congr {c : Call} {id : String} (hc : c.target? = some id) {cs cs' : Containers}
    (h : cs.find? id = cs'.find? id) : (execute c cs).1 = (execute c cs').1 := by
  have hswitch : ∀ running, (cs.switch running id).1 = (cs'.switch running id).1 := by
    intro running
    unfold switch
    rw [h]
    cases cs'.find? id <;> rfl
  cases c with
  | list | reconcile => cases hc
  | start _ => cases hc; exact hswitch true
  | stop _ => cases hc; exact hswitch false
  | delete _ => rfl
  | inspect _ =>
    cases hc
    simp only [execute, h]
    cases cs'.find? id <;> rfl
  | create spec =>
    cases hc
    simp only [execute, h]
    cases hfind : cs'.find? spec.id with
    | some container =>
      dsimp only
      split_ifs <;> rfl
    | none =>
      obtain ⟨t, ht⟩ := Table.exists_insert? (h.trans hfind) ⟨spec, false⟩
      obtain ⟨t', ht'⟩ := Table.exists_insert? hfind ⟨spec, false⟩
      simp only [ht, ht']

end Containers

end Sandcube
