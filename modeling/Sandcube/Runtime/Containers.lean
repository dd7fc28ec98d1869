import Sandcube.Runtime.Basic

/-!
# The container runtime

The container runtime: what a host's containers do under the API's requests.

A request takes effect before the call returns or fails, or it takes no effect.  The
environment decides whether a call fails, before or after its effect, by a lost answer or
an error status, and which running tasks stop by themselves before the request is served.
Nothing else changes a container.

Create, start, stop and delete are idempotent, as the adapter's are: creating a container
that exists with the same configuration, starting one that runs, stopping one that is
stopped and deleting one that is gone succeed and change nothing.
-/

namespace Sandcube

/-- A container: what it was created with, and whether its task runs. -/
structure Container where
  spec : Spec
  running : Bool
  deriving DecidableEq

/-- The containers of a host. -/
abbrev Containers := Table String Container

/-- The status word of the adapter. -/
def Container.status (c : Container) : String := if c.running then "running" else "stopped"

/-- The adapter's description of a container. -/
def Container.describe (c : Container) (id : String) : Json :=
  .obj [("id", .str id), ("status", .str c.status)]

/-- How a call fails. -/
inductive Failure where
  | lost (message : String)
  | http (status : ℕ) (body : String)

/-- The error the API gets. -/
def Failure.reply : Failure → Reply
  | .lost message => .lost message
  | .http status body => .http status body

/-- What the environment decides for one request. -/
structure Fault where
  /-- Tasks that stop by themselves before the request is served. -/
  exits : List String
  /-- The failure of the call, and whether it comes after the effect. -/
  failure : Option (Bool × Failure)

instance : Inhabited Fault := ⟨⟨[], none⟩⟩

/-- An error status, if there is one, is that of an HTTP error. -/
def Fault.Proper (fault : Fault) : Prop :=
  ∀ late status body, fault.failure = some (late, .http status body) → 400 ≤ status

namespace Containers

/-- Tasks that stop by themselves. -/
def exit (ids : List String) (cs : Containers) : Containers :=
  cs.mapRows fun id c => if id ∈ ids then { c with running := false } else c

/-- The answer for a container the runtime does not know. -/
def notFound : Reply := .http 404 "container not found"

/-- Start or stop the task of a container. -/
def switch (running : Bool) (id : String) (cs : Containers) : Reply × Containers :=
  match cs.find? id with
  | some c => (.ok ({ c with running := running }.describe id),
      cs.modify id fun c => { c with running := running })
  | none => (notFound, cs)

/-- A request that is executed and answered. -/
def execute (call : Call) (cs : Containers) : Reply × Containers :=
  match call with
  | .list => (.ok (.arr (cs.rows.map fun p => p.2.describe p.1)), cs)
  | .create spec =>
    match cs.find? spec.id with
    | some c =>
      if c.spec = spec then (.ok (c.describe spec.id), cs)
      else (.http 409 "container exists with another configuration", cs)
    | none =>
      match cs.insert? spec.id ⟨spec, false⟩ with
      | some cs' => (.ok ((⟨spec, false⟩ : Container).describe spec.id), cs')
      | none => (.http 409 "container exists", cs)
  | .start id => cs.switch true id
  | .stop id => cs.switch false id
  | .delete id => (.ok (.obj [("id", .str id), ("status", .str "deleted")]), cs.erase id)
  | .inspect id =>
    match cs.find? id with
    | some c => (.ok (c.describe id), cs)
    | none => (notFound, cs)
  | .reconcile => (.ok (.obj []), cs)

/-- A request under a fault. -/
def serve (fault : Fault) (call : Call) (cs : Containers) : Reply × Containers :=
  match fault.failure with
  | none => execute call (cs.exit fault.exits)
  | some (true, failure) => (failure.reply, (execute call (cs.exit fault.exits)).2)
  | some (false, failure) => (failure.reply, cs.exit fault.exits)

/-- The container runtime. -/
def runtime : Runtime Containers Fault := ⟨serve⟩

end Containers

/-! ### One container at a time -/

namespace Container

/-- What executing a request does to the container of `x`. -/
def effect (x : String) (c : Option Container) : Call → Option Container
  | .create spec => if spec.id = x then some (c.getD ⟨spec, false⟩) else c
  | .start id => if id = x then c.map fun c => { c with running := true } else c
  | .stop id => if id = x then c.map fun c => { c with running := false } else c
  | .delete id => if id = x then none else c
  | .list | .inspect _ | .reconcile => c

/-- The container of `x` after the tasks of `ids` stopped by themselves. -/
def exited (x : String) (ids : List String) (c : Container) : Container :=
  if x ∈ ids then { c with running := false } else c

@[simp] theorem exited_spec (x : String) (ids : List String) (c : Container) :
    (c.exited x ids).spec = c.spec := by
  unfold exited; split_ifs <;> rfl

theorem running_of_exited {x : String} {ids : List String} {c : Container}
    (h : (c.exited x ids).running = true) : c.running = true := by
  unfold exited at h
  split_ifs at h
  exact h

end Container

namespace Containers

theorem find?_exit (cs : Containers) (ids : List String) (x : String) :
    (cs.exit ids).find? x = (cs.find? x).map (Container.exited x ids) := by
  rw [exit, Table.find?_mapRows]
  rfl

theorem find?_switch (running : Bool) (id : String) (cs : Containers) (x : String) :
    (cs.switch running id).2.find? x =
      if id = x then (cs.find? x).map fun c => { c with running := running } else cs.find? x := by
  unfold switch
  cases hfind : cs.find? id with
  | none =>
    split_ifs with hx
    · subst hx; simp [hfind]
    · rfl
  | some c =>
    by_cases hx : id = x
    · subst hx; simp
    · simp [Table.find?_modify_of_ne _ (Ne.symm hx), hx]

/-- A request changes the container it names and no other. -/
theorem find?_execute (cs : Containers) (call : Call) (x : String) :
    (execute call cs).2.find? x = Container.effect x (cs.find? x) call := by
  cases call with
  | list => rfl
  | inspect id => simp only [execute, Container.effect]; split <;> rfl
  | reconcile => rfl
  | start id => exact find?_switch true id cs x
  | stop id => exact find?_switch false id cs x
  | delete id => simp only [execute, Container.effect, Table.find?_erase, eq_comm]
  | create spec =>
    simp only [execute, Container.effect]
    cases hfind : cs.find? spec.id with
    | some c =>
      have hstay : ∀ reply, (if c.spec = spec then (reply, cs)
          else (Reply.http 409 "container exists with another configuration", cs)).2 = cs := by
        intro reply; split_ifs <;> rfl
      simp only [hstay]
      split_ifs with hx
      · subst hx; simp [hfind]
      · rfl
    | none =>
      cases hins : cs.insert? spec.id ⟨spec, false⟩ with
      | none =>
        have htaken := (cs.insert?_eq_none_iff _ _).mp hins
        exact absurd htaken ((cs.find?_eq_none_iff _).mp hfind)
      | some cs' =>
        simp only [Table.find?_insert? hins]
        by_cases hx : x = spec.id
        · subst hx; simp [hfind]
        · simp [hx, Ne.symm hx]

/-- A call takes effect on the container of `x` or it does not; tasks may have stopped before. -/
theorem find?_serve (fault : Fault) (call : Call) (cs : Containers) (x : String) :
    (serve fault call cs).2.find? x = (cs.find? x).map (Container.exited x fault.exits) ∨
    (serve fault call cs).2.find? x =
      Container.effect x ((cs.find? x).map (Container.exited x fault.exits)) call := by
  unfold serve
  rw [← find?_exit]
  split
  · exact .inr (find?_execute _ _ _)
  · exact .inr (find?_execute _ _ _)
  · exact .inl rfl

/-- A call that was answered took effect. -/
theorem execute_of_serve_ok {fault : Fault} {call : Call} {cs : Containers} {body : Json}
    (h : (serve fault call cs).1 = .ok body) :
    execute call (cs.exit fault.exits) = (.ok body, (serve fault call cs).2) := by
  unfold serve at h ⊢
  split
  · next hf => simp only [hf] at h; rw [← h]
  · next failure hf => simp only [hf] at h; cases failure <;> cases h
  · next failure hf => simp only [hf] at h; cases failure <;> cases h

/-- A container that was started or stopped exists. -/
theorem find?_of_switch_ok {running : Bool} {id : String} {cs : Containers} {body : Json}
    (h : (cs.switch running id).1 = .ok body) : ∃ c, cs.find? id = some c := by
  unfold switch at h
  cases hfind : cs.find? id with
  | some c => exact ⟨c, rfl⟩
  | none => rw [hfind] at h; cases h

/-- An answered inspection describes the container. -/
theorem find?_of_inspect_ok {id : String} {cs : Containers} {body : Json}
    (h : (execute (.inspect id) cs).1 = .ok body) :
    ∃ c, cs.find? id = some c ∧ body = c.describe id := by
  simp only [execute] at h
  cases hfind : cs.find? id with
  | some c => rw [hfind] at h; exact ⟨c, rfl, (Reply.ok.inj h).symm⟩
  | none => rw [hfind] at h; cases h

/-- The runtime's own refusals are HTTP errors. -/
theorem execute_error {call : Call} {cs : Containers} {status : ℕ} {body : String}
    (h : (execute call cs).1 = .http status body) : 400 ≤ status := by
  have hnotFound : notFound = .http status body → 400 ≤ status := by
    rintro ⟨⟩
    decide
  have hswitch : ∀ running id, (cs.switch running id).1 = .http status body → 400 ≤ status := by
    intro running id hs
    unfold switch at hs
    split at hs
    · cases hs
    · exact hnotFound hs
  cases call with
  | list | delete id | reconcile => cases h
  | start id | stop id => exact hswitch _ _ h
  | inspect id =>
    simp only [execute] at h
    split at h
    · cases h
    · exact hnotFound h
  | create spec =>
    simp only [execute] at h
    split at h
    · split_ifs at h
      cases h
      decide
    · split at h <;> cases h
      decide

theorem errorStatuses : runtime.ErrorStatuses Fault.Proper := by
  intro fault call cs status body hf h
  change (serve fault call cs).1 = _ at h
  unfold serve at h
  split at h
  · exact execute_error h
  · next failure hfail =>
    cases failure <;> cases h
    exact hf _ _ _ hfail
  · next failure hfail =>
    cases failure <;> cases h
    exact hf _ _ _ hfail

end Containers

end Sandcube
