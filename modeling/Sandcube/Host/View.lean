import Sandcube.Host.Coupling

/-!
# One sandbox at a time

`World.view w x` is everything that belongs to the sandbox `x`: its row, its image reference,
its container and the records of the requests about it.  The moves of another sandbox do not
touch it.  `View.goal` is what becomes of a view when everything that is pending is carried
out and the row is refreshed: the abstract meaning of one turn of the reconciler.
-/

namespace Sandcube

/-- Everything that belongs to one sandbox. -/
@[ext]
structure View where
  row : Option Row
  image : Option String
  container : Option Container
  /-- The records of the sandbox, by idempotency key. -/
  records : String → Option Record

/-- The part of the world that belongs to `x`. -/
def World.view (w : World Containers) (x : String) : View where
  row := w.row? x
  image := w.journal.sandboxImages.find? x
  container := w.runtime.find? x
  records key := (w.journal.requests.find? key).filter (·.sandboxId = x)

/-- The columns that a refresh writes. -/
def Row.refreshed (row : Row) (running : Bool) : Row :=
  { row with
    status := if running then .running else .stopped
    errorMessage := none
    reservedCpu := if running then row.reservedCpu else 0
    reservedMemoryMb := if running then row.reservedMemoryMb else 0 }

/-- The container an operation leaves. -/
def Action.leaves (x : String) (config : Config) (c : Option Container) :
    Action → Option Container
  | .create => some ⟨config.spec x, true⟩
  | .start | .restart => c.map fun c => { c with running := true }
  | .stop => c.map fun c => { c with running := false }
  | .delete => none

namespace View

/-- The records once the operation that leaves `row` has answered them. -/
def answered (v : View) (x : String) (row : Row) (key : String) : Option Record :=
  (v.records key).map fun rec =>
    if rec.response = none then { rec with response := some (.response (row.response x)) } else rec

/-- What becomes of a sandbox: a pending operation is carried out and answered, an idle sandbox
is refreshed. -/
def goal (v : View) (x : String) : View :=
  match v.row with
  | none => v
  | some row =>
    match row.intent with
    | some action =>
      { row := some (row.finished action.target)
        image := if action = .delete then none else v.image
        container := action.leaves x row.config v.container
        records := v.answered x (row.finished action.target) }
    | none =>
      if row.status = .deleted then v
      else match v.container with
        | some c => { v with row := some (row.refreshed c.running) }
        | none => v

/-- What a sweep at the time `now` leaves of a sandbox: expired work is superseded by deletion,
and a container without a row is removed. -/
def swept (v : View) (x : String) (now : Time) : View :=
  match v.row with
  | none => { v with container := none }
  | some row =>
    if row.status = .deleted ∧ row.intent = none then v
    else if row.Expired now then goal { v with row := some row.doomed } x
    else v.goal x

theorem goal_of_pending {v : View} {row : Row} {action : Action} (x : String)
    (hrow : v.row = some row) (hi : row.intent = some action) :
    v.goal x =
      { row := some (row.finished action.target)
        image := if action = .delete then none else v.image
        container := action.leaves x row.config v.container
        records := v.answered x (row.finished action.target) } := by
  simp [goal, hrow, hi]

theorem goal_of_idle {v : View} {row : Row} {c : Container} (x : String)
    (hrow : v.row = some row) (hi : row.Idle) (hc : v.container = some c) :
    v.goal x = { v with row := some (row.refreshed c.running) } := by
  simp [goal, hrow, hi.1, hi.2, hc]

theorem goal_of_gone {v : View} (x : String) (h : Gone v.row) : v.goal x = v := by
  cases hrow : v.row with
  | none => simp [goal, hrow]
  | some row =>
    obtain ⟨hs, hi⟩ := h row hrow
    simp [goal, hrow, hs, hi]

theorem swept_of_gone {v : View} (x : String) (now : Time) (h : Gone v.row)
    (hc : v.row ≠ none → v.container = none) : v.swept x now = { v with container := none } := by
  unfold swept
  cases hrow : v.row with
  | none => rfl
  | some row =>
    have hnone := hc (by simp [hrow])
    simp only [if_pos (h row hrow)]
    ext1 <;> simp [hrow, hnone]

/-- A sandbox that did not expire is taken to its goal. -/
theorem swept_eq_goal {v : View} (x : String) {now : Time}
    (hlive : ∀ row, v.row = some row → ¬ row.Expired now)
    (hnone : v.row = none → v.container = none) : v.swept x now = v.goal x := by
  unfold swept
  cases hrow : v.row with
  | none =>
    rw [goal_of_gone x fun r hr => nomatch hrow.symm.trans hr]
    ext1 <;> simp [hrow, hnone hrow]
  | some row =>
    simp only [if_neg (hlive row hrow)]
    split_ifs with hgone
    · refine (goal_of_gone x fun r hr => ?_).symm
      rwa [← Option.some.inj (hrow.symm.trans hr)]
    · rfl

theorem goal_expiresAt (v : View) (x : String) :
    (v.goal x).row.map Row.expiresAt = v.row.map Row.expiresAt := by
  unfold goal
  cases hrow : v.row with
  | none => rw [hrow]
  | some row =>
    cases hi : row.intent with
    | some action => simp [hi, Row.finished]
    | none =>
      simp only [hi]
      split_ifs
      · simp [hrow]
      · cases v.container <;> simp [hrow, Row.refreshed]

theorem swept_expiresAt (v : View) (x : String) (now : Time) :
    (v.swept x now).row.map Row.expiresAt = v.row.map Row.expiresAt := by
  unfold swept
  cases hrow : v.row with
  | none => simp
  | some row =>
    simp only
    split_ifs
    · rw [hrow]
    · simp [goal_expiresAt, Row.doomed]
    · simp [goal_expiresAt, hrow]

end View

end Sandcube
