import Sandcube.Reliability.Request
import Sandcube.Reliability.Reconcile

/-!
# What an operation can do in one step

`Move R rules job x` is every single step that an operation takes on behalf of the sandbox
`x`: a step of the image side, a request to the runtime, or a write to the journal.  Each
comes with what is known when it is taken, about the row of `x` and about the last answer of
the runtime: `Due` for a request, `Write` for a write.

That the operations take no other step is proved once, in `Sandcube.Reliability.Steps`.
Every invariant is then a case analysis over moves, with no program in sight.
-/

namespace Sandcube

variable {ρ ψ : Type}
variable {x y : String} {j j' : Journal} {last : Option (Call × Reply)}

/-! ### What the environment may do -/

/-- The environments under study: which steps the image side may take, which choices the
runtime has, and whether the process may be killed. -/
structure Rules (ψ : Type) [Inhabited ψ] where
  image : ImageStep → Prop
  choice : ψ → Prop
  kill : Prop
  choice_default : choice default

variable [Inhabited ψ]

namespace Rules

/-- Everything is possible. -/
def any : Rules ψ := ⟨fun _ => True, fun _ => True, True, trivial⟩

/-- Everything is possible, but only requests take image references. -/
def internal : Rules ψ := ⟨ImageStep.Internal, fun _ => True, True, trivial⟩

/-- The choices for one step are among the possible ones. -/
def Permits (rules : Rules ψ) (env : Env ψ) : Prop :=
  (∀ step ∈ env.images, rules.image step) ∧ rules.choice env.runtime

/-- The rules as an adversary of the program logic. -/
def adversary (rules : Rules ψ) : Adversary (Env ψ) where
  May
    | .go env => rules.Permits env
    | .crash => rules.kill
    | .crashAfter env => rules.kill ∧ rules.Permits env
  may_default := ⟨(fun _ h => nomatch h), rules.choice_default⟩

theorem allows_any (fates : List (Fate (Env ψ))) : (any : Rules ψ).adversary.Allows fates := by
  intro fate _
  cases fate with
  | go env => exact ⟨fun _ _ => trivial, trivial⟩
  | crash => trivial
  | crashAfter env => exact ⟨trivial, fun _ _ => trivial, trivial⟩

theorem gentle {rules : Rules ψ} (h : ¬ rules.kill) : rules.adversary.Gentle := by
  intro fate hmay
  cases fate with
  | go env => exact id
  | crash => exact absurd hmay h
  | crashAfter env => exact absurd hmay.1 h

end Rules

/-! ### What is known of a sandbox -/

/-- The operation that holds the lock. -/
inductive Job where
  /-- A request without a record.  A create would draw the identifier `newId`. -/
  | request (cap : Capacity) (newId fingerprint : String) (key : Option String)
  /-- A request whose key has a record. -/
  | retry
  /-- A sweep, with the clock at each sandbox's turn. -/
  | sweep (clock : String → Time)

/-- The job finishes what was accepted before: it is not a request of its own. -/
def Job.Recovers : Job → Prop
  | .request .. => False
  | .retry | .sweep _ => True

theorem Job.Recovers.ne {job : Job} (h : job.Recovers) {cap : Capacity} {newId fingerprint : String}
    {key : Option String} : job ≠ .request cap newId fingerprint key := by
  rintro rfl
  exact h

/-- The job of a request without a record. -/
def Request.job (codec : Codec) (cap : Capacity) (r : Request) : Job :=
  .request cap ("sbx_" ++ r.uuid) (r.fingerprint codec) r.key

/-- The sandbox has no row, or was deleted and nothing is pending. -/
def Gone (row : Option Row) : Prop :=
  ∀ r, row = some r → r.status = .deleted ∧ r.intent = none

/-- The sandbox exists and nothing is pending. -/
def Row.Idle (row : Row) : Prop := row.intent = none ∧ row.status ≠ .deleted

/-! ### The moves -/

/-- The request that ends an operation when it succeeds. -/
def Action.finalCall (id : String) : Action → Call
  | .create | .start | .restart => .start id
  | .stop => .stop id
  | .delete => .delete id

/-- The requests an operation may send for `x`, by the row of `x` and the last answer. -/
def Due (job : Job) (x : String) (row : Option Row) (last : Option (Call × Reply)) : Call → Prop
  | .list | .reconcile => True
  | .inspect id => id = x ∧ ∃ r, row = some r ∧ r.Idle
  | .create spec => ∃ r, row = some r ∧ r.intent = some .create ∧ spec = r.config.spec x
  | .start id => id = x ∧ ∃ r, row = some r ∧ (r.intent = some .start ∨
      r.intent = some .create ∧ ∃ body, last = some (.create (r.config.spec x), .ok body))
  | .stop id => id = x ∧ ∃ r, row = some r ∧ (r.intent = some .stop ∨ r.intent = some .restart)
  | .delete id => id = x ∧
      ((∃ r, row = some r ∧ r.intent = some .delete) ∨ ∃ clock, job = .sweep clock ∧ Gone row)

/-- The writes that change one existing row and nothing else. -/
inductive RowStep (job : Job) (x : String) (last : Option (Call × Reply)) : Row → Row → Prop
  | passStop {row : Row} {body : Json} (pending : row.intent = some .restart)
      (answer : last = some (.stop x, .ok body)) :
      RowStep job x last row { row with intent := some .start }
  | noteError {row : Row} (message : String) (pending : row.intent ≠ none) :
      RowStep job x last row { row with errorMessage := some message }
  | expire {row : Row} {clock : String → Time} (sweeping : job = .sweep clock)
      (expired : row.Expired (clock x)) :
      RowStep job x last row row.doomed
  | refresh {row : Row} {clock : String → Time} {body : Json} {text : String}
      (sweeping : job = .sweep clock) (idle : row.Idle)
      (answer : last = some (.inspect x, .ok body)) (word : body.word "status" = .ok text) :
      RowStep job x last row { row with status := .ofText text, errorMessage := none }
  | release {row : Row} {clock : String → Time} {body : Json} (sweeping : job = .sweep clock)
      (idle : row.intent = none) (stopped : row.status = .stopped)
      (answer : last = some (.inspect x, .ok body)) (word : body.word "status" = .ok "stopped") :
      RowStep job x last row { row with reservedCpu := 0, reservedMemoryMb := 0 }
  | markMissing {row : Row} {clock : String → Time} {body : String}
      (sweeping : job = .sweep clock) (idle : row.Idle)
      (answer : last = some (.inspect x, .http 404 body)) :
      RowStep job x last row
        { row with status := .error, errorMessage := some "Runtime container missing" }

/-- The writes an operation may make for `x`. -/
inductive Write (job : Job) (x : String) (last : Option (Call × Reply)) :
    Journal → Journal → Prop
  | accept {j j' : Journal} {cap : Capacity} {newId fingerprint : String} {key : Option String}
      {action : Action} (asked : job = .request cap newId fingerprint key)
      (drawn : action = .create → x = newId)
      (listed : action.Starts → ∃ body, last = some (.list, .ok body))
      (accepted : Journal.Accepted cap x fingerprint key action j j') : Write job x last j j'
  | row {j : Journal} {row row' : Row} (found : j.sandboxes.find? x = some row)
      (step : RowStep job x last row row') : Write job x last j (j.setRow x fun _ => row')
  | complete {j j' : Journal} {row : Row} {action : Action} {body : Json}
      (found : j.sandboxes.find? x = some row) (pending : row.intent = some action)
      (whole : action ≠ .restart) (answer : last = some (action.finalCall x, .ok body))
      (done : j.complete x action.target = .ok j') : Write job x last j j'
  | compensate {j : Journal} {row : Row} {c : Call} {status : ℕ} {body : String}
      (found : j.sandboxes.find? x = some row) (pending : row.intent = some .create)
      (launch : c.Launches x) (answer : last = some (c, .http status body)) :
      Write job x last j (j.compensate x status body)
  | count {j : Journal} (name : String) : Write job x last j (j.count name)
  | dropImage {j : Journal} {clock : String → Time} {body : Json} (sweeping : job = .sweep clock)
      (gone : Gone (j.sandboxes.find? x)) (answer : last = some (.delete x, .ok body)) :
      Write job x last j (j.dropImage x)

/-- The steps an operation takes on behalf of `x`. -/
inductive Move (R : Runtime ρ ψ) (rules : Rules ψ) (job : Job) (x : String) :
    World ρ → World ρ → Prop
  | image {w : World ρ} {step : ImageStep} (may : rules.image step) :
      Move R rules job x w (w.image step)
  | call {w : World ρ} {f : ψ} {c : Call} (may : rules.choice f)
      (due : Due job x (w.row? x) w.last c) : Move R rules job x w (w.called R f c)
  | write {w : World ρ} {j : Journal} (write : Write job x w.last w.journal j) :
      Move R rules job x w (w.withJournal fun _ => j)

/-! ### What a move leaves alone -/

theorem Journal.Accepted.find?_of_ne {cap : Capacity} {fingerprint : String} {key : Option String}
    {action : Action} (h : Accepted cap x fingerprint key action j j') (hy : y ≠ x) :
    j'.sandboxes.find? y = j.sandboxes.find? y := by
  cases h with
  | create config expiresAt sandboxes => rw [Table.find?_insert? sandboxes, if_neg hy]
  | move action row old found idle sandboxes =>
    rw [sandboxes, Table.find?_modify_of_ne _ hy]

/-- A write for `x` leaves the other rows alone. -/
theorem Write.find?_of_ne {job : Job} (h : Write job x last j j') (hy : y ≠ x) :
    j'.sandboxes.find? y = j.sandboxes.find? y := by
  cases h with
  | accept _ _ _ accepted => exact accepted.find?_of_ne hy
  | row found step => exact Journal.find?_setRow_of_ne hy _
  | complete found pending whole answer done =>
    rw [Journal.complete_of_find? found, Except.ok.injEq] at done
    rw [← done]
    exact Table.find?_modify_of_ne _ hy _
  | compensate found pending launch answer => exact Journal.find?_setRow_of_ne hy _
  | count name | dropImage sweeping gone answer => rfl

/-- A write for `x` leaves the image references of the others alone. -/
theorem Write.sandboxImages_of_ne {job : Job} (h : Write job x last j j') (hy : y ≠ x) :
    j'.sandboxImages.find? y = j.sandboxImages.find? y := by
  cases h with
  | accept _ _ _ accepted =>
    cases accepted with
    | create config expiresAt sandboxes fits image =>
      rcases image with ⟨-, himage⟩ | ⟨imageId, im, -, -, -, -, hins⟩
      · rw [himage]
      · rw [Table.find?_insert? hins, if_neg hy]
    | move action row old found idle sandboxes fits sandboxImages => rw [sandboxImages]
  | row found step => rfl
  | complete found pending whole answer done =>
    rw [Journal.complete_of_find? found, Except.ok.injEq] at done
    rw [← done]
    dsimp only
    split_ifs
    · exact Table.find?_erase_of_ne _ hy
    · rfl
  | compensate found pending launch answer | count name => rfl
  | dropImage sweeping gone answer => exact Table.find?_erase_of_ne _ hy

/-- What a write for `x` can make of the row of `x`. -/
inductive RowChange (job : Job) (x : String) (last : Option (Call × Reply)) :
    Option Row → Option Row → Prop
  | same {row : Option Row} : RowChange job x last row row
  | create {cap : Capacity} {newId fingerprint : String} {key : Option String} {body : Json}
      {config : Config} {expiresAt : Option Time}
      (asked : job = .request cap newId fingerprint key) (drawn : x = newId)
      (listed : last = some (.list, .ok body)) :
      RowChange job x last none (some (Row.fresh config expiresAt).reserved)
  | move {cap : Capacity} {newId fingerprint : String} {key : Option String} {action : Action}
      {row : Row} (asked : job = .request cap newId fingerprint key) (old : action ≠ .create)
      (idle : action = .delete ∨ row.intent = none ∧ row.status ≠ .deleted) :
      RowChange job x last (some row) (some
        { (if action.Starts then row.reserved else row) with
          intent := some action, status := action.pending })
  | step {row row' : Row} (step : RowStep job x last row row') :
      RowChange job x last (some row) (some row')
  | finish {row : Row} {action : Action} {body : Json} (pending : row.intent = some action)
      (whole : action ≠ .restart) (answer : last = some (action.finalCall x, .ok body)) :
      RowChange job x last (some row) (some (row.finished action.target))
  | compensate {row : Row} {c : Call} {status : ℕ} {body : String}
      (pending : row.intent = some .create) (launch : c.Launches x)
      (answer : last = some (c, .http status body)) :
      RowChange job x last (some row) (some row.doomed)

/-- **Inversion of a write at its own row.** -/
theorem Write.rowChange {job : Job} (h : Write job x last j j') :
    RowChange job x last (j.sandboxes.find? x) (j'.sandboxes.find? x) := by
  cases h with
  | accept asked drawn listed accepted =>
    cases accepted with
    | create config expiresAt sandboxes =>
      obtain ⟨body, hlast⟩ := listed trivial
      rw [Table.find?_of_insert?_eq_some sandboxes, Table.find?_insert? sandboxes, if_pos rfl]
      exact .create asked (drawn rfl) hlast
    | move action row old found idle sandboxes =>
      rw [sandboxes, Table.find?_modify_self, found]
      exact .move asked old idle
  | row found step =>
    rw [Journal.find?_setRow_self found, found]
    exact .step step
  | complete found pending whole answer done =>
    rw [Journal.complete_of_find? found, Except.ok.injEq] at done
    rw [← done, Table.find?_modify_self, found]
    exact .finish pending whole answer
  | compensate found pending launch answer =>
    rw [Journal.compensate, Journal.answer, Journal.doom, Journal.find?_setRow_self found, found]
    exact .compensate pending launch answer
  | count name | dropImage sweeping gone answer => exact .same

/-- What a write does to any row. -/
theorem Write.changes {job : Job} (h : Write job y last j j') (x : String) :
    RowChange job x last (j.sandboxes.find? x) (j'.sandboxes.find? x) := by
  by_cases hx : x = y
  · subst hx
    exact h.rowChange
  · rw [h.find?_of_ne hx]
    exact .same

/-- No write removes a row. -/
theorem RowChange.eq_none {job : Job} {row : Option Row} (h : RowChange job x last row none) :
    row = none := by
  cases h
  rfl

theorem Write.find?_eq_none {job : Job} (h : Write job y last j j')
    (hn : j'.sandboxes.find? x = none) : j.sandboxes.find? x = none :=
  RowChange.eq_none (hn ▸ h.changes x)

namespace World

theorem image_journal (w : World ρ) (step : ImageStep) :
    (w.image step).journal.sandboxes = w.journal.sandboxes ∧
    (w.image step).journal.requests = w.journal.requests ∧
    (w.image step).journal.hostCapacity = w.journal.hostCapacity := by
  obtain ⟨images, sandboxImages, h⟩ := step.apply_journal w.journal w.fibers
  simp [image, h]

theorem sandboxImages_image {w : World ρ} {step : ImageStep} (h : step.Internal) :
    (w.image step).journal.sandboxImages = w.journal.sandboxImages :=
  h.sandboxImages_eq w.journal w.fibers

@[simp] theorem row?_image (w : World ρ) (step : ImageStep) (x : String) :
    (w.image step).row? x = w.row? x := by
  rw [row?, (w.image_journal step).1, row?]

omit [Inhabited ψ] in
@[simp] theorem row?_called (w : World ρ) (R : Runtime ρ ψ) (f : ψ) (c : Call) (x : String) :
    (w.called R f c).row? x = w.row? x := rfl

end World

/-- A move on behalf of `x` leaves the other rows alone. -/
theorem Move.row?_of_ne {R : Runtime ρ ψ} {rules : Rules ψ} {job : Job} {w w' : World ρ}
    (h : Move R rules job x w w') (hy : y ≠ x) : w'.row? y = w.row? y := by
  cases h with
  | image may => exact w.row?_image _ y
  | call may due => rfl
  | write write => exact write.find?_of_ne hy

/-- What a move does to any row. -/
theorem Move.changes {R : Runtime ρ ψ} {rules : Rules ψ} {job : Job} {w w' : World ρ}
    (h : Move R rules job y w w') (x : String) :
    RowChange job x w.last (w.row? x) (w'.row? x) := by
  cases h with
  | image may =>
    rw [w.row?_image]
    exact .same
  | call may due => exact .same
  | write write => exact write.changes x

end Sandcube
