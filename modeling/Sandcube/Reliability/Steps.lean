import Sandcube.Reliability.Moves

/-!
# The operations move as they may

`converge`, `request` and `reconcile` take no step that is not a `Move`, against every
runtime and at every crash point.  The assertions on the way (`Knows`) speak of the row of
the sandbox at hand and of the last answer only, so the image side, which touches neither,
cannot disturb them.
-/

open Relation

namespace Sandcube

open Prog

/-! ### The image side between the steps -/

namespace World

variable {ρ ψ : Type}

theorem interfere_eq (w : World ρ) (steps : List ImageStep) :
    (w.interfere steps).journal.sandboxes = w.journal.sandboxes ∧
    (w.interfere steps).journal.requests = w.journal.requests ∧
    (w.interfere steps).journal.hostCapacity = w.journal.hostCapacity ∧
    (w.interfere steps).runtime = w.runtime ∧ (w.interfere steps).sent = w.sent ∧
    (w.interfere steps).last = w.last := by
  induction steps generalizing w with
  | nil => exact ⟨rfl, rfl, rfl, rfl, rfl, rfl⟩
  | cons step steps ih =>
    obtain ⟨i₁, i₂, i₃⟩ := w.image_journal step
    obtain ⟨h₁, h₂, h₃, h₄, h₅, h₆⟩ := ih (w.image step)
    exact ⟨h₁.trans i₁, h₂.trans i₂, h₃.trans i₃, h₄, h₅, h₆⟩

@[simp] theorem row?_interfere (w : World ρ) (steps : List ImageStep) (x : String) :
    (w.interfere steps).row? x = w.row? x := by
  rw [row?, (w.interfere_eq steps).1, row?]

/-- What every step of the image side keeps. -/
theorem interfere_induction {P : World ρ → Prop} {may : ImageStep → Prop} {w : World ρ}
    {steps : List ImageStep} (himage : ∀ w step, may step → P w → P (w.image step))
    (hsteps : ∀ step ∈ steps, may step) (h : P w) : P (w.interfere steps) := by
  induction steps generalizing w with
  | nil => exact h
  | cons step steps ih =>
    obtain ⟨hstep, hrest⟩ := List.forall_mem_cons.mp hsteps
    exact ih hrest (himage w step hstep h)

@[simp] theorem last_interfere (w : World ρ) (steps : List ImageStep) :
    (w.interfere steps).last = w.last := (w.interfere_eq steps).2.2.2.2.2

end World

variable {ρ ψ : Type} [Inhabited ψ]
variable {R : Runtime ρ ψ} {rules : Rules ψ} {job : Job} {x : String}

theorem moves_interfere {w : World ρ} {steps : List ImageStep}
    (h : ∀ step ∈ steps, rules.image step) :
    ReflTransGen (Move R rules job x) w (w.interfere steps) :=
  World.interfere_induction (P := ReflTransGen (Move R rules job x) w)
    (fun _ _ hstep hmoves => hmoves.tail (.image hstep)) h .refl

/-! ### Assertions and the rules of the three primitives -/

/-- An assertion about the row of `x` and the last answer. -/
def Knows (x : String) (G : Option Row → Option (Call × Reply) → Prop) (w : World ρ) : Prop :=
  G (w.row? x) w.last

theorem permits_of_may {env : Env ψ}
    (h : rules.adversary.May (.go env) ∨ rules.adversary.May (.crashAfter env)) :
    rules.Permits env :=
  h.elim id And.right

namespace Reliability

variable {G H : Option Row → Option (Call × Reply) → Prop}
variable {E : Ex → World ρ → Prop} {action : Action} {last : Option (Call × Reply)}
  {again : Op ρ ψ Unit} {e : Ex} {codec : Codec} {cap : Capacity} {r : Request} {ids : List String}

theorem does_query {α : Type} {f : Journal → Except Ex α}
    {Q : α → Option Row → Option (Call × Reply) → Prop}
    (hok : ∀ j last a, G (j.sandboxes.find? x) last → f j = .ok a → Q a (j.sandboxes.find? x) last)
    (herr : ∀ w e, Knows x G w → f w.journal = .error e → E e w) :
    Does rules.adversary (Move R rules job x) (Knows x G) (query f : Op ρ ψ α)
      (fun a => Knows x (Q a)) E :=
  .read (fun w a hw h => hok w.journal w.last a hw h) herr

theorem does_transaction {f : Journal → Except Ex Journal} {E : Ex → World ρ → Prop}
    (hwrite : ∀ j j' last, G (j.sandboxes.find? x) last → f j = .ok j' →
      Write job x last j j' ∧ H (j'.sandboxes.find? x) last)
    (herr : ∀ w e, Knows x G w → f w.journal = .error e → E e w) :
    Does rules.adversary (Move R rules job x) (Knows x G) (transaction f)
      (fun _ => Knows x H) E := by
  -- The assertion is still true when the transaction begins.
  have hstart : ∀ (w : World ρ) steps, Knows x G w → Knows x G (w.interfere steps) := by
    intro w steps hw
    simpa [Knows] using hw
  refine .atomic (fun w env hw hmay => ?_) (fun w env a hw _ hok => ?_) fun w env e hw _ herr' => ?_
  · refine (moves_interfere (permits_of_may hmay).1).trans ?_
    cases hf : f (w.interfere env.images).journal with
    | error e => exact .refl
    | ok j => exact .single (.write (hwrite _ j _ (hstart w _ hw) hf).1)
  · cases hf : f (w.interfere env.images).journal with
    | error e => simp [hf] at hok
    | ok j => exact (hwrite _ j _ (hstart w _ hw) hf).2
  · cases hf : f (w.interfere env.images).journal with
    | error e' =>
      simp only [hf, Except.error.injEq] at herr' ⊢
      exact herr' ▸ herr _ _ (hstart w _ hw) hf
    | ok j => simp [hf] at herr'

theorem does_exec {f : Journal → Journal} {E : Ex → World ρ → Prop}
    (hwrite : ∀ j last, G (j.sandboxes.find? x) last →
      Write job x last j (f j) ∧ H ((f j).sandboxes.find? x) last) :
    Does rules.adversary (Move R rules job x) (Knows x G) (exec f) (fun _ => Knows x H) E :=
  does_transaction (fun j j' last hG hj => by cases hj; exact hwrite j last hG)
    fun _ _ _ h => nomatch h

/-- Counting tells nothing and forgets nothing. -/
theorem does_count (name : String) :
    Does rules.adversary (Move R rules job x) (Knows x G) (exec (Journal.count name))
      (fun _ => Knows x G) E :=
  does_exec fun _ _ hG => ⟨.count name, hG⟩

theorem does_call {c : Call} (hdue : ∀ row last, G row last → Due job x row last c) :
    Does rules.adversary (Move R rules job x) (Knows x G) (call R c)
      (fun body => Knows x fun row last => (∃ l, G row l) ∧ last = some (c, .ok body))
      (fun e => Knows x fun row last =>
        (∃ l, G row l) ∧ ∃ reply, last = some (c, reply) ∧ reply.toExcept = .error e) := by
  refine .atomic (fun w env hw hmay => ?_) (fun w env body hw _ hok => ?_) fun w env e hw _ herr => ?_
  · have hperm := permits_of_may hmay
    refine (moves_interfere hperm.1).trans (.single (.call hperm.2 (hdue _ _ ?_)))
    simpa [Knows] using hw
  · refine ⟨⟨w.last, by simpa [Knows] using hw⟩, ?_⟩
    simp only [World.called]
    rw [Reply.eq_ok_of_toExcept hok]
  · exact ⟨⟨w.last, by simpa [Knows] using hw⟩, _, rfl, herr⟩

/-! ### Assertions about the whole world

For assertions that the image side respects, a statement or a call is a single step. -/

section

variable {P Q : World ρ → Prop} {f : Journal → Journal} {c : Call} {K : Json → World ρ → Prop}
  {E : Ex → World ρ → Prop} (himage : ∀ w step, rules.image step → P w → P (w.image step))
include himage

/-- A statement sends nothing. -/
theorem exec_sends (hwrite : ∀ w, P w → Q (w.withJournal f)) :
    Does rules.adversary (fun w w' => w'.sent = w.sent) P (exec f) (fun _ => Q) E := by
  refine .atomic (fun w env _ _ => .single (w.interfere_eq env.images).2.2.2.2.1)
    (fun w env _ hw hmay _ => ?_) fun _ _ _ _ _ he => ?_
  · exact hwrite _ (World.interfere_induction himage hmay.1 hw)
  · cases he

theorem hoare_exec (hwrite : ∀ w, P w → Q (w.withJournal f)) :
    Does rules.adversary (fun _ _ => True) P (exec f) (fun _ => Q) E :=
  (exec_sends himage hwrite).mono fun _ _ _ => trivial

/-- A call sends its request. -/
theorem call_sends
    (hok : ∀ w f body, P w → rules.choice f → (R.serve f c w.runtime).1 = .ok body →
      K body (w.called R f c))
    (herr : ∀ w f e, P w → rules.choice f → (R.serve f c w.runtime).1.toExcept = .error e →
      E e (w.called R f c)) :
    Does rules.adversary (fun w w' => w'.sent = c :: w.sent) P (call R c) K E := by
  refine .atomic (fun w env _ _ => .single ?_) (fun w env body hw hmay hbody => ?_)
    fun w env e hw hmay he => ?_
  · simp only [World.called, (w.interfere_eq env.images).2.2.2.2.1]
  · exact hok _ _ _ (World.interfere_induction himage hmay.1 hw) hmay.2 (Reply.eq_ok_of_toExcept hbody)
  · exact herr _ _ _ (World.interfere_induction himage hmay.1 hw) hmay.2 he

theorem hoare_call
    (hok : ∀ w f body, P w → rules.choice f → (R.serve f c w.runtime).1 = .ok body →
      K body (w.called R f c))
    (herr : ∀ w f e, P w → rules.choice f → (R.serve f c w.runtime).1.toExcept = .error e →
      E e (w.called R f c)) :
    Does rules.adversary (fun _ _ => True) P (call R c) K E :=
  (call_sends himage hok herr).mono fun _ _ _ => trivial

end

/-! ### Rows that are known -/

section

variable {row : Row} {M : World ρ → World ρ → Prop} {P : World ρ → Prop} {E : Ex → World ρ → Prop}

/-- The query at the start of a turn. -/
theorem query_found (hP : ∀ w, P w → w.row? x = some row) :
    Does rules.adversary M P
      (query fun j =>
        match j.sandboxes.find? x with
        | some row => .ok row
        | none => .error .noResult)
      (fun r w => r = row ∧ P w) E := by
  refine .read (fun w r hw hr => ?_) fun w e hw he => ?_
  · simp only [show w.journal.sandboxes.find? x = some row from hP w hw] at hr
    exact ⟨(Except.ok.inj hr).symm, hw⟩
  · simp only [show w.journal.sandboxes.find? x = some row from hP w hw] at he
    cases he

theorem query_get (hP : ∀ w, P w → w.row? x = some row) :
    Does rules.adversary M P (query (Journal.get x)) (fun r w => r = row ∧ P w) E := by
  refine .read (fun w r hw hr => ?_) fun w e hw he => ?_
  · exact ⟨Option.some.inj ((Journal.get_eq_ok_iff.mp hr).symm.trans (hP w hw)), hw⟩
  · rw [Journal.get_eq_ok_iff.mpr (hP w hw)] at he
    cases he

end

/-! ### `converge` -/

/-- The exceptions `converge` raises: the sandbox does not exist, or what a call raised. -/
def Heard (e : Ex) : Prop :=
  e = .image 404 "SANDBOX_NOT_FOUND" "Sandbox does not exist" ∨
  ∃ reply : Reply, reply.toExcept = .error e

/-- The intent in the journal when an operation completes: a restart has become a start. -/
def resumed : Action → Action
  | .restart => .start
  | action => action

/-- What is known when the requests of an operation were answered. -/
def Performed (x : String) (action : Action) (row : Option Row) (last : Option (Call × Reply)) :
    Prop :=
  ∃ r body, row = some r ∧ r.intent = some (resumed action) ∧
    last = some (action.finalCall x, .ok body)

/-- What is known when a request of an operation failed with `e`. -/
def Failed (x : String) (action : Action) (e : Ex) (row : Option Row)
    (last : Option (Call × Reply)) : Prop :=
  ∃ r c reply, row = some r ∧ r.intent ≠ none ∧ last = some (c, reply) ∧
    reply.toExcept = .error e ∧ (action = .create → r.intent = some .create ∧ c.Launches x)

/-- A request of an operation with intent `i` in the journal. -/
theorem does_call_for {c : Call} (i : Action) (config : Config)
    (hG : ∀ row l, G row l → ∃ r, row = some r ∧ r.config = config ∧ r.intent = some i)
    (hdue : ∀ row last, G row last → Due job x row last c)
    (hlaunch : action = .create → i = .create ∧ c.Launches x) :
    Does rules.adversary (Move R rules job x) (Knows x G) (call R c)
      (fun body => Knows x fun row last => ∃ r, row = some r ∧ r.config = config ∧
        r.intent = some i ∧ last = some (c, .ok body))
      (fun e => Knows x (Failed x action e)) := by
  refine (does_call hdue).conseq (fun _ h => h) ?_ ?_
  · rintro body w ⟨⟨l, hl⟩, hlast⟩
    obtain ⟨r, hr, hc, hi⟩ := hG _ l hl
    exact ⟨r, hr, hc, hi, hlast⟩
  · rintro e w ⟨⟨l, hl⟩, reply, hlast, he⟩
    obtain ⟨r, hr, hc, hi⟩ := hG _ l hl
    refine ⟨r, c, reply, hr, by simp [hi], hlast, he, fun hcreate => ?_⟩
    exact ⟨by rw [hi, (hlaunch hcreate).1], (hlaunch hcreate).2⟩

/-- The answer to the last request of an operation. -/
theorem performed_of_answer (action : Action) {config : Config} {body : Json} {w : World ρ}
    (h : Knows x (fun row last => ∃ r, row = some r ∧ r.config = config ∧
      r.intent = some (resumed action) ∧ last = some (action.finalCall x, .ok body)) w) :
    Knows x (Performed x action) w :=
  let ⟨r, hr, _, hi, hlast⟩ := h
  ⟨r, body, hr, hi, hlast⟩

theorem does_perform (config : Config) (action : Action) :
    Does rules.adversary (Move R rules job x)
      (Knows x fun row _ => ∃ r, row = some r ∧ r.config = config ∧ r.intent = some action)
      (perform R x config action)
      (fun _ => Knows x (Performed x action)) (fun e => Knows x (Failed x action e)) := by
  cases action with
  | create =>
    refine .bind (does_call_for .create config (fun _ _ h => h) ?_ fun _ => ⟨rfl, rfl⟩) fun body =>
      .bind (does_call_for .create config ?_ ?_ fun _ => ⟨rfl, rfl⟩) fun _ =>
        .pure fun _ => performed_of_answer .create
    · rintro row last ⟨r, rfl, rfl, hi⟩
      exact ⟨r, rfl, hi, rfl⟩
    · rintro row last ⟨r, hr, hc, hi, -⟩
      exact ⟨r, hr, hc, hi⟩
    · rintro row last ⟨r, rfl, rfl, hi, rfl⟩
      exact ⟨rfl, r, rfl, .inr ⟨hi, _, rfl⟩⟩
  | start =>
    refine .bind (does_call_for .start config (fun _ _ h => h) ?_ nofun) fun _ =>
      .pure fun _ => performed_of_answer .start
    rintro row last ⟨r, rfl, -, hi⟩
    exact ⟨rfl, r, rfl, .inl hi⟩
  | restart =>
    refine .bind (does_call_for .restart config (fun _ _ h => h) ?_ nofun) fun body =>
      .bind (does_exec (H := fun row _ => ∃ r, row = some r ∧ r.config = config ∧
        r.intent = some .start) ?_) fun _ =>
      .bind (does_call_for .start config (fun _ _ h => h) ?_ nofun) fun _ =>
      .pure fun _ => performed_of_answer .restart
    · rintro row last ⟨r, rfl, -, hi⟩
      exact ⟨rfl, r, rfl, .inr hi⟩
    · rintro j last ⟨r, hr, hc, hi, hlast⟩
      rw [Journal.passStop, Journal.setRow_eq_of_find? hr]
      exact ⟨.row hr (.passStop hi hlast), _, Journal.find?_setRow_self hr _, hc, rfl⟩
    · rintro row last ⟨r, rfl, -, hi⟩
      exact ⟨rfl, r, rfl, .inl hi⟩
  | stop =>
    refine .bind (does_call_for .stop config (fun _ _ h => h) ?_ nofun) fun _ =>
      .pure fun _ => performed_of_answer .stop
    rintro row last ⟨r, rfl, -, hi⟩
    exact ⟨rfl, r, rfl, .inl hi⟩
  | delete =>
    refine .bind (does_call_for .delete config (fun _ _ h => h) ?_ nofun) fun _ =>
      .pure fun _ => performed_of_answer .delete
    rintro row last ⟨r, rfl, -, hi⟩
    exact ⟨rfl, .inl ⟨r, rfl, hi⟩⟩

/-- The sandbox exists and nothing is pending. -/
def Quiet (row : Option Row) (_ : Option (Call × Reply)) : Prop :=
  ∃ r, row = some r ∧ r.intent = none

/-- What is known when an operation is complete. -/
def Finished (x : String) (action : Action) (row : Option Row) (last : Option (Call × Reply)) :
    Prop :=
  ∃ (r : Row) (body : Json), row = some (r.finished action.target) ∧
    last = some (action.finalCall x, .ok body)

theorem Finished.quiet {row : Option Row} (h : Finished x action row last) : Quiet row last :=
  let ⟨r, _, hr, _⟩ := h
  ⟨r.finished action.target, hr, rfl⟩

theorem does_complete (action : Action) :
    Does rules.adversary (Move R rules job x) (Knows x (Performed x action))
      (transaction (Journal.complete x action.target)) (fun _ => Knows x (Finished x action)) E := by
  refine does_transaction ?_ ?_
  · rintro j j' last ⟨r, body, hr, hi, hlast⟩ hj
    have hdone := hj
    rw [Journal.complete_of_find? hr, Except.ok.injEq] at hj
    subst hj
    refine ⟨?_, r, body, by simp [hr], hlast⟩
    have htarget : (resumed action).target = action.target := by cases action <;> rfl
    have hfinal : (resumed action).finalCall x = action.finalCall x := by cases action <;> rfl
    refine .complete hr hi (by cases action <;> simp [resumed]) (hfinal ▸ hlast) ?_
    rw [htarget]
    exact hdone
  · rintro w e ⟨r, body, hr, -⟩ herr
    rw [Journal.complete_of_find? hr] at herr
    cases herr

/-- The protected part of `converge`. -/
theorem does_work {row : Row} (hi : row.intent = some action) :
    Does rules.adversary (Move R rules job x) (Knows x fun r _ => r = some row)
      (do perform R x row.config action; transaction (Journal.complete x action.target))
      (fun _ => Knows x (Finished x action)) (fun e => Knows x (Failed x action e)) :=
  .bind ((does_perform row.config action).pre fun _ hw => ⟨row, hw, rfl, hi⟩) fun _ => does_complete action

theorem does_fail {again : Op ρ ψ Unit} {action : Action} {e : Ex}
    (hagain : Does rules.adversary (Move R rules job x) (fun _ => True) again
      (fun _ _ => True) (fun _ _ => True)) :
    Does rules.adversary (Move R rules job x) (Knows x (Failed x action e))
      (fail again x action e) (fun _ _ => False) (fun e' _ => Heard e') := by
  refine .assuming (C := Heard e) (fun w ⟨_, _, reply, _, _, _, he, _⟩ => .inr ⟨reply, he⟩)
    fun hheard => ?_
  have hignored : Does rules.adversary (Move R rules job x) (fun _ => True)
      (rescue again fun _ => pure ()) (fun _ _ => True) (fun e' _ => Heard e') :=
    .rescue hagain fun _ => .pure fun _ _ => trivial
  refine .bind (does_exec (H := Failed x action e) ?_) fun _ => .bind (does_count _) fun _ =>
    .bind (.when (fun _ => does_count _) fun _ _ h => h) fun _ => ?_
  · rintro j last ⟨r, c, reply, hr, hi, hlast, he, hcreate⟩
    rw [Journal.noteError, Journal.setRow_eq_of_find? hr]
    exact ⟨.row hr (.noteError _ hi), _, c, reply, Journal.find?_setRow_self hr _, hi, hlast, he,
      hcreate⟩
  · unfold recover
    split
    · refine .bind (does_exec (H := fun _ _ => True) ?_) fun _ =>
        .bind (hignored.pre fun _ _ => trivial) fun _ =>
        .raise fun _ _ => hheard
      rintro j last ⟨r, c, reply, hr, hi, hlast, he, hcreate⟩
      obtain ⟨hintent, hlaunch⟩ := hcreate rfl
      exact ⟨.compensate hr hintent hlaunch (by rw [hlast, Reply.eq_http_of_toExcept he]), trivial⟩
    · exact .raise fun _ _ => hheard

theorem does_attempt {again : Op ρ ψ Unit}
    (hagain : Does rules.adversary (Move R rules job x) (fun _ => True) again
      (fun _ _ => True) (fun _ _ => True)) :
    Does rules.adversary (Move R rules job x) (Knows x fun _ _ => True) (attempt R again x)
      (fun _ => Knows x Quiet) (fun e _ => Heard e) := by
  refine .bind (does_query (Q := fun r row _ => row = some r)
    (fun j last r _ hr => Journal.get_eq_ok_iff.mp hr) ?_) fun row => ?_
  · intro w e _ he
    exact .inl (Journal.eq_of_get_eq_error he)
  · cases hi : row.intent with
    | none => exact .pure fun w hw => ⟨row, hw, hi⟩
    | some action =>
      exact .rescue ((does_work hi).post fun _ _ h => h.quiet)
        fun e => (does_fail hagain).post fun _ _ h => h.elim

/-- **`converge` moves on behalf of its sandbox only.**  When it returns nothing is pending. -/
theorem does_converge :
    Does rules.adversary (Move R rules job x) (Knows x fun _ _ => True) (converge R x)
      (fun _ => Knows x Quiet) (fun e _ => Heard e) :=
  does_attempt <| (does_attempt (.pure fun _ _ => trivial)).conseq (fun _ _ => trivial)
    (fun _ _ _ => trivial) fun _ _ _ => trivial

/-! ### `request` -/

/-- `request` by the checks it makes first. -/
theorem request_eq (codec : Codec) (R : Runtime ρ ψ) (cap : Capacity) (r : Request) (w : World ρ)
    (fates : List (Fate (Env ψ))) :
    request codec R cap r w fates =
      match r.check with
      | .error e => ⟨.raised e, w, fates⟩
      | .ok action =>
        match previous r.key w.journal with
        | some (key, rec) => replay codec R key (r.fingerprint codec) rec w fates
        | none => process codec R cap r action w fates := by
  unfold request
  cases r.check with
  | error e => rfl
  | ok action =>
    -- Neither the checks nor the lookup is a step.
    change (match previous r.key w.journal with
      | some (key, rec) => replay codec R key (r.fingerprint codec) rec
      | none => process codec R cap r action) w fates = _
    cases previous r.key w.journal <;> rfl

theorem parse_ne_noResult (codec : Codec) (saved : Saved) :
    saved.parse codec ≠ .error .noResult := by
  cases saved with
  | response r => nofun
  | body text =>
    simp only [Saved.parse, Codec.parse]
    cases codec.decode text <;> simp [Except.mapError, bind, Except.bind, pure, Except.pure]

theorem Heard.ne_noResult (h : Heard e) : e ≠ .noResult := by
  rcases h with rfl | ⟨reply, h⟩
  · nofun
  · rintro rfl
    cases reply <;> simp [Reply.toExcept] at h

/-- A retry moves on behalf of the recorded sandbox only.  It can find a NULL response only
with nothing pending. -/
theorem does_replay (codec : Codec) (key fingerprint : String) (rec : Record) :
    Does rules.adversary (Move R rules job rec.sandboxId) (Knows rec.sandboxId fun _ _ => True)
      (replay codec R key fingerprint rec) (fun _ _ => True)
      (fun e w => e = .noResult → Knows rec.sandboxId Quiet w ∧
        (w.journal.requests.find? key).bind Record.response = none) := by
  unfold replay
  split_ifs with hconflict
  · exact .raise fun _ _ he => by cases he
  cases rec.response with
  | some saved =>
    refine .ofExcept (fun _ _ _ _ => trivial) fun e w he _ hno => ?_
    subst hno
    unfold outcome at he
    split_ifs at he
    · cases he
    · exact absurd he (parse_ne_noResult codec saved)
  | none =>
    refine .bind (does_converge.relax
      fun e _ he hno => absurd hno he.ne_noResult) fun _ => .bind (K := fun _ _ => True)
      (.read (fun _ _ _ _ => trivial) fun w e hw he hno => ⟨hw, ?_⟩) fun saved =>
      .ofExcept (fun _ _ _ _ => trivial)
        fun e w he _ hno => absurd (hno ▸ he) (parse_ne_noResult codec saved)
    cases hresp : (w.journal.requests.find? key).bind Record.response with
    | none => rfl
    | some saved => simp [hresp] at he

theorem does_accounted {P : World ρ → Prop} (container : Json) :
    Does rules.adversary (Move R rules job x) P (accounted container) (fun _ => P)
      (fun _ => P) :=
  .bind (.ofExcept (fun _ _ _ h => h) fun _ _ _ h => h) fun _ =>
    .read (fun _ _ h _ => h) fun _ _ h _ => h

theorem does_checkInventory :
    Does rules.adversary (Move R rules job x) (Knows x fun _ _ => True) (checkInventory R)
      (fun _ => Knows x fun _ last => ∃ body, last = some (.list, .ok body)) (fun _ _ => True) := by
  refine .bind ((does_call (c := .list) fun _ _ _ => trivial).relax
    fun _ _ _ => trivial) fun body => .bind (.ofExcept (fun _ w _ h => h)
    fun _ _ _ _ => trivial) fun containers => ?_
  refine ((Does.forEach (I := fun _ => Knows x fun _ last => last = some (.list, .ok body))
    fun c rest _ => does_accounted c).conseq (fun _ h => h.2) (fun _ _ h => ⟨body, h⟩)
    fun _ _ _ => trivial)

/-- Everything up to the commit: the inventory is read and the intent is written.  `L` is any
assertion about the last answer that the inventory satisfies. -/
theorem does_accept {L : Option (Call × Reply) → Prop} (hL : ∀ body, L (some (.list, .ok body)))
    (hx : ∀ id, r.sandboxId action = .ok id → id = x) :
    Does rules.adversary (Move R rules (r.job codec cap) x) (Knows x fun _ last => L last)
      (accept codec R cap r action)
      (fun id w => id = x ∧ Knows x (fun row last => L last ∧
        ∃ r, row = some r ∧ r.intent = some action) w) (fun _ _ => True) := by
  refine .bind (K := fun _ => Knows x fun _ last => L last ∧ (action.Starts →
      ∃ body, last = some (.list, .ok body))) (.when (fun hs => ?_)
      fun hs _ hl => ⟨hl, fun h => absurd h hs⟩)
    fun _ => .bind (.ofExcept (Q := fun id w => r.sandboxId action = .ok id ∧ Knows x _ w)
      (fun _ _ hid h => ⟨hid, h⟩) fun _ _ _ _ => trivial) fun id => ?_
  · refine does_checkInventory.conseq (fun _ _ => trivial) ?_ fun _ _ h => h
    rintro _ w ⟨body, hlast⟩
    exact ⟨by rw [hlast]; exact hL body, fun _ => ⟨body, hlast⟩⟩
  · refine .assuming (fun w h => h.1) fun hid => ?_
    obtain rfl := hx id hid
    refine .bind ((does_transaction ?_ fun _ _ _ _ => trivial).pre fun _ h => h.2) fun _ => .pure
      fun _ h => ⟨rfl, h⟩
    rintro j j' last ⟨hl, hlisted⟩ hj
    have haccepted := Journal.accepted_of_accept hj
    refine ⟨.accept rfl (fun hcreate => ?_) hlisted haccepted, hl, haccepted.pending⟩
    subst hcreate
    exact (Except.ok.inj hid).symm

/-- **A request without a record** moves on behalf of its sandbox only. -/
theorem does_process (hx : ∀ id, r.sandboxId action = .ok id → id = x) :
    Does rules.adversary (Move R rules (r.job codec cap) x) (Knows x fun _ _ => True)
      (process codec R cap r action) (fun _ _ => True) (fun _ _ => True) := by
  refine .bind (does_accept (L := fun _ => True) (fun _ => trivial) hx) fun id =>
    .bind (K := fun _ _ => True) ?_ fun _ =>
    .bind (K := fun _ _ => True) (.read (fun _ _ _ _ => trivial) fun _ _ _ _ => trivial)
      fun _ => .pure fun _ _ => trivial
  refine .assuming (fun w h => h.1) fun hid => ?_
  subst hid
  exact does_converge.conseq (fun _ _ => trivial) (fun _ _ _ => trivial) fun _ _ _ => trivial

/-- The job a request does. -/
def requestJob (codec : Codec) (cap : Capacity) (r : Request) (w : World ρ) : Job :=
  if (previous r.key w.journal).isSome then .retry else r.job codec cap

/-- **A request** moves on behalf of one sandbox only. -/
theorem request_moves (codec : Codec) (R : Runtime ρ ψ) (cap : Capacity) (r : Request)
    (w : World ρ) {fates : List (Fate (Env ψ))} (hfates : rules.adversary.Allows fates) :
    ∃ x, ReflTransGen (Move R rules (requestJob codec cap r w) x) w
      (request codec R cap r w fates).state := by
  rw [request_eq]
  cases r.check with
  | error e => exact ⟨"", .refl⟩
  | ok action =>
    unfold requestJob
    cases previous r.key w.journal with
    | some found => exact ⟨_, (does_replay codec _ _ _).steps hfates trivial⟩
    | none =>
      cases hid : r.sandboxId action with
      | ok x =>
        exact ⟨x, (does_process fun id h => (Except.ok.inj (hid.symm.trans h)).symm).steps
          hfates trivial⟩
      | error e =>
        exact ⟨"", (does_process fun id h => nomatch hid.symm.trans h).steps hfates trivial⟩

/-! ### `reconcile` -/

/-- The columns written when the runtime reports the status `text`. -/
def reported (r : Row) (text : String) : Row :=
  if text = "stopped" then
    { r with
      status := .ofText text
      errorMessage := none
      reservedCpu := 0
      reservedMemoryMb := 0 }
  else { r with status := .ofText text, errorMessage := none }

/-- What is known when a status was reported and written. -/
def Observed (x : String) (row : Option Row) (last : Option (Call × Reply)) : Prop :=
  ∃ r actual text, r.Idle ∧ actual.word "status" = .ok text ∧
    last = some (.inspect x, .ok actual) ∧ row = some (reported r text)

/-- What is known when no status was reported: the call failed, or its answer has no status. -/
def Unobserved (x : String) (e : Ex) (row : Option Row) (last : Option (Call × Reply)) : Prop :=
  ∃ r reply, row = some r ∧ r.Idle ∧ last = some (.inspect x, reply) ∧
    (reply.toExcept = .error e ∨ ∃ actual, reply = .ok actual ∧ actual.word "status" = .error e)

theorem does_observe {clock : String → Time} :
    Does rules.adversary (Move R rules (.sweep clock) x)
      (Knows x fun row _ => ∃ r, row = some r ∧ r.Idle) (observe R x)
      (fun _ => Knows x (Observed x)) (fun e => Knows x (Unobserved x e)) := by
  refine .bind ((does_call (c := .inspect x) fun _ _ h => ⟨rfl, h⟩).conseq (fun _ h => h)
    (fun _ _ h => h) ?_) fun actual => .bind (.ofExcept (Q := fun text => Knows x fun row last =>
      ∃ r, row = some r ∧ r.Idle ∧ actual.word "status" = .ok text ∧
        last = some (.inspect x, .ok actual)) ?_ ?_) fun text => .bind (does_exec
      (H := fun row last => ∃ r : Row,
        row = some { r with status := .ofText text, errorMessage := none } ∧ r.Idle ∧
          actual.word "status" = .ok text ∧ last = some (.inspect x, .ok actual)) ?_) fun _ =>
    .when (fun hstopped => does_exec ?_) fun hstopped => ?_
  · rintro e w ⟨⟨l, r, hr, hidle⟩, reply, hlast, he⟩
    exact ⟨r, reply, hr, hidle, hlast, .inl he⟩
  · rintro text w htext ⟨⟨l, r, hr, hidle⟩, hlast⟩
    exact ⟨r, hr, hidle, htext, hlast⟩
  · rintro e w he ⟨⟨l, r, hr, hidle⟩, hlast⟩
    exact ⟨r, _, hr, hidle, hlast, .inr ⟨actual, rfl, he⟩⟩
  · rintro j last ⟨r, hr, hidle, htext, hlast⟩
    rw [Journal.refresh, Journal.setRow_eq_of_find? hr]
    exact ⟨.row hr (.refresh rfl hidle hlast htext), r, Journal.find?_setRow_self hr _, hidle,
      htext, hlast⟩
  · rintro j last ⟨r, hr, hidle, htext, hlast⟩
    subst hstopped
    rw [Journal.release, Journal.setRow_eq_of_find? hr]
    refine ⟨.row hr (.release rfl hidle.1 rfl hlast htext), r, actual, _, hidle, htext, hlast, ?_⟩
    rw [Journal.find?_setRow_self hr]
    rfl
  · rintro w ⟨r, hr, hidle, htext, hlast⟩
    exact ⟨r, actual, text, hidle, htext, hlast, hr.trans (by simp [reported, hstopped])⟩

/-- A 404 is the runtime's own. -/
theorem Unobserved.missing {row : Option Row} {body : String}
    (h : Unobserved x (.runtime 404 body) row last) :
    ∃ r, row = some r ∧ r.Idle ∧ last = some (.inspect x, .http 404 body) := by
  obtain ⟨r, reply, hr, hidle, hlast, he | ⟨actual, -, he⟩⟩ := h
  · exact ⟨r, hr, hidle, by rw [hlast, Reply.eq_http_of_toExcept he]⟩
  · exact absurd he (Json.word_ne_runtime _ _ _ _)

theorem does_refresh {clock : String → Time} :
    Does rules.adversary (Move R rules (.sweep clock) x)
      (Knows x fun row _ => ∃ r, row = some r ∧ r.Idle) (refresh R x) (fun _ _ => True)
      (fun _ _ => True) := by
  refine .rescue (does_observe.post fun _ _ _ => trivial)
    fun e => ?_
  split
  · next body =>
    refine (does_exec (G := fun row last => ∃ r, row = some r ∧ r.Idle ∧
      last = some (.inspect x, .http 404 body)) (H := fun _ _ => True) ?_).pre fun _ h => h.missing
    rintro j last ⟨r, hr, hidle, hlast⟩
    rw [Journal.markMissing, Journal.setRow_eq_of_find? hr]
    exact ⟨.row hr (.markMissing rfl hidle hlast), trivial⟩
  · exact .raise fun _ _ => trivial

/-- What the turn of a sandbox does after the check of its expiration. -/
theorem does_settle (clock : String → Time) :
    Does rules.adversary (Move R rules (.sweep clock) x) (Knows x fun _ _ => True)
      (do
        converge R x
        let row ← query (Journal.get x)
        when (row.status ≠ .deleted) (refresh R x))
      (fun _ _ => True) (fun _ _ => True) := by
  refine .bind (does_converge.relax fun _ _ _ => trivial) fun _ =>
    .bind (does_query (Q := fun r row _ => row = some r ∧ r.intent = none) ?_
      fun _ _ _ _ => trivial) fun row' => .when (fun hlive => does_refresh.conseq ?_
        (fun _ _ h => h) fun _ _ _ => trivial) fun _ _ _ => trivial
  · rintro j last r ⟨r', hr', hi⟩ hr
    have hr := Journal.get_eq_ok_iff.mp hr
    obtain rfl := Option.some.inj (hr'.symm.trans hr)
    exact ⟨hr, hi⟩
  · exact fun w h => ⟨row', h.1, h.2, hlive⟩

/-- The turn of a sandbox moves on its behalf only, and raises nothing. -/
theorem does_visit {sweep : Sweep} :
    Does rules.adversary (Move R rules (.sweep sweep.clock) x) (Knows x fun _ _ => True)
      (visit R sweep x) (fun _ _ => True) (fun _ _ => False) := by
  refine .rescue (E := fun _ => Knows x fun _ _ => True) ?_ fun _ => (does_count _).post
    fun _ _ _ => trivial
  refine .bind (does_query (Q := fun r row _ => row = some r) ?_ fun _ _ _ _ => trivial)
    fun row => .bind (.when (fun hexp => does_exec (H := fun _ _ => True) ?_)
      fun _ _ _ => trivial) fun _ => does_settle _
  · intro j last r _ hr
    cases hf : j.sandboxes.find? x <;> simp_all
  · rintro j last hr
    rw [Journal.doom, Journal.setRow_eq_of_find? hr]
    exact ⟨.row hr (.expire rfl hexp), trivial⟩

/-- The sandboxes outside `ids` have no row, or are deleted with nothing pending. -/
def Rest (ids : List String) (w : World ρ) : Prop := ∀ y, y ∉ ids → Gone (w.row? y)

theorem rest_of_live {w : World ρ} (h : ids.Perm w.journal.live) : Rest ids w := by
  intro y hy r hr
  have hdead : y ∉ w.journal.live := fun hm => hy (h.mem_iff.mpr hm)
  rw [Journal.live, Table.mem_keysWhere_iff] at hdead
  push Not at hdead
  simpa using hdead r hr

/-- The turn of a sandbox of the list leaves the others alone. -/
theorem visit_rest {sweep : Sweep} (hx : x ∈ ids) :
    Does rules.adversary (Move R rules (.sweep sweep.clock) x) (Rest ids)
      (visit R sweep x) (fun _ => Rest ids) (fun _ _ => False) := by
  refine (does_visit.keep (I := Rest ids) fun w w' h hmove z hz => ?_).conseq
    (fun w h => ⟨trivial, h⟩) (fun _ _ h => h.2) fun _ _ h => h.1.elim
  have hzx : z ≠ x := fun h => hz (h ▸ hx)
  rw [hmove.row?_of_ne hzx]
  exact h z hz

/-- The turn of a container moves on behalf of that container only, and of none in the list. -/
theorem does_visitContainer (sweep : Sweep) (ids : List String) (container : Json) :
    Does rules.adversary (fun w w' => ∃ y, y ∉ ids ∧ Move R rules (.sweep sweep.clock) y w w')
      (Rest ids) (visitContainer R ids container) (fun _ => Rest ids) (fun _ => Rest ids) := by
  refine .bind (.ofExcept (Q := fun _ => Rest ids) (fun _ _ _ h => h) fun _ _ _ h => h)
    fun y => ?_
  split_ifs with hy
  · exact .pure fun _ h => h
  refine .bind (.read (Q := fun _ => Rest ids) (fun _ _ h _ => h) fun _ _ h _ => h)
    fun known => ?_
  split_ifs with hknown
  · exact .pure fun _ h => h
  -- The moves of `y` keep the other rows, and the assertions keep the row of `y`.
  have hgone : Does rules.adversary (Move R rules (.sweep sweep.clock) y)
      (Knows y fun row _ => Gone row)
      (rescue (do let _ ← call R (.delete y); exec (Journal.dropImage y)
                  exec (Journal.count "orphans_cleaned"))
        fun _ => exec (Journal.count "cleanup_failures"))
      (fun _ => Knows y fun row _ => Gone row) (fun _ _ => False) := by
    refine .rescue (E := fun _ => Knows y fun row _ => Gone row) (.bind ((does_call ?_).relax
      fun _ _ h => h.1.elim fun _ h => h) fun body =>
      .bind (does_exec (H := fun row _ => Gone row) ?_) fun _ => does_count _) fun _ => does_count _
    · exact fun row last h => ⟨rfl, .inr ⟨_, rfl, h⟩⟩
    · rintro j last ⟨⟨_, h⟩, hlast⟩
      exact ⟨.dropImage rfl h hlast, h⟩
  have hothers := hgone.keep (I := fun w => ∀ z, z ∉ ids → z ≠ y → Gone (w.row? z))
    fun w w' h hmove z hz hzy => by rw [hmove.row?_of_ne hzy]; exact h z hz hzy
  refine (hothers.mono fun w w' h => ⟨y, hy, h⟩).conseq (fun w h => ⟨h y hy, fun z hz _ => h z hz⟩)
    (fun _ w h z hz => ?_) fun _ _ h => h.1.elim
  by_cases hzy : z = y
  · exact hzy ▸ h.1
  · exact h.2 z hz hzy

/-- A call that names no sandbox tells nothing about the rows. -/
theorem does_call_rows {sweep : Sweep} {c : Call} {P : World ρ → Prop}
    (hc : ∀ row last, Due (.sweep sweep.clock) "" row last c)
    (hP : ∀ w w', w'.journal.sandboxes = w.journal.sandboxes → P w → P w') :
    Does rules.adversary (fun w w' => ∃ y, Move R rules (.sweep sweep.clock) y w w') P (call R c)
      (fun _ => P) (fun _ => P) := by
  have hmoves : Does rules.adversary (Move R rules (.sweep sweep.clock) "") (Knows "" fun _ _ => True)
      (call R c) _ _ := does_call fun row last _ => hc row last
  refine ((hmoves.mono fun w w' h => ⟨"", h⟩).and (hoare_call (fun w step _ h => ?_)
    (fun w _ _ h _ _ => hP w _ rfl h) fun w _ _ h _ _ => hP w _ rfl h)).conseq
    (fun _ h => ⟨trivial, h⟩) (fun _ _ h => h.2) fun _ _ h => h.2
  exact hP _ _ (w.image_journal step).1 h

/-- **A sweep** moves on behalf of one sandbox at a time, and raises nothing.  It leaves deleted
sandboxes alone. -/
theorem does_reconcile (sweep : Sweep) (D : String → Prop) :
    Does rules.adversary (fun w w' => ∃ y, Move R rules (.sweep sweep.clock) y w w')
      (fun w => ∀ x, D x → Gone (w.row? x)) (reconcile R sweep)
      (fun _ w => ∀ x, D x → Gone (w.row? x)) (fun _ _ => False) := by
  have hrows : ∀ w w' : World ρ, w'.journal.sandboxes = w.journal.sandboxes →
      (∀ x, D x → Gone (w.row? x)) → ∀ x, D x → Gone (w'.row? x) := by
    intro w w' heq h x hx
    rw [World.row?, heq]
    exact h x hx
  refine .rescue (E := fun _ w => ∀ x, D x → Gone (w.row? x)) ?_ fun _ => .pure fun _ h => h
  refine .bind (does_call_rows (fun _ _ => trivial) hrows) fun answer =>
    .bind (.ofExcept (fun _ _ _ h => h) fun _ _ _ h => h) fun inventory =>
    .bind (.read (Q := fun ids w => (∀ x, D x → x ∉ ids) ∧ Rest ids w) ?_ fun _ _ h _ => h) fun ids =>
    .assuming (fun _ h => h.1) fun hD => ?_
  · rintro w ids hgone hids
    obtain rfl := Except.ok.inj hids
    refine ⟨fun x hx hmem => ?_, rest_of_live (sweep.perm _)⟩
    obtain ⟨row, hrow, hlive⟩ := (Table.mem_keysWhere_iff ..).mp ((sweep.perm _).mem_iff.mp hmem)
    obtain ⟨hs, hi⟩ := hgone x hx row hrow
    simp [hs, hi] at hlive
  · have hrest : ∀ w : World ρ, Rest ids w → ∀ x, D x → Gone (w.row? x) := fun w h x hx =>
      h x (hD x hx)
    refine .bind ((Does.forEach (I := fun _ => Rest ids) ?_).pre fun _ h => h.2) fun _ =>
      .bind ((Does.forEach (I := fun _ => Rest ids) ?_).post fun _ w h => hrest w h) fun _ =>
      .bind (does_call_rows (fun _ _ => trivial) hrows) fun _ => ?_
    · intro y rest hsuffix
      have hy : y ∈ ids := hsuffix.subset (List.mem_cons_self ..)
      exact ((visit_rest hy).mono fun w w' h => ⟨y, h⟩).relax fun _ _ h => h.elim
    · intro container rest _
      exact ((does_visitContainer sweep ids container).mono fun w w' h => h.imp fun y hy => hy.2).relax
        fun _ w h => hrest w h
    · have hcount : Does rules.adversary (Move R rules (.sweep sweep.clock) "")
          (Knows "" fun _ _ => True) (exec (Journal.count "reconcile_completed")) _
          (fun _ _ => False) := does_count _
      refine ((hcount.mono fun w w' h => ⟨"", h⟩).and
        (hoare_exec (E := fun _ _ => True) (fun w step _ h => ?_)
        fun w h => hrows w _ rfl h)).conseq (fun _ h => ⟨trivial, h⟩) (fun _ _ h => h.2)
        fun _ _ h => h.1.elim
      exact hrows _ _ (w.image_journal step).1 h

end Reliability

end Sandcube
