import Sandcube.Host.Goal

/-!
# Missing containers

What the reconciler makes of a sandbox whose container vanished from the runtime behind its back.

An idle sandbox is inspected, and the 404 of the inspection marks it as `error`.  A sandbox with a
start, stop or restart pending never gets that far: its request is refused with a 404 of its own,
which `converge` records and raises again.  The operation stays pending, in this sweep and in every
later one (`Barred`).
-/

open Relation

namespace Sandcube

variable {clock : String → Time} {x : String} {row : Row} {c : Call} {f : Fault} {j : Journal}
  {rules : Rules Fault}

open Prog Reliability

/-- The job takes up pending work, and does not expire a sandbox with the given expiration. -/
structure Job.Spares (job : Job) (x : String) (expiresAt : Option Time) : Prop where
  recovers : job.Recovers
  alive : ∀ clock t, job = .sweep clock → expiresAt = some t → ¬ t ≤ clock x

theorem Job.spares_retry (x : String) (expiresAt : Option Time) : Job.retry.Spares x expiresAt :=
  ⟨trivial, fun _ _ h => nomatch h⟩

theorem Job.spares_sweep (h : ¬ row.Expired (clock x)) : (Job.sweep clock).Spares x row.expiresAt :=
  ⟨trivial, fun _ t hc ht hle => h ⟨t, ht, by cases hc; exact hle⟩⟩

theorem Job.Spares.not_expired {job : Job} (h : job.Spares x row.expiresAt)
    (hc : job = .sweep clock) :
    ¬ row.Expired (clock x) := fun ⟨t, ht, hle⟩ => h.alive clock t hc ht hle

/-! ### A pending operation without a container -/

/-- The operation `action` is pending for `x`, its container is missing, and no answer says
otherwise. -/
structure Barred (x : String) (action : Action) (expiresAt : Option Time) (w : World Containers) :
    Prop where
  pending : ∃ row, w.row? x = some row ∧ row.intent = some action ∧ row.expiresAt = expiresAt
  missing : w.runtime.find? x = none
  refused : ∀ body, w.last ≠ some (action.finalCall x, .ok body) ∧ w.last ≠ some (.stop x, .ok body)

namespace Barred

variable {x y : String} {action : Action} {expiresAt : Option Time} {w w' : World Containers}
  {job : Job}

/-- The intent of the row tells which requests are due for `x`. -/
theorem due_intent (h : Barred x action expiresAt w) (due : Due job y (w.row? y) w.last c)
    (hc : c.Launches x) : action = .create ∨ action = .start := by
  obtain ⟨row, hrow, hi, -⟩ := h.pending
  cases c with
  | create spec =>
    obtain ⟨r, hr, hintent, rfl⟩ := due
    cases hc
    obtain rfl := Option.some.inj (hr.symm.trans hrow)
    exact .inl (Option.some.inj (hi.symm.trans hintent))
  | start id =>
    obtain ⟨rfl, r, hr, hintent⟩ := due
    cases hc
    obtain rfl := Option.some.inj (hr.symm.trans hrow)
    rcases hintent with hintent | ⟨hintent, -⟩
    · exact .inr (Option.some.inj (hi.symm.trans hintent))
    · exact .inl (Option.some.inj (hi.symm.trans hintent))
  | list | stop | delete | inspect | reconcile => exact hc.elim

/-- A request finds no container and makes none. -/
theorem call (h : Barred x action expiresAt w) (hcreate : action ≠ .create)
    (hdelete : action ≠ .delete) (due : Due job y (w.row? y) w.last c) :
    Barred x action expiresAt (w.called Containers.runtime f c) where
  pending := h.pending
  missing := by
    have hexit : (w.runtime.find? x).map (Container.exited x f.exits) = none := by
      rw [h.missing]
      rfl
    rcases Containers.find?_serve f c w.runtime x with hserve | hserve
    · exact hserve.trans hexit
    · refine hserve.trans ?_
      rw [hexit]
      cases c with
      | create spec =>
        refine if_neg fun hx => ?_
        obtain ⟨r, hr, hintent, rfl⟩ := due
        cases hx
        obtain ⟨row, hrow, hi, -⟩ := h.pending
        obtain rfl := Option.some.inj (hr.symm.trans hrow)
        exact hcreate (Option.some.inj (hi.symm.trans hintent))
      | start id | stop id | delete id => exact ite_self _
      | list | inspect | reconcile => rfl
  refused body := by
    -- No start or stop of a missing container succeeds.
    have hswitch : ∀ c' running, (∀ cs, Containers.execute c' cs = cs.switch running x) →
        (w.called Containers.runtime f c).last ≠ some (c', .ok body) := by
      intro c' running hexecute hlast
      obtain ⟨rfl, hserve⟩ := Prod.mk.inj (Option.some.inj hlast)
      have hok := congrArg Prod.fst (Containers.execute_of_serve_ok hserve)
      rw [hexecute] at hok
      obtain ⟨k, hk⟩ := Containers.find?_of_switch_ok hok
      rw [Containers.find?_exit, h.missing] at hk
      cases hk
    refine ⟨?_, hswitch (.stop x) false fun _ => rfl⟩
    cases action with
    | create => exact absurd rfl hcreate
    | delete => exact absurd rfl hdelete
    | start | restart => exact hswitch (.start x) true fun _ => rfl
    | stop => exact hswitch (.stop x) false fun _ => rfl

/-- Nothing is written for `x` but the error. -/
theorem write (h : Barred x action expiresAt w) (hcreate : action ≠ .create)
    (hjob : job.Spares x expiresAt) (hw : Write job y w.last w.journal j) :
    Barred x action expiresAt (w.withJournal fun _ => j) := by
  refine ⟨?_, h.missing, h.refused⟩
  obtain ⟨row, hrow, hintent, hexp⟩ := h.pending
  have hchange := hw.changes x
  rw [show w.journal.sandboxes.find? x = some row from hrow] at hchange
  change ∃ row, j.sandboxes.find? x = some row ∧ _
  generalize j.sandboxes.find? x = row' at hchange
  cases hchange with
  | same => exact ⟨row, rfl, hintent, hexp⟩
  | move asked => exact absurd asked hjob.recovers.ne
  | step step =>
    cases step with
    | passStop pending answer => exact absurd answer (h.refused _).2
    | noteError message pending => exact ⟨_, rfl, hintent, hexp⟩
    | expire sweeping expired => subst hexp; exact absurd expired (hjob.not_expired sweeping)
    | refresh sweeping idle => exact nomatch idle.1.symm.trans hintent
    | release sweeping idle => exact nomatch idle.symm.trans hintent
    | markMissing sweeping idle => exact nomatch idle.1.symm.trans hintent
  | finish pending whole answer =>
    obtain rfl := Option.some.inj (pending.symm.trans hintent)
    exact absurd answer (h.refused _).1
  | compensate pending =>
    exact absurd (Option.some.inj (hintent.symm.trans pending)) hcreate

theorem move (h : Barred x action expiresAt w) (hcreate : action ≠ .create)
    (hdelete : action ≠ .delete) (hjob : job.Spares x expiresAt)
    (hmove : Move Containers.runtime rules job y w w') : Barred x action expiresAt w' := by
  cases hmove with
  | image may => exact ⟨by simpa using h.pending, h.missing, h.refused⟩
  | call may due => exact h.call hcreate hdelete due
  | write write => exact h.write hcreate hjob write

/-- Without its container, an operation stays pending whatever the requests come to. -/
theorem moves (h : Barred x action expiresAt w) (hcreate : action ≠ .create)
    (hdelete : action ≠ .delete) (hjob : job.Spares x expiresAt)
    (hmoves : ReflTransGen (fun u u' => ∃ y, Move Containers.runtime rules job y u u') w w') :
    Barred x action expiresAt w' := by
  induction hmoves with
  | refl => exact h
  | tail _ hmove ih =>
    obtain ⟨y, hmove⟩ := hmove
    exact ih.move hcreate hdelete hjob hmove

end Barred

/-! ### A container that stays -/

/-- Neither creation nor deletion is pending for `x`, and its container exists. -/
structure Standing (x : String) (expiresAt : Option Time) (w : World Containers) : Prop where
  row : ∃ row, w.row? x = some row ∧ row.expiresAt = expiresAt ∧ row.intent ≠ some .create ∧
    row.intent ≠ some .delete ∧ ¬ Gone (some row)
  present : w.runtime.find? x ≠ none
  exact : Exact x (w.runtime.find? x) w.last

namespace Standing

variable {x y : String} {expiresAt : Option Time} {w w' : World Containers} {job : Job}

theorem call (h : Standing x expiresAt w) (due : Due job y (w.row? y) w.last c) :
    Standing x expiresAt (w.called Containers.runtime f c) where
  row := h.row
  present := by
    have hexit : (w.runtime.find? x).map (Container.exited x f.exits) ≠ none := by
      simpa using h.present
    rcases Containers.find?_serve f c w.runtime x with hserve | hserve
    · exact hserve ▸ hexit
    · change (Containers.serve f c w.runtime).2.find? x ≠ none
      rw [hserve]
      generalize (w.runtime.find? x).map (Container.exited x f.exits) = k at hexit
      cases c with
      | create spec =>
        simp only [Container.effect]
        split_ifs
        · simp
        · exact hexit
      | start id | stop id =>
        simp only [Container.effect]
        split_ifs
        · simpa using hexit
        · exact hexit
      | list | inspect | reconcile => exact hexit
      | delete id =>
        refine (if_neg fun hx => ?_).trans_ne hexit
        subst hx
        obtain ⟨row, hrow, -, -, hdelete, hgone⟩ := h.row
        obtain ⟨rfl, ⟨r, hr, hi⟩ | ⟨clock, -, hg⟩⟩ := due
        · obtain rfl := Option.some.inj (hr.symm.trans hrow)
          exact hdelete hi
        · exact hgone (hrow ▸ hg)
  exact := .serve x f c w.runtime

theorem write (h : Standing x expiresAt w) (hjob : job.Spares x expiresAt)
    (hw : Write job y w.last w.journal j) : Standing x expiresAt (w.withJournal fun _ => j) := by
  refine ⟨?_, h.present, h.exact⟩
  obtain ⟨row, hrow, hexp, hcreate, hdelete, hgone⟩ := h.row
  have hchange := hw.changes x
  rw [show w.journal.sandboxes.find? x = some row from hrow] at hchange
  change ∃ row, j.sandboxes.find? x = some row ∧ _
  generalize j.sandboxes.find? x = row' at hchange
  cases hchange with
  | same => exact ⟨row, rfl, hexp, hcreate, hdelete, hgone⟩
  | move asked => exact absurd asked hjob.recovers.ne
  | step step =>
    cases step with
    | passStop pending answer => exact ⟨_, rfl, hexp, nofun, nofun, not_gone (.inl nofun)⟩
    | noteError message pending =>
      exact ⟨_, rfl, hexp, hcreate, hdelete, not_gone (.inl pending)⟩
    | expire sweeping expired => subst hexp; exact absurd expired (hjob.not_expired sweeping)
    | refresh sweeping idle answer word =>
      obtain ⟨k, -, rfl⟩ := h.exact.inspected _ answer
      rw [Container.word_status_describe] at word
      cases word
      refine ⟨_, rfl, hexp, hcreate, hdelete, not_gone (.inr ?_)⟩
      rw [Container.ofText_status]
      split_ifs <;> nofun
    | release sweeping idle stopped =>
      exact ⟨_, rfl, hexp, hcreate, hdelete, not_gone (.inr (by simp [stopped]))⟩
    | markMissing sweeping idle =>
      exact ⟨_, rfl, hexp, hcreate, hdelete, not_gone (.inr nofun)⟩
  | @finish _ action _ pending =>
    refine ⟨_, rfl, hexp, nofun, nofun, not_gone (.inr ?_)⟩
    cases action with
    | delete => exact absurd pending hdelete
    | create | start | stop | restart => nofun
  | compensate pending => exact absurd pending hcreate

theorem move (h : Standing x expiresAt w) (hjob : job.Spares x expiresAt)
    (hmove : Move Containers.runtime rules job y w w') : Standing x expiresAt w' := by
  cases hmove with
  | image may => exact ⟨by simpa using h.row, h.present, h.exact⟩
  | call may due => exact h.call due
  | write write => exact h.write hjob write

theorem moves (h : Standing x expiresAt w) (hjob : job.Spares x expiresAt)
    (hmoves : ReflTransGen (fun u u' => ∃ y, Move Containers.runtime rules job y u u') w w') :
    Standing x expiresAt w' := by
  induction hmoves with
  | refl => exact h
  | tail _ hmove ih =>
    obtain ⟨y, hmove⟩ := hmove
    exact ih.move hjob hmove

end Standing

/-! ### A sweep that is answered -/

/-- Every request is executed and answered, be it with an error.  Tasks may stop by themselves. -/
def Rules.answering : Rules Fault := ⟨fun _ => True, fun f => f.failure = none, False, rfl⟩

theorem serve_answering (hf : f.failure = none) (c : Call) (cs : Containers) :
    Containers.runtime.serve f c cs = Containers.execute c (cs.exit f.exits) := by
  simp [Containers.runtime, Containers.serve, hf]

section Answered

variable {x : String} {row : Row} {sweep : Sweep}

theorem converge_delete (hi : row.intent = some .delete) :
    Does Rules.answering.adversary (fun _ _ => True) (fun w => w.row? x = some row)
      (converge Containers.runtime x) (fun _ w => ∃ r, w.row? x = some r ∧ r.status = .deleted)
      (fun _ _ => False) := by
  refine .bind (query_get fun _ h => h) fun r => .assuming (fun _ h => h.1) fun hr => ?_
  subst hr
  simp only [hi]
  refine .rescue (E := fun _ _ => False) (.bind (K := fun _ => Knows x (Performed x .delete)) ?_
    fun _ => ?_) fun _ => .never fun _ h => h
  · refine .bind ((hoare_call (K := fun _ => Knows x (Performed x .delete))
      (fun w step _ h => (w.row?_image step x).trans h) (fun w f body hrow _ hbody => ?_)
      fun w f e _ hf he => ?_).pre fun _ h => h.2)
      fun _ => .pure fun _ h => h
    · exact ⟨r, body, hrow, hi, by rw [World.called, hbody]; rfl⟩
    · rw [serve_answering hf] at he
      cases he
  · have hcomplete : Does Rules.answering.adversary (Move Containers.runtime .answering .retry x)
        (Knows x (Performed x .delete)) (transaction (Journal.complete x Action.delete.target)) _
        (fun _ _ => False) := does_complete .delete
    refine (hcomplete.mono fun _ _ _ => trivial).conseq (fun _ h => h) ?_ fun _ _ h => h
    rintro _ w ⟨r, body, hrow, -⟩
    exact ⟨_, hrow, rfl⟩

/-- The turn of an expired sandbox ends with its deletion. -/
theorem visit_expired (hexp : row.Expired (sweep.clock x)) :
    Does Rules.answering.adversary (fun _ _ => True) (fun w => w.row? x = some row)
      (visit Containers.runtime sweep x) (fun _ w => ∃ r, w.row? x = some r ∧ r.status = .deleted)
      (fun _ _ => False) := by
  refine .rescue (E := fun _ _ => False) ?_ fun _ => .never fun _ h => h
  refine .bind (query_found fun _ h => h) fun r => .assuming (fun _ h => h.1) fun hr => ?_
  subst hr
  refine .bind (K := fun _ w => w.row? x = some r.doomed) (.when (fun _ => ?_)
    fun hnot => absurd hexp hnot) fun _ => .bind (converge_delete rfl) fun _ =>
    .bind (.read (Q := fun r w => w.row? x = some r ∧ r.status = .deleted) ?_ ?_) fun r' =>
    .when (fun hlive => .never fun _ h => hlive h.2) fun _ _ h => ⟨r', h⟩
  · exact (hoare_exec (fun w step _ h => (w.row?_image step x).trans h) fun w hrow =>
      Journal.find?_setRow_self hrow _).pre fun _ h => h.2
  · rintro w r' ⟨r'', hrow, hdead⟩ hr'
    obtain rfl := Option.some.inj ((Journal.get_eq_ok_iff.mp hr').symm.trans hrow)
    exact ⟨hrow, hdead⟩
  · rintro w e ⟨r', hrow, -⟩ he
    rw [Journal.get_eq_ok_iff.mpr hrow] at he
    cases he

/-- The inspection of a missing container marks it. -/
theorem refresh_missing (hidle : row.Idle) :
    Does Rules.answering.adversary (fun _ _ => True)
      (fun w => w.row? x = some row ∧ w.runtime.find? x = none) (refresh Containers.runtime x)
      (fun _ w => ∃ r, w.row? x = some r ∧ r.status = .error ∧ r.intent = none)
      (fun _ _ => False) := by
  refine .rescue (E := fun e w => e = .runtime 404 "container not found" ∧ w.row? x = some row)
    (.bind (K := fun _ _ => False) (hoare_call (fun w step _ h => ?_) (fun w f body h hf hbody => ?_)
      fun w f e h hf he => ?_) fun _ => .never fun _ h => h) fun e =>
    .assuming (fun _ h => h.1) fun he => ?_
  · exact ⟨(w.row?_image step x).trans h.1, h.2⟩
  · rw [serve_answering hf] at hbody
    obtain ⟨k, hk, -⟩ := Containers.find?_of_inspect_ok hbody
    rw [Containers.find?_exit, h.2] at hk
    cases hk
  · have hnone : (w.runtime.exit f.exits).find? x = none := by
      rw [Containers.find?_exit, h.2]
      rfl
    rw [serve_answering hf, Containers.execute, hnone] at he
    exact ⟨(Except.error.inj he).symm, h.1⟩
  · subst he
    exact (hoare_exec (fun w step _ h => ⟨h.1, (w.row?_image step x).trans h.2⟩) fun w h =>
      ⟨_, Journal.find?_setRow_self h.2 _, rfl, hidle.1⟩).conseq (fun _ h => h) (fun _ _ h => h)
      fun _ _ h => h

/-- The turn of an idle sandbox whose container is missing. -/
theorem visit_missing (hidle : row.Idle) (hexp : ¬ row.Expired (sweep.clock x)) :
    Does Rules.answering.adversary (fun _ _ => True)
      (fun w => w.row? x = some row ∧ w.runtime.find? x = none) (visit Containers.runtime sweep x)
      (fun _ w => ∃ r, w.row? x = some r ∧ r.status = .error ∧ r.intent = none)
      (fun _ _ => False) := by
  refine .rescue (E := fun _ _ => False) ?_ fun _ => .never fun _ h => h
  refine .bind (query_found fun _ h => h.1) fun r => .assuming (fun _ h => h.1) fun hr => ?_
  subst hr
  refine .bind (K := fun _ w => w.row? x = some r ∧ w.runtime.find? x = none)
    (.when (fun h => absurd h hexp) fun _ _ h => h.2) fun _ =>
    .bind (K := fun _ w => w.row? x = some r ∧ w.runtime.find? x = none)
      (.bind (query_get fun _ h => h.1) fun r' => .assuming (fun _ h => h.1) fun hr' => ?_) fun _ =>
    .bind (query_get fun _ h => h.1) fun r' => .assuming (fun _ h => h.1) fun hr' => ?_
  · subst hr'
    rw [hidle.1]
    exact .pure fun _ h => h.2
  · subst hr'
    exact .when (fun _ => (refresh_missing hidle).pre fun _ h => h.2) fun hdead => absurd hidle.2 hdead

variable {P Q : World Containers → Prop}

/-- What is done for other sandboxes keeps `P`. -/
def Local (sweep : Sweep) (x : String) (P : World Containers → Prop) : Prop :=
  ∀ w w' y, y ≠ x → Move Containers.runtime .answering (.sweep sweep.clock) y w w' → P w → P w'

/-- What is known of `x` while the sandboxes of `rest` have not had their turn: `P` before the
turn of `x` and `Q` after it. -/
def Awaits (x : String) (P Q : World Containers → Prop) (rest : List String)
    (w : World Containers) : Prop :=
  x ∈ rest ∧ P w ∨ x ∉ rest ∧ Q w

theorem turn_of_visit (hP : Local sweep x P) (hQ : Local sweep x Q)
    (hvisit : Does Rules.answering.adversary (fun _ _ => True) P (visit Containers.runtime sweep x)
      (fun _ => Q) (fun _ _ => False))
    {ids rest : List String} {y : String} (hy : y ∈ ids) (hnodup : (y :: rest).Nodup) :
    Does Rules.answering.adversary (fun _ _ => True)
      (fun w => Rest ids w ∧ Awaits x P Q (y :: rest) w) (visit Containers.runtime sweep y)
      (fun _ w => Rest ids w ∧ Awaits x P Q rest w) (fun _ _ => False) := by
  have hrest : Does Rules.answering.adversary
    (Move Containers.runtime .answering (.sweep sweep.clock) y) _ _ _ _ := visit_rest hy
  by_cases hyx : y = x
  · subst hyx
    have hnot : y ∉ rest := (List.nodup_cons.mp hnodup).1
    refine (hvisit.and hrest).conseq (fun w h => ⟨?_, h.1⟩) (fun _ w h => ⟨h.2, .inr ⟨hnot, h.1⟩⟩)
      fun _ _ h => h.1
    exact (h.2.resolve_right fun h => h.1 (List.mem_cons_self ..)).2
  · have hmem : x ∈ y :: rest ↔ x ∈ rest := by simp [Ne.symm hyx]
    refine ((hrest.keep (I := Awaits x P Q rest) fun w w' h hmove => ?_).mono
      fun _ _ _ => trivial).conseq (fun w h => ⟨h.1, ?_⟩) (fun _ _ h => h) fun _ _ h => h.1
    · exact h.imp (And.imp_right (hP w w' y hyx hmove)) (And.imp_right (hQ w w' y hyx hmove))
    · simpa only [Awaits, hmem] using h.2

theorem exists_other (x : String) : ∃ y : String, y ≠ x :=
  have : Nontrivial String := ⟨"", "x", by decide⟩
  exists_ne x

/-- Counting keeps what is local. -/
theorem count_local (hP : Local sweep x P) (name : String) {E : Ex → World Containers → Prop} :
    Does Rules.answering.adversary (fun _ _ => True) P (exec (Journal.count name))
      (fun _ => P) E := by
  obtain ⟨y, hy⟩ := exists_other x
  exact hoare_exec (fun w step _ h => hP _ _ y hy (.image trivial) h)
    fun w h => hP _ _ y hy (.write (.count name)) h

/-- A call that names no sandbox keeps what is local. -/
theorem call_local (hP : Local sweep x P) (c : Call)
    (hc : ∀ y row last, Due (.sweep sweep.clock) y row last c) {K : Json → Prop}
    (hK : ∀ f cs, f.failure = none → ∃ body, (Containers.runtime.serve f c cs).1 = .ok body ∧ K body) :
    Does Rules.answering.adversary (fun _ _ => True) P (call Containers.runtime c)
      (fun body w => K body ∧ P w) (fun _ _ => False) := by
  obtain ⟨y, hy⟩ := exists_other x
  refine hoare_call (fun w step _ h => hP _ _ y hy (.image trivial) h)
    (fun w f body h hf hbody => ?_) fun w f e h hf he => ?_
  · obtain ⟨body', hbody', hKbody⟩ := hK f w.runtime hf
    obtain rfl := Reply.ok.inj (hbody'.symm.trans hbody)
    exact ⟨hKbody, hP _ _ y hy (.call hf (hc ..)) h⟩
  · obtain ⟨body, hbody, -⟩ := hK f w.runtime hf
    rw [hbody] at he
    cases he

/-- A sweep that is answered does for `x` what the turn of `x` does. -/
theorem sweep_of_visit (hP : Local sweep x P) (hQ : Local sweep x Q)
    (hlive : ∀ w, P w → x ∈ w.journal.live)
    (hvisit : Does Rules.answering.adversary (fun _ _ => True) P (visit Containers.runtime sweep x)
      (fun _ => Q) (fun _ _ => False)) :
    Does Rules.answering.adversary (fun _ _ => True) P (reconcile Containers.runtime sweep)
      (fun _ => Q) (fun _ _ => False) := by
  have hlist : Does Rules.answering.adversary (fun _ _ => True) P (call Containers.runtime .list)
      (fun body w => (∃ l, body = .arr l) ∧ P w) (fun _ _ => False) :=
    call_local hP .list (fun _ _ _ => trivial) fun f cs hf => by
      rw [serve_answering hf]
      exact ⟨_, rfl, _, rfl⟩
  have hclean : Does Rules.answering.adversary (fun _ _ => True) Q
      (call Containers.runtime .reconcile) (fun _ w => True ∧ Q w) (fun _ _ => False) :=
    call_local hQ .reconcile (fun _ _ _ => trivial) fun f cs hf => by
      rw [serve_answering hf]
      exact ⟨_, rfl, trivial⟩
  refine .rescue (E := fun _ => Q) ?_ fun _ => .pure fun _ h => h
  refine .bind (hlist.relax fun _ _ h => h.elim) fun answer =>
    .bind (.ofExcept (Q := fun _ => P) (fun _ _ _ h => h.2) ?_) fun inventory =>
    .bind (.read (Q := fun ids w => (ids.Nodup ∧ x ∈ ids) ∧ Rest ids w ∧ Awaits x P Q ids w) ?_
      fun _ _ _ h => nomatch h) fun ids => .assuming (fun _ h => h.1) fun hids =>
    .bind ((Does.forEach (I := fun rest w => Rest ids w ∧ Awaits x P Q rest w) ?_).pre
      fun _ h => h.2) fun _ =>
    .bind ((Does.forEach (I := fun _ w => Rest ids w ∧ Q w) ?_).conseq ?_ (fun _ _ h => h.2)
      fun _ _ h => h) fun _ =>
    .bind (hclean.conseq (fun _ h => h) (fun _ _ h => h.2) fun _ _ h => h.elim) fun _ => ?_
  · rintro e w he ⟨⟨l, rfl⟩, -⟩
    cases he
  · rintro w ids hw hids
    obtain rfl := Except.ok.inj hids
    have hperm := sweep.perm w.journal.live
    have hx := hperm.mem_iff.mpr (hlive w hw)
    exact ⟨⟨hperm.nodup_iff.mpr (Table.nodup_keysWhere ..), hx⟩, rest_of_live hperm, .inl ⟨hx, hw⟩⟩
  · intro y rest hsuffix
    exact (turn_of_visit hP hQ hvisit (hsuffix.subset (List.mem_cons_self ..))
      (hids.1.sublist hsuffix.sublist)).relax fun _ _ h => h.elim
  · intro container rest _
    refine (((does_visitContainer sweep ids container).keep (I := Q) fun w w' h hmove => ?_).mono
      fun _ _ _ => trivial).relax fun _ _ h => h.2
    obtain ⟨y, hy, hmove⟩ := hmove
    exact hQ w w' y (fun heq => hy (heq ▸ hids.2)) hmove h
  · exact fun w h => ⟨h.1, (h.2.resolve_left fun h => nomatch h.1).2⟩
  · exact count_local hQ _

theorem local_row (F : Option Row → Prop) : Local sweep x fun w => F (w.row? x) := by
  intro w w' y hy hmove h
  rwa [hmove.row?_of_ne hy.symm]

theorem local_missing : Local sweep x fun w => w.runtime.find? x = none := by
  intro w w' y hy hmove h
  cases hmove with
  | image may | write write => exact h
  | @call f c may due =>
    have hother : c.target? ≠ some x := fun hx => hy (due.target hx).symm
    rcases Containers.find?_serve f c w.runtime x with hserve | hserve
    · exact hserve.trans (by rw [h]; rfl)
    · exact hserve.trans (by rw [Container.effect_of_ne hother, h]; rfl)

theorem mem_live {w : World Containers} (hrow : w.row? x = some row) (h : ¬ Gone (some row)) :
    x ∈ w.journal.live := by
  refine (Table.mem_keysWhere_iff ..).mpr ⟨row, hrow, ?_⟩
  by_contra hdead
  refine h fun r hr => ?_
  obtain rfl := Option.some.inj hr
  simpa using hdead

/-- What is known after a sweep that is answered. -/
theorem next_reconcile_answering (codec : Codec) (sweep : Sweep) {s : System Containers} (hup : s.api ≠ none)
    {fates : List (Fate (Env Fault))} (hfates : Rules.answering.adversary.Allows fates) :
    ∃ w, (s.next codec Containers.runtime (.reconcile sweep fates)).world = w.done ∧
      ReflTransGen (fun u u' => ∃ y, Move Containers.runtime .answering (.sweep sweep.clock) y u u')
        s.world w ∧
      ∀ {M : World Containers → World Containers → Prop} {P Q : World Containers → Prop},
        Does Rules.answering.adversary M P (reconcile Containers.runtime sweep)
          (fun _ => Q) (fun _ _ => False) → P s.world → Q w := by
  obtain ⟨cap, hapi⟩ := Option.ne_none_iff_exists'.mp hup
  simp only [System.next, hapi]
  have hsteps := (does_reconcile (R := Containers.runtime) sweep fun _ => False).steps hfates
    (s := s.world) fun _ h => h.elim
  generalize hresult : reconcile Containers.runtime sweep s.world fates = result at hsteps
  have hend : ∀ {M : World Containers → World Containers → Prop} {P Q : World Containers → Prop},
      Does Rules.answering.adversary M P (reconcile Containers.runtime sweep) (fun _ => Q)
        (fun _ _ => False) → P s.world → (∃ u, result.outcome = .ok u) ∧ Q result.state := by
    intro M P Q hdoes hP
    rcases hdoes.survives hfates hP (Rules.gentle id) with ⟨u, hok, hQ⟩ | ⟨_, _, hfalse⟩
    · rw [hresult] at hok hQ
      exact ⟨⟨u, hok⟩, hQ⟩
    · exact hfalse.elim
  obtain ⟨⟨u, hok⟩, -⟩ := hend (does_reconcile sweep fun _ => False) fun _ h => h.elim
  refine ⟨result.state, ?_, hsteps, fun hdoes hP => (hend hdoes hP).2⟩
  simp only [System.after, hok]

end Answered

/-- A create, and then the container vanishes. -/
def Sample.vanished : List (Act Containers Fault) :=
  [.boot Sample.capacity true, .request Sample.create [], .drift .empty]

/-- The same with a stop of the client before the sweep. -/
def Sample.stopped : List (Act Containers Fault) :=
  Sample.vanished ++ [.request ⟨"POST", "/v1/sandboxes/sbx_1/stop", none, none, "2", 0⟩ []]

end Sandcube
