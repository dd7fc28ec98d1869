import Sandcube.System.Basic
import Sandcube.Service.Route

/-!
# The records of keyed requests

Records are made once and answered once.  `Record.Grows` is the order in which a record may
develop; every write respects it (`Write.record_grows`), whoever answers the record.  Against
any runtime, an unanswered record has pending work (`Recorded`).
-/

open Relation

namespace Sandcube

variable {ρ ψ : Type} [Inhabited ψ]
variable {rec : Record} {last : Option (Call × Reply)} {j : Journal} {action : Action}
  {cap : Capacity} {w : World ρ} {rules : Rules ψ} {codec : Codec}
variable {job : Job} {x key : String} {R : Runtime ρ ψ}

/-! ### How a record develops -/

/-- The request stays what it was, and an answer that was given stays as it is. -/
structure Record.Grows (rec rec' : Record) : Prop where
  fingerprint : rec'.fingerprint = rec.fingerprint
  sandboxId : rec'.sandboxId = rec.sandboxId
  action : rec'.action = rec.action
  answered : rec.response ≠ none →
    rec'.response = rec.response ∧ rec'.responseStatus = rec.responseStatus

namespace Record.Grows

theorem refl (rec : Record) : rec.Grows rec := ⟨rfl, rfl, rfl, fun _ => ⟨rfl, rfl⟩⟩

theorem trans {rec' rec'' : Record} (h : rec.Grows rec') (h' : rec'.Grows rec'') :
    rec.Grows rec'' where
  fingerprint := h'.fingerprint.trans h.fingerprint
  sandboxId := h'.sandboxId.trans h.sandboxId
  action := h'.action.trans h.action
  answered hr := by
    obtain ⟨h₁, h₂⟩ := h.answered hr
    obtain ⟨h₁', h₂'⟩ := h'.answered (by rwa [h₁])
    exact ⟨h₁'.trans h₁, h₂'.trans h₂⟩

end Record.Grows

/-- Where the record of a key comes from: it was there, or the request at work made it. -/
inductive RecordChange (job : Job) (x key : String) : Option Record → Option Record → Prop
  | none : RecordChange job x key .none .none
  | grow {rec rec' : Record} (grows : rec.Grows rec') : RecordChange job x key (some rec) (some rec')
  | remember {cap : Capacity} {newId fingerprint : String} (action : Action)
      (asked : job = .request cap newId fingerprint (some key)) :
      RecordChange job x key .none (some ⟨fingerprint, x, action, .none, 200⟩)

theorem RecordChange.same (rec : Option Record) : RecordChange job x key rec rec := by
  cases rec with
  | none => exact .none
  | some rec => exact .grow (.refl rec)

theorem RecordChange.answer (j : Journal) (saved : Saved) (status : ℕ → ℕ) :
    RecordChange job x key (j.requests.find? key) ((j.answer x saved status).requests.find? key) := by
  rw [Journal.find?_answer]
  cases j.requests.find? key with
  | none => exact .none
  | some rec =>
    refine .grow ?_
    dsimp only
    split_ifs with h
    · exact ⟨rfl, rfl, rfl, fun hr => absurd h.2 hr⟩
    · exact .refl rec

/-- **Inversion of a write at a record.** -/
theorem Write.recordChange {j' : Journal} (h : Write job x last j j') (key : String) :
    RecordChange job x key (j.requests.find? key) (j'.requests.find? key) := by
  have hremember : ∀ {cap newId fingerprint key' action}, job = .request cap newId fingerprint key' →
      Journal.Remembered key' ⟨fingerprint, x, action, none, 200⟩ j.requests j'.requests →
      RecordChange job x key (j.requests.find? key) (j'.requests.find? key) := by
    intro cap newId fingerprint key' action hask hrem
    cases key' with
    | none => rw [show j'.requests = j.requests from hrem]; exact .same _
    | some key' =>
      rw [Table.find?_insert? hrem]
      split_ifs with hk
      · subst hk
        rw [Table.find?_of_insert?_eq_some hrem]
        exact .remember action hask
      · exact .same _
  cases h with
  | accept asked _ _ accepted =>
    cases accepted with
    | create config expiresAt sandboxes fits image requests => exact hremember asked requests
    | move action row old found idle sandboxes fits sandboxImages requests =>
      exact hremember asked requests
  | row found step => exact .same _
  | complete found pending whole answer done =>
    rw [Journal.complete_of_find? found, Except.ok.injEq] at done
    rw [← done]
    dsimp only
    exact .answer j _ _
  | compensate found pending launch answer => exact .answer (j.doom x) _ _
  | count name | dropImage sweeping gone answer => exact .same _

/-- A record that was made is there from then on. -/
theorem record_keeps (R : Runtime ρ ψ) (rules : Rules ψ) (key : String) (rec : Record) :
    (Setting.free rules).Keeps R fun w =>
      ∃ rec', w.journal.requests.find? key = some rec' ∧ rec.Grows rec' where
  call h _ _ _ := h
  write {job x j w} h _ _ hw := by
    obtain ⟨rec', hrec', hgrows⟩ := h
    have hchange := hw.recordChange key
    rw [hrec'] at hchange
    change ∃ rec', j.requests.find? key = some rec' ∧ rec.Grows rec'
    generalize j.requests.find? key = new at hchange ⊢
    cases hchange with
    | grow grows => exact ⟨_, rfl, hgrows.trans grows⟩
  image {step w} h _ := by rwa [(w.image_journal step).2.1]
  job _ _ _ := trivial
  done h := h
  die h := h
  configure h _ := h
  builds h _ := h
  drift h _ _ := h

/-! ### Unanswered records -/

/-- Completing `intent` answers a request for `action`. -/
def Action.Serves (intent action : Action) : Prop :=
  intent = .delete ∨ intent = action ∨ intent = .start ∧ action = .restart

theorem Action.Serves.target {intent : Action} (h : intent.Serves action) :
    intent.target = action.target ∨ intent.target = .deleted := by
  rcases h with rfl | rfl | ⟨rfl, rfl⟩
  · exact .inr rfl
  · exact .inl rfl
  · exact .inl rfl

/-- An unanswered record has pending work that will answer it, and an answer is what a
completed operation left or an error. -/
structure Recorded (j : Journal) (rec : Record) : Prop where
  pending : rec.response = none → rec.responseStatus = 200 ∧
    ∃ row intent, j.sandboxes.find? rec.sandboxId = some row ∧ row.intent = some intent ∧
      intent.Serves rec.action
  completed : ∀ res, rec.response = some (.response res) → rec.responseStatus = 200 ∧
    (res.status = rec.action.target ∨ res.status = .deleted)
  failed : ∀ text, rec.response = some (.body text) → 400 ≤ rec.responseStatus

namespace Recorded

variable {j j' : Journal} {rec : Record}

/-- What was pending for a record is still pending. -/
theorem frame (h : Recorded j rec)
    (hrow : ∀ row intent, j.sandboxes.find? rec.sandboxId = some row → row.intent = some intent →
      intent.Serves rec.action → ∃ row' intent', j'.sandboxes.find? rec.sandboxId = some row' ∧
        row'.intent = some intent' ∧ intent'.Serves rec.action) : Recorded j' rec where
  pending hnone := by
    obtain ⟨hstatus, row, intent, hr, hi, hserves⟩ := h.pending hnone
    exact ⟨hstatus, hrow row intent hr hi hserves⟩
  completed := h.completed
  failed := h.failed

theorem of_sandboxes_eq (h : Recorded j rec)
    (heq : j'.sandboxes.find? rec.sandboxId = j.sandboxes.find? rec.sandboxId) : Recorded j' rec :=
  h.frame fun row intent hr hi hserves => ⟨row, intent, heq.trans hr, hi, hserves⟩

/-- A step of the row of `x` does not strand the records of `x`. -/
theorem rowStep {row row' : Row} (h : Recorded j rec) (found : j.sandboxes.find? x = some row)
    (step : RowStep job x last row row') : Recorded (j.setRow x fun _ => row') rec := by
  by_cases hx : rec.sandboxId = x
  · refine h.frame fun r intent hr hi hserves => ?_
    rw [hx] at hr ⊢
    obtain rfl := Option.some.inj (found.symm.trans hr)
    refine ⟨row', ?_⟩
    rw [Journal.find?_setRow_self found]
    cases step with
    | passStop pending answer =>
      cases pending.symm.trans hi
      refine ⟨.start, rfl, rfl, .inr (.inr ⟨rfl, ?_⟩)⟩
      rcases hserves with h | h | ⟨h, -⟩
      · cases h
      · exact h.symm
      · cases h
    | noteError message pending => exact ⟨intent, rfl, hi, hserves⟩
    | expire sweeping expired => exact ⟨.delete, rfl, rfl, .inl rfl⟩
    | refresh sweeping idle => exact nomatch idle.1.symm.trans hi
    | release sweeping idle => exact nomatch idle.symm.trans hi
    | markMissing sweeping idle => exact nomatch idle.1.symm.trans hi
  · exact h.of_sandboxes_eq (Journal.find?_setRow_of_ne hx _)

/-- The intent transaction. -/
theorem accepted {fingerprint : String} {key : Option String}
    (hacc : Journal.Accepted cap x fingerprint key action j j')
    (h : ∀ {key rec}, j.requests.find? key = some rec → Recorded j rec) {key' : String}
    (hrec : j'.requests.find? key' = some rec) : Recorded j' rec := by
  have hnew : Recorded j' ⟨fingerprint, x, action, none, 200⟩ := by
    obtain ⟨row, hr, hi⟩ := hacc.pending
    exact ⟨fun _ => ⟨rfl, row, action, hr, hi, .inr (.inl rfl)⟩,
      (fun _ h => nomatch h), fun _ h => nomatch h⟩
  -- Nothing is pending for a sandbox that is accepted, unless it is deleted.
  have hold : ∀ {rec}, Recorded j rec → Recorded j' rec := by
    intro rec hrec
    refine hrec.frame fun r intent hr hi hserves => ?_
    by_cases hx : rec.sandboxId = x
    · rw [hx] at hr ⊢
      cases hacc with
      | create config expiresAt sandboxes =>
        exact nomatch hr.symm.trans (Table.find?_of_insert?_eq_some sandboxes)
      | move action row old found idle sandboxes =>
        obtain rfl := Option.some.inj (found.symm.trans hr)
        rcases idle with rfl | ⟨hnone, -⟩
        · exact ⟨_, .delete, by rw [sandboxes, Table.find?_modify_self, found]; rfl, rfl, .inl rfl⟩
        · exact nomatch hnone.symm.trans hi
    · exact ⟨r, intent, (hacc.find?_of_ne hx).trans hr, hi, hserves⟩
  have hcases : ∀ {requests}, Journal.Remembered key ⟨fingerprint, x, action, none, 200⟩ j.requests
      requests → requests.find? key' = some rec → Recorded j' rec := by
    intro requests hrem hfind
    cases key with
    | none =>
      rw [show requests = j.requests from hrem] at hfind
      exact hold (h hfind)
    | some key =>
      rw [Table.find?_insert? hrem] at hfind
      split_ifs at hfind
      · cases hfind
        exact hnew
      · exact hold (h hfind)
  cases hacc with
  | create config expiresAt sandboxes fits image requests => exact hcases requests hrec
  | move action row old found idle sandboxes fits sandboxImages requests =>
    exact hcases requests hrec

/-- Answering every open record of `x`. -/
theorem answer {x : String} {saved : Saved} {status : ℕ → ℕ}
    (hrequests : j'.requests = (j.answer x saved status).requests)
    (hothers : ∀ y, y ≠ x → j'.sandboxes.find? y = j.sandboxes.find? y)
    (h : ∀ {key rec}, j.requests.find? key = some rec → Recorded j rec)
    (hnew : ∀ {rec}, Recorded j rec → rec.sandboxId = x → rec.response = none →
      Recorded j' { rec with response := some saved, responseStatus := status rec.responseStatus })
    {key : String} (hrec : j'.requests.find? key = some rec) : Recorded j' rec := by
  rw [hrequests, Journal.find?_answer] at hrec
  obtain ⟨rec₀, hrec₀, rfl⟩ := Option.map_eq_some_iff.mp hrec
  have h₀ := h hrec₀
  split_ifs with hopen
  · exact hnew h₀ hopen.1 hopen.2
  by_cases hx : rec₀.sandboxId = x
  · exact ⟨fun hnone => absurd ⟨hx, hnone⟩ hopen, h₀.completed, h₀.failed⟩
  · exact h₀.of_sandboxes_eq (hothers _ hx)

end Recorded

/-- Every record is sound, and so is the last refusal. -/
structure Booked (w : World ρ) : Prop where
  records : ∀ {key rec}, w.journal.requests.find? key = some rec → Recorded w.journal rec
  refused : ∀ {c status body}, w.last = some (c, .http status body) → 400 ≤ status

theorem Booked.write (h : Booked w) (hw : Write job x w.last w.journal j) :
    Booked (w.withJournal fun _ => j) where
  records {key rec} hrec := by
    change j.requests.find? key = some rec at hrec
    change Recorded j rec
    have hothers : ∀ y, y ≠ x → j.sandboxes.find? y = w.journal.sandboxes.find? y := fun y hy =>
      hw.find?_of_ne hy
    cases hw with
    | accept asked drawn listed accepted => exact .accepted accepted h.records hrec
    | row found step => exact (h.records hrec).rowStep found step
    | @complete _ row action body found pending whole answer done =>
      rw [Journal.complete_of_find? found, Except.ok.injEq] at done
      refine .answer (by rw [← done]) hothers h.records (fun {rec} hr hx hnone => ?_) hrec
      obtain ⟨hstatus, r, intent, hfind, hi, hserves⟩ := hr.pending hnone
      rw [hx, found] at hfind
      cases hfind
      cases pending.symm.trans hi
      refine ⟨(fun h => nomatch h), fun res hres => ?_, fun _ h => nomatch h⟩
      cases hres
      exact ⟨hstatus, hserves.target⟩
    | @compensate row c status body found pending launch answer =>
      have hrequests : (w.journal.compensate x status body).requests =
          (w.journal.answer x (.body body) fun _ => status).requests := rfl
      refine .answer hrequests hothers h.records (fun {rec} hr hx hnone => ?_) hrec
      exact ⟨(fun h => nomatch h), (fun _ h => nomatch h), fun _ _ => h.refused answer⟩
    | count name | dropImage sweeping gone answer => exact (h.records hrec).of_sandboxes_eq rfl
  refused := h.refused

theorem booked_keeps (hR : R.ErrorStatuses rules.choice) :
    (Setting.free rules).Keeps R Booked where
  call {job x f c w} h _ hf _ := by
    refine ⟨h.records, fun {c' status body} hlast => ?_⟩
    obtain ⟨-, hreply⟩ := Prod.mk.inj (Option.some.inj hlast)
    exact hR f c w.runtime status body hf hreply
  write h _ _ hw := h.write hw
  image {step w} h _ := by
    obtain ⟨hsandboxes, hrequests, -⟩ := w.image_journal step
    refine ⟨fun {key rec} hrec => ?_, h.refused⟩
    rw [hrequests] at hrec
    exact (h.records hrec).of_sandboxes_eq (by rw [hsandboxes])
  job _ _ _ := trivial
  done h := ⟨h.records, nofun⟩
  die h := ⟨h.records, nofun⟩
  configure h _ := ⟨fun hrec => (h.records hrec).of_sandboxes_eq rfl, h.refused⟩
  builds h _ := ⟨fun hrec => (h.records hrec).of_sandboxes_eq rfl, h.refused⟩
  drift h _ _ := ⟨h.records, h.refused⟩

theorem System.Reachable.booked (hR : R.ErrorStatuses rules.choice) {init : ρ → Prop} {s : System ρ}
    (hs : s.Reachable codec R (.free rules) init) : Booked s.world ∧ s.Settled :=
  hs.invariant (booked_keeps hR) fun s hstart _ => by
    refine ⟨fun {key rec} hrec => ?_, fun {c status body} hlast => ?_⟩
    · rw [hstart.journal] at hrec
      cases hrec
    · rw [hstart.last] at hlast
      cases hlast

open Reliability in
/-- A retry does not find its record unanswered when it reads the response back. -/
theorem Booked.request_ne_noResult (hR : R.ErrorStatuses rules.choice) (h : Booked w) {r : Request}
    {fates : List (Fate (Env ψ))} (hprevious : previous r.key w.journal = some (key, rec))
    (hfates : rules.adversary.Allows fates) :
    (request codec R cap r w fates).outcome ≠ .raised .noResult := by
  have hfind : w.journal.requests.find? key = some rec := by
    obtain ⟨key', -, hkey⟩ := Option.bind_eq_some_iff.mp hprevious
    obtain ⟨rec', hrec', heq⟩ := Option.map_eq_some_iff.mp hkey
    obtain ⟨rfl, rfl⟩ := Prod.mk.inj heq
    exact hrec'
  rw [request_eq, hprevious]
  cases hcheck : r.check with
  | error e =>
    rintro ⟨⟩
    unfold Request.check at hcheck
    split_ifs at hcheck
    · cases hof : Action.ofText? r.actionText <;> simp [hof] at hcheck
    · cases hcheck
  | ok action =>
    intro hraised
    have hdoes : Prog.Does rules.adversary (Move R rules .retry rec.sandboxId) _
      (replay codec R key (r.fingerprint codec) rec) _ _ := does_replay codec key _ rec
    have hmoves := moves_exists (hdoes.steps (s := w) hfates trivial)
    obtain ⟨⟨row, hrow, hquiet⟩, hnone⟩ := hdoes.raised hfates trivial hraised rfl
    obtain ⟨rec', hrec', hgrows⟩ := ((record_keeps R rules key rec).moves ⟨rec, hfind, .refl rec⟩
      trivial (Job.funded_retry w) hmoves).1
    have hbooked := ((booked_keeps hR).moves h trivial (Job.funded_retry w) hmoves).1
    rw [hrec'] at hnone
    obtain ⟨-, row', intent, hrow', hintent, -⟩ := (hbooked.records hrec').pending hnone
    rw [hgrows.sandboxId] at hrow'
    cases hrow.symm.trans hrow'
    exact nomatch hquiet.symm.trans hintent

/-- The first call of a create is lost. -/
def Sample.unanswered : List (Act Containers Fault) :=
  [.boot Sample.capacity true,
    .request Sample.create [.go default, .go default,
      .go ⟨[], ⟨[], some (false, .lost "timeout")⟩⟩]]

/-- The adapter fails with HTTP errors only. -/
def Rules.proper : Rules Fault :=
  ⟨fun _ => True, Fault.Proper, True, fun _ _ _ h => nomatch h⟩

end Sandcube
