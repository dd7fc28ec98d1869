import Sandcube.System.Basic

/-!
# No resurrection

A sandbox whose deletion was decided has a doomed row, and no write takes it back.  The API
deletes a container only for a doomed row or for no row at all, and it creates or starts one
only for a row that is not doomed; so nothing is launched after a deletion was sent.
-/

namespace Sandcube

variable {ρ ψ : Type} [Inhabited ψ]
variable {job : Job} {x y : String} {last : Option (Call × Reply)} {c : Call} {R : Runtime ρ ψ}
  {rules : Rules ψ} {w w' : World ρ}

/-! ### Doomed rows -/

/-- The deletion of the sandbox is pending or done. -/
def Row.Doomed (row : Row) : Prop :=
  row.intent = some .delete ∧ row.status = .deleting ∨ row.intent = none ∧ row.status = .deleted

/-- A pending deletion shows in the status. -/
def Row.Sound (row : Row) : Prop := row.intent = some .delete → row.status = .deleting

theorem Row.Sound.doomed {row : Row} (h : row.Sound) (hi : row.intent = some .delete) :
    row.Doomed := .inl ⟨hi, h hi⟩

theorem Row.Doomed.not_idle {row : Row} (h : row.Doomed) : ¬ row.Idle := by
  rintro ⟨hi, hs⟩
  rcases h with ⟨hd, -⟩ | ⟨-, hd⟩
  · exact nomatch hi.symm.trans hd
  · exact hs hd

/-- The only operation that can be pending for a doomed row. -/
theorem Row.Doomed.intent_eq {row : Row} (h : row.Doomed) {action : Action}
    (hi : row.intent = some action) : action = .delete := by
  rcases h with ⟨hd, -⟩ | ⟨hn, -⟩
  · exact Option.some.inj (hi.symm.trans hd)
  · exact nomatch hn.symm.trans hi

/-- **Doom is final.** -/
theorem RowChange.doomed {row : Row} {row' : Option Row} (h : RowChange job x last (some row) row')
    (hd : row.Doomed) : ∃ r, row' = some r ∧ r.Doomed := by
  cases h with
  | same => exact ⟨row, rfl, hd⟩
  | @move _ _ _ _ action _ asked old idle =>
    rcases idle with rfl | hidle
    · exact ⟨_, rfl, .inl ⟨rfl, rfl⟩⟩
    · exact absurd hidle hd.not_idle
  | @step _ r step =>
    refine ⟨r, rfl, ?_⟩
    cases step with
    | passStop pending answer => exact nomatch hd.intent_eq pending
    | noteError message pending => exact hd
    | expire sweeping expired => exact .inl ⟨rfl, rfl⟩
    | refresh sweeping idle => exact absurd idle hd.not_idle
    | release sweeping idle stopped => exact absurd ⟨idle, by simp [stopped]⟩ hd.not_idle
    | markMissing sweeping idle => exact absurd idle hd.not_idle
  | finish pending whole answer =>
    cases hd.intent_eq pending
    exact ⟨_, rfl, .inr ⟨rfl, rfl⟩⟩
  | compensate pending => exact nomatch hd.intent_eq pending

theorem RowChange.sound {row row' : Option Row} (h : RowChange job x last row row')
    (hsound : ∀ r, row = some r → r.Sound) : ∀ r, row' = some r → r.Sound := by
  rintro r rfl
  cases h with
  | same => exact hsound r rfl
  | create => exact fun hi => nomatch hi
  | move asked old idle =>
    intro hi
    cases hi
    rfl
  | @step row _ step =>
    have hrow : row.Sound := hsound row rfl
    cases step with
    | passStop pending answer => exact fun hi => nomatch hi
    | noteError message pending => exact hrow
    | expire sweeping expired => exact fun _ => rfl
    | refresh sweeping idle => exact fun hi => nomatch idle.1.symm.trans hi
    | release sweeping idle => exact fun hi => nomatch idle.symm.trans hi
    | markMissing sweeping idle => exact fun hi => nomatch idle.1.symm.trans hi
  | finish => exact fun hi => nomatch hi
  | compensate => exact fun _ => rfl

/-! ### The requests sent so far -/

/-- The later of two requests does not launch what the earlier deleted. -/
def Call.Respects (later earlier : Call) : Prop :=
  ∀ x, earlier = .delete x → ¬ later.Launches x

/-- No launch follows a deletion, and what was deleted is doomed. -/
structure Buried (w : World ρ) : Prop where
  sound : ∀ x row, w.row? x = some row → row.Sound
  doomed : ∀ x row, Call.delete x ∈ w.sent → w.row? x = some row → row.Doomed
  /-- The latest request comes first. -/
  respects : w.sent.Pairwise Call.Respects

/-- An identifier that a create draws was never used for a container. -/
def Job.Draws (job : Job) (w : World ρ) : Prop :=
  ∀ cap newId fingerprint key, job = .request cap newId fingerprint key → w.row? newId = none →
    ∀ c ∈ w.sent, c.target? ≠ some newId

/-- Anything may happen, but identifiers are fresh. -/
def Setting.fresh : Setting ρ ψ where
  rules := .any
  job := Job.Draws
  drift _ _ := True

/-- A request is sent for the sandbox at hand, and apart from an orphan's deletion for a row. -/
theorem Due.target_row {row : Option Row} (h : Due job x row last c) (hc : c.target? = some y) :
    y = x ∧ (row ≠ none ∨ ∃ clock, job = .sweep clock) := by
  cases c with
  | list | reconcile => cases hc
  | create spec =>
    obtain ⟨r, rfl, -, rfl⟩ := h
    cases hc
    exact ⟨rfl, .inl nofun⟩
  | start id | stop id | inspect id =>
    obtain ⟨rfl, r, rfl, -⟩ := h
    cases hc
    exact ⟨rfl, .inl nofun⟩
  | delete id =>
    obtain ⟨rfl, ⟨r, rfl, -⟩ | ⟨clock, hjob, -⟩⟩ := h
    · cases hc
      exact ⟨rfl, .inl nofun⟩
    · cases hc
      exact ⟨rfl, .inr ⟨clock, hjob⟩⟩

/-- Nothing is launched for a doomed row. -/
theorem Due.not_launches {row : Option Row} (h : Due job x row last c) (hc : c.Launches y) :
    y = x ∧ ∃ r, row = some r ∧ ¬ r.Doomed := by
  cases c with
  | create spec =>
    obtain ⟨r, rfl, hi, rfl⟩ := h
    cases hc
    exact ⟨rfl, r, rfl, fun hd => nomatch hd.intent_eq hi⟩
  | start id =>
    obtain ⟨rfl, r, rfl, hi | ⟨hi, -⟩⟩ := h <;> cases hc
    · exact ⟨rfl, r, rfl, fun hd => nomatch hd.intent_eq hi⟩
    · exact ⟨rfl, r, rfl, fun hd => nomatch hd.intent_eq hi⟩
  | list | stop id | delete id | inspect id | reconcile => cases hc

/-- A deletion is sent for a doomed row or for none. -/
theorem Due.doomed {row : Option Row} (h : Due job x row last (.delete y))
    (hsound : ∀ r, row = some r → r.Sound) : y = x ∧ ∀ r, row = some r → r.Doomed := by
  obtain ⟨rfl, ⟨r, rfl, hi⟩ | ⟨clock, -, hgone⟩⟩ := h
  · refine ⟨rfl, fun r' hr' => ?_⟩
    cases hr'
    exact (hsound r rfl).doomed hi
  · exact ⟨rfl, fun r hr => .inr ⟨(hgone r hr).2, (hgone r hr).1⟩⟩

/-! ### The invariant -/

namespace Buried

variable {w : World ρ}

omit [Inhabited ψ] in
theorem call (h : Buried w) {f : ψ} (due : Due job x (w.row? x) w.last c) :
    Buried (w.called R f c) where
  sound := h.sound
  doomed y row hsent hrow := by
    rcases List.mem_cons.mp hsent with rfl | hsent
    · obtain ⟨rfl, hdoomed⟩ := due.doomed (h.sound x)
      exact hdoomed row hrow
    · exact h.doomed y row hsent hrow
  respects := by
    refine List.pairwise_cons.mpr ⟨fun d hd y hdy hlaunch => ?_, h.respects⟩
    subst hdy
    obtain ⟨rfl, r, hr, hnot⟩ := due.not_launches hlaunch
    exact hnot (h.doomed y r hd hr)

theorem write (h : Buried w) {j : Journal} (hjob : job.Draws w)
    (hw : Write job x w.last w.journal j) : Buried (w.withJournal fun _ => j) where
  sound y row hrow := (hw.changes y).sound (h.sound y) row hrow
  doomed y row hsent hrow := by
    change j.sandboxes.find? y = some row at hrow
    have hchange := hw.changes y
    cases hold : w.journal.sandboxes.find? y with
    | some old =>
      rw [hold] at hchange
      obtain ⟨r, hr, hd⟩ := hchange.doomed (h.doomed y old hsent hold)
      cases hr.symm.trans hrow
      exact hd
    | none =>
      -- The sandbox is new, so nothing was sent for it.
      rw [hold, hrow] at hchange
      cases hchange with
      | create asked drawn listed =>
        subst drawn
        exact absurd rfl (hjob _ _ _ _ asked hold _ hsent)
  respects := h.respects

end Buried

/-- An identifier that was drawn stays unused until its row is there. -/
theorem Job.Draws.move (h : job.Draws w) (hmove : Move R rules job x w w') : job.Draws w' := by
  intro cap n fp key hjob hn c hc hct
  cases hmove with
  | image may => exact h cap n fp key hjob (by rwa [w.row?_image] at hn) c hc hct
  | call may due =>
    rcases List.mem_cons.mp hc with rfl | hc
    · obtain ⟨rfl, hrow | ⟨clock, hsweep⟩⟩ := due.target_row hct
      · exact hrow hn
      · exact nomatch hjob.symm.trans hsweep
    · exact h cap n fp key hjob hn c hc hct
  | write write => exact h cap n fp key hjob (write.find?_eq_none hn) c hc hct

theorem buried_keeps (R : Runtime ρ ψ) : (Setting.fresh : Setting ρ ψ).Keeps R Buried where
  call h _ _ due := h.call due
  write h hjob _ hw := h.write hjob hw
  image {step w} h _ := ⟨fun x row hrow => h.sound x row (by rwa [w.row?_image] at hrow),
    fun x row hsent hrow => h.doomed x row hsent (by rwa [w.row?_image] at hrow), h.respects⟩
  job _ hjob hmove := hjob.move hmove
  done h := ⟨h.sound, h.doomed, h.respects⟩
  die h := ⟨h.sound, h.doomed, h.respects⟩
  configure h _ := ⟨h.sound, h.doomed, h.respects⟩
  builds h _ := ⟨h.sound, h.doomed, h.respects⟩
  drift h _ _ := ⟨h.sound, h.doomed, h.respects⟩

/-- The sandbox exists, and its deletion is pending or done. -/
def World.Doomed (w : World ρ) (x : String) : Prop := ∃ row, w.row? x = some row ∧ row.Doomed

theorem Move.doomed (h : Move R rules job y w w') (hd : w.Doomed x) : w'.Doomed x := by
  obtain ⟨row, hrow, hd⟩ := hd
  have hchange := h.changes x
  rw [hrow] at hchange
  exact hchange.doomed hd

/-- A doomed row stays doomed, whatever happens. -/
theorem doomed_keeps (R : Runtime ρ ψ) (x : String) :
    (Setting.fresh : Setting ρ ψ).Keeps R (World.Doomed · x) where
  call h _ _ _ := h
  write {job y j w} h _ _ hw :=
    have hmove : Move R .any job y w (w.withJournal fun _ => j) := .write hw
    hmove.doomed h
  image {step w} h _ :=
    have hmove : Move R .any .retry x w (w.image step) := .image trivial
    hmove.doomed h
  job _ hjob hmove := hjob.move hmove
  done h := h
  die h := h
  configure h _ := h
  builds h _ := h
  drift h _ _ := h

/-- **No resurrection.**  After a deletion was sent for a sandbox, no request to create or start
it follows; and a sandbox that is deleted shows no other status than `deleting` or `deleted`
from then on. -/
theorem no_resurrection {codec : Codec} {R : Runtime ρ ψ} {init : ρ → Prop} {s : System ρ}
    (hs : s.Reachable codec R .fresh init) :
    (∀ x later earlier, s.world.sent = later ++ .delete x :: earlier →
      ∀ c ∈ later, ¬ c.Launches x) ∧
    ∀ x row, s.world.row? x = some row → row.status = .deleted → row.intent = none →
      ∀ t, System.Later codec R .fresh s t →
        ∃ row', t.world.row? x = some row' ∧ (row'.status = .deleting ∨ row'.status = .deleted) := by
  obtain ⟨hburied, hsettled⟩ := hs.invariant (buried_keeps R) fun s hstart _ => by
    refine ⟨fun x row hrow => ?_, fun x row hsent => ?_, ?_⟩
    · rw [World.row?, hstart.journal] at hrow
      cases hrow
    · rw [hstart.sent] at hsent
      cases hsent
    · rw [hstart.sent]
      exact .nil
  refine ⟨fun x later earlier hsent c hc => ?_, fun x row hrow hstatus hintent t ht => ?_⟩
  · have hrespects := hburied.respects
    rw [hsent, List.pairwise_append] at hrespects
    exact hrespects.2.2 c hc _ (List.mem_cons_self ..) x rfl
  · obtain ⟨⟨row', hrow', hd⟩, -⟩ := ht.invariant (doomed_keeps R x)
      ⟨row, hrow, .inr ⟨hintent, hstatus⟩⟩ hsettled
    exact ⟨row', hrow', hd.imp And.right And.right⟩

theorem draws_requestJob {codec : Codec} {cap : Capacity} {r : Request}
    (h : ∀ c ∈ w.sent, c.target? ≠ some ("sbx_" ++ r.uuid)) :
    (Reliability.requestJob codec cap r w).Draws w := by
  intro cap' n fp key hjob _
  unfold Reliability.requestJob at hjob
  split_ifs at hjob
  obtain ⟨-, rfl, -⟩ := Job.request.inj hjob
  exact h

/-- `DELETE /v1/sandboxes/sbx_1` -/
def Sample.delete : Request := ⟨"DELETE", "/v1/sandboxes/sbx_1", none, none, "2", 0⟩

/-- A create, its deletion, a retry of the create and a sweep. -/
def Sample.deleted : List (Act Containers Fault) :=
  [.boot Sample.capacity true, .request Sample.create [], .request Sample.delete [],
    .request { Sample.create with uuid := "3" } [],
    .reconcile Sample.sweep []]

theorem no_resurrection_deleted :
    (∀ c ∈ [Call.reconcile, .list], ¬ c.Launches "sbx_1") ∧
      ∃ row, (Sample.run Sample.deleted).world.row? "sbx_1" = some row ∧
        (row.status = .deleting ∨ row.status = .deleted) := by
  have hs : (Sample.run Sample.deleted).Reachable Sample.codec Containers.runtime .fresh
      (· = .empty) := Sample.reachable _ ⟨trivial,
    ⟨Adversary.allows_nil _, fun _ _ => draws_requestJob (by decide)⟩,
    ⟨Adversary.allows_nil _, fun _ _ => draws_requestJob (by decide)⟩,
    ⟨Adversary.allows_nil _, fun _ _ => draws_requestJob (by decide)⟩,
    ⟨Adversary.allows_nil _, fun _ _ _ _ h => nomatch h⟩, trivial⟩
  exact ⟨(no_resurrection hs).1 "sbx_1" _ _ rfl,
    (no_resurrection hs).2 "sbx_1" _ rfl rfl rfl _ .refl⟩

end Sandcube
