import Sandcube.Host.Sweep

/-!
# One sweep converges

A host that the API shares with containers it does not know, under any faults.  Rows and
containers still fit (`Hosted`) and deleted sandboxes hold no image (`Owned`), so a sweep in which
nothing fails takes every sandbox to `View.swept`; the rest is a reading of that definition.
-/

namespace Sandcube

/-! ### What a sweep leaves -/

namespace View

variable {v : View} {x : String} {now : Time} {row : Row}

theorem goal_intent (h : (v.goal x).row = some row) : row.intent = none := by
  unfold goal at h
  split at h
  · next hnone => exact nomatch hnone.symm.trans h
  · next r hr =>
    split at h
    · cases h
      rfl
    · next hi =>
      split_ifs at h
      · rwa [← Option.some.inj (hr.symm.trans h)]
      · split at h
        · cases h
          exact hi
        · rwa [← Option.some.inj (hr.symm.trans h)]

/-- Nothing is pending after a sweep. -/
theorem swept_intent (h : (v.swept x now).row = some row) : row.intent = none := by
  unfold swept at h
  split at h
  · next hnone => exact nomatch hnone.symm.trans h
  · next r hr =>
    split_ifs at h with hgone hexp
    · rw [← Option.some.inj (hr.symm.trans h)]
      exact hgone.2
    · exact goal_intent h
    · exact goal_intent h

/-- What has expired is deleted. -/
theorem swept_expired (h : (v.swept x now).row = some row) (hexp : row.Expired now) :
    row.status = .deleted := by
  have hsame := swept_expiresAt v x now
  rw [h] at hsame
  unfold swept at h
  split at h
  · next hnone => exact nomatch hnone.symm.trans h
  · next r hr =>
    rw [hr] at hsame
    have hold : r.Expired now := by
      obtain ⟨t, ht, hle⟩ := hexp
      exact ⟨t, (Option.some.inj hsame).symm.trans ht, hle⟩
    split_ifs at h with hgone
    · rw [← Option.some.inj (hr.symm.trans h)]
      exact hgone.1
    · rw [goal_of_pending x rfl rfl] at h
      cases h
      rfl

/-- The row says how the container is, and a stopped one has no CPU and no memory. -/
def Accurate (v : View) : Prop :=
  ∀ row c, v.row = some row → v.container = some c → row.status ≠ .deleted →
    row.status = (if c.running then .running else .stopped) ∧
      (c.running = false → row.reservedCpu = 0 ∧ row.reservedMemoryMb = 0)

theorem accurate_goal (h : ¬ Gone v.row) : (v.goal x).Accurate := by
  intro row c hrow hc hlive
  unfold goal at hrow hc
  split at hrow
  · next hnone => exact nomatch hnone.symm.trans hrow
  · next r hr =>
    simp only [hr] at hc hrow
    cases hi : r.intent with
    | some action =>
      simp only [hi] at hrow hc
      cases hrow
      cases action with
      | create =>
        cases hc
        exact ⟨rfl, nofun⟩
      | start | restart =>
        obtain ⟨k, -, rfl⟩ := Option.map_eq_some_iff.mp hc
        exact ⟨rfl, nofun⟩
      | stop =>
        obtain ⟨k, -, rfl⟩ := Option.map_eq_some_iff.mp hc
        exact ⟨rfl, fun _ => ⟨rfl, rfl⟩⟩
      | delete => exact absurd rfl hlive
    | none =>
      simp only [hi] at hrow hc
      split_ifs at hrow hc with hdead
      · exact absurd (fun r' hr' => Option.some.inj (hr.symm.trans hr') ▸ ⟨hdead, hi⟩) h
      · cases hk : v.container with
        | none =>
          simp only [hk] at hc
          cases hc
        | some k =>
          simp only [hk] at hrow hc
          cases hrow
          cases hc
          exact ⟨rfl, fun hstopped => by simp [Row.refreshed, hstopped]⟩

theorem accurate_swept : (v.swept x now).Accurate := by
  intro row c hrow hc hlive
  unfold swept at hrow hc
  split at hrow
  · next hnone => exact nomatch hnone.symm.trans hrow
  · next r hr =>
    simp only [hr] at hc hrow
    split_ifs at hrow hc with hgone hexp
    · rw [← Option.some.inj (hr.symm.trans hrow)] at hlive
      exact absurd hgone.1 hlive
    · have hdoomed : ¬ Gone (some r.doomed) := not_gone (.inl nofun)
      exact accurate_goal hdoomed row c hrow hc hlive
    · refine accurate_goal ?_ row c hrow hc hlive
      rw [hr]
      exact fun hg => hgone (hg r rfl)

end View

/-! ### A host with unknown containers -/

/-- The API shares the host: containers that have no row come and go as they like.  Calls may fail
in any way, tasks may stop by themselves, and the process may be killed at any point.  A create
draws an identifier that no container has. -/
def Setting.shared : Setting Containers Fault where
  rules := .internal
  job job w := ∀ cap newId fingerprint key, job = .request cap newId fingerprint key →
    Unclaimed newId w
  drift w runtime := ∀ x, w.row? x ≠ none →
    ∃ ids, runtime.find? x = (w.runtime.find? x).map (Container.exited x ids)

theorem Hosted.drift {w : World Containers} (h : Hosted w) (hlast : w.last = none)
    {runtime : Containers} (hdrift : Setting.shared.drift w runtime) :
    Hosted { w with runtime := runtime } where
  coupled {x row} hrow := by
    obtain ⟨ids, hfind⟩ := hdrift x (by rw [show w.row? x = some row from hrow]; nofun)
    dsimp only
    rw [hfind]
    exact (h.coupled hrow).exit ids
  exact x := by
    dsimp only
    rw [hlast]
    exact .none

theorem shared_keeps :
    Setting.shared.Keeps Containers.runtime fun w => Hosted w ∧ Owned w where
  call h _ _ due := ⟨h.1.call due, h.2⟩
  write h hjob _ hw := ⟨h.1.write hjob hw, h.1.owned_write h.2 hw⟩
  image h hs := ⟨h.1.image _, h.2.image hs⟩
  job _ hjob hmove := fun cap n fp key hj => by
    have hn := hjob cap n fp key hj
    cases hmove with
    | image may => exact hn.image _
    | call may due => exact hn.call due
    | write write => exact hn.write write
  done h := ⟨h.1.forget, h.2⟩
  die h := ⟨h.1.forget, h.2⟩
  configure h _ := ⟨⟨h.1.coupled, h.1.exact⟩, h.2⟩
  builds h _ := ⟨⟨h.1.coupled, h.1.exact⟩, h.2⟩
  drift h hlast hd := ⟨h.1.drift hlast hd, h.2⟩

/-- **One sweep converges.**  From every reachable state, a sweep whose requests are all executed
and answered leaves nothing pending, everything that expired deleted, the rows as the containers
are, no other container, and the reservations and image references that go with them. -/
theorem clean_sweep_converges {codec : Codec} {init : Containers → Prop} {s t : System Containers}
    (hs : s.Reachable codec Containers.runtime .shared init) (hup : s.api ≠ none) (sweep : Sweep)
    {fates : List (Fate (Env Fault))} (hfates : Rules.clean.adversary.Allows fates)
    (ht : t = s.next codec Containers.runtime (.reconcile sweep fates)) :
    (∀ x row, t.world.row? x = some row →
      row.intent = none ∧ (row.Expired (sweep.clock x) → row.status = .deleted)) ∧
    (∀ x row, t.world.row? x = some row → row.status ≠ .deleted →
      ∃ c, t.world.runtime.find? x = some c ∧
        row.status = if c.running then .running else .stopped) ∧
    (∀ x, t.world.runtime.find? x ≠ none ↔
      ∃ row, t.world.row? x = some row ∧ row.status ≠ .deleted) ∧
    (∀ x row, t.world.row? x = some row →
      (row.status = .stopped ∨ row.status = .deleted →
        row.reservedCpu = 0 ∧ row.reservedMemoryMb = 0) ∧
      (row.status = .running →
        row.reservedCpu = row.config.cpu ∧ row.reservedMemoryMb = row.config.memoryMb) ∧
      (row.reservedDiskMb = 0 ↔ row.status = .deleted)) ∧
    ∀ x, (∀ row, t.world.row? x = some row → row.status = .deleted) →
      t.world.journal.sandboxImages.find? x = none := by
  subst ht
  obtain ⟨⟨hhosted, howned⟩, hsettled⟩ := hs.invariant shared_keeps fun _ hstart _ =>
    ⟨.start hstart, .start hstart⟩
  obtain ⟨hfaithful, hview⟩ := next_reconcile_clean codec hup
    (.of_settled hhosted howned hsettled.last) hsettled.last sweep hfates
  generalize s.next codec Containers.runtime (.reconcile sweep fates) = t at hfaithful hview
  -- What the definition of `swept` says about the rows of `t`.
  have hswept : ∀ {x row}, t.world.row? x = some row →
      ((s.world.view x).swept x (sweep.clock x)).row = some row := fun {x _} hrow => by
    rw [← hview x]
    exact hrow
  have hintent : ∀ {x row}, t.world.row? x = some row → row.intent = none := fun hrow =>
    View.swept_intent (hswept hrow)
  have haccurate : ∀ x, (t.world.view x).Accurate := fun x => by
    rw [hview x]
    exact View.accurate_swept
  have hcoupled : ∀ {x row}, t.world.row? x = some row → Coupled x row (t.world.runtime.find? x) :=
    hfaithful.hosted.coupled
  have hpresent : ∀ {x row}, t.world.row? x = some row → row.status ≠ .deleted →
      ∃ c, t.world.runtime.find? x = some c := fun hrow hlive =>
    Option.ne_none_iff_exists'.mp ((hcoupled hrow).present (.inl ⟨hintent hrow, hlive⟩))
  refine ⟨fun x row hrow => ⟨hintent hrow, View.swept_expired (hswept hrow)⟩,
    fun x row hrow hlive => ?_, fun x => ⟨fun hc => ?_, fun ⟨row, hrow, hlive⟩ => ?_⟩,
    fun x row hrow => ⟨fun hstopped => ?_, fun hrunning => ?_, fun hdisk => ?_, fun hdead => ?_⟩,
    fun x hdead => hfaithful.owned x fun row hrow => ⟨hdead row hrow, hintent hrow⟩⟩
  · obtain ⟨c, hc⟩ := hpresent hrow hlive
    exact ⟨c, hc, (haccurate x row c hrow hc hlive).1⟩
  · -- A container without a row is gone, and so is that of a deleted row.
    cases hrow : t.world.row? x with
    | none =>
      refine absurd ?_ hc
      have hnone : (s.world.view x).row = none := by
        have hmap := View.swept_expiresAt (s.world.view x) x (sweep.clock x)
        rw [← hview x, show (t.world.view x).row = none from hrow] at hmap
        simpa using hmap.symm
      have hcontainer := congrArg View.container (hview x)
      simp only [View.swept, hnone] at hcontainer
      exact hcontainer
    | some row =>
      exact ⟨row, rfl, fun hdead => hc ((hcoupled hrow).gone hdead (hintent hrow)).1⟩
  · obtain ⟨c, hc⟩ := hpresent hrow hlive
    simp [hc]
  · by_cases hdead : row.status = .deleted
    · have hzero := ((hcoupled hrow).gone hdead (hintent hrow)).2
      exact ⟨hzero .cpu, hzero .memory⟩
    · obtain ⟨c, hc⟩ := hpresent hrow hdead
      obtain ⟨hstatus, hzero⟩ := haccurate x row c hrow hc hdead
      refine hzero ?_
      rw [hstopped.resolve_right hdead] at hstatus
      by_contra hrun
      simp [hrun] at hstatus
  · have hlive : row.status ≠ .deleted := by simp [hrunning]
    obtain ⟨c, hc⟩ := hpresent hrow hlive
    have hstatus := (haccurate x row c hrow hc hlive).1
    refine (hcoupled hrow).running c hc ?_
    rw [hrunning] at hstatus
    by_contra hstop
    simp [hstop] at hstatus
  · by_contra hlive
    have hretained := (hcoupled hrow).retained (by simp [hintent hrow]) fun h => hlive h.1
    have hpos := row.config.limits.1.1
    omega
  · exact ((hcoupled hrow).gone hdead (hintent hrow)).2 .disk

/-- A container that the journal does not know. -/
def Sample.foreign : Containers :=
  ⟨[("foreign", ⟨⟨"foreign", "busybox", ["sh"], 1, 64, 64, 16⟩, true⟩)], by decide⟩

/-- A create is lost before its effect, and an unknown container appears. -/
def Sample.disturbed : List (Act Containers Fault) :=
  [.boot Sample.capacity true,
    .request Sample.create [.go default, .go default,
      .go ⟨[], ⟨[], some (false, .lost "timeout")⟩⟩],
    .drift Sample.foreign]

theorem clean_sweep_converges_disturbed :
    ((Sample.run Sample.disturbed).next Sample.codec Containers.runtime
        (.reconcile Sample.sweep [])).world.runtime.find? "foreign" ≠ none ↔
      ∃ row, ((Sample.run Sample.disturbed).next Sample.codec Containers.runtime
        (.reconcile Sample.sweep [])).world.row? "foreign" = some row ∧ row.status ≠ .deleted := by
  have hs : (Sample.run Sample.disturbed).Reachable Sample.codec Containers.runtime .shared
      (· = .empty) := by
    refine Sample.reachable _ ⟨trivial, ⟨?_, fun _ _ _ _ _ _ _ => fun _ => rfl⟩, fun x hx => ?_,
      trivial⟩
    · simp [Adversary.Allows, Rules.adversary, Rules.Permits, Setting.shared, Rules.internal, default]
    · refine ⟨[], ?_⟩
      by_cases hforeign : x = "foreign"
      · subst hforeign
        exact absurd rfl hx
      · have hnone : Sample.foreign.find? x = none := by
          simp [Sample.foreign, Table.find?, List.lookup, beq_eq_false_iff_ne.mpr hforeign]
        rw [hnone]
        rfl
  exact (clean_sweep_converges hs (by decide) _ (Adversary.allows_nil _) rfl).2.2.1 "foreign"

end Sandcube
