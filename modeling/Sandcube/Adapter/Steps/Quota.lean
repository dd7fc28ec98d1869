import Sandcube.Adapter.Moves

/-!
# The steps of the quota programs

`prepareQuota` claims a project before it sets limits on it, and `reclaimQuota` gives it up after
the directory is gone, the charges are zero and the limits are cleared.  Both work on sandboxes
that have no container.
-/

open Relation

namespace Sandcube.Adapter

variable {host : Host} {May : Back → Prop} {scope : Scope} {id : String} {r : QuotaRecord}
variable {P : World → Prop} {spec : Spec}

/-! ### Rules -/

theorem runs_quotaEffect {kind : Kind} {f : Quota → Quota} {Q : Unit → World → Prop}
    (hscope : scope kind id) (hP : Steady host May P)
    (hmove : ∀ w, P w → QuotaMove host w id kind (w.withQuota f))
    (hok : ∀ w, P w → Q () (w.withQuota f)) :
    Runs host May scope P (quotaEffect host f) Q unknown :=
  does_effect (Move.isOpen scope) hP (fun w hw => .single (.quota hscope (hmove w hw))) hok
    (fun _ _ _ => trivial) (fun _ _ _ => trivial)

/-- A call of containerd about containers and snapshots. -/
theorem runs_quotaCall {kind : Kind} {f : World → Except Err Unit × World} {Q : Unit → World → Prop}
    {R : Err → World → Prop} (hscope : scope kind id) (hP : Steady host May P)
    (hmove : ∀ w, P w → QuotaMove host w id kind (f w).2)
    (hok : ∀ w, P w → (f w).1 = .ok () → Q () (f w).2)
    (herr : ∀ w e, P w → (f w).1 = .error e → R e (f w).2)
    (hlost : ∀ message w, P w → R (.other message) w)
    (hlate : ∀ message w, P w → R (.other message) (f w).2) :
    Runs host May scope P (call host fun _ w => f w) Q R :=
  does_call (Move.isOpen scope) hP (fun _ w hw => .single (.quota hscope (hmove w hw)))
    (fun _ w _ hw h => hok w hw h) (fun _ w e hw h => herr w e hw h) hlost
    (fun message _ w hw => hlate message w hw)

/-- An assertion about what no background step changes in containerd and the quota objects. -/
theorem steady_quota
    (F : Table String Container → Table String Snapshot → (ℕ → Amount) → Table String QuotaRecord →
      Prop) :
    Steady host May fun w =>
      F w.containerd.containers w.containerd.snapshots w.quota.limits w.quota.journals := by
  refine .of_beside fun w w' h hw => ?_
  rw [h.containers, h.snapshots, h.limits, h.journals]
  exact hw

/-- There is no container of the sandbox. -/
abbrev World.Absent (w : World) (id : String) : Prop := w.containerd.containers.find? id = none

/-- The sandbox has no container, and its journal is this. -/
abbrev Journalled (id : String) (r : Option QuotaRecord) (w : World) : Prop :=
  w.Absent id ∧ w.quota.journals.find? id = r

theorem steady_journalled {r : Option QuotaRecord} : Steady host May (Journalled id r) :=
  steady_quota fun containers _ _ journals => containers.find? id = none ∧ journals.find? id = r

theorem steady_snapped {number : ℕ} : Steady host May (World.Snapped · id number) :=
  steady_quota fun _ snapshots _ _ => ∃ s, snapshots.find? id = some s ∧ s.number = number

/-! ### Paths of snapshots -/

theorem parseUint32_repr {n project : ℕ} (h : parseUint32 (Nat.repr n) = some project) :
    project = n := by
  unfold parseUint32 at h
  split_ifs at h
  rw [Nat.toList_repr, Nat.ofDigitChars_ten_toDigits] at h
  exact (Option.some.inj h).symm

/-- What `snapshotQuotaPath` makes of the mounts of a snapshot. -/
theorem snapshotQuotaPath_mounts {number project : ℕ} {parent : Path}
    (h : snapshotQuotaPath (host.mounts number) = .ok (parent, project)) :
    project = number ∧ project ≠ 0 ∧ parent.absolute = true ∧
      parseUint32 parent.base = some project := by
  have hupper : ((host.mounts number).filter (·.type = "overlay")).findSome?
      (fun m => m.options.lookup "upperdir") =
      some ⟨true, host.snapshots ++ [Nat.repr number, "fs"]⟩ := rfl
  have hdir : Path.dir ⟨true, host.snapshots ++ [Nat.repr number, "fs"]⟩ =
      ⟨true, host.snapshots ++ [Nat.repr number]⟩ := by
    simp [Path.dir]
  have hbase : Path.base ⟨true, host.snapshots ++ [Nat.repr number]⟩ = Nat.repr number := by
    simp [Path.base]
  unfold snapshotQuotaPath at h
  rw [hupper] at h
  dsimp only at h
  rw [hdir, hbase] at h
  cases hparse : parseUint32 (Nat.repr number) with
  | none => rw [hparse] at h; cases h
  | some project' =>
    rw [hparse] at h
    dsimp only at h
    split_ifs at h with hbad
    obtain ⟨rfl, rfl⟩ := Prod.mk.inj (Except.ok.inj h)
    push Not at hbad
    exact ⟨parseUint32_repr hparse, hbad.1, rfl, by rw [hbase]; exact hparse⟩

/-! ### Claiming -/

/-- The sandbox has no container yet, and its journal names the project of its snapshot. -/
structure Claimed (id : String) (r : QuotaRecord) (w : World) : Prop where
  absent : w.containerd.containers.find? id = none
  claimed : w.quota.journals.find? id = some r
  snapshot : w.Snapped id r.project

/-- The limits are set, too. -/
structure Limited (id : String) (r : QuotaRecord) (w : World) : Prop extends Claimed id r w where
  limited : w.quota.limits r.project = limitsFor r.diskMb

theorem steady_claimed : Steady host May (Claimed id r) := by
  intro w b hb hw
  obtain ⟨habsent, hclaimed⟩ := steady_journalled w b hb ⟨hw.absent, hw.claimed⟩
  exact ⟨habsent, hclaimed, steady_snapped w b hb hw.snapshot⟩

theorem steady_limited : Steady host May (Limited id r) := by
  have h : Steady host May fun w : World => w.quota.limits r.project = limitsFor r.diskMb :=
    steady_quota fun _ _ limits _ => limits r.project = limitsFor r.diskMb
  exact fun w b hb hw => ⟨steady_claimed w b hb hw.toClaimed, h w b hb hw.limited⟩

theorem setAttr_frame (project : ℕ) (sub : String) (q : Quota) :
    (q.setAttr project sub).2.limits = q.limits ∧ (q.setAttr project sub).2.journals = q.journals := by
  unfold Quota.setAttr
  split_ifs <;> exact ⟨rfl, rfl⟩

theorem runs_assignQuota (hscope : scope .create id)
    (hbounds : 16 ≤ r.diskMb ∧ r.diskMb ≤ 1048576) :
    Runs host May scope (Claimed id r) (assignQuota host r.project (limitsFor r.diskMb))
      (fun _ => Limited id r) unknown := by
  unfold assignQuota
  refine .bind (K := fun _ => Limited id r) (runs_quotaEffect hscope steady_claimed ?_ ?_) fun _ =>
    .forEach (I := fun _ => Limited id r) fun sub rest _ => ?_
  · exact fun w hw => .limit hw.absent hw.claimed hw.snapshot hbounds
  · exact fun w hw => ⟨⟨hw.absent, hw.claimed, hw.snapshot⟩, if_pos rfl⟩
  have hmove : ∀ w, Limited id r w → Limited id r (w.withQuota fun _ =>
      (Quota.setAttr r.project sub w.quota).2) := by
    intro w hw
    obtain ⟨hlimits, hjournals⟩ := setAttr_frame r.project sub w.quota
    refine ⟨⟨hw.absent, ?_, hw.snapshot⟩, ?_⟩
    · rw [World.withQuota, hjournals]; exact hw.claimed
    · rw [World.withQuota, hlimits]; exact hw.limited
  exact does_call (Move.isOpen scope) steady_limited
    (fun _ w hw => .single (.quota hscope (.mark r.project sub)))
    (fun _ w _ hw _ => hmove w hw) (fun _ _ _ _ _ => trivial) (fun _ _ _ => trivial)
    (fun _ _ _ _ => trivial)

/-- A check of the quota of an existing container changes nothing. -/
theorem runs_enforceQuota_check (hP : Steady host May P) (ms : List Mount) (diskMb : ℤ) :
    Runs host May scope P (enforceQuota host ms diskMb false) (fun _ => P) unknown := by
  unfold enforceQuota
  split_ifs
  · exact .raise fun _ _ => trivial
  refine .bind (K := fun _ => P) (.ofExcept (fun _ _ _ hw => hw) fun _ _ _ _ => trivial) fun path => ?_
  refine .bind (K := fun _ => P) (runs_ask hP fun _ _ hw _ => hw) fun _ => ?_
  refine .bind (K := fun _ => P) (.when (fun h => absurd h Bool.false_ne_true) fun _ _ hw => hw)
    fun _ => ?_
  refine .bind (K := fun _ => P) (runs_ask hP fun _ _ hw _ => hw) fun limits => ?_
  split
  split_ifs
  · exact .forEach (I := fun _ => P) fun _ _ _ => runs_ask hP fun _ _ hw _ => hw
  · exact .raise fun _ _ => trivial

theorem runs_prepareQuota (hscope : scope .create id) (number : ℕ) (diskMb : ℤ) :
    Runs host May scope (fun w => Journalled id none w ∧ w.Snapped id number)
      (prepareQuota host id diskMb (host.mounts number))
      (fun _ w => ∃ r : QuotaRecord, r.diskMb = diskMb ∧ (16 ≤ r.diskMb ∧ r.diskMb ≤ 1048576) ∧
        Limited id r w) unknown := by
  have hstart : Steady host May fun w => Journalled id none w ∧ w.Snapped id number :=
    steady_journalled.and steady_snapped
  unfold prepareQuota
  refine .bind (K := fun path w => (Journalled id none w ∧ w.Snapped id number) ∧
      snapshotQuotaPath (host.mounts number) = .ok path)
    (.ofExcept (fun _ _ hpath hw => ⟨hw, hpath⟩) fun _ _ _ _ => trivial) fun ⟨parent, project⟩ => ?_
  refine .assuming (fun _ hw => hw.2) fun hpath => ?_
  refine .conseq ?_ (fun _ hw => hw.1) (fun _ _ hw => hw) (fun _ _ hw => hw)
  obtain ⟨hproject, -, -, -⟩ := snapshotQuotaPath_mounts hpath
  refine .bind (runs_ask hstart fun _ _ hw _ => hw) fun _ => ?_
  refine .bind (runs_ask hstart fun _ _ hw _ => hw) fun _ => ?_
  refine .bind (K := fun _ => Claimed id ⟨id, parent, project, diskMb⟩)
    (runs_quotaEffect hscope hstart ?_ ?_) fun _ => ?_
  · exact fun w hw => .claim diskMb hw.1.1 hw.1.2 hw.2 hpath
  · intro w hw
    refine ⟨hw.1.1, Table.find?_put_self _ _ _, ?_⟩
    rw [hproject]
    exact hw.2
  -- From here on the limits of the claimed project are set.
  unfold enforceQuota
  split_ifs with hbad
  · exact .raise fun _ _ => trivial
  push Not at hbad
  rw [hpath]
  have hkeep : ∀ w, Limited id ⟨id, parent, project, diskMb⟩ w →
      ∃ r : QuotaRecord, r.diskMb = diskMb ∧ (16 ≤ r.diskMb ∧ r.diskMb ≤ 1048576) ∧
        Limited id r w :=
    fun w hw => ⟨⟨id, parent, project, diskMb⟩, rfl, hbad, hw⟩
  refine .bind (K := fun path w => path = (parent, project) ∧
      Claimed id ⟨id, parent, project, diskMb⟩ w)
    (.ofExcept (fun _ _ hpath hw => ⟨(Except.ok.inj hpath).symm, hw⟩) fun _ _ _ _ => trivial)
    fun path => ?_
  refine .assuming (fun _ hw => hw.1) fun hpath => ?_
  subst hpath
  refine .conseq ?_ (fun _ hw => hw.2) (fun _ _ hw => hw) (fun _ _ hw => hw)
  refine .bind (K := fun _ => Claimed id ⟨id, parent, project, diskMb⟩)
    (runs_ask steady_claimed fun _ _ hw _ => hw) fun _ => ?_
  refine .bind (K := fun _ => Limited id ⟨id, parent, project, diskMb⟩)
    (.when (fun _ => runs_assignQuota hscope hbad) fun h => absurd rfl h) fun _ => ?_
  refine .bind (K := fun _ => Limited id ⟨id, parent, project, diskMb⟩)
    (runs_ask steady_limited fun _ _ hw _ => hw) fun limits => ?_
  split
  split_ifs
  · refine .conseq (.forEach (I := fun _ => Limited id ⟨id, parent, project, diskMb⟩)
      fun _ _ _ => runs_ask steady_limited fun _ _ hw _ => hw) (fun _ hw => hw)
      (fun _ w hw => hkeep w hw) (fun _ _ hw => hw)
  · exact .raise fun _ _ => trivial

theorem runs_checkQuota (hP : Steady host May P) :
    Runs host May scope P (checkQuota host id) (fun _ => P) unknown := by
  unfold checkQuota
  refine .bind (K := fun _ => P) (runs_ask hP fun _ _ hw _ => hw) fun c => ?_
  refine .bind (K := fun _ => P) (runs_ask hP fun _ _ hw _ => hw) fun number => ?_
  exact runs_enforceQuota_check hP _ _

/-! ### Reclaiming -/

/-- The directory of a project is gone, and nothing is charged to it. -/
structure World.Vacant (w : World) (project : ℕ) : Prop where
  gone : project ∉ w.quota.directories
  unused : w.quota.usage project = .zero

theorem steady_vacant (project : ℕ) : Steady host May (World.Vacant · project) :=
  .of_beside fun _ _ h hw =>
    ⟨fun hn => hw.gone (h.directory project hn), h.usage project hw.gone hw.unused⟩

theorem runs_awaitReclaimed (hP : Steady host May P) (project polls : ℕ) :
    Runs host May scope P (awaitReclaimed host project polls)
      (fun _ w => P w ∧ w.Vacant project) unknown := by
  induction polls with
  | zero => exact .raise fun _ _ => trivial
  | succ polls ih =>
    have hgone : ∀ there, Steady host May fun w =>
        P w ∧ (there = false → project ∉ w.quota.directories) := by
      intro there
      refine hP.and (.of_beside fun w w' h hw hthere hn => ?_)
      exact hw hthere (h.directory project hn)
    unfold awaitReclaimed
    refine .bind (K := fun there w => P w ∧ (there = false → project ∉ w.quota.directories))
      (runs_ask hP ?_) fun there => ?_
    · intro w there hw hthere
      obtain rfl := Except.ok.inj hthere
      exact ⟨hw, fun hno => of_decide_eq_false hno⟩
    refine .bind (K := fun got w => (P w ∧ (there = false → project ∉ w.quota.directories)) ∧
      got.2 = w.quota.usage project) (runs_ask (hgone there) ?_) fun got => ?_
    · intro w got hw hgot
      unfold Quota.get at hgot
      split_ifs at hgot
      rw [← Except.ok.inj hgot]
      exact ⟨hw, rfl⟩
    obtain ⟨limits, usage⟩ := got
    dsimp only
    split_ifs with hfree
    · exact .pure fun w hw => ⟨hw.1.1, hw.1.2 hfree.1, hw.2.symm.trans hfree.2⟩
    · exact ih.pre (fun _ hw => hw.1.1)

theorem runs_reclaim (hscope : scope .quota id) (polls : ℕ) :
    Runs host May scope (Journalled id (some r)) (reclaim host id r polls)
      (fun _ => Journalled id none) unknown := by
  have hvacant : Steady host May fun w => Journalled id (some r) w ∧ w.Vacant r.project :=
    steady_journalled.and (steady_vacant r.project)
  have hcleared : Steady host May fun w => (Journalled id (some r) w ∧ w.Vacant r.project) ∧
      w.quota.limits r.project = .zero :=
    hvacant.and (steady_quota fun _ _ limits _ => limits r.project = .zero)
  unfold reclaim
  refine .bind (runs_ask steady_journalled fun _ _ hw _ => hw) fun _ => ?_
  refine .bind (K := fun _ => Journalled id (some r)) ?_ fun _ => ?_
  · exact does_effect (Move.isOpen scope) steady_journalled
      (fun _ _ => .single (.quota hscope .cleanup)) (fun _ hw => hw) (fun _ _ _ => trivial)
      (fun _ _ _ => trivial)
  refine .bind (runs_awaitReclaimed steady_journalled r.project (polls + 1)) fun _ => ?_
  refine .bind (runs_quotaEffect hscope hvacant ?_ ?_) fun _ =>
    runs_quotaEffect hscope hcleared ?_ ?_
  · exact fun w hw => .unlimit hw.1.1 hw.1.2 hw.2.gone hw.2.unused
  · exact fun w hw => ⟨⟨hw.1, hw.2.gone, hw.2.unused⟩, if_pos rfl⟩
  · exact fun w hw => .release hw.1.1.1 hw.1.1.2 hw.1.2.gone hw.1.2.unused hw.2
  · exact fun w hw => ⟨hw.1.1.1, Table.find?_erase_self _ _⟩

theorem steady_absent : Steady host May (World.Absent · id) :=
  steady_quota fun containers _ _ _ => containers.find? id = none

theorem runs_reclaimQuota (hscope : scope .quota id) (polls : ℕ) :
    Runs host May scope (World.Absent · id) (reclaimQuota host id polls)
      (fun _ => Journalled id none) unknown := by
  unfold reclaimQuota
  refine .bind (K := Journalled id) (runs_ask steady_absent ?_) fun found => ?_
  · exact fun w found hw hfound => ⟨hw, Except.ok.inj hfound⟩
  cases found with
  | none => exact .pure fun w hw => hw
  | some r =>
    dsimp only
    split_ifs
    · exact runs_reclaim hscope polls
    · exact .raise fun _ _ => trivial

theorem runs_reconcileQuota (hscope : scope .quota id) (polls : ℕ) :
    Runs host May scope (fun _ => True) (reconcileQuota host polls id) (fun _ _ => True) unknown := by
  unfold reconcileQuota
  split_ifs
  · refine .bind (K := fun there w => there = false → w.Absent id)
      (runs_ask .trivial ?_) fun container => ?_
    · intro w there _ hthere hno
      obtain rfl := Except.ok.inj hthere
      exact Option.isNone_iff_eq_none.mp (by simpa using hno)
    have hsteady : Steady host May fun w : World => container = false → w.Absent id :=
      steady_quota fun containers _ _ _ => container = false → containers.find? id = none
    refine .bind (runs_ask hsteady fun _ _ hw _ => hw) fun snapshot => ?_
    split_ifs with hthere
    · exact .pure fun _ _ => trivial
    · refine (runs_reclaimQuota hscope polls).conseq (fun w hw => hw ?_) (fun _ _ _ => trivial)
        (fun _ _ _ => trivial)
      exact Bool.eq_false_iff.mpr fun h => hthere (.inl h)
  · exact .raise fun _ _ => trivial

theorem runs_reconcileQuotas (hscope : ∀ id, scope .quota id) (polls : ℕ) :
    Runs host May scope (fun _ => True) (reconcileQuotas host polls) (fun _ _ => True) unknown :=
  .bind (runs_ask .trivial fun _ _ _ _ => trivial) fun _ =>
    .forEach (I := fun _ _ => True) fun id _ _ => runs_reconcileQuota (hscope id) polls

/-! ### Snapshots and containers -/

theorem steady_labelled {key : String} : Steady host May (World.Labelled · key) :=
  steady_quota fun _ snapshots _ _ => ∀ s, snapshots.find? key = some s → s.managed = true

/-- A labelled snapshot goes, or is gone. -/
theorem runs_removeLabelled (hscope : scope .drop id) :
    Runs host May scope (fun w => w.Absent id ∧ w.Labelled id)
      (call host fun _ w => w.removeSnapshot id)
      (fun _ w => w.Absent id ∧ w.Unlabelled id)
      (fun e w => e = .notFound → w.Absent id ∧ w.Unlabelled id) := by
  have hgone : ∀ w : World, w.Absent id →
      (w.removeSnapshot id).2.Absent id ∧ (w.removeSnapshot id).2.Unlabelled id := by
    intro w hw
    rw [World.removeSnapshot_eq]
    refine ⟨hw, fun s hs => ?_⟩
    dsimp only at hs
    rw [Table.find?_erase_self] at hs
    cases hs
  exact runs_quotaCall hscope (steady_absent.and steady_labelled) (fun _ hw => .removeSnapshot hw.2)
    (fun w hw _ => hgone w hw.1) (fun w _ hw _ _ => hgone w hw.1) (fun _ _ _ => nofun)
    fun _ _ _ => nofun

theorem runs_clearSnapshot (hscope : scope .drop id) (strict : Bool) :
    Runs host May scope (World.Absent · id) (clearSnapshot host id strict)
      (fun _ w => w.Absent id ∧ w.Unlabelled id) unknown := by
  unfold clearSnapshot
  refine .bind (K := fun found w => w.Absent id ∧
    w.containerd.snapshots.find? id = found) (runs_ask steady_absent ?_) fun found => ?_
  · exact fun w found hw hfound => ⟨hw, Except.ok.inj hfound⟩
  cases found with
  | none =>
    refine .pure fun w hw => ⟨hw.1, fun s hs => ?_⟩
    rw [hw.2] at hs
    cases hs
  | some snapshot =>
    have hfound : ∀ w : World, w.containerd.snapshots.find? id = some snapshot →
        ∀ s, w.containerd.snapshots.find? id = some s → s.managed = snapshot.managed := by
      intro w hw s hs
      rw [hw] at hs
      rw [← Option.some.inj hs]
    dsimp only
    by_cases hmanaged : snapshot.managed = true
    · rw [if_pos hmanaged]
      have hstart : ∀ w : World, w.Absent id ∧ w.containerd.snapshots.find? id = some snapshot →
          w.Absent id ∧ w.Labelled id :=
        fun w hw => ⟨hw.1, fun s hs => (hfound w hw.2 s hs).trans hmanaged⟩
      split_ifs
      · exact (runs_removeLabelled hscope).conseq hstart (fun _ _ hw => hw) fun _ _ _ => trivial
      · exact does_ifNotFound ((runs_removeLabelled hscope).conseq hstart (fun _ _ hw => hw)
          fun _ _ hw => hw) (.pure fun _ hw => hw rfl) fun _ _ _ _ => trivial
    · rw [if_neg hmanaged]
      exact .pure fun w hw =>
        ⟨hw.1, fun s hs => (hfound w hw.2 s hs).trans (Bool.not_eq_true _ ▸ hmanaged)⟩

theorem runs_furnish (hscope : scope .create spec.id) :
    Runs host May scope (Journalled spec.id none) (furnish host spec) (fun _ _ => True)
      unknown := by
  have hend : Steady host May fun w : World => ∃ r : QuotaRecord, r.diskMb = spec.diskMb ∧
      (16 ≤ r.diskMb ∧ r.diskMb ≤ 1048576) ∧ Limited spec.id r w := by
    rintro w b hb ⟨r, hdisk, hbounds, hw⟩
    exact ⟨r, hdisk, hbounds, steady_limited w b hb hw⟩
  unfold furnish
  refine .bind (K := fun number w => Journalled spec.id none w ∧ w.Snapped spec.id number)
    (runs_ask steady_journalled ?_) fun number => ?_
  · intro w number hw hnumber
    cases hs : w.containerd.snapshots.find? spec.id with
    | none => rw [hs] at hnumber; cases hnumber
    | some s =>
      rw [hs] at hnumber
      exact ⟨hw, s, hs, Except.ok.inj hnumber⟩
  refine .bind (runs_prepareQuota hscope number spec.diskMb) fun _ => ?_
  refine .bind (runs_ask hend fun _ _ hw _ => hw) fun _ => ?_
  refine runs_quotaCall hscope hend ?_ (fun _ _ _ => trivial) (fun _ _ _ _ => trivial)
    (fun _ _ _ => trivial) (fun _ _ _ => trivial)
  rintro w ⟨r, hdisk, hbounds, hw⟩
  rw [← hdisk]
  exact .commit hw.claimed hw.snapshot hbounds hw.limited

theorem runs_newContainer (hcreate : scope .create spec.id) (hdrop : scope .drop spec.id) :
    Runs host May scope (Journalled spec.id none) (newContainer host spec) (fun _ _ => True)
      unknown := by
  have hprepared : ∀ w : World, (w.prepareSnapshot spec.id).2.containerd.containers =
      w.containerd.containers ∧ (w.prepareSnapshot spec.id).2.quota.journals = w.quota.journals := by
    intro w
    unfold World.prepareSnapshot
    split <;> exact ⟨rfl, rfl⟩
  unfold newContainer
  refine .bind (K := fun _ w => Journalled spec.id none w ∧ w.Labelled spec.id) (runs_quotaCall
    hcreate steady_journalled ?_ ?_ (fun _ _ _ _ => trivial) (fun _ _ _ => trivial)
      (fun _ _ _ => trivial)) fun _ => ?_
  · exact fun w hw => .prepareSnapshot hw.1 hw.2
  · intro w hw hok
    obtain ⟨hcontainers, hjournals⟩ := hprepared w
    rw [Journalled, World.Absent, hcontainers, hjournals]
    refine ⟨hw, fun s hs => ?_⟩
    unfold World.prepareSnapshot at hok hs
    cases hfound : w.containerd.snapshots.find? spec.id with
    | some s' => rw [hfound] at hok; cases hok
    | none =>
      rw [hfound] at hs
      dsimp only at hs
      rw [Table.find?_put_self] at hs
      rw [← Option.some.inj hs, Snapshot.managed_mk]
  -- The rollback removes what this call has made.
  refine .rescue (((runs_furnish hcreate).keep fun _ _ hw hm => hm.labelled hw).conseq
    (fun _ hw => hw) (fun _ _ _ => trivial) fun _ _ hw => hw.2) fun e => ?_
  refine .bind (K := fun _ _ => True) (does_ignoring (E := unknown) (runs_quotaCall hdrop
    steady_labelled (fun _ hw => .removeSnapshot hw) (fun _ _ _ => trivial) (fun _ _ _ _ => trivial)
    (fun _ _ _ => trivial) fun _ _ _ => trivial) fun _ _ _ => trivial) fun _ =>
    .raise fun _ _ => trivial

theorem runs_loadContainer (hP : Steady host May P) :
    Runs host May scope P (optional (loadContainer host id))
      (fun found w => P w ∧ (found = none → w.Absent id)) unknown := by
  refine runs_optional hP (fun w a hw _ => ⟨hw, nofun⟩) fun w hw he => ⟨hw, fun _ => ?_⟩
  cases hc : w.containerd.containers.find? id with
  | none => exact hc
  | some c => rw [hc] at he; cases he

theorem runs_load (hP : Steady host May P) :
    Runs host May scope P (optional (load host id))
      (fun found w => P w ∧ w.managed? id = found) unknown := by
  refine runs_optional hP (fun w c hw he => ⟨hw, ?_⟩) fun w hw he => ⟨hw, ?_⟩
  · cases hc : w.managed? id with
    | none => rw [hc] at he; cases he
    | some c' => rw [hc] at he; rw [Except.ok.inj he]
  · cases hc : w.managed? id with
    | none => rfl
    | some c' => rw [hc] at he; cases he

theorem runs_create (hcreate : scope .create spec.id) (hdrop : scope .drop spec.id)
    (hquota : scope .quota spec.id) (polls : ℕ) :
    Runs host May scope (fun _ => True) (create host spec polls) (fun _ _ => True) unknown := by
  unfold create
  refine .bind (K := fun _ _ => True) ((runs_load .trivial).post
    (fun _ _ _ => trivial)) fun found => ?_
  cases found with
  | some c =>
    dsimp only
    split_ifs
    · exact runs_ask .trivial fun _ _ _ _ => trivial
    · exact .raise fun _ _ => trivial
  | none =>
    refine .bind (runs_loadContainer .trivial) fun other => ?_
    cases other with
    | some c => exact .raise fun _ _ => trivial
    | none =>
      refine .conseq ?_ (fun w hw => hw.2 rfl) (fun _ _ hw => hw) (fun _ _ hw => hw)
      refine .bind ((runs_clearSnapshot hdrop true).post fun _ _ hw => hw.1) fun _ => ?_
      refine .bind (runs_reclaimQuota hquota polls) fun _ => ?_
      refine .bind (runs_ask steady_journalled fun _ _ hw _ => hw) fun _ => ?_
      exact .bind (runs_newContainer hcreate hdrop) fun _ => .pure fun _ _ => trivial

end Sandcube.Adapter
