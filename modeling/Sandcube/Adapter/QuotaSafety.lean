import Sandcube.Adapter.System

/-!
# Quotas have owners

Every project with limits is named by a journal, and the journal goes only when the directory is
gone, nothing is charged and the limits are cleared.  Snapshot numbers are not used twice, so a
project that is given up stays empty (`Dead`).
-/

open Relation

namespace Sandcube.Adapter

variable {host : Host} {id : String} {w w' : World}
variable {r : QuotaRecord} {kind : Kind} {May : Back → Prop} {scope : Scope} {S : Setting}

/-- What holds of snapshots, limits and journals in every reachable state. -/
structure Owning (w : World) : Prop where
  numbered : ∀ key s, w.containerd.snapshots.find? key = some s → s.number ∈ w.quota.directories
  bounded : ∀ n ∈ w.quota.directories, n < w.containerd.nextSnapshot
  distinct : ∀ key key' s s', w.containerd.snapshots.find? key = some s →
    w.containerd.snapshots.find? key' = some s' → s.number = s'.number → key = key'
  journal : ∀ id r, w.quota.journals.find? id = some r →
    r.Valid id ∧ r.project < w.containerd.nextSnapshot
  /-- The project of a journal is the number of no other snapshot. -/
  owner : ∀ id r key s, w.quota.journals.find? id = some r →
    w.containerd.snapshots.find? key = some s → s.number = r.project → key = id
  unique : ∀ id id' r r', w.quota.journals.find? id = some r →
    w.quota.journals.find? id' = some r' → r.project = r'.project → id = id'
  limited : ∀ p, w.quota.limits p ≠ .zero →
    ∃ id r, w.quota.journals.find? id = some r ∧ r.project = p
  container : ∀ id c, w.managed? id = some c →
    c.snapshotKey = id ∧ ∃ r, w.quota.journals.find? id = some r ∧
      w.quota.limits r.project = limitsFor c.diskMb ∧
      ∀ s, w.containerd.snapshots.find? id = some s → s.number = r.project

theorem Init.unmanaged (h : Init w) (id : String) : w.managed? id = none := by
  unfold World.managed?
  cases hc : w.containerd.containers.find? id with
  | none => rfl
  | some c => simp [Option.filter, h.foreign id c hc]

theorem Init.owning (h : Init w) : Owning w := by
  have hjournals := h.unclaimed
  constructor
  · exact h.numbered
  · exact h.bounded
  · exact fun key key' s s' hs hs' => h.distinct key key' s hs s' hs'
  · intro id r hr; rw [hjournals] at hr; cases hr
  · intro id r key s hr; rw [hjournals] at hr; cases hr
  · intro id id' r r' hr; rw [hjournals] at hr; cases hr
  · exact fun p hp => absurd (h.unlimited p) hp
  · intro id c hc; rw [h.unmanaged] at hc; cases hc

/-! ### Moves that only take away -/

/-- Containers, snapshots and unused directories may go. -/
theorem Owning.shrink (h : Owning w)
    (hmanaged : ∀ id c, w'.managed? id = some c → w.managed? id = some c)
    (hsnapshots : ∀ key s, w'.containerd.snapshots.find? key = some s →
      w.containerd.snapshots.find? key = some s)
    (hnext : w'.containerd.nextSnapshot = w.containerd.nextSnapshot)
    (hdirectories : ∀ n ∈ w'.quota.directories, n ∈ w.quota.directories)
    (hused : ∀ key s, w'.containerd.snapshots.find? key = some s →
      s.number ∈ w.quota.directories → s.number ∈ w'.quota.directories)
    (hlimits : w'.quota.limits = w.quota.limits)
    (hjournals : w'.quota.journals = w.quota.journals) : Owning w' := by
  constructor
  · exact fun key s hs => hused key s hs (h.numbered key s (hsnapshots key s hs))
  · rw [hnext]; exact fun n hn => h.bounded n (hdirectories n hn)
  · exact fun key key' s s' hs hs' =>
      h.distinct key key' s s' (hsnapshots key s hs) (hsnapshots key' s' hs')
  · rw [hjournals, hnext]; exact h.journal
  · rw [hjournals]; exact fun id r key s hr hs => h.owner id r key s hr (hsnapshots key s hs)
  · rw [hjournals]; exact h.unique
  · rw [hjournals, hlimits]; exact h.limited
  · intro id c hc
    obtain ⟨hkey, r, hr, hlimit, hnumber⟩ := h.container id c (hmanaged id c hc)
    rw [hjournals, hlimits]
    exact ⟨hkey, r, hr, hlimit, fun s hs => hnumber s (hsnapshots id s hs)⟩

theorem Aside.owning (ha : Aside w w') (h : Owning w) : Owning w' := by
  refine h.shrink ?_ ?_ ha.nextSnapshot ?_ ?_ ?_ ?_
  · intro id c hc; rw [World.managed?, ha.containers] at hc; exact hc
  · rw [ha.snapshots]; exact fun _ _ hs => hs
  · rw [ha.quota]; exact fun _ hn => hn
  · rw [ha.quota]; exact fun _ _ _ hn => hn
  · rw [ha.quota]
  · rw [ha.quota]

theorem World.inUse_of_find? {c : Containerd} {key : String} {s : Snapshot}
    (h : c.snapshots.find? key = some s) : World.inUse c s.number = true := by
  unfold inUse
  rw [List.any_eq_true]
  exact ⟨(key, s), (Table.find?_eq_some_iff_mem _ _ _).mp h, decide_eq_true rfl⟩

theorem Beside.owning (hb : Beside host w w') (h : Owning w) : Owning w' := by
  refine h.shrink ?_ ?_ hb.nextSnapshot hb.directory ?_ hb.limits hb.journals
  · intro id c hc; rw [World.managed?, hb.containers] at hc; exact hc
  · rw [hb.snapshots]; exact fun _ _ hs => hs
  · rw [hb.snapshots]
    exact fun key s hs hn => hb.inUse s.number hn (World.inUse_of_find? hs)

theorem EraseMove.owning (move : EraseMove w id w') (h : Owning w) : Owning w' := by
  obtain ⟨-, -, -, rfl⟩ := move.inv
  refine h.shrink (fun id' c hc => ?_) (fun _ _ hs => hs) rfl (fun _ hn => hn)
    (fun _ _ _ hn => hn) rfl rfl
  unfold World.managed? at hc ⊢
  obtain ⟨hc, hmanaged⟩ := Option.filter_eq_some_iff.mp hc
  exact Option.filter_eq_some_iff.mpr ⟨Table.find?_of_find?_erase hc, hmanaged⟩

theorem TaskMove.owning (move : TaskMove host w id w') (h : Owning w) : Owning w' := by
  obtain ⟨_, _, _, -, rfl⟩ := move.frame
  exact h.shrink (fun _ _ hc => hc) (fun _ _ hs => hs) rfl (fun _ hn => hn) (fun _ _ _ hn => hn)
    rfl rfl

/-! ### The moves of quotas -/

theorem Quota.setAttr_eq (q : Quota) (project : ℕ) (sub : String) :
    ∃ attributes, (q.setAttr project sub).2 = { q with attributes := attributes } := by
  unfold Quota.setAttr
  by_cases hthere : project ∈ q.directories
  · exact ⟨_, by rw [if_pos hthere]⟩
  · exact ⟨q.attributes, by rw [if_neg hthere]⟩

section QuotaMoves

variable (h : Owning w)

include h

/-- A container with the journal `r` is not the one whose project changes. -/
theorem Owning.project_ne {r' : QuotaRecord} {id' : String}
    (hr : w.quota.journals.find? id = some r) (hr' : w.quota.journals.find? id' = some r')
    (hne : id' ≠ id) : r'.project ≠ r.project :=
  fun heq => hne (h.unique id' id r' r hr' hr heq)

theorem Owning.prepareSnapshot (habsent : w.containerd.containers.find? id = none) :
    Owning (w.prepareSnapshot id).2 := by
  unfold World.prepareSnapshot
  split
  · exact h
  · next hfree =>
    have hsnap : ∀ {key s}, (w.containerd.snapshots.put id ⟨"true", w.containerd.nextSnapshot⟩).find?
        key = some s → key = id ∧ s.number = w.containerd.nextSnapshot ∨
          w.containerd.snapshots.find? key = some s := by
      intro key s hs
      rw [Table.find?_put] at hs
      split_ifs at hs with hkey
      · exact .inl ⟨hkey, by rw [← Option.some.inj hs]⟩
      · exact .inr hs
    have hlt : ∀ {key s}, w.containerd.snapshots.find? key = some s →
        s.number < w.containerd.nextSnapshot :=
      fun hs => h.bounded _ (h.numbered _ _ hs)
    constructor
    · intro key s hs
      rcases hsnap hs with ⟨-, hnew⟩ | hold
      · rw [hnew]; exact List.mem_cons_self
      · exact List.mem_cons_of_mem _ (h.numbered key s hold)
    · intro n hn
      rcases List.mem_cons.mp hn with rfl | hn
      · exact Nat.lt_succ_self _
      · exact Nat.lt_succ_of_lt (h.bounded n hn)
    · intro key key' s s' hs hs' heq
      rcases hsnap hs with ⟨rfl, hnew⟩ | hold <;> rcases hsnap hs' with ⟨rfl, hnew'⟩ | hold'
      · rfl
      · have := hlt hold'; omega
      · have := hlt hold; omega
      · exact h.distinct key key' s s' hold hold' heq
    · intro id' r hr
      obtain ⟨hvalid, hbound⟩ := h.journal id' r hr
      exact ⟨hvalid, Nat.lt_succ_of_lt hbound⟩
    · intro id' r key s hr hs heq
      have hbound := (h.journal id' r hr).2
      rcases hsnap hs with ⟨-, hnew⟩ | hold
      · omega
      · exact h.owner id' r key s hr hold heq
    · exact h.unique
    · exact h.limited
    · intro id' c hc
      obtain ⟨hkey, r, hr, hlimit, hnumber⟩ := h.container id' c hc
      refine ⟨hkey, r, hr, hlimit, fun s hs => ?_⟩
      rcases hsnap hs with ⟨rfl, -⟩ | hold
      · unfold World.managed? at hc
        dsimp only at hc
        rw [habsent] at hc
        cases hc
      · exact hnumber s hold

/-- The journal is written before the limits are set. -/
theorem Owning.claim {parent : Path} {number project : ℕ} (diskMb : ℤ)
    (habsent : w.containerd.containers.find? id = none)
    (hunclaimed : w.quota.journals.find? id = none) (hsnapped : w.Snapped id number)
    (hpath : snapshotQuotaPath (host.mounts number) = .ok (parent, project)) :
    Owning (w.withQuota fun q =>
      { q with journals := q.journals.put id ⟨id, parent, project, diskMb⟩ }) := by
  obtain ⟨rfl, hzero, habsolute, hparse⟩ := snapshotQuotaPath_mounts hpath
  obtain ⟨s₀, hs₀, hnumber₀⟩ := hsnapped
  have hold : ∀ {id' r}, (w.quota.journals.put id ⟨id, parent, project, diskMb⟩).find? id' = some r →
      id' = id ∧ r = ⟨id, parent, project, diskMb⟩ ∨ w.quota.journals.find? id' = some r := by
    intro id' r hr
    rw [Table.find?_put] at hr
    split_ifs at hr with hid
    · exact .inl ⟨hid, (Option.some.inj hr).symm⟩
    · exact .inr hr
  have hkept : ∀ {id' r}, w.quota.journals.find? id' = some r →
      (w.quota.journals.put id ⟨id, parent, project, diskMb⟩).find? id' = some r := by
    intro id' r hr
    rw [Table.find?_put_of_ne]
    · exact hr
    · rintro rfl
      rw [hunclaimed] at hr
      cases hr
  -- No other journal names the project: its snapshot is the one of the sandbox.
  have hother : ∀ {id' r}, w.quota.journals.find? id' = some r → r.project = project → id' = id :=
    fun hr heq => (h.owner _ _ id s₀ hr hs₀ (hnumber₀.trans heq.symm)).symm
  unfold World.withQuota
  constructor
  · exact h.numbered
  · exact h.bounded
  · exact h.distinct
  · intro id' r hr
    rcases hold hr with ⟨rfl, rfl⟩ | hr
    · refine ⟨⟨rfl, habsolute, hzero, hparse⟩, ?_⟩
      rw [← hnumber₀]
      exact h.bounded _ (h.numbered _ _ hs₀)
    · exact h.journal id' r hr
  · intro id' r key s hr hs heq
    rcases hold hr with ⟨rfl, rfl⟩ | hr
    · exact h.distinct key id' s s₀ hs hs₀ (heq.trans hnumber₀.symm)
    · exact h.owner id' r key s hr hs heq
  · intro id' id'' r r' hr hr' heq
    rcases hold hr with ⟨rfl, rfl⟩ | hkeep <;> rcases hold hr' with ⟨rfl, rfl⟩ | hkeep'
    · rfl
    · exact (hother hkeep' heq.symm).symm
    · exact hother hkeep heq
    · exact h.unique id' id'' r r' hkeep hkeep' heq
  · intro p hp
    obtain ⟨id', r, hr, hproject⟩ := h.limited p hp
    exact ⟨id', r, hkept hr, hproject⟩
  · intro id' c hc
    obtain ⟨hkey, r, hr, hlimit, hnumber⟩ := h.container id' c hc
    exact ⟨hkey, r, hkept hr, hlimit, hnumber⟩

/-- The limits of a project change while its sandbox has no container. -/
theorem Owning.setLimits (habsent : w.containerd.containers.find? id = none)
    (hclaimed : w.quota.journals.find? id = some r) (amount : Amount) :
    Owning (w.withQuota (Quota.setLimits r.project amount)) := by
  unfold World.withQuota
  refine { h with limited := fun p hp => ?_, container := fun id' c hc => ?_ }
  · by_cases heq : p = r.project
    · exact ⟨id, r, hclaimed, heq.symm⟩
    · unfold Quota.setLimits at hp
      dsimp only at hp
      rw [if_neg heq] at hp
      exact h.limited p hp
  · obtain ⟨hkey, r', hr', hlimit, hnumber⟩ := h.container id' c hc
    refine ⟨hkey, r', hr', ?_, hnumber⟩
    have hne : id' ≠ id := by
      rintro rfl
      unfold World.managed? at hc
      dsimp only at hc
      rw [habsent] at hc
      cases hc
    unfold Quota.setLimits
    dsimp only
    rw [if_neg (h.project_ne hclaimed hr' hne)]
    exact hlimit

theorem Owning.commit {config : String} (hclaimed : w.quota.journals.find? id = some r)
    (hsnapped : w.Snapped id r.project) (hlimited : w.quota.limits r.project = limitsFor r.diskMb) :
    Owning (w.commitContainer id ⟨"true", runtimeName, config, r.diskMb, id⟩).2 := by
  unfold World.commitContainer
  split
  · exact h
  · refine { h with container := fun id' c hc => ?_ }
    unfold World.managed? at hc
    dsimp only at hc
    rw [Table.find?_put] at hc
    split_ifs at hc with hid
    · obtain rfl := hid
      obtain rfl := Option.some.inj (Option.filter_eq_some_iff.mp hc).1
      obtain ⟨s, hs, hnumber⟩ := hsnapped
      refine ⟨rfl, r, hclaimed, hlimited, fun s' hs' => ?_⟩
      dsimp only at hs'
      rw [hs] at hs'
      rw [← Option.some.inj hs', hnumber]
    · exact h.container id' c hc

/-- The journal goes last, when its project has no limits any more. -/
theorem Owning.release {r : QuotaRecord} (habsent : w.containerd.containers.find? id = none)
    (hclaimed : w.quota.journals.find? id = some r)
    (hunlimited : w.quota.limits r.project = .zero) :
    Owning (w.withQuota fun q => { q with journals := q.journals.erase id }) := by
  have hold : ∀ {id' r'}, (w.quota.journals.erase id).find? id' = some r' →
      w.quota.journals.find? id' = some r' := fun hr => Table.find?_of_find?_erase hr
  have hkept : ∀ {id' r'}, id' ≠ id → w.quota.journals.find? id' = some r' →
      (w.quota.journals.erase id).find? id' = some r' := by
    intro id' r' hne hr'
    rw [Table.find?_erase_of_ne _ hne]
    exact hr'
  unfold World.withQuota
  constructor
  · exact h.numbered
  · exact h.bounded
  · exact h.distinct
  · exact fun id' r' hr' => h.journal id' r' (hold hr')
  · exact fun id' r' key s hr' => h.owner id' r' key s (hold hr')
  · exact fun id' id'' r' r'' hr' hr'' => h.unique id' id'' r' r'' (hold hr') (hold hr'')
  · intro p hp
    obtain ⟨id', r', hr', rfl⟩ := h.limited p hp
    refine ⟨id', r', hkept ?_ hr', rfl⟩
    rintro rfl
    rw [hclaimed] at hr'
    obtain rfl := Option.some.inj hr'
    exact hp hunlimited
  · intro id' c hc
    obtain ⟨hkey, r', hr', hlimit, hnumber⟩ := h.container id' c hc
    refine ⟨hkey, r', hkept ?_ hr', hlimit, hnumber⟩
    rintro rfl
    unfold World.managed? at hc
    dsimp only at hc
    rw [habsent] at hc
    cases hc

end QuotaMoves

theorem QuotaMove.owning (move : QuotaMove host w id kind w') (h : Owning w) : Owning w' := by
  cases move with
  | prepareSnapshot absent unclaimed => exact h.prepareSnapshot absent
  | removeSnapshot | dropSnapshot =>
    rw [World.removeSnapshot_eq]
    exact h.shrink (fun _ _ hc => hc) (fun _ _ hs => Table.find?_of_find?_erase hs) rfl
      (fun _ hn => hn) (fun _ _ _ hn => hn) rfl rfl
  | claim diskMb absent unclaimed snapshot path =>
    exact h.claim diskMb absent unclaimed snapshot path
  | limit absent claimed snapshot bounds => exact h.setLimits absent claimed _
  | mark project sub =>
    obtain ⟨attributes, hmark⟩ := w.quota.setAttr_eq project sub
    unfold World.withQuota
    dsimp only
    rw [hmark]
    exact h.shrink (fun _ _ hc => hc) (fun _ _ hs => hs) rfl (fun _ hn => hn) (fun _ _ _ hn => hn)
      rfl rfl
  | commit claimed snapshot bounds limited => exact h.commit claimed snapshot limited
  | cleanup =>
    refine h.shrink (fun _ _ hc => hc) (fun _ _ hs => hs) rfl
      (fun n hn => List.mem_of_mem_filter hn) (fun key s hs hn => ?_) rfl rfl
    exact List.mem_filter.mpr ⟨hn, World.inUse_of_find? hs⟩
  | unlimit absent claimed gone unused => exact h.setLimits absent claimed _
  | release absent claimed gone unused unlimited => exact h.release absent claimed unlimited

theorem Move.owning (h : Owning w) (hm : Move host May scope w w') : Owning w' := by
  cases hm with
  | back may => exact Beside.owning (.back _) h
  | net inScope move =>
    exact h.shrink (fun _ _ hc => hc) (fun _ _ hs => hs) rfl (fun _ hn => hn) (fun _ _ _ hn => hn)
      rfl rfl
  | quota inScope move | erase inScope move | task inScope move => exact move.owning h
  | register inScope move | start inScope move | forget inScope move | boot inScope move =>
    exact move.aside.owning h

theorem Owning.die (h : Owning w) : Owning w.die :=
  h.shrink (fun _ _ hc => hc) (fun _ _ hs => hs) rfl (fun _ hn => hn) (fun _ _ _ hn => hn) rfl rfl

theorem Reachable.owning (h : Reachable S w) : Owning w :=
  h.induct (fun _ hw => hw.owning) (fun _ hw => hw.die) fun _ _ hw hm => hm.owning hw

/-! ### Projects that were given up -/

/-- The number was used, and nothing of its storage remains. -/
structure Dead (p : ℕ) (w : World) : Prop where
  spent : p < w.containerd.nextSnapshot
  gone : p ∉ w.quota.directories
  unused : w.quota.usage p = .zero
  unlimited : w.quota.limits p = .zero

section Dead

variable {p : ℕ}

theorem Dead.congr (h : Dead p w) (hnext : w'.containerd.nextSnapshot = w.containerd.nextSnapshot)
    (hquota : w'.quota = w.quota) : Dead p w' := by
  refine ⟨?_, ?_, ?_, ?_⟩
  · rw [hnext]; exact h.spent
  · rw [hquota]; exact h.gone
  · rw [hquota]; exact h.unused
  · rw [hquota]; exact h.unlimited

theorem Beside.dead (hb : Beside host w w') (h : Dead p w) : Dead p w' := by
  refine ⟨?_, fun hp => h.gone (hb.directory p hp), hb.usage p h.gone h.unused, ?_⟩
  · rw [hb.nextSnapshot]; exact h.spent
  · rw [hb.limits]; exact h.unlimited

theorem QuotaMove.dead (move : QuotaMove host w id kind w') (hown : Owning w) (h : Dead p w) :
    Dead p w' := by
  cases move with
  | prepareSnapshot absent unclaimed =>
    unfold World.prepareSnapshot
    split
    · exact h
    · refine ⟨Nat.lt_succ_of_lt h.spent, fun hp => ?_, h.unused, h.unlimited⟩
      -- The new number was never used.
      rcases List.mem_cons.mp hp with heq | hp
      · exact absurd h.spent (by rw [heq]; exact Nat.lt_irrefl _)
      · exact h.gone hp
  | removeSnapshot | dropSnapshot => rw [World.removeSnapshot_eq]; exact h.congr rfl rfl
  | claim => exact ⟨h.spent, h.gone, h.unused, h.unlimited⟩
  | limit absent claimed snapshot bounds =>
    obtain ⟨s, hs, hnumber⟩ := snapshot
    have hdirectory := hown.numbered id s hs
    refine ⟨h.spent, h.gone, h.unused, ?_⟩
    unfold World.withQuota Quota.setLimits
    dsimp only
    rw [if_neg]
    · exact h.unlimited
    · rintro rfl
      exact h.gone (hnumber ▸ hdirectory)
  | mark project sub =>
    obtain ⟨attributes, hmark⟩ := w.quota.setAttr_eq project sub
    unfold World.withQuota
    dsimp only
    rw [hmark]
    exact ⟨h.spent, h.gone, h.unused, h.unlimited⟩
  | commit =>
    unfold World.commitContainer
    split <;> exact h.congr rfl rfl
  | cleanup => exact ⟨h.spent, fun hp => h.gone (List.mem_of_mem_filter hp), h.unused, h.unlimited⟩
  | unlimit absent claimed gone unused =>
    refine ⟨h.spent, h.gone, h.unused, ?_⟩
    unfold World.withQuota Quota.setLimits
    dsimp only
    split_ifs
    · rfl
    · exact h.unlimited
  | release => exact ⟨h.spent, h.gone, h.unused, h.unlimited⟩

/-- A project that was given up stays empty. -/
theorem Move.dead (hown : Owning w) (h : Dead p w) (hm : Move host May scope w w') : Dead p w' := by
  cases hm with
  | back may => exact Beside.dead (.back _) h
  | net inScope move => exact h.congr rfl rfl
  | quota inScope move => exact move.dead hown h
  | erase inScope move =>
    obtain ⟨-, -, -, rfl⟩ := move.inv
    exact h.congr rfl rfl
  | task inScope move =>
    obtain ⟨_, _, _, -, rfl⟩ := move.frame
    exact h.congr rfl rfl
  | register inScope move | start inScope move | forget inScope move | boot inScope move =>
    exact h.congr move.aside.nextSnapshot move.aside.quota

end Dead

/-! ### Journals -/

section Journals

variable {r : QuotaRecord}

/-- A journal goes when its project is given up. -/
theorem QuotaMove.journal_or_dead {id' : String} (move : QuotaMove host w id' kind w')
    (h : Owning w) (hr : w.quota.journals.find? id = some r) :
    w'.quota.journals.find? id = some r ∨ Dead r.project w' := by
  cases move with
  | prepareSnapshot absent unclaimed =>
    unfold World.prepareSnapshot
    split <;> exact .inl hr
  | removeSnapshot | dropSnapshot => rw [World.removeSnapshot_eq]; exact .inl hr
  | claim diskMb absent unclaimed snapshot path =>
    left
    unfold World.withQuota
    dsimp only
    rw [Table.find?_put_of_ne]
    · exact hr
    · rintro rfl
      rw [unclaimed] at hr
      cases hr
  | limit | cleanup | unlimit => exact .inl hr
  | mark project sub =>
    obtain ⟨attributes, hmark⟩ := w.quota.setAttr_eq project sub
    unfold World.withQuota
    dsimp only
    rw [hmark]
    exact .inl hr
  | commit => unfold World.commitContainer; split <;> exact .inl hr
  | release absent claimed gone unused unlimited =>
    by_cases hid : id = id'
    · subst hid
      rw [hr] at claimed
      obtain rfl := Option.some.inj claimed
      exact .inr ⟨(h.journal id r hr).2, gone, unused, unlimited⟩
    · left
      unfold World.withQuota
      dsimp only
      rw [Table.find?_erase_of_ne _ hid]
      exact hr

theorem Move.journal_or_dead (h : Owning w) (hr : w.quota.journals.find? id = some r)
    (hm : Move host May scope w w') : w'.quota.journals.find? id = some r ∨ Dead r.project w' := by
  cases hm with
  | back may =>
    left
    rw [Beside.journals (.back _ : Beside host w _)]
    exact hr
  | net inScope move => exact .inl hr
  | quota inScope move => exact move.journal_or_dead h hr
  | erase inScope move =>
    obtain ⟨-, -, -, rfl⟩ := move.inv
    exact .inl hr
  | task inScope move => left; rw [move.containers_eq.2]; exact hr
  | register inScope move | start inScope move | forget inScope move | boot inScope move =>
    left; rw [move.aside.quota]; exact hr

/-- Over a whole run: the journal is still there, or its project was given up. -/
theorem Setting.Later.journal_or_dead (hw : Reachable S w) (h : S.Later w w')
    (hr : w.quota.journals.find? id = some r) :
    w'.quota.journals.find? id = some r ∨ Dead r.project w' := by
  suffices hboth : Owning w' ∧
      (w'.quota.journals.find? id = some r ∨ Dead r.project w') from hboth.2
  refine Setting.Later.induct
    (I := fun v => Owning v ∧ (v.quota.journals.find? id = some r ∨ Dead r.project v))
    ?_ ?_ hw.standing h ⟨hw.owning, .inl hr⟩
  · rintro v ⟨hown, hv⟩
    exact ⟨hown.die, hv.imp (fun hr => hr) fun hd => hd.congr rfl rfl⟩
  · rintro v v' ⟨hown, hv⟩ hm
    refine ⟨hm.owning hown, ?_⟩
    rcases hv with hv | hv
    · exact hm.journal_or_dead hown hv
    · exact .inr (hm.dead hown hv)

end Journals

/-! ### The result -/

/-- A `Delete` that returns leaves neither the container nor the journal. -/
theorem gone_of_delete (hw : Reachable S w) {polls : ℕ} {fates : List (Fate Env)}
    (ha : S.Ok w (.request (.delete id polls) fates))
    (hok : (delete S.host id polls w fates).outcome = .ok ()) :
    Gone id (delete S.host id polls w fates).state := by
  obtain ⟨-, -, -, -, hfates⟩ := ha
  obtain ⟨-, hcleared⟩ := (runs_deleted id polls _).ok hfates ⟨hw.standing.rest, rfl⟩ hok
  exact hcleared.toGone

theorem Setting.Later.of_request {r : Request} {fates : List (Fate Env)}
    (ha : S.Ok w (.request r fates)) (hok : (r.run S.host w fates).outcome = .ok ()) :
    S.Later w (r.run S.host w fates).state := by
  refine .single ⟨_, ha, ?_⟩
  simp only [next, hok]

/-- **Quotas have owners and storage is given back.**  A managed container has the limits of its
configuration on the project of its snapshot, which its journal names.  A project with limits is
named by a journal, and every journal is valid.  A journal is removed or overwritten only when the
directory of its project is gone, nothing is charged and the limits are cleared.  So a `Delete`
returns without an error only when nothing that quotas were enforced on remains. -/
theorem quota_owned_and_reclaimed {S : Setting} (hw : Reachable S w) (id : String) :
    (∀ c, w.managed? id = some c → ∃ r, w.quota.journals.find? id = some r ∧
      w.quota.limits r.project = ⟨c.diskMb.toNat * 2048, c.diskMb.toNat * 256⟩ ∧
      ∀ s, w.containerd.snapshots.find? c.snapshotKey = some s → s.number = r.project) ∧
    (∀ p, w.quota.limits p ≠ .zero →
      ∃ id r, w.quota.journals.find? id = some r ∧ r.Valid id ∧ r.project = p) ∧
    (∀ r, w.quota.journals.find? id = some r → r.Valid id ∧
      ∀ w', S.Later w w' → w'.quota.journals.find? id ≠ some r → Dead r.project w') ∧
    ∀ polls fates, S.Ok w (.request (.delete id polls) fates) →
      (delete S.host id polls w fates).outcome = .ok () →
      Gone id (delete S.host id polls w fates).state ∧
      (∀ s, (delete S.host id polls w fates).state.containerd.snapshots.find? id = some s →
        (delete S.host id polls w fates).state.quota.limits s.number = .zero) ∧
      ∀ w₀ r, Reachable S w₀ → S.Later w₀ w → w₀.quota.journals.find? id = some r →
        Dead r.project (delete S.host id polls w fates).state := by
  have h := hw.owning
  refine ⟨fun c hc => ?_, fun p hp => ?_, fun r hr => ⟨(h.journal id r hr).1, ?_⟩, ?_⟩
  · obtain ⟨hkey, r, hr, hlimits, hnumber⟩ := h.container id c hc
    exact ⟨r, hr, hlimits, hkey.symm ▸ hnumber⟩
  · obtain ⟨id', r, hr, hproject⟩ := h.limited p hp
    exact ⟨id', r, hr, (h.journal id' r hr).1, hproject⟩
  · exact fun w' hlater hgone => (hlater.journal_or_dead hw hr).resolve_left hgone
  · intro polls fates ha hok
    have hgone := gone_of_delete hw ha hok
    have hlater : S.Later w (delete S.host id polls w fates).state :=
      Setting.Later.of_request (r := .delete id polls) ha hok
    refine ⟨hgone, fun s hs => ?_, fun w₀ r hw₀ hlater₀ hr => ?_⟩
    · by_contra hlimits
      have hown := Reachable.owning (hw.later hlater)
      obtain ⟨id', r, hr, hproject⟩ := hown.limited s.number hlimits
      obtain rfl := hown.owner id' r id s hr hs hproject.symm
      rw [hgone.unclaimed] at hr
      cases hr
    · have hall : S.Later w₀ (delete S.host id polls w fates).state := hlater₀.trans hlater
      refine (hall.journal_or_dead hw₀ hr).resolve_left ?_
      rw [hgone.unclaimed]
      exact nofun

/-- The start of the adapter, then a sandbox that is created. -/
def createdActs : List Act := [.boot 1 [], .request (.create (sampleSpec "sbx_a") 1) []]

/-- The limits of a sandbox that was created, and what a `Delete` leaves of it. -/
theorem quota_owned_and_reclaimed_created :
    (∃ r, (runFrom .plain createdActs).quota.journals.find? "sbx_a" = some r ∧
      (runFrom .plain createdActs).quota.limits r.project = ⟨32768, 4096⟩) ∧
    (delete .plain "sbx_a" 1 (runFrom .plain createdActs) []).outcome = .ok () ∧
    Dead 1 (delete .plain "sbx_a" 1 (runFrom .plain createdActs) []).state := by
  have hreach : Reachable (.of .plain (fun _ => true) fun _ => true) (runFrom .plain createdActs) :=
    reachable_run (by decide +kernel)
  have hmanaged : ((runFrom .plain createdActs).managed? "sbx_a").map Container.diskMb = some 16 := by
    decide +kernel
  have hok : (delete .plain "sbx_a" 1 (runFrom .plain createdActs) []).outcome = .ok () := by
    decide +kernel
  have hproject : ((runFrom .plain createdActs).quota.journals.find? "sbx_a").map
      QuotaRecord.project = some 1 := by
    decide +kernel
  obtain ⟨hcontainer, -, -, hdelete⟩ := quota_owned_and_reclaimed hreach "sbx_a"
  obtain ⟨c, hc, hdisk⟩ := Option.map_eq_some_iff.mp hmanaged
  obtain ⟨r, hr, hlimits, -⟩ := hcontainer c hc
  rw [hdisk] at hlimits
  refine ⟨⟨r, hr, hlimits⟩, hok, ?_⟩
  have hdead := (hdelete 1 [] (ok_of_allowedAct (by decide +kernel)) hok).2.2 _ r hreach
    .refl hr
  rw [hr] at hproject
  exact Option.some.inj hproject ▸ hdead

end Sandcube.Adapter
