import Sandcube.Adapter.NetworkSafety

/-!
# What belongs to others

The adapter shares its namespace of containerd.  A container is its own by label and runtime, a
snapshot by its label; what is not its own may have any identifier and key, also those of its
sandboxes.  Nothing here starts from a host on which the adapter was alone: every inventory will do.
-/

open Relation

namespace Sandcube.Adapter

variable {host : Host} {May : Back → Prop} {scope : Scope} {id : String} {w w' : World}
variable {c : Container} {status : Option TaskStatus} {id' : String}

/-! ### Containers of others -/

/-- The task is the same, or has ended by itself. -/
def TaskKept (status status' : Option TaskStatus) : Prop :=
  status' = status ∨ status = some .running ∧ status' = some .stopped

theorem TaskKept.trans {a b c : Option TaskStatus} (h : TaskKept a b) (h' : TaskKept b c) :
    TaskKept a c := by
  rcases h with rfl | ⟨rfl, rfl⟩
  · exact h'
  · rcases h' with rfl | ⟨h', -⟩
    · exact .inr ⟨rfl, rfl⟩
    · cases h'

/-- The container and its task are as they were. -/
structure Untouched (id : String) (c : Container) (status : Option TaskStatus) (w : World) :
    Prop where
  record : w.containerd.containers.find? id = some c
  task : TaskKept status (w.containerd.tasks.find? id)

theorem Untouched.unmanaged (h : Untouched id c status w) (hforeign : c.managed = false) :
    w.managed? id = none := by
  unfold World.managed?
  rw [h.record]
  simp [hforeign]

theorem Untouched.congr (h : Untouched id c status w)
    (hcontainers : w'.containerd.containers.find? id = w.containerd.containers.find? id)
    (htasks : w'.containerd.tasks.find? id = w.containerd.tasks.find? id) :
    Untouched id c status w' :=
  ⟨hcontainers.trans h.record, htasks ▸ h.task⟩

theorem Aside.untouched (ha : Aside w w') (h : Untouched id c status w) :
    Untouched id c status w' :=
  h.congr (by rw [ha.containers]) (by rw [ha.tasks])

theorem QuotaMove.untouched {kind : Kind} (move : QuotaMove host w id' kind w')
    (h : Untouched id c status w) : Untouched id c status w' := by
  refine h.congr ?_ ?_
  swap
  · obtain ⟨_, _, _, _, rfl⟩ := move.frame
    rfl
  cases move with
  | commit =>
    unfold World.commitContainer
    split
    · rfl
    · next hnone =>
      rw [Table.find?_put_of_ne]
      rintro rfl
      rw [h.record] at hnone
      cases hnone
  | prepareSnapshot => unfold World.prepareSnapshot; split <;> rfl
  | removeSnapshot | dropSnapshot => rw [World.removeSnapshot_eq]
  | claim | limit | mark | cleanup | unlimit | release => rfl

theorem TaskMove.tasks_of_ne (move : TaskMove host w id' w') (hne : id ≠ id') :
    w'.containerd.tasks.find? id = w.containerd.tasks.find? id := by
  cases move with
  | new =>
    unfold World.newTask
    split
    · rfl
    · rfl
    · exact Table.find?_put_of_ne _ hne _
  | start =>
    unfold World.startTask
    split
    · exact Table.find?_modify_of_ne _ hne _
    · rfl
    · rfl
  | remove | removeSettled => rw [World.tasks_removeTask, Table.find?_erase_of_ne _ hne]

theorem TaskMove.managed (move : TaskMove host w id' w') : (w.managed? id').isSome := by
  cases move <;> assumption

/-- No move touches a container of someone else. -/
theorem Move.untouched (hm : Move host May scope w w') (hforeign : c.managed = false)
    (h : Untouched id c status w) : Untouched id c status w' := by
  have hother : ∀ {id'}, (w.managed? id').isSome → id ≠ id' := by
    rintro id' hmanaged rfl
    rw [h.unmanaged hforeign] at hmanaged
    cases hmanaged
  cases hm with
  | @back b may =>
    have hbeside : Beside host w (w.back host b) := .back b
    exact ⟨hbeside.containers ▸ h.record, h.task.trans (hbeside.tasks id)⟩
  | net inScope move => exact h.congr rfl rfl
  | quota inScope move => exact move.untouched h
  | erase inScope move =>
    obtain ⟨-, -, managed, rfl⟩ := move.inv
    exact h.congr (Table.find?_erase_of_ne _ (hother managed)) rfl
  | task inScope move =>
    exact h.congr (by rw [move.containers_eq.1]) (move.tasks_of_ne (hother move.managed))
  | register inScope move | start inScope move | forget inScope move | boot inScope move =>
    exact move.aside.untouched h

/-! ### Snapshots of others -/

section Snapshots

variable {key : String} {s : Snapshot}

/-- A snapshot without the label goes with the container it belongs to, or not at all. -/
theorem Move.snapshot_kept (hm : Move host May scope w w')
    (hs : w.containerd.snapshots.find? key = some s) (hforeign : s.managed = false) :
    w'.containerd.snapshots.find? key = some s ∨
      ∃ id c, scope .erase id ∧ w.managed? id = some c ∧ c.snapshotKey = key := by
  have haside : ∀ {w'}, Aside w w' → w'.containerd.snapshots.find? key = some s :=
    fun h => h.snapshots ▸ hs
  cases hm with
  | @back b may => exact .inl ((Beside.back b : Beside host w _).snapshots ▸ hs)
  | net inScope move => exact .inl hs
  | task inScope move => exact .inl (move.snapshots_eq ▸ hs)
  | register inScope move | start inScope move | forget inScope move | boot inScope move =>
    exact .inl (haside move.aside)
  | erase inScope move =>
    obtain ⟨-, -, -, rfl⟩ := move.inv
    exact .inl hs
  | @quota kind id w' inScope move =>
    cases move with
    | prepareSnapshot =>
      left
      unfold World.prepareSnapshot
      split
      · exact hs
      · next hnone =>
        dsimp only
        rw [Table.find?_put_of_ne]
        · exact hs
        · rintro rfl
          rw [hs] at hnone
          cases hnone
    | removeSnapshot labelled =>
      left
      have hne : key ≠ id := by
        rintro rfl
        rw [labelled s hs] at hforeign
        cases hforeign
      rw [World.removeSnapshot_eq]
      exact (Table.find?_erase_of_ne _ hne).trans hs
    | @dropSnapshot c managed =>
      by_cases hkey : c.snapshotKey = key
      · exact .inr ⟨id, c, inScope, managed, hkey⟩
      · left
        rw [World.removeSnapshot_eq]
        exact (Table.find?_erase_of_ne _ (Ne.symm hkey)).trans hs
    | commit => unfold World.commitContainer; split <;> exact .inl hs
    | claim | limit | mark | cleanup | unlimit | release => exact .inl hs

theorem managed_of_sub (h : w'.containerd.containers.Sub w.containerd.containers)
    (hc : w'.managed? id = some c) : w.managed? id = some c := by
  unfold World.managed? at hc ⊢
  obtain ⟨hfind, hmanaged⟩ := Option.filter_eq_some_iff.mp hc
  exact Option.filter_eq_some_iff.mpr ⟨h id c hfind, hmanaged⟩

/-- One step of the system removes such a snapshot only as part of a `Delete` of the managed
container it belongs to. -/
theorem Setting.Ok.snapshot_kept {S : Setting} {a : Act} (hw : Standing w) (ha : S.Ok w a)
    (hs : w.containerd.snapshots.find? key = some s) (hforeign : s.managed = false) :
    (next S.host w a).containerd.snapshots.find? key = some s ∨
      ∃ id polls fates c, a = .request (.delete id polls) fates ∧ w.managed? id = some c ∧
        c.snapshotKey = key := by
  obtain ⟨w', hsteps, hnext⟩ := ha.chain hw
  have hkept : (w'.containerd.snapshots.find? key = some s ∨
      ∃ id polls fates c, a = .request (.delete id polls) fates ∧ w.managed? id = some c ∧
        c.snapshotKey = key) ∧
      ∀ id polls fates, a = .request (.delete id polls) fates →
        w'.containerd.containers.Sub w.containerd.containers := by
    clear hnext
    induction hsteps with
    | refl => exact ⟨.inl hs, fun _ _ _ _ => .refl _⟩
    | @tail v v' _ hm ih =>
      obtain ⟨hsnapshot, hsub⟩ := ih
      refine ⟨?_, fun id polls fates hact => ?_⟩
      · rcases hsnapshot with hsnapshot | hdelete
        · refine (hm.snapshot_kept hsnapshot hforeign).imp_right ?_
          rintro ⟨id, c, hscope, hmanaged, hkey⟩
          obtain ⟨polls, fates, rfl⟩ := Act.erase_scope hscope
          exact ⟨id, polls, fates, c, rfl, managed_of_sub (hsub id polls fates rfl) hmanaged, hkey⟩
        · exact .inr hdelete
      · -- A `Delete` makes no container.
        have hwaning := hm.waning (by subst hact; exact Scope.wanes_onKinds (by decide))
        exact fun id' c hc => hsub id polls fates hact id' c (hwaning.containers id' c hc)
  rcases hnext with hnext | ⟨hnext, -⟩ <;> rw [hnext] <;> exact hkept.1

end Snapshots

/-! ### What a sweep removes -/

/-- The snapshot has the label, and no container refers to it. -/
def World.Orphan (w : World) (key : String) : Prop :=
  (∃ s, w.containerd.snapshots.find? key = some s ∧ s.owner = "true") ∧
    ∀ id c, w.containerd.containers.find? id = some c → c.snapshotKey ≠ key

theorem mem_orphanSnapshots {key : String} : key ∈ orphanSnapshots w ↔ w.Orphan key := by
  have hrows : (w.containerd.containers.rows.all fun row => row.2.snapshotKey ≠ key) = true ↔
      ∀ id c, w.containerd.containers.find? id = some c → c.snapshotKey ≠ key := by
    rw [List.all_eq_true]
    constructor
    · intro h id c hc
      exact of_decide_eq_true (h (id, c) ((Table.find?_eq_some_iff_mem _ _ _).mp hc))
    · rintro h ⟨id, c⟩ hrow
      exact decide_eq_true (h id c ((Table.find?_eq_some_iff_mem _ _ _).mpr hrow))
  unfold orphanSnapshots World.Orphan
  rw [Table.mem_keysWhere_iff]
  simp only [Bool.and_eq_true, hrows, Snapshot.managed, decide_eq_true_eq]
  constructor
  · rintro ⟨s, hs, howner, hunused⟩
    exact ⟨⟨s, hs, howner⟩, hunused⟩
  · rintro ⟨⟨s, hs, howner⟩, hunused⟩
    exact ⟨s, hs, howner, hunused⟩

/-- What a sweep with these orphans leaves alone. -/
structure Spared (keys : List String) (w w' : World) : Prop where
  containers : w'.containerd.containers = w.containerd.containers
  snapshots : ∀ key, key ∉ keys →
    w'.containerd.snapshots.find? key = w.containerd.snapshots.find? key
  homes : ∀ id, ¬ (validID id = true ∧ w.managed? id = none) →
    (id ∈ w'.history.homes ↔ id ∈ w.history.homes)
  dirs : ∀ id pid, ¬ (validID id = true ∧ w.managed? id = none) →
    ((id, pid) ∈ w'.history.dirs.keys ↔ (id, pid) ∈ w.history.dirs.keys)

namespace Spared

variable {keys : List String} {w'' : World}

theorem refl (w : World) : Spared keys w w :=
  ⟨rfl, fun _ _ => rfl, fun _ _ => .rfl, fun _ _ _ => .rfl⟩

theorem managed (h : Spared keys w w') (id : String) : w'.managed? id = w.managed? id := by
  rw [World.managed?_congr h.containers]

theorem trans (h : Spared keys w w') (h' : Spared keys w' w'') : Spared keys w w'' where
  containers := h'.containers.trans h.containers
  snapshots key hkey := (h'.snapshots key hkey).trans (h.snapshots key hkey)
  homes id hid := (h'.homes id (by rw [h.managed]; exact hid)).trans (h.homes id hid)
  dirs id pid hid := (h'.dirs id pid (by rw [h.managed]; exact hid)).trans (h.dirs id pid hid)

theorem of_history (hcontainers : w'.containerd.containers = w.containerd.containers)
    (hsnapshots : w'.containerd.snapshots = w.containerd.snapshots)
    (hhistory : w'.history = w.history) : Spared keys w w' :=
  ⟨hcontainers, fun _ _ => by rw [hsnapshots], fun _ _ => by rw [hhistory],
    fun _ _ _ => by rw [hhistory]⟩

theorem removeSnapshot {key : String} (hkey : key ∈ keys) :
    Spared keys w (w.removeSnapshot key).2 := by
  have hrefl : Spared keys w w := refl w
  rw [World.removeSnapshot_eq]
  refine { hrefl with snapshots := fun key' hkey' => Table.find?_erase_of_ne _ ?_ }
  rintro rfl
  exact hkey' hkey

theorem eraseDir {pid : String} (hvalid : validID id = true) (hunmanaged : w.managed? id = none) :
    Spared keys w (w.eraseDir (id, pid)) := by
  have hrefl : Spared keys w w := refl w
  refine { hrefl with dirs := fun id' pid' hid' => ?_ }
  have hne : (id', pid') ≠ (id, pid) := by
    rintro heq
    obtain ⟨rfl, -⟩ := Prod.mk.inj heq
    exact hid' ⟨hvalid, hunmanaged⟩
  rw [Table.mem_keys_iff, Table.mem_keys_iff]
  unfold World.eraseDir
  rw [Table.find?_erase_of_ne _ hne]

theorem eraseHome (hvalid : validID id = true) (hunmanaged : w.managed? id = none) :
    Spared keys w (w.eraseHome id) := by
  have hrefl : Spared keys w w := refl w
  refine { hrefl with homes := fun id' hid' => ?_ }
  have hne : id' ≠ id := by
    rintro rfl
    exact hid' ⟨hvalid, hunmanaged⟩
  unfold World.eraseHome
  simp [hne]

end Spared

theorem Move.spared {keys : List String} (hm : Move host May (.sweeping keys) w w') :
    Spared keys w w' := by
  have hcontainers := (hm.mono (Scope.sweeping_le keys)).containers_sweep
  cases hm with
  | @back b may =>
    have h : Beside host w (w.back host b) := .back b
    exact ⟨h.containers, fun _ _ => by rw [h.snapshots], fun _ _ => by rw [h.homes],
      fun _ _ _ => by rw [h.dirKeys]⟩
  | net inScope move => exact .of_history rfl rfl rfl
  | @quota kind id w' inScope move =>
    cases move with
    | removeSnapshot labelled => exact .removeSnapshot (inScope.2.1 rfl)
    | cleanup | unlimit | release => exact .of_history rfl rfl rfl
    | prepareSnapshot | claim | limit | mark | commit | dropSnapshot =>
      exact absurd inScope.1 (by unfold Scope.sweep; decide)
  | @forget kind id w' inScope move =>
    cases move with
    | eraseDir rest unmanaged => exact .eraseDir (inScope.2.2 rfl) unmanaged
    | eraseHome unmanaged => exact .eraseHome (inScope.2.2 rfl) unmanaged
    | unregister => exact .of_history rfl rfl rfl
    | cleanup =>
      rcases deleteExec_cases w _ with h | h
      · rw [h]; exact .refl w
      · rw [h]; exact .of_history rfl rfl rfl
  | erase inScope move | task inScope move | start inScope move | boot inScope move =>
    exact absurd inScope.1 (by unfold Scope.sweep; decide)
  | register inScope move => cases Scope.restful_sweep _ _ inScope.1

theorem Spared.of_steps {keys : List String}
    (h : ReflTransGen (Move host May (.sweeping keys)) w w') : Spared keys w w' := by
  induction h with
  | refl => exact .refl w
  | tail _ hm ih => exact ih.trans hm.spared

/-! ### The result -/

/-- **What belongs to others stays.**  Whatever the inventory is and whatever is asked of the adapter:
a container without the label or with another runtime stays as it is, and so does its task unless it
ends by itself.  A snapshot without the label stays, or was the snapshot of a managed container that
`Delete` was called for.  A sweep leaves every snapshot that is not an orphan and the history of every
sandbox that has a managed container or an invalid identifier; one that returns without an error has
removed all the others. -/
theorem foreign_untouched {S : Setting} (hw : Standing w) :
    (∀ w', S.Later w w' →
      (∀ id c, w.containerd.containers.find? id = some c →
        (c.owner ≠ "true" ∨ c.runtime ≠ runtimeName) →
        w'.containerd.containers.find? id = some c ∧
        TaskKept (w.containerd.tasks.find? id) (w'.containerd.tasks.find? id)) ∧
      ∀ key s, w.containerd.snapshots.find? key = some s → s.owner ≠ "true" →
        w'.containerd.snapshots.find? key = some s ∨
        ∃ v id polls fates c, S.Later w v ∧ S.Ok v (.request (.delete id polls) fates) ∧
          S.Later (next S.host v (.request (.delete id polls) fates)) w' ∧
          v.managed? id = some c ∧ c.snapshotKey = key) ∧
    ∀ polls fates, (within S.May).Allows fates →
      (∀ key, ¬ w.Orphan key →
        (reconcile S.host polls w fates).state.containerd.snapshots.find? key =
          w.containerd.snapshots.find? key) ∧
      (∀ id, ¬ (validID id = true ∧ w.managed? id = none) →
        (id ∈ (reconcile S.host polls w fates).state.history.homes ↔ id ∈ w.history.homes) ∧
        ∀ pid, (id, pid) ∈ (reconcile S.host polls w fates).state.history.dirs.keys ↔
          (id, pid) ∈ w.history.dirs.keys) ∧
      ((reconcile S.host polls w fates).outcome = .ok () →
        (∀ key, w.Orphan key →
          (reconcile S.host polls w fates).state.containerd.snapshots.find? key = none) ∧
        ∀ id ∈ w.history.homes, validID id = true → w.managed? id = none →
          id ∉ (reconcile S.host polls w fates).state.history.homes ∧
          ∀ k ∈ (reconcile S.host polls w fates).state.history.dirs.keys, k.1 ≠ id) := by
  refine ⟨fun w' hlater => ⟨fun id c hc hforeign => ?_, fun key s hs hforeign => ?_⟩,
    fun polls fates hfates => ?_⟩
  · have hunmanaged : c.managed = false := by
      unfold Container.managed
      exact decide_eq_false fun h => hforeign.elim (fun hne => hne h.1) fun hne => hne h.2
    have hkept : Untouched id c (w.containerd.tasks.find? id) w' :=
      Setting.Later.induct (I := Untouched id c (w.containerd.tasks.find? id))
        (fun _ h => h.congr rfl rfl) (fun _ _ h hm => hm.untouched hunmanaged h) hw hlater
        ⟨hc, .inl rfl⟩
    exact ⟨hkept.record, hkept.task⟩
  · have hunlabelled : s.managed = false := decide_eq_false hforeign
    -- By the last step: it removes the snapshot, or an earlier one did.
    induction hlater with
    | refl => exact .inl hs
    | tail hbefore hlast ih =>
      obtain ⟨a, ha, rfl⟩ := hlast
      rcases ih with ih | ⟨v, id, polls, fates, c, hv, hok, hafter, hmanaged, hkey⟩
      · rcases ha.snapshot_kept (Setting.Later.standing hw hbefore) ih hunlabelled with h | h
        · exact .inl h
        · obtain ⟨id, polls, fates, c, rfl, hmanaged, hkey⟩ := h
          exact .inr ⟨_, id, polls, fates, c, hbefore, ha, .refl, hmanaged, hkey⟩
      · exact .inr ⟨v, id, polls, fates, c, hv, hok, hafter.tail ⟨a, ha, rfl⟩, hmanaged, hkey⟩
  · have hruns : Runs S.host S.May (.sweeping (orphanSnapshots w))
        (Sweepable (orphanSnapshots w) w.history.homes) (reconcile S.host polls)
        (fun _ w' => Tidied (orphanSnapshots w) w.history.homes [] w' ∧ w'.AtRest) unknown :=
      runs_sweeping _ _ polls
    have hstart : Sweepable (orphanSnapshots w) w.history.homes w := ⟨hw.rest, rfl, rfl⟩
    have hspared : Spared (orphanSnapshots w) w (reconcile S.host polls w fates).state :=
      .of_steps (hruns.steps hfates hstart)
    refine ⟨fun key hkey => hspared.snapshots key fun hmem => hkey (mem_orphanSnapshots.mp hmem),
      fun id hid => ⟨hspared.homes id hid, fun pid => hspared.dirs id pid hid⟩, fun hok => ?_⟩
    obtain ⟨htidied, -⟩ := hruns.ok hfates hstart hok
    refine ⟨fun key hkey => htidied.removed key (mem_orphanSnapshots.mpr hkey),
      fun id hid hvalid hunmanaged => ?_⟩
    have hswept := (htidied.swept id hid).resolve_left List.not_mem_nil
    have hunwritten := hswept hvalid ((hspared.managed id).trans hunmanaged)
    exact ⟨hunwritten.home, hunwritten.dirs⟩

/-- A host that others use, too: a container with the label and another runtime, its snapshot, and a
snapshot with the label that nobody uses.  There are directories of two sandboxes without a container
and of something else. -/
def World.shared : World :=
  { World.pristine with
    containerd :=
      ⟨Table.empty.put "sbx_a" ⟨"true", "io.containerd.runc.v2", "", 16, "theirs"⟩,
        Table.empty.put "sbx_a" .running, .empty,
        (Table.empty.put "theirs" ⟨"", 1⟩).put "sbx_b" ⟨"true", 2⟩, 3⟩
    history := ⟨["sbx_a", "sbx_b", "lost+found"], .empty⟩ }

/-- The host after a start of the adapter and a `Delete` under the identifier of that container. -/
def World.sharedAfter : World :=
  Transition.run (next .plain) .shared [.boot 1 [], .request (.delete "sbx_a" 1) []]

/-- Container and task survive the `Delete`, and a sweep takes what it should. -/
theorem foreign_untouched_shared :
    World.sharedAfter.containerd.containers.find? "sbx_a" =
      some ⟨"true", "io.containerd.runc.v2", "", 16, "theirs"⟩ ∧
    (reconcile .plain 1 .shared []).state.containerd.snapshots.find? "theirs" = some ⟨"", 1⟩ ∧
    (reconcile .plain 1 .shared []).state.containerd.snapshots.find? "sbx_b" = none ∧
    "lost+found" ∈ (reconcile .plain 1 .shared []).state.history.homes ∧
    "sbx_b" ∉ (reconcile .plain 1 .shared []).state.history.homes := by
  have hlater : (Setting.of .plain (fun _ => true) fun _ => true).Later .shared .sharedAfter :=
    Transition.Later.run (admissible_of_allowedRun (by decide +kernel))
  have hstanding : Standing .shared := by
    refine ⟨fun a p hp => ?_, fun _ => rfl⟩
    cases a
    · cases hp
    · cases hp
  obtain ⟨hruns, hsweeps⟩ :=
    foreign_untouched (S := .of .plain (fun _ => true) fun _ => true) hstanding
  obtain ⟨hkept, hhistory, hok⟩ := hsweeps 1 [] (Adversary.allows_nil _)
  obtain ⟨horphans, hgone⟩ := hok (by decide +kernel)
  refine ⟨?_, ?_, ?_, ?_, ?_⟩
  · exact ((hruns _ hlater).1 "sbx_a" _ (by decide +kernel) (.inr (by decide))).1
  · have hsame := hkept "theirs" fun h => absurd (mem_orphanSnapshots.mpr h) (by decide +kernel)
    exact hsame.trans (by decide +kernel)
  · exact horphans "sbx_b" (mem_orphanSnapshots.mp (by decide +kernel))
  · exact (hhistory "lost+found" (by decide +kernel)).1.mpr (by decide +kernel)
  · exact (hgone "sbx_b" (by decide +kernel) (by decide +kernel) (by decide +kernel)).1

end Sandcube.Adapter
