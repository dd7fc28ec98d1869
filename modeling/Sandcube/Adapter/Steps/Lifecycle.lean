import Sandcube.Adapter.Steps.Network
import Sandcube.Adapter.Steps.Quota
import Sandcube.Adapter.Steps.Recovery

/-!
# The steps of the lifecycle operations

`start`, `stop`, `delete`, `reconcile` and `boot` are put together from the programs about tasks,
networks, quotas and processes.
-/

open Relation

namespace Sandcube.Adapter

variable {host : Host} {May : Back → Prop} {scope : Scope} {id : String}
variable {kind : Kind} {w w' : World} {P I : World → Prop} {key : String} {c : Container}

/-! ### What parts of an operation leave alone -/

/-- The move leaves containers and journals alone. -/
def Kind.tame : Kind → Bool
  | .setup | .net | .task | .forget | .clean => true
  | .create | .drop | .quota | .erase | .register _ | .start | .boot => false

namespace Scope

/-- Moves that leave containers and journals alone. -/
def Tame (scope : Scope) : Prop := ∀ kind id, scope kind id → kind.tame = true

/-- Moves that work on no record of a process. -/
def Restful (scope : Scope) : Prop := ∀ kind id, scope kind id → kind.works = false

theorem tame_only (id : String) (h : kind.tame = true) : Tame (only kind id) :=
  fun _ _ hkind => hkind.1 ▸ h

theorem tame_onKinds (kinds : List Kind) (id : String) (h : ∀ kind ∈ kinds, kind.tame = true) :
    Tame (onKinds kinds id) := fun _ _ hkind => h _ hkind.1

theorem only_le (h : scope kind id) : ∀ kind' id', only kind id kind' id' → scope kind' id' := by
  rintro _ _ ⟨rfl, rfl⟩
  exact h

end Scope

theorem Move.containers_eq (hscope : scope.Tame) (h : Move host May scope w w') :
    w'.containerd.containers = w.containerd.containers ∧ w'.quota.journals = w.quota.journals := by
  cases h with
  | @back b may => exact ⟨(Beside.back b).containers, (Beside.back b : Beside host w _).journals⟩
  | net inScope move => exact ⟨rfl, rfl⟩
  | quota inScope move => cases move <;> cases hscope _ _ inScope
  | erase inScope move => cases hscope _ _ inScope
  | task inScope move => exact ⟨move.containers_eq.1, congrArg Quota.journals move.containers_eq.2⟩
  | register inScope move | start inScope move => cases hscope _ _ inScope
  | forget inScope move => exact ⟨move.aside.containers, congrArg Quota.journals move.aside.quota⟩
  | boot inScope move => cases hscope _ _ inScope

/-- A tame part of an operation, with what is known of containers and journals. -/
theorem Runs.keepRecords {α : Type} {scope' : Scope} {p : Op α} {Q : α → World → Prop}
    (h : Runs host May scope' P p Q unknown) (htame : scope'.Tame)
    (hscope : ∀ kind id, scope' kind id → scope kind id)
    (F : Table String Container → Table String QuotaRecord → Prop) :
    Runs host May scope (fun w => P w ∧ F w.containerd.containers w.quota.journals) p
      (fun a w => Q a w ∧ F w.containerd.containers w.quota.journals) unknown := by
  refine ((Prog.Does.keep (I := fun w => F w.containerd.containers w.quota.journals) h ?_).relax
    fun _ _ _ => trivial).mono fun _ _ => Move.mono hscope
  intro w w' hw hm
  obtain ⟨hcontainers, hjournals⟩ := hm.containers_eq htame
  rw [hcontainers, hjournals]
  exact hw

/-- A part of an operation that works on no record of a process. -/
theorem Runs.rest {α : Type} {p : Op α} {Q : α → World → Prop}
    (h : Runs host May scope P p Q unknown) (hscope : scope.Restful) :
    Runs host May scope (fun w => P w ∧ w.AtRest) p (fun a w => Q a w ∧ w.AtRest) unknown :=
  (h.keepRest hscope).relax fun _ _ _ => trivial

/-! ### Moves that make nothing -/

/-- The move makes nothing new. -/
def Kind.wanes : Kind → Bool
  | .net | .drop | .quota | .erase | .task | .forget | .clean => true
  | .setup | .create | .register _ | .start | .boot => false

/-- Moves that make nothing. -/
def Scope.Wanes (scope : Scope) : Prop := ∀ kind id, scope kind id → kind.wanes = true

/-- What the operations make only gets less. -/
structure Waning (w w' : World) : Prop where
  containers : w'.containerd.containers.Sub w.containerd.containers
  snapshots : w'.containerd.snapshots.Sub w.containerd.snapshots
  journals : w'.quota.journals.Sub w.quota.journals
  records : w'.net.records.Sub w.net.records
  homes : ∀ id ∈ w'.history.homes, id ∈ w.history.homes
  dirs : ∀ k ∈ w'.history.dirs.keys, k ∈ w.history.dirs.keys

theorem Waning.refl (w : World) : Waning w w :=
  ⟨.refl _, .refl _, .refl _, .refl _, fun _ h => h, fun _ h => h⟩

theorem Beside.waning (h : Beside host w w') : Waning w w' :=
  ⟨.of_eq h.containers, .of_eq h.snapshots, .of_eq h.journals, .of_eq h.records,
    fun _ hid => h.homes ▸ hid, fun _ hk => h.dirKeys ▸ hk⟩

theorem QuotaMove.waning (move : QuotaMove host w id kind w') (hkind : kind.wanes = true) :
    Waning w w' := by
  cases move with
  | removeSnapshot | dropSnapshot =>
    rw [World.removeSnapshot_eq]
    exact { Waning.refl w with snapshots := Table.sub_erase _ _ }
  | release => exact { Waning.refl w with journals := Table.sub_erase _ _ }
  | cleanup | unlimit => exact { Waning.refl w with }
  | prepareSnapshot | claim | limit | mark | commit => cases hkind

theorem NetMove.waning {n : Net} (move : NetMove host w id kind n) (hkind : kind.wanes = true) :
    Waning w (w.withNet fun _ => n) := by
  cases move with
  | dropRecord => exact { Waning.refl w with records := Table.sub_erase _ _ }
  | command c => exact { Waning.refl w with records := .of_eq (c.run_frame _ w.net).1 }
  | record | table => cases hkind
  | _ => exact { Waning.refl w with }

theorem TaskMove.waning (move : TaskMove host w id w') : Waning w w' := by
  obtain ⟨_, _, _, -, rfl⟩ := move.frame
  exact { Waning.refl w with }

theorem EraseMove.waning (move : EraseMove w id w') : Waning w w' := by
  obtain ⟨-, -, -, rfl⟩ := move.inv
  exact { Waning.refl w with containers := Table.sub_erase _ _ }

theorem ForgetMove.waning (move : ForgetMove host w id kind w') : Waning w w' := by
  cases move with
  | eraseDir =>
    refine { Waning.refl w with dirs := fun k hk => ?_ }
    obtain ⟨dir, hdir⟩ := (Table.mem_keys_iff _ _).mp hk
    exact (Table.mem_keys_iff _ _).mpr ⟨dir, Table.find?_of_find?_erase hdir⟩
  | eraseHome => exact { Waning.refl w with homes := fun _ h => List.mem_of_mem_filter h }
  | unregister => exact { Waning.refl w with }
  | cleanup =>
    rcases deleteExec_cases w _ with h | h
    · rw [h]; exact .refl w
    · rw [h]; exact { Waning.refl w with }

theorem Move.waning (hscope : scope.Wanes) (hm : Move host May scope w w') : Waning w w' := by
  cases hm with
  | @back b may => exact (Beside.back b : Beside host w _).waning
  | net inScope move | quota inScope move => exact move.waning (hscope _ _ inScope)
  | erase inScope move | task inScope move => exact move.waning
  | register inScope move | start inScope move => cases hscope _ _ inScope
  | forget inScope move => exact move.waning
  | boot inScope move => cases hscope _ _ inScope

/-- An assertion that stays true when things go. -/
def Fading (I : World → Prop) : Prop := ∀ w w', Waning w w' → I w → I w'

theorem Fading.and {J : World → Prop} (hI : Fading I) (hJ : Fading J) :
    Fading fun w => I w ∧ J w := fun w w' h hw => ⟨hI w w' h hw.1, hJ w w' h hw.2⟩

theorem Fading.steady (hI : Fading I) : Steady host May I :=
  .of_beside fun w w' h => hI w w' h.waning

theorem Runs.fade {α : Type} {p : Op α} {Q : α → World → Prop}
    (h : Runs host May scope P p Q unknown) (hscope : scope.Wanes) (hI : Fading I) :
    Runs host May scope (fun w => P w ∧ I w) p (fun a w => Q a w ∧ I w) unknown :=
  (Prog.Does.keep h fun w w' hw hm => hI w w' (hm.waning hscope) hw).relax fun _ _ _ => trivial

/-! ### Tasks -/

/-- There is no task of the sandbox. -/
abbrev World.Taskless (w : World) (id : String) : Prop := w.containerd.tasks.find? id = none

theorem steady_taskless : Steady host May (World.Taskless · id) := by
  refine .of_beside fun w w' h hw => ?_
  rcases h.tasks id with ht | ⟨ht, -⟩
  · exact ht.trans hw
  · rw [hw] at ht; cases ht

theorem World.idle_of_taskless (h : w.Taskless id) : w.Idle id :=
  .inl (by rw [h]; nofun)

theorem World.tasks_removeTask (w : World) (id : String) :
    (w.removeTask id).containerd.tasks = w.containerd.tasks.erase id := rfl

/-- `deleteTask`, with what is known when the task goes. -/
theorem runs_deleteTask (hscope : scope .task id) (hP : Steady host May P)
    (hmove : ∀ w, P w → TaskMove host w id (w.removeTask id)) :
    Runs host May scope P (deleteTask host id)
      (fun _ w => w.Taskless id) unknown := by
  refine does_ifNotFound (E := fun e w => e = .notFound → w.Taskless id) ?_
    (.pure fun _ hw => hw rfl) fun _ _ _ _ => trivial
  refine .bind (K := fun _ => P) (does_query (Move.isOpen scope) hP (fun _ _ hw _ => hw) ?_
    fun _ _ _ => nofun) fun _ => does_call (Move.isOpen scope) hP ?_ ?_ ?_ (fun _ _ _ => nofun)
      fun _ _ _ _ => nofun
  · intro w e _ he _
    cases ht : w.containerd.tasks.find? id with
    | none => exact ht
    | some status => rw [ht] at he; cases he
  · intro _ w hw
    split
    · exact .single (.task hscope (hmove w hw))
    · exact .refl
  · intro _ w _ _ hok
    cases ht : w.containerd.tasks.find? id with
    | none => rw [ht] at hok; cases hok
    | some status =>
      dsimp only
      rw [World.Taskless, World.tasks_removeTask, Table.find?_erase_self]
  · intro _ w e _ he _
    cases ht : w.containerd.tasks.find? id with
    | none => exact ht
    | some status => rw [ht] at he; cases he

/-- The task of a sandbox with a container and a fence. -/
theorem runs_runTask (hscope : scope .task id) :
    Runs host May scope
      (fun w => (w.managed? id).isSome ∧ (w.net.tables.find? (host.networkName id)).isSome)
      (runTask host id) (fun _ _ => True) unknown := by
  have hready : Steady host May fun w : World => (w.managed? id).isSome ∧
      (w.net.tables.find? (host.networkName id)).isSome :=
    steady_managed.and
      (steady_net fun _ tables _ _ _ => (tables.find? (host.networkName id)).isSome = true)
  refine .bind (K := fun _ w => (w.managed? id).isSome ∧
    (w.net.tables.find? (host.networkName id)).isSome) ?_ fun _ => ?_
  · refine does_call (Move.isOpen scope) hready ?_ ?_
      (fun _ _ _ _ _ => trivial) (fun _ _ _ => trivial) fun _ _ _ _ => trivial
    · exact fun _ w hw => .single (.task hscope (.new hw.1))
    · intro _ w _ hw _
      unfold World.newTask
      split <;> exact hw
  · have hkeep : ∀ w : World, (w.managed? id).isSome → ((w.startTask id).2.managed? id).isSome := by
      intro w hw
      unfold World.startTask
      split <;> exact hw
    refine .rescue (E := fun _ w => (w.managed? id).isSome) ?_ fun e => ?_
    · exact does_call (Move.isOpen scope) hready
        (fun _ w hw => .single (.task hscope (.start hw.2 hw.1))) (fun _ _ _ _ _ => trivial)
        (fun _ w _ hw _ => hkeep w hw.1) (fun _ _ hw => hw.1) fun _ _ w hw => hkeep w hw.1
    · refine .bind (K := fun _ _ => True) ?_ fun _ => .raise fun _ _ => trivial
      exact does_ignoring ((runs_deleteTask hscope steady_managed fun _ hw => .remove hw).post
        fun _ _ _ => trivial) fun _ _ _ => trivial

/-! ### `Start` -/

theorem runs_launchTask (hnet : scope .net id) (hsetup : scope .setup id) (htask : scope .task id) :
    Runs host May scope (fun w => w.Taskless id ∧ (w.managed? id).isSome)
      (launchTask host id) (fun _ _ => True) unknown := by
  refine .bind (runs_checkQuota (steady_taskless.and steady_managed)) fun _ => ?_
  have hsetup : Runs host May scope (fun w => w.Idle id ∧ (w.managed? id).isSome)
      (setupNetwork host id)
      (fun _ w => (w.net.tables.find? (host.networkName id)).isSome ∧ (w.managed? id).isSome)
      unknown :=
    Runs.keepRecords (runs_setupNetwork ⟨by decide, rfl⟩ ⟨by decide, rfl⟩)
      (Scope.tame_onKinds [.net, .setup] id (by decide))
      (Scope.onKinds_le (by simp [hnet, hsetup]))
      fun containers _ => ((containers.find? id).filter Container.managed).isSome
  refine .bind (hsetup.pre fun w hw => ⟨World.idle_of_taskless hw.1, hw.2⟩) fun _ => ?_
  refine .bind ((runs_runTask htask).pre fun w hw => ⟨hw.2, hw.1⟩) fun _ => ?_
  exact (runs_describe .trivial).conseq (fun _ hw => hw) (fun _ _ hw => hw) fun _ _ hw => hw

/-- The answer about the task. -/
theorem runs_taskStatus (hP : Steady host May P) :
    Runs host May scope P (optional (taskStatus host id))
      (fun found w => P w ∧ (found = none → w.Taskless id)) unknown := by
  refine runs_optional hP (fun w a hw _ => ⟨hw, nofun⟩) fun w hw he => ⟨hw, fun _ => ?_⟩
  cases ht : w.containerd.tasks.find? id with
  | none => exact ht
  | some status => rw [ht] at he; cases he

theorem runs_start (hnet : scope .net id) (hsetup : scope .setup id) (htask : scope .task id) :
    Runs host May scope (fun _ => True) (start host id) (fun _ _ => True) unknown := by
  have hmanaged : Steady host May fun w : World => True ∧ (w.managed? id).isSome :=
    Steady.trivial.and steady_managed
  refine .bind ((runs_loaded .trivial).conseq (fun _ hw => hw) (fun _ _ hw => hw)
    fun _ _ hw => hw) fun _ => ?_
  refine .bind (runs_taskStatus hmanaged) fun found => ?_
  have hrestart : Runs host May scope (fun w => (w.managed? id).isSome)
      (do deleteTask host id; launchTask host id) (fun _ _ => True) unknown := by
    have hdelete : Runs host May scope (fun w => (w.managed? id).isSome ∧ (w.managed? id).isSome)
        (deleteTask host id)
        (fun _ w => w.Taskless id ∧ (w.managed? id).isSome) unknown :=
      Runs.keepRecords (runs_deleteTask ⟨rfl, rfl⟩ steady_managed fun _ hw => .remove hw)
        (Scope.tame_only id rfl) (Scope.only_le htask)
        fun containers _ => ((containers.find? id).filter Container.managed).isSome
    exact .bind (hdelete.pre fun w hw => ⟨hw, hw⟩)
      fun _ => runs_launchTask hnet hsetup htask
  cases found with
  | none =>
    exact (runs_launchTask hnet hsetup htask).pre fun w hw => ⟨hw.2 rfl, hw.1.2⟩
  | some status =>
    cases status with
    | running =>
      exact (runs_describe .trivial).conseq (fun _ _ => trivial) (fun _ _ _ => trivial)
        fun _ _ hw => hw
    | created | stopped => exact hrestart.pre fun w hw => hw.1.2

/-! ### `Stop` -/

theorem fading_unwired : Fading fun w => w.net.records.find? id = none :=
  fun _ _ h hw => h.records.find?_eq_none hw

theorem runs_stop (hnet : scope .net id) (htask : scope .task id) :
    Runs host May scope (fun _ => True) (stop host id)
      (fun _ w => w.net.records.find? id = none) unknown := by
  have hmanaged : Steady host May fun w : World => (w.managed? id).isSome := steady_managed
  have hend : Runs host May scope (World.Idle · id)
      (do removeNetwork host id; describe host id) (fun _ w => w.net.records.find? id = none)
      unknown :=
    .bind (runs_removeNetwork hnet) fun _ =>
      (runs_describe fading_unwired.steady).relax fun _ _ _ => trivial
  refine .bind ((runs_loaded .trivial).post fun _ _ hw => hw.2) fun _ => ?_
  refine .bind (runs_taskStatus hmanaged) fun found => ?_
  cases found with
  | none =>
    exact hend.pre fun w hw => World.idle_of_taskless (hw.2 rfl)
  | some status =>
    refine .bind ((runs_look hmanaged).pre fun _ hw => hw.1) fun ps => ?_
    refine .bind (.forEach (I := fun _ (w : World) => (w.managed? id).isSome) fun a _ _ =>
      (runs_killTracked hmanaged).relax fun _ _ _ => trivial) fun _ => ?_
    -- Everything registered is done before the task goes.
    refine .bind ((runs_settleProcesses hmanaged).relax fun _ _ _ => trivial) fun _ => ?_
    refine .bind (runs_deleteTask htask (hmanaged.and steady_settled)
      fun _ hw => .removeSettled hw.2 hw.1) fun _ => ?_
    refine .bind ((runs_settleProcesses steady_taskless).conseq (fun _ hw => hw)
      (fun _ _ hw => hw.1) fun _ _ _ => trivial) fun _ => ?_
    exact hend.pre fun w hw => World.idle_of_taskless hw

/-! ### `Delete` -/

/-- Nothing is left that the journals or containerd know of the sandbox. -/
structure Gone (id : String) (w : World) : Prop where
  absent : w.containerd.containers.find? id = none
  unclaimed : w.quota.journals.find? id = none

theorem fading_gone : Fading (Gone id) := fun _ _ h hw =>
  ⟨h.containers.find?_eq_none hw.absent, h.journals.find?_eq_none hw.unclaimed⟩

theorem fading_unlabelled : Fading (World.Unlabelled · key) :=
  fun _ _ h hw s hs => hw s (h.snapshots key s hs)

/-- The snapshot that `Delete` removes: that of the container, or else the one of the same name. -/
def World.snapshotOf (w : World) (id : String) : String :=
  ((w.managed? id).map Container.snapshotKey).getD id

/-- Nothing of the sandbox with this snapshot is left outside the process history. -/
structure Cleared (id key : String) (w : World) : Prop extends Gone id w where
  unlabelled : w.Unlabelled key
  unwired : w.net.records.find? id = none

theorem fading_cleared : Fading (Cleared id key) := fun w w' h hw =>
  ⟨fading_gone w w' h hw.toGone, fading_unlabelled w w' h hw.unlabelled,
    fading_unwired w w' h hw.unwired⟩

theorem World.unmanaged_of_absent (h : w.Absent id) : w.managed? id = none := by
  unfold managed?
  rw [h]
  rfl

section Delete

variable (hnet : scope .net id) (htask : scope .task id) (hdrop : scope .drop id)
  (hquota : scope .quota id) (herase : scope .erase id) (hforget : scope .forget id)
  (hrestful : scope.Restful)
  (hwanes : scope.Wanes) (polls : ℕ)

include hforget hwanes in
theorem runs_forgetCleared :
    Runs host May scope (fun w => Cleared id key w ∧ w.AtRest) (forgetProcesses host id)
      (fun _ w => Forgotten id w ∧ Cleared id key w) unknown :=
  (Runs.fade (runs_forgetProcesses hforget) hwanes fading_cleared).pre fun _ hw =>
  ⟨⟨hw.2, World.unmanaged_of_absent hw.1.absent⟩, hw.1⟩

/-- The container that `Delete` has loaded is still there, without a task. -/
structure Leaving (id : String) (c : Container) (w : World) : Prop where
  rest : w.AtRest
  taskless : w.containerd.tasks.find? id = none
  managed : w.managed? id = some c

theorem steady_container : Steady host May fun w : World => w.managed? id = some c :=
  steady_quota fun containers _ _ _ => (containers.find? id).filter Container.managed = some c

theorem steady_leaving : Steady host May (Leaving id c) := fun w b hb hw =>
  ⟨steady_atRest w b hb hw.rest, steady_taskless w b hb hw.taskless,
    steady_container w b hb hw.managed⟩

theorem Leaving.removeSnapshot (h : Leaving id c w) (key : String) :
    Leaving id c (w.removeSnapshot key).2 ∧
      (w.removeSnapshot key).2.containerd.snapshots.find? key = none := by
  rw [World.removeSnapshot_eq]
  exact ⟨⟨h.rest, h.taskless, h.managed⟩, Table.find?_erase_self _ _⟩

include herase in
/-- The snapshot goes, or is gone. -/
theorem runs_dropSnapshot (c : Container) :
    Runs host May scope (Leaving id c)
      (ifNotFound (call host fun _ w => w.removeSnapshot c.snapshotKey) (pure ()))
      (fun _ w => Leaving id c w ∧ w.containerd.snapshots.find? c.snapshotKey = none) unknown :=
  does_ifNotFound (E := fun e w => e = .notFound →
    Leaving id c w ∧ w.containerd.snapshots.find? c.snapshotKey = none)
    (runs_quotaCall herase steady_leaving (fun w hw => .dropSnapshot hw.managed)
      (fun _ hw _ => hw.removeSnapshot _) (fun _ _ hw _ _ => hw.removeSnapshot _)
      (fun _ _ _ => nofun) fun _ _ _ => nofun)
    (.pure fun _ hw => hw rfl) fun _ _ _ _ => trivial

include herase in
theorem runs_deleteContainer (c : Container) :
    Runs host May scope (fun w => w.AtRest ∧ w.managed? id = some c) (deleteContainer host id c)
      (fun _ w => w.Absent id ∧ w.containerd.snapshots.find? c.snapshotKey = none) unknown := by
  refine .bind (runs_taskStatus (steady_atRest.and steady_container)) fun found => ?_
  cases found with
  | some status => exact .raise fun _ _ => trivial
  | none =>
    have hgone : Steady host May fun w : World => w.containerd.snapshots.find? c.snapshotKey = none :=
      steady_quota fun _ snapshots _ _ => snapshots.find? c.snapshotKey = none
    refine .bind ((runs_dropSnapshot herase c).pre fun _ hw => ⟨hw.1.1, hw.2 rfl, hw.1.2⟩) fun _ => ?_
    refine does_call (Move.isOpen scope) (steady_leaving.and hgone) ?_ ?_
      (fun _ _ _ _ _ => trivial) (fun _ _ _ => trivial) (fun _ _ _ _ => trivial)
    · rintro _ w ⟨hw, -⟩
      refine .single (.erase herase (.eraseContainer hw.rest hw.taskless ?_))
      rw [hw.managed]
      rfl
    · rintro _ w _ ⟨-, hsnapshot⟩ hok
      unfold World.eraseContainer at hok ⊢
      cases hc : w.containerd.containers.find? id with
      | none => rw [hc] at hok; cases hok
      | some c' => exact ⟨Table.find?_erase_self _ _, hsnapshot⟩

include hquota hrestful hwanes in
theorem runs_reclaimGone (hI : Fading I) :
    Runs host May scope (fun w => (w.Absent id ∧ I w) ∧ w.AtRest)
      (reclaimQuota host id polls) (fun _ w => (Gone id w ∧ I w) ∧ w.AtRest) unknown :=
  (Runs.rest (Runs.fade (runs_reclaimQuota hquota polls) hwanes hI) hrestful).post
    fun _ _ hw => ⟨⟨⟨hw.1.1.1, hw.1.1.2⟩, hw.1.2⟩, hw.2⟩

include hnet hdrop hquota hforget hrestful hwanes in
theorem runs_deleteRemains :
    Runs host May scope World.AtRest (deleteRemains host id polls)
      (fun _ w => Forgotten id w ∧ Cleared id id w) unknown := by
  refine .bind (runs_loadContainer steady_atRest) fun found => ?_
  cases found with
  | some c => exact .raise fun _ _ => trivial
  | none =>
    refine .bind ((Runs.rest (runs_clearSnapshot hdrop false) hrestful).pre fun _ hw =>
      ⟨hw.2 rfl, hw.1⟩) fun _ => ?_
    refine .bind (runs_reclaimGone hquota hrestful hwanes polls fading_unlabelled) fun _ => ?_
    have hfading : Fading fun w => Gone id w ∧ w.Unlabelled id := fading_gone.and fading_unlabelled
    refine .bind ((runs_settleProcesses (hfading.steady.and steady_atRest)).conseq (fun _ hw => hw)
      (fun _ _ hw => hw.1) fun _ _ _ => trivial) fun _ => ?_
    refine .bind ((Runs.rest (Runs.fade (runs_removeNetwork hnet) hwanes hfading) hrestful).conseq
      (fun w hw => ⟨⟨.inr (World.unmanaged_of_absent hw.1.1.absent), hw.1⟩, hw.2⟩)
      (fun _ w hw => (⟨⟨hw.1.2.1, hw.1.2.2, hw.1.1⟩, hw.2⟩ : Cleared id id w ∧ w.AtRest))
      fun _ _ hw => hw) fun _ => ?_
    exact runs_forgetCleared hforget hwanes

include hnet htask hrestful in
/-- The `Stop` of `Delete` leaves the container alone. -/
theorem runs_stopContainer (c : Container) :
    Runs host May scope (fun w => w.AtRest ∧ w.managed? id = some c) (stop host id)
      (fun _ w => (w.AtRest ∧ w.managed? id = some c) ∧ w.net.records.find? id = none) unknown := by
  have hstop : Runs host May scope (fun w => True ∧ w.managed? id = some c) (stop host id)
      (fun _ w => w.net.records.find? id = none ∧ w.managed? id = some c) unknown :=
    Runs.keepRecords (runs_stop ⟨by decide, rfl⟩ ⟨by decide, rfl⟩)
      (Scope.tame_onKinds [.net, .task] id (by decide)) (Scope.onKinds_le (by simp [hnet, htask]))
      fun containers _ => (containers.find? id).filter Container.managed = some c
  exact (hstop.rest hrestful).conseq (fun _ hw => ⟨⟨trivial, hw.2⟩, hw.1⟩)
    (fun _ _ hw => ⟨⟨hw.2, hw.1.2⟩, hw.1.1⟩) fun _ _ hw => hw

include hnet htask hdrop hquota herase hforget hrestful hwanes in
/-- What is left after `Delete`. -/
theorem runs_delete (key : String) :
    Runs host May scope (fun w => w.AtRest ∧ w.snapshotOf id = key) (delete host id polls)
      (fun _ w => Forgotten id w ∧ Cleared id key w) unknown := by
  have hstart : Steady host May fun w : World => w.AtRest ∧ w.snapshotOf id = key :=
    steady_atRest.and (steady_quota fun containers _ _ _ =>
      (((containers.find? id).filter Container.managed).map Container.snapshotKey).getD id = key)
  have hkey : ∀ {w : World} {found : Option Container}, w.snapshotOf id = key →
      w.managed? id = found → (found.map Container.snapshotKey).getD id = key := by
    rintro w _ h rfl
    exact h
  refine .bind (runs_load hstart) fun found => ?_
  refine .assuming (fun _ hw => hkey hw.1.2 hw.2) fun hfound => ?_
  cases found with
  | none =>
    obtain rfl : id = key := hfound
    exact (runs_deleteRemains hnet hdrop hquota hforget hrestful hwanes polls).pre fun _ hw => hw.1.1
  | some c =>
    obtain rfl : c.snapshotKey = key := hfound
    refine .bind ((runs_stopContainer hnet htask hrestful c).pre fun _ hw => ⟨hw.1.1, hw.2⟩) fun _ => ?_
    refine .bind ((Runs.rest (Runs.fade (runs_deleteContainer herase c) hwanes fading_unwired)
      hrestful).pre fun _ hw => ⟨hw, hw.1.1⟩) fun _ => ?_
    refine .bind ((runs_reclaimGone hquota hrestful hwanes polls
      (fading_unlabelled.and fading_unwired)).conseq ?_
      (fun _ w hw => (⟨⟨hw.1.1, hw.1.2.1, hw.1.2.2⟩, hw.2⟩ : Cleared id c.snapshotKey w ∧ w.AtRest))
      fun _ _ hw => hw) fun _ => ?_
    · rintro w ⟨⟨⟨habsent, hsnapshot⟩, hunwired⟩, hrest⟩
      refine ⟨⟨habsent, fun s hs => ?_, hunwired⟩, hrest⟩
      rw [hs] at hsnapshot
      cases hsnapshot
    · exact runs_forgetCleared hforget hwanes

end Delete

/-! ### `Reconcile` and `boot` -/

namespace Scope

/-- The moves of a sweep. -/
def sweep : Scope := fun kind _ => kind ∈ [.net, .drop, .quota, .forget, .clean]

/-- The moves of a sweep that finds these orphans. -/
def sweeping (keys : List String) : Scope := fun kind id =>
  sweep kind id ∧ (kind = .drop → id ∈ keys) ∧ (kind = .forget → validID id = true)

theorem sweeping_le (keys : List String) : ∀ kind id, sweeping keys kind id → sweep kind id :=
  fun _ _ h => h.1

theorem restful_sweep : sweep.Restful := by
  have h : ∀ kind ∈ [Kind.net, .drop, .quota, .forget, .clean], kind.works = false := by decide
  exact fun kind _ hkind => h kind hkind

theorem wanes_sweep : sweep.Wanes := by
  have h : ∀ kind ∈ [Kind.net, .drop, .quota, .forget, .clean], kind.wanes = true := by decide
  exact fun kind _ hkind => h kind hkind

end Scope

theorem QuotaMove.containers_eq (move : QuotaMove host w id kind w') (hkind : kind ≠ .create) :
    w'.containerd.containers = w.containerd.containers := by
  cases move with
  | removeSnapshot | dropSnapshot => rw [World.removeSnapshot_eq]
  | cleanup | unlimit | release => rfl
  | prepareSnapshot | claim | limit | mark | commit => exact absurd rfl hkind

/-- A sweep leaves the containers alone. -/
theorem Move.containers_sweep (hm : Move host May .sweep w w') :
    w'.containerd.containers = w.containerd.containers := by
  cases hm with
  | @back b may => exact (Beside.back b : Beside host w _).containers
  | net inScope move => rfl
  | quota inScope move =>
    refine move.containers_eq ?_
    rintro rfl
    exact absurd inScope (by unfold Scope.sweep; decide)
  | forget inScope move => exact move.aside.containers
  | erase inScope move | task inScope move | start inScope move | boot inScope move =>
    exact absurd inScope (by unfold Scope.sweep; decide)
  | register inScope move => cases Scope.restful_sweep _ _ inScope

/-- The history of a sandbox without a container is gone. -/
def Swept (id : String) (w : World) : Prop :=
  validID id = true → w.managed? id = none → Unwritten id w

theorem fading_unwritten : Fading (Unwritten id) := fun _ _ h hw =>
  ⟨fun hid => hw.home (h.homes id hid), fun k hk => hw.dirs k (h.dirs k hk)⟩

theorem Move.swept (hm : Move host May .sweep w w') (hw : Swept id w) : Swept id w' := by
  intro hvalid hmanaged
  refine fading_unwritten w w' (hm.waning Scope.wanes_sweep) (hw hvalid ?_)
  unfold World.managed? at hmanaged ⊢
  rw [← hm.containers_sweep]
  exact hmanaged

/-- What a sweep begins with: its orphans and the directories of sandboxes. -/
structure Sweepable (keys homes : List String) (w : World) : Prop where
  rest : w.AtRest
  orphans : orphanSnapshots w = keys
  homes : w.history.homes = homes

/-- In a sweep, before these orphans are removed. -/
structure Clearing (keys homes rest : List String) (w : World) : Prop where
  atRest : w.AtRest
  labelled : ∀ key ∈ keys, w.Labelled key
  removed : ∀ key ∈ keys, key ∈ rest ∨ w.containerd.snapshots.find? key = none
  homes : w.history.homes = homes

section Reconcile

variable {keys homes : List String}

theorem orphanSnapshots_congr (hcontainers : w'.containerd.containers = w.containerd.containers)
    (hsnapshots : w'.containerd.snapshots = w.containerd.snapshots) :
    orphanSnapshots w' = orphanSnapshots w := by
  unfold orphanSnapshots
  rw [hcontainers, hsnapshots]

theorem Move.sweepable (hscope : ∀ kind id, scope kind id → kind = .clean)
    (hm : Move host May scope w w') (hw : Sweepable keys homes w) : Sweepable keys homes w' := by
  have hrest : w'.AtRest := hm.atRest (fun _ _ h => by rw [hscope _ _ h]; rfl) hw.rest
  cases hm with
  | @back b may =>
    have hbeside : Beside host w (w.back host b) := .back b
    exact ⟨hrest, (orphanSnapshots_congr hbeside.containers hbeside.snapshots).trans hw.orphans,
      hbeside.homes.trans hw.homes⟩
  | @forget kind id w' inScope move =>
    refine ⟨hrest, (orphanSnapshots_congr move.aside.containers move.aside.snapshots).trans
      hw.orphans, ?_⟩
    obtain rfl : kind = .clean := hscope _ _ inScope
    cases move with
    | cleanup =>
      rcases deleteExec_cases w _ with h | h
      · rw [h]; exact hw.homes
      · rw [h]; exact hw.homes
  | net inScope move | quota inScope move =>
    obtain rfl := hscope _ _ inScope
    cases move
  | erase inScope move | task inScope move | register inScope move | start inScope move
  | boot inScope move => cases hscope _ _ inScope

theorem steady_sweepable : Steady host May (Sweepable keys homes) := fun _ _ hb hw =>
  Move.sweepable (fun _ _ h => h.1) (.back hb : Move _ _ (.only .clean "") _ _) hw

theorem labelled_orphans (h : key ∈ orphanSnapshots w) : w.Labelled key := by
  obtain ⟨s, hs, horphan⟩ := (Table.mem_keysWhere_iff _ _ _).mp h
  intro s' hs'
  rw [hs] at hs'
  rw [← Option.some.inj hs']
  exact (Bool.and_eq_true_iff.mp horphan).1

theorem steady_clearing {rest : List String} : Steady host May (Clearing keys homes rest) := by
  intro w b hb hw
  have hbeside : Beside host w (w.back host b) := .back b
  refine ⟨steady_atRest w b hb hw.atRest, fun key hkey => steady_labelled w b hb (hw.labelled key hkey),
    fun key hkey => ?_, hbeside.homes.trans hw.homes⟩
  rw [hbeside.snapshots]
  exact hw.removed key hkey

/-- One orphan goes, or is gone. -/
theorem Clearing.removeSnapshot {rest : List String} (hw : Clearing keys homes (key :: rest) w) :
    Clearing keys homes rest (w.removeSnapshot key).2 := by
  rw [World.removeSnapshot_eq]
  refine ⟨hw.atRest, fun key' hkey' s hs => ?_, fun key' hkey' => ?_, hw.homes⟩
  · exact hw.labelled key' hkey' s (Table.find?_of_find?_erase hs)
  · rcases hw.removed key' hkey' with h | h
    · rcases List.mem_cons.mp h with rfl | h
      · exact .inr (Table.find?_erase_self _ _)
      · exact .inl h
    · exact .inr ((Table.sub_erase _ _).find?_eq_none h)

theorem runs_removeOrphan {rest : List String} (hdrop : scope .drop key) (hkey : key ∈ keys) :
    Runs host May scope (Clearing keys homes (key :: rest))
      (ifNotFound (call host fun _ w => w.removeSnapshot key) (pure ()))
      (fun _ => Clearing keys homes rest) unknown :=
  does_ifNotFound (E := fun e w => e = .notFound → Clearing keys homes rest w)
    (runs_quotaCall hdrop steady_clearing (fun _ hw => .removeSnapshot (hw.labelled key hkey))
      (fun _ hw _ => hw.removeSnapshot) (fun _ _ hw _ _ => hw.removeSnapshot)
      (fun _ _ _ => nofun) fun _ _ _ => nofun)
    (.pure fun _ hw => hw rfl) fun _ _ _ _ => trivial

theorem runs_reconcileHistory {id : String} (hforget : validID id = true → scope .forget id)
    (hrestful : scope.Restful) :
    Runs host May scope World.AtRest (reconcileHistory host id)
      (fun _ w => Swept id w ∧ w.AtRest) unknown := by
  unfold reconcileHistory
  split_ifs with hvalid
  · refine .bind (runs_load steady_atRest) fun found => ?_
    cases found with
    | some c =>
      refine .pure fun w hw => ⟨fun _ hmanaged => ?_, hw.1⟩
      rw [hmanaged] at hw
      cases hw.2
    | none =>
      have hforgettable : Steady host May fun w : World => w.AtRest ∧ w.managed? id = none :=
        steady_atRest.and steady_unmanaged
      refine .bind ((runs_settleProcesses hforgettable).conseq (fun _ hw => hw)
        (fun _ _ hw => hw.1) fun _ _ _ => trivial) fun _ => ?_
      exact (Runs.rest (runs_forgetProcesses (hforget hvalid)) hrestful).conseq
        (fun _ hw => ⟨⟨hw.1, hw.2⟩, hw.1⟩) (fun _ _ hw => ⟨fun _ _ => hw.1.toUnwritten, hw.2⟩)
        fun _ _ hw => hw
  · exact .pure fun _ hw => ⟨fun h => absurd h hvalid, hw⟩

variable (hdrop : ∀ key ∈ keys, scope .drop key) (hnet : ∀ id, scope .net id)
  (hquota : ∀ id, scope .quota id) (hforget : ∀ id, validID id = true → scope .forget id)
  (hclean : ∀ id, scope .clean id) (hsweep : ∀ kind id, scope kind id → Scope.sweep kind id)
  (polls : ℕ)

/-- What a sweep has done: the orphans are gone, and the histories of the sandboxes in the list are
gone except for these. -/
structure Tidied (keys homes rest : List String) (w : World) : Prop where
  removed : ∀ key ∈ keys, w.containerd.snapshots.find? key = none
  swept : ∀ id ∈ homes, id ∈ rest ∨ Swept id w

theorem Move.tidied {rest : List String} (hm : Move host May .sweep w w')
    (hw : Tidied keys homes rest w) : Tidied keys homes rest w' :=
  ⟨fun key hkey => (hm.waning Scope.wanes_sweep).snapshots.find?_eq_none (hw.removed key hkey),
    fun id hid => (hw.swept id hid).imp_right hm.swept⟩

/-- A part of a sweep keeps what the sweep has done. -/
theorem Runs.tidy {α : Type} {p : Op α} {Q : α → World → Prop} {rest : List String}
    (h : Runs host May scope P p Q unknown)
    (hsweep : ∀ kind id, scope kind id → Scope.sweep kind id) :
    Runs host May scope (fun w => (P w ∧ Tidied keys homes rest w) ∧ w.AtRest) p
      (fun a w => (Q a w ∧ Tidied keys homes rest w) ∧ w.AtRest) unknown := by
  have htidy : Runs host May scope (fun w => P w ∧ Tidied keys homes rest w) p
      (fun a w => Q a w ∧ Tidied keys homes rest w) unknown :=
    (Prog.Does.keep h fun _ _ hw hm => Move.tidied (hm.mono hsweep) hw).relax fun _ _ _ => trivial
  exact htidy.rest fun _ _ h => Scope.restful_sweep _ _ (hsweep _ _ h)

include hforget hsweep in
theorem runs_reconcileHistories :
    Runs host May scope (fun w => Tidied keys homes homes w ∧ w.AtRest)
      (Prog.forEach homes (reconcileHistory host))
      (fun _ w => Tidied keys homes [] w ∧ w.AtRest) unknown := by
  refine .forEach (I := fun rest w => Tidied keys homes rest w ∧ w.AtRest) fun id rest _ => ?_
  have hturn : Runs host May scope
      (fun w => (w.AtRest ∧ Tidied keys homes (id :: rest) w) ∧ w.AtRest) (reconcileHistory host id)
      (fun _ w => ((Swept id w ∧ w.AtRest) ∧ Tidied keys homes (id :: rest) w) ∧ w.AtRest) unknown :=
    Runs.tidy (runs_reconcileHistory (hforget id) fun _ _ h => Scope.restful_sweep _ _ (hsweep _ _ h))
      hsweep
  refine hturn.conseq (fun _ hw => ⟨⟨hw.2, hw.1⟩, hw.2⟩) ?_ fun _ _ hw => hw
  rintro _ w ⟨⟨⟨hswept, -⟩, htidied⟩, hrest⟩
  refine ⟨⟨htidied.removed, fun id' hid' => ?_⟩, hrest⟩
  rcases htidied.swept id' hid' with h | h
  · rcases List.mem_cons.mp h with rfl | h
    · exact .inr hswept
    · exact .inl h
  · exact .inr h

include hdrop hnet hquota hforget hclean hsweep in
/-- A sweep that returns has removed its orphans, and the histories of sandboxes without a
container. -/
theorem runs_reconcile :
    Runs host May scope (Sweepable keys homes) (reconcile host polls)
      (fun _ w => Tidied keys homes [] w ∧ w.AtRest) unknown := by
  have hcleanup : Runs host May (fun kind _ => kind = .clean) (Sweepable keys homes)
      (cleanupProcessRecords host) (fun _ => Sweepable keys homes) unknown :=
    (Prog.Does.keep (runs_cleanupProcessRecords fun _ => rfl) fun _ _ hw hm =>
      Move.sweepable (fun _ _ h => h) hm hw).conseq (fun _ hw => ⟨trivial, hw⟩)
      (fun _ _ hw => hw.2) fun _ _ _ => trivial
  refine .bind (hcleanup.widen fun kind id h => by rw [h]; exact hclean id) fun _ => ?_
  refine .bind (K := fun found w => found = keys ∧ Clearing keys homes keys w)
    (runs_ask steady_sweepable ?_) fun found => ?_
  · rintro w _ hw ⟨⟩
    refine ⟨hw.orphans, hw.rest, fun key hkey => labelled_orphans (hw.orphans ▸ hkey),
      fun key hkey => .inl hkey, hw.homes⟩
  refine .assuming (fun _ hw => hw.1) fun hfound => ?_
  subst hfound
  refine .bind (K := fun _ => Clearing found homes []) (Prog.Does.conseq (Prog.Does.forEach
    (I := Clearing found homes) fun key rest hsuffix =>
      have hkey := hsuffix.mem List.mem_cons_self
      runs_removeOrphan (hdrop key hkey) hkey) (fun _ hw => hw.2) (fun _ _ hw => hw)
      fun _ _ hw => hw) fun _ => ?_
  refine .bind (K := fun there w => there = homes ∧ Tidied found homes homes w ∧ w.AtRest)
    (runs_ask steady_clearing ?_) fun there => ?_
  · rintro w _ hw ⟨⟩
    exact ⟨hw.homes, ⟨fun key hkey => (hw.removed key hkey).resolve_left List.not_mem_nil,
      fun id hid => .inl hid⟩, hw.atRest⟩
  refine .assuming (fun _ hw => hw.1) fun hthere => ?_
  subst hthere
  refine .bind ((runs_reconcileHistories hforget hsweep).pre fun _ hw => hw.2) fun _ => ?_
  refine .bind (K := fun _ w => Tidied found there [] w ∧ w.AtRest)
    ((Runs.tidy (runs_reconcileQuotas hquota polls) hsweep).conseq
      (fun _ hw => ⟨⟨trivial, hw.1⟩, hw.2⟩) (fun _ _ hw => ⟨hw.1.2, hw.2⟩) fun _ _ hw => hw)
    fun _ => ?_
  exact (Runs.tidy (runs_reconcileNetworks hnet) hsweep).conseq
    (fun _ hw => ⟨⟨trivial, hw.1⟩, hw.2⟩) (fun _ _ hw => ⟨hw.1.2, hw.2⟩) fun _ _ hw => hw

end Reconcile

theorem runs_sweeping (keys homes : List String) (polls : ℕ) :
    Runs host May (.sweeping keys) (Sweepable keys homes) (reconcile host polls)
      (fun _ w => Tidied keys homes [] w ∧ w.AtRest) unknown := by
  have hkind : ∀ {kind : Kind} {id : String}, kind ∈ [Kind.net, .quota, .clean] →
      Scope.sweeping keys kind id := by
    intro kind id hkind
    refine ⟨?_, ?_, ?_⟩
    · unfold Scope.sweep
      simp only [List.mem_cons] at hkind ⊢
      tauto
    · rintro rfl; exact absurd hkind (by decide)
    · rintro rfl; exact absurd hkind (by decide)
  refine runs_reconcile (fun key hkey => ⟨?_, fun _ => hkey, nofun⟩) (fun _ => hkind (by decide))
    (fun _ => hkind (by decide)) (fun id hid => ⟨?_, nofun, fun _ => hid⟩)
    (fun _ => hkind (by decide)) (Scope.sweeping_le keys) polls
  · unfold Scope.sweep; decide
  · unfold Scope.sweep; decide

theorem runs_sweep (polls : ℕ) :
    Runs host May .sweep World.AtRest (reconcile host polls) (fun _ => World.AtRest) unknown := by
  refine Prog.Does.of_state fun w₀ hw₀ => ?_
  refine ((runs_sweeping (orphanSnapshots w₀) w₀.history.homes polls).widen
    (Scope.sweeping_le _)).conseq ?_ (fun _ _ hw => hw.2) fun _ _ hw => hw
  rintro _ rfl
  exact ⟨hw₀, rfl, rfl⟩

/-- A sweep loses no record in memory, and finds no new one on disk. -/
theorem Move.frontier (hscope : scope.Restful) (hm : Move host May scope w w') {rest : List Key}
    (hw : Frontier rest w) : Frontier rest w' := by
  cases hm with
  | back may => exact steady_frontier w _ may hw
  | net inScope move | quota inScope move | erase inScope move | task inScope move =>
    exact hw.congr move.still.1 move.still.2
  | register inScope move | start inScope move => cases hscope _ _ inScope
  | forget inScope move =>
    cases move with
    | @eraseDir pid rest unmanaged =>
      refine ⟨hw.down, fun k hk => hw.complete k ?_, hw.new⟩
      unfold World.Recorded World.eraseDir History.record? at hk
      dsimp only at hk
      rw [Table.find?_erase] at hk
      split_ifs at hk
      · cases hk
      · exact hk
    | eraseHome | unregister => exact ⟨hw.down, hw.complete, hw.new⟩
    | cleanup =>
      rcases deleteExec_cases w _ with h | h
      · rw [h]; exact hw
      · rw [h]; exact hw.congr rfl rfl
  | boot inScope move => cases hscope _ _ inScope

theorem runs_boot (hboot : ∀ id, scope .boot id) (hsweep : ∀ kind id, Scope.sweep kind id → scope kind id)
    (polls : ℕ) :
    Runs host May scope Starting (boot host polls)
      (fun _ w => w.AtRest ∧ w.memory.serving = true) unknown := by
  refine .bind (runs_recoverProcesses hboot) fun _ => ?_
  refine .bind (K := fun _ => Between []) ?_ fun _ => ?_
  · suffices h : Runs host May .sweep (Between []) (reconcile host polls) (fun _ => Between [])
        unknown from
      h.widen hsweep
    exact ((runs_sweep polls).keep fun _ _ hw hm => hm.frontier Scope.restful_sweep hw).relax
      fun _ _ _ => trivial
  · refine does_update (Move.isOpen scope) steady_between ?_ fun _ _ hw => ⟨hw.1, rfl⟩
    rintro _ w ⟨hrest, hfrontier⟩
    refine .single (.boot (hboot "") (.serve hrest fun k hk => ?_))
    exact (hfrontier.complete k hk).resolve_left List.not_mem_nil

end Sandcube.Adapter
