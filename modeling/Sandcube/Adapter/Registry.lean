import Sandcube.Adapter.Infos

/-!
# The registry and the directories

Records in memory keep their places and their keys (`Persists`).  The registry leads from a process
identifier to a record with that identifier, and `process.json` of a process is about that process.
-/

namespace Sandcube.Adapter

variable {host : Host} {May : Back → Prop} {scope : Scope} {id : String} {w w' : World} {a : ℕ}

/-! ### Records keep their places -/

/-- The records in memory are still there, for the same processes. -/
def Persists (w w' : World) : Prop :=
  ∀ a p, w.object? a = some p → ∃ p', w'.object? a = some p' ∧ p'.info.key = p.info.key

namespace Persists

theorem of_heap (h : w'.memory.heap = w.memory.heap) : Persists w w' := by
  intro a p hp
  exact ⟨p, by rw [World.object?, h]; exact hp, rfl⟩

theorem enroll (info : ProcessInfo) (stage : Stage) : Persists w (w.enroll info stage) := by
  intro b p hp
  rw [World.object?_enroll, if_neg]
  · exact ⟨p, hp, rfl⟩
  · rintro rfl
    rw [World.object?, List.getElem?_eq_none (Nat.le_refl _)] at hp
    cases hp

theorem register (req : ExecRequest) (pid : String) (now : Time) :
    Persists w (World.register host id req pid now w) := by
  intro b p hp
  rw [World.object?_register, if_neg]
  · exact ⟨p, hp, rfl⟩
  · rintro rfl
    rw [World.object?, List.getElem?_eq_none (Nat.le_refl _)] at hp
    cases hp

end Persists

theorem Touches.persists {k : Key} (h : Touches a k w w') : Persists w w' := by
  intro b p hp
  by_cases hb : b = a
  · subst hb
    have hown := h.own
    rw [hp, Option.map_some] at hown
    exact Option.map_eq_some_iff.mp hown
  · exact ⟨p, (h.object b hb).trans hp, rfl⟩

theorem RegisterMove.persists {pid : String} (move : RegisterMove host w id pid w') :
    Persists w w' := by
  cases move with
  | register req now => exact .register req _ now

theorem StartMove.persists (move : StartMove host w id w') : Persists w w' := by
  obtain ⟨a, p, q, -, hwork⟩ := move.work
  exact hwork.touches.persists

theorem BootMove.persists (move : BootMove host w id w') : Persists w w' := by
  rcases move.work with ⟨a, p, q, -, hwork⟩ | ⟨pid, -, -, rfl⟩ | ⟨info, -, -, -, -, -, rfl⟩ |
    ⟨-, -, rfl⟩
  · exact hwork.touches.persists
  · exact .of_heap rfl
  · exact .enroll _ _
  · exact .of_heap rfl

theorem Beside.persists (h : Beside host w w') : Persists w w' := by
  intro a p hp
  obtain ⟨p', hp', hbesides⟩ := h.object a p hp
  exact ⟨p', hp', hbesides.key⟩

theorem Move.persists (hm : Move host May scope w w') : Persists w w' := by
  cases hm with
  | back may => exact Beside.persists (.back _)
  | net inScope move | quota inScope move | erase inScope move | task inScope move =>
    exact .of_heap (by rw [move.still.1])
  | register inScope move | start inScope move => exact move.persists
  | forget inScope move => exact .of_heap move.heap_eq
  | boot inScope move => exact move.persists

/-! ### The registry -/

/-- What a move does to the registry: nothing, a new record under its identifier, or the records of
a sandbox without a container leave it. -/
inductive RegistryChange (w w' : World) : Prop
  | same (registry : w'.memory.registry = w.memory.registry)
  | entry {info : ProcessInfo} (valid : validProcessID info.id = true)
      (registry : w'.memory.registry = w.memory.registry.put info.id w.memory.heap.length)
      (object : ∃ proc stage, w'.object? w.memory.heap.length = some ⟨info, proc, stage⟩)
      (fresh : w.lookupProcess info.sandboxId info.id = none ∧
        (w.taken info.sandboxId info.id = true → .collision info.key ∈ w'.trace.incidents) ∨
        w.memory.serving = false ∧ w.history.record? info.key = some info)
  | forgotten {id : String} (unmanaged : w.managed? id = none)
      (empty : ∀ pid, w.history.dirs.find? (id, pid) = none)
      (registry : w'.memory.registry =
        w.memory.registry.eraseWhere fun pid => (w.lookupProcess id pid).isSome)

theorem RegisterMove.registry {pid : String} (move : RegisterMove host w id pid w') :
    RegistryChange w w' := by
  cases move with
  | register req now rest serving managed valid free =>
    have hvalid : validProcessID (World.newInfo host id req pid now).id = true := valid
    refine .entry hvalid ?_ ?_ (.inl ⟨free, ?_⟩)
    · unfold World.register
      dsimp only
      split_ifs <;> rfl
    · exact ⟨false, .building .fresh, by rw [World.object?_register, if_pos rfl]⟩
    · intro htaken
      have htaken : w.taken id pid = true := htaken
      unfold World.register
      dsimp only
      rw [if_pos htaken]
      exact List.mem_cons_self

theorem StartMove.registry (move : StartMove host w id w') : RegistryChange w w' := by
  obtain ⟨a, p, q, -, hwork⟩ := move.work
  exact .same hwork.touches.registry

theorem BootMove.registry (move : BootMove host w id w') : RegistryChange w w' := by
  rcases move.work with ⟨a, p, q, -, hwork⟩ | ⟨pid, -, -, rfl⟩ |
    ⟨info, -, down, valid, recorded, -, rfl⟩ | ⟨-, -, rfl⟩
  · exact .same hwork.touches.registry
  · exact .same rfl
  · exact .entry valid rfl ⟨false, .recovering .nothing, by rw [World.object?_enroll, if_pos rfl]⟩
      (.inr ⟨down, recorded⟩)
  · exact .same rfl

/-- **The changes of the registry.** -/
theorem Move.registry (hm : Move host May scope w w') : RegistryChange w w' := by
  cases hm with
  | @back b may => exact .same (Beside.back b : Beside host w _).registry
  | net inScope move | quota inScope move | erase inScope move | task inScope move =>
    exact .same (by rw [move.still.1])
  | register inScope move | start inScope move => exact move.registry
  | forget inScope move =>
    cases move with
    | eraseDir | eraseHome => exact .same rfl
    | unregister rest unmanaged empty => exact .forgotten unmanaged empty rfl
    | cleanup => exact .same (by rw [World.deleteExec_memory])
  | boot inScope move => exact move.registry

/-- The registry leads to records with the identifiers they are filed under. -/
def Rostered (w : World) : Prop :=
  ∀ pid a, w.memory.registry.find? pid = some a →
    validProcessID pid = true ∧ ∃ p, w.object? a = some p ∧ p.info.id = pid

theorem Rostered.step (h : Rostered w) (hpersists : Persists w w')
    (hchange : RegistryChange w w') : Rostered w' := by
  have hkept : ∀ pid a, w.memory.registry.find? pid = some a →
      validProcessID pid = true ∧ ∃ p, w'.object? a = some p ∧ p.info.id = pid := by
    intro pid a ha
    obtain ⟨hvalid, p, hp, hid⟩ := h pid a ha
    obtain ⟨p', hp', hkey⟩ := hpersists a p hp
    exact ⟨hvalid, p', hp', (congrArg Prod.snd hkey).trans hid⟩
  cases hchange with
  | same registry => rw [Rostered, registry]; exact hkept
  | entry valid registry object fresh =>
    intro pid a ha
    rw [registry, Table.find?_put] at ha
    split_ifs at ha with hpid
    · obtain ⟨proc, stage, hobject⟩ := object
      rw [← Option.some.inj ha, hpid]
      exact ⟨valid, _, hobject, rfl⟩
    · exact hkept pid a ha
  | forgotten unmanaged empty registry =>
    intro pid a ha
    rw [registry, Table.find?_eraseWhere] at ha
    split_ifs at ha
    exact hkept pid a ha

theorem Reachable.rostered {S : Setting} (hw : Reachable S w) : Rostered w := by
  refine hw.induct (fun w h pid a ha => ?_) (fun w _ pid a ha => ?_)
    fun w w' h hm => h.step hm.persists hm.registry
  · rw [h.memory] at ha
    cases ha
  · cases ha

end Sandcube.Adapter
