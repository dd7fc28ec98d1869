import Sandcube.Adapter.Tenancy

/-!
# A sandbox that is not deleted

What stays true of a sandbox as long as its container is there and no process was registered under
an identifier of another sandbox: its directories and its records in memory are there because the
container is, the records are all registered, and its execs belong to its task (`Lodging`).

Changes of one process keep a lodging (`Lodging.touch`), and so do those that leave the sandbox alone
(`Lodging.leave`).  What there is of a process outside of the memory is its `Slot`.

Tasks are deleted by requests only, so while the socket is open (`Setting.Ok.keeps_serving`).
-/

namespace Sandcube.Adapter

variable {host : Host} {May : Back → Prop} {scope : Scope} {id : String} {w w' : World} {a : ℕ}
variable {I : World → Prop} {k : Key} {i : Incident}

/-! ### Induction with the socket -/

section Induction

variable {S : Setting}

/-- What is known of the moves of one step of the system: tasks are changed by requests, so while
the socket is open, and containers are erased by `Delete`. -/
structure Setting.Admits (S : Setting) (scope : Scope) (w : World) : Prop where
  serving : ∀ id, scope .task id → w.memory.serving = true
  erase : ∀ id, scope .erase id → ∃ polls, S.Accepts (.delete id polls)

theorem Setting.Ok.keeps_serving (hdie : ∀ w, I w → I w.die)
    (hmove : ∀ scope w w', S.Admits scope w → I w → Move S.host S.May scope w w' → I w') {act : Act}
    (hw : Standing w) (ha : S.Ok w act) (hI : I w) : I (next S.host w act) := by
  have hadmits : ∀ v, (w.memory.serving = true → v.memory.serving = true) →
      S.Admits act.scope v := by
    refine fun v hserving => ⟨fun id htask => ?_, fun id herase => ?_⟩
    · cases act with
      | boot polls fates =>
        rcases htask with hboot | hsweep
        · cases hboot
        · exact absurd hsweep (by unfold Scope.sweep; decide)
      | crash | back b => exact htask.elim
      | request r fates => exact hserving ha.1
    · obtain ⟨polls, fates, rfl⟩ := Act.erase_scope herase
      exact ⟨polls, ha.2.2.1⟩
  obtain ⟨w', hsteps, hnext⟩ := ha.chain hw
  have hkept : I w' ∧ (w.memory.serving = true → w'.memory.serving = true) := by
    clear hnext
    induction hsteps with
    | refl => exact ⟨hI, fun h => h⟩
    | tail _ hm ih => exact ⟨hmove _ _ _ (hadmits _ ih.2) ih.1 hm, fun h => hm.serving (ih.2 h)⟩
  rcases hnext with hnext | ⟨hnext, -⟩
  · rw [hnext]
    exact hdie w' hkept.1
  · rw [hnext]
    exact hkept.1

theorem Reachable.induct_serving (hinit : ∀ w, Init w → I w) (hdie : ∀ w, I w → I w.die)
    (hmove : ∀ scope w w', S.Admits scope w → I w → Move S.host S.May scope w w' → I w')
    (h : Reachable S w) : I w := by
  suffices hboth : Standing w ∧ I w from hboth.2
  exact Transition.Reach.invariant (I := fun w => Standing w ∧ I w)
    (fun w hw => ⟨hw.standing, hinit w hw⟩)
    (fun w act hw ha => ⟨ha.standing hw.1, ha.keeps_serving hdie hmove hw.1 hw.2⟩) h

theorem Setting.Later.induct_serving (hdie : ∀ w, I w → I w.die)
    (hmove : ∀ scope w w', S.Admits scope w → I w → Move S.host S.May scope w w' → I w')
    (hw : Standing w) (h : S.Later w w') (hI : I w) : I w' := by
  induction h with
  | refl => exact hI
  | tail hbefore hlast ih =>
    obtain ⟨act, ha, rfl⟩ := hlast
    exact ha.keeps_serving hdie hmove (Setting.Later.standing hw hbefore) ih

end Induction

/-! ### One process -/

/-- What there is of a process outside of the adapter's memory: its `process.json`, its exec, and
what happened to it. -/
structure Slot where
  record : Option ProcessInfo
  exec : Option ExecState
  exit : Option UInt32
  started : Bool
  undead : Bool

/-- `process.json` has this content. -/
def Slot.write (s : Slot) (info : ProcessInfo) : Slot := { s with record := some info }

/-- The runtime has this exec, or none. -/
def Slot.setExec (s : Slot) (exec : Option ExecState) : Slot := { s with exec := exec }

/-- What there is of a process. -/
def World.slot (w : World) (k : Key) : Slot where
  record := w.history.record? k
  exec := w.containerd.execs.find? k
  exit := w.trace.exits k
  started := decide (k ∈ w.trace.started)
  undead := decide (.undead k ∈ w.trace.incidents)

theorem World.slot_congr {k : Key} (hrecord : w'.history.record? k = w.history.record? k)
    (hexec : w'.containerd.execs.find? k = w.containerd.execs.find? k)
    (htrace : w'.trace = w.trace) : w'.slot k = w.slot k := by
  unfold World.slot
  rw [hrecord, hexec, htrace]

/-- Incidents other than those of recovery are not part of it. -/
theorem World.slot_note (k : Key) (hi : i ≠ .undead k) : (w.note i).slot k = w.slot k := by
  have hmem : (.undead k ∈ (w.note i).trace.incidents) ↔ .undead k ∈ w.trace.incidents :=
    List.mem_cons.trans (or_iff_right hi.symm)
  unfold World.slot
  simp only [hmem]
  rfl

theorem World.slot_noteIf (k : Key) (c : Prop) [Decidable c] (hi : i ≠ .undead k) :
    (if c then w.note i else w).slot k = w.slot k := by
  split_ifs
  · exact World.slot_note k hi
  · rfl

theorem World.slot_eraseExec (k : Key) :
    (w.setExecs fun execs => execs.erase k).slot k = (w.slot k).setExec none := by
  unfold World.slot Slot.setExec World.setExecs
  rw [Table.find?_erase_self]

theorem World.slot_putExec (k : Key) (state : ExecState) :
    (w.setExecs fun execs => execs.put k state).slot k = (w.slot k).setExec (some state) := by
  unfold World.slot Slot.setExec World.setExecs
  rw [Table.find?_put_self]

/-- The directory of a process changes, but not `process.json`. -/
theorem World.slot_setDir (k k' : Key) {f : Dir → Dir} (hf : ∀ dir, (f dir).record = dir.record) :
    (w.setDir k f).slot k' = w.slot k' :=
  World.slot_congr (World.record?_setDir w k k' hf) rfl rfl

/-- A new directory has no `process.json`. -/
theorem World.slot_makeDir (k : Key) : (w.makeDir k).slot k = w.slot k := by
  refine World.slot_congr ?_ rfl rfl
  unfold World.makeDir History.record?
  dsimp only
  split
  · rfl
  · next hnone =>
    rw [Table.find?_put_self, hnone]
    rfl

/-- A store writes `process.json`, or it fails and leaves it alone. -/
theorem World.slot_store (w : World) (a : ℕ) (info : ProcessInfo) (fault : Option Fault) :
    (w.store a info fault).1 ≠ none ∧ (∀ k, (w.store a info fault).2.slot k = w.slot k) ∨
      ∀ k, (w.store a info fault).2.slot k =
        if k = info.key then (w.slot k).write info else w.slot k := by
  set v := w.setObject a fun p => { p with info := info } with hv
  have hwritten : w.HasDir info.key → ∀ k, (v.saved info).slot k =
      if k = info.key then (w.slot k).write info else w.slot k := by
    intro hdir k
    have hrecord := World.record?_saved v info k
    split_ifs at hrecord ⊢ with hk
    · obtain ⟨dir, hfind⟩ := Option.isSome_iff_exists.mp hdir
      have hfind : v.history.dirs.find? k = some dir := by rw [hk]; exact hfind
      rw [hfind, Option.map_some] at hrecord
      unfold World.slot Slot.write
      rw [hrecord]
      rfl
    · exact World.slot_congr hrecord rfl rfl
  have hdirs : v.history.dirs.find? info.key = w.history.dirs.find? info.key := rfl
  unfold World.store World.saveProcess
  rw [← hv, hdirs]
  cases hdir : w.history.dirs.find? info.key with
  | none => exact .inl ⟨Option.some_ne_none _, fun _ => rfl⟩
  | some dir =>
    have hwritten := hwritten (Option.isSome_of_eq_some hdir)
    cases fault with
    | none => exact .inr hwritten
    | some fault =>
      dsimp only
      split_ifs
      · exact .inr hwritten
      · exact .inl ⟨Option.some_ne_none _, fun _ => rfl⟩

/-- Changes of another process. -/
theorem Touches.slot {k' : Key} (h : Touches a k w w') (hk : k' ≠ k) : w'.slot k' = w.slot k' := by
  have hrecord : w'.history.record? k' = w.history.record? k' := by
    unfold History.record?
    rw [h.dirs k' hk]
  unfold World.slot
  rw [hrecord, h.execs k' hk, h.exits k' hk]
  simp only [h.started k' hk, h.undead k' hk]

/-! ### Lodgings -/

/-- A sandbox whose container stays. -/
structure Lodging (id : String) (w : World) : Prop where
  /-- Directories are made in sandboxes that are there. -/
  home : ∀ pid, w.HasDir (id, pid) → (w.managed? id).isSome
  /-- The records of the sandbox are registered; while the adapter starts, they are those of the
  disk. -/
  member : ∀ a p, w.object? a = some p → p.info.sandboxId = id →
    (w.managed? id).isSome ∧ w.memory.registry.find? p.info.id = some a ∧
      (w.memory.serving = false → w.Recorded p.info.key)
  /-- Execs belong to tasks. -/
  housed : ∀ pid, (w.containerd.execs.find? (id, pid)).isSome → (w.containerd.tasks.find? id).isSome

namespace Lodging

variable {k : Key}

/-- There is one record for each process. -/
theorem sole {b : ℕ} {p q : Tracked} (h : Lodging id w) (hp : w.object? a = some p)
    (hq : w.object? b = some q) (hmine : p.info.sandboxId = id) (hkey : q.info.key = p.info.key) :
    b = a := by
  have hmine' : q.info.sandboxId = id := (congrArg Prod.fst hkey).trans hmine
  have hid : q.info.id = p.info.id := congrArg Prod.snd hkey
  obtain ⟨-, hreg, -⟩ := h.member a p hp hmine
  obtain ⟨-, hreg', -⟩ := h.member b q hq hmine'
  rw [hid, hreg] at hreg'
  exact (Option.some.inj hreg').symm

/-- Changes of one process keep a lodging. -/
theorem touch (h : Lodging id w) (ht : Touches a k w w') : Lodging id w' := by
  have hmanaged : w'.managed? id = w.managed? id := World.managed?_congr ht.containers
  refine ⟨fun pid hdir => ?_, fun b q hq hmine => ?_, fun pid hexec => ?_⟩
  · rw [hmanaged]
    by_cases hk : (id, pid) = k
    · rw [hk] at hdir
      rcases ht.dir hdir with hdir | hthere
      · exact h.home pid (hk ▸ hdir)
      · rwa [← hk] at hthere
    · rw [World.HasDir, ht.dirs _ hk] at hdir
      exact h.home pid hdir
  · obtain ⟨p, hp, hkey⟩ : ∃ p, w.object? b = some p ∧ q.info.key = p.info.key := by
      by_cases hb : b = a
      · rw [hb] at hq ⊢
        exact ht.before hq
      · rw [ht.object b hb] at hq
        exact ⟨q, hq, rfl⟩
    have hmine' : p.info.sandboxId = id := (congrArg Prod.fst hkey).symm.trans hmine
    have hid : q.info.id = p.info.id := congrArg Prod.snd hkey
    obtain ⟨hthere, hreg, hdown⟩ := h.member b p hp hmine'
    rw [hmanaged, ht.registry, ht.serving, hid, hkey]
    exact ⟨hthere, hreg, fun hserving => ht.all_recorded (hdown hserving)⟩
  · rw [ht.tasks]
    by_cases hk : (id, pid) = k
    · rw [hk] at hexec
      rcases ht.exec hexec with hexec | htask
      · exact h.housed pid (hk ▸ hexec)
      · rwa [← hk] at htask
    · rw [ht.execs _ hk] at hexec
      exact h.housed pid hexec

end Lodging

/-- The process may have exited. -/
def Slot.Halts (s s' : Slot) : Prop :=
  s' = s ∨ s.exec = some .running ∧
    ∃ code time, s' = { s with exec := some (.stopped code time), exit := some code }

theorem Slot.Halts.record {s s' : Slot} (h : s.Halts s') : s'.record = s.record := by
  rcases h with rfl | ⟨-, code, time, rfl⟩ <;> rfl

theorem Slot.Halts.exec {s s' : Slot} (h : s.Halts s') : s'.exec.isSome = s.exec.isSome := by
  rcases h with rfl | ⟨hrun, code, time, rfl⟩
  · rfl
  · rw [hrun]
    rfl

/-- The processes of the sandbox are left alone, except that they exit. -/
structure Leaves (id : String) (w w' : World) : Prop where
  managed : (w.managed? id).isSome → (w'.managed? id).isSome
  tasks : (w.containerd.tasks.find? id).isSome → (w'.containerd.tasks.find? id).isSome
  object : ∀ a p, w'.object? a = some p → p.info.sandboxId = id → w.object? a = some p
  registry : ∀ a p, w.object? a = some p → p.info.sandboxId = id →
    w.memory.registry.find? p.info.id = some a → w'.memory.registry.find? p.info.id = some a
  serving : w'.memory.serving = false → w.memory.serving = false
  dir : ∀ pid, w'.HasDir (id, pid) → w.HasDir (id, pid)
  slot : ∀ pid, (w.slot (id, pid)).Halts (w'.slot (id, pid))

/-- Records and registry stay. -/
theorem Leaves.of_memory (hheap : w'.memory.heap = w.memory.heap)
    (hregistry : w'.memory.registry = w.memory.registry)
    (hserving : w'.memory.serving = w.memory.serving)
    (hmanaged : (w.managed? id).isSome → (w'.managed? id).isSome)
    (htasks : (w.containerd.tasks.find? id).isSome → (w'.containerd.tasks.find? id).isSome)
    (hdir : ∀ pid, w'.HasDir (id, pid) → w.HasDir (id, pid))
    (hslot : ∀ pid, (w.slot (id, pid)).Halts (w'.slot (id, pid))) : Leaves id w w' := by
  refine ⟨hmanaged, htasks, fun a p hp _ => ?_, fun a p _ _ hreg => ?_, fun h => ?_, hdir, hslot⟩
  · rw [World.object?, ← hheap]
    exact hp
  · rw [hregistry]
    exact hreg
  · rw [← hserving]
    exact h

/-- Containers, tasks, directories and records stay. -/
theorem Leaves.of_slots (hheap : w'.memory.heap = w.memory.heap)
    (hregistry : w'.memory.registry = w.memory.registry)
    (hserving : w'.memory.serving = w.memory.serving)
    (hcontainers : w'.containerd.containers = w.containerd.containers)
    (htasks : w'.containerd.tasks = w.containerd.tasks)
    (hdirs : w'.history.dirs = w.history.dirs)
    (hslot : ∀ pid, w'.slot (id, pid) = w.slot (id, pid)) : Leaves id w w' := by
  have hmanaged : w'.managed? id = w.managed? id := World.managed?_congr hcontainers
  refine .of_memory hheap hregistry hserving (fun hthere => ?_) (fun htask => ?_) (fun pid hdir => ?_)
    fun pid => .inl (hslot pid)
  · rwa [hmanaged]
  · rwa [htasks]
  · unfold World.HasDir at hdir ⊢
    rwa [hdirs] at hdir

/-- Nothing of the sandbox changes but what its container is made of. -/
theorem Leaves.of_frame (hmemory : w'.memory = w.memory) (hhistory : w'.history = w.history)
    (htrace : w'.trace = w.trace) (hmanaged : (w.managed? id).isSome → (w'.managed? id).isSome)
    (htasks : (w.containerd.tasks.find? id).isSome → (w'.containerd.tasks.find? id).isSome)
    (hexecs : ∀ pid, w'.containerd.execs.find? (id, pid) = w.containerd.execs.find? (id, pid)) :
    Leaves id w w' := by
  refine .of_memory (by rw [hmemory]) (by rw [hmemory]) (by rw [hmemory]) hmanaged htasks
    (fun pid hdir => ?_) fun pid => .inl (World.slot_congr (by rw [hhistory]) (hexecs pid) htrace)
  unfold World.HasDir at hdir ⊢
  rwa [hhistory] at hdir

theorem Leaves.refl (id : String) (w : World) : Leaves id w w :=
  .of_frame rfl rfl rfl (fun h => h) (fun h => h) fun _ => rfl

theorem Leaves.noteIf (c : Prop) [Decidable c] (hi : ∀ pid, i ≠ .undead (id, pid)) :
    Leaves id w (if c then w.note i else w) := by
  split_ifs
  · exact .of_slots rfl rfl rfl rfl rfl rfl fun pid => World.slot_note _ (hi pid)
  · exact .refl id w

theorem Leaves.setWaiter (i : ℕ) (f : Waiter → Waiter) : Leaves id w (w.setWaiter i f) :=
  .of_slots rfl rfl rfl rfl rfl rfl fun _ => rfl

/-- A running exec stops. -/
theorem Leaves.exit (code : UInt32) (time : Option Time)
    (hrun : w.containerd.execs.find? k = some .running) : Leaves id w (w.exit k code time) := by
  unfold World.exit
  rw [if_pos hrun]
  refine .of_memory rfl rfl rfl (fun h => h) (fun h => h) (fun _ h => h) fun pid => ?_
  by_cases hk : (id, pid) = k
  · refine .inr ⟨by rw [hk]; exact hrun, code, time, ?_⟩
    unfold World.slot World.setExecs
    dsimp only
    rw [hk, Table.find?_modify_self, hrun, if_pos rfl]
    rfl
  · refine .inl ?_
    unfold World.slot World.setExecs
    dsimp only
    rw [Table.find?_modify_of_ne _ hk, if_neg hk]

/-- The task of a sandbox stops, and its execs with it. -/
theorem Leaves.taskExit {id' : String} (codes : String → UInt32) (time : Option Time)
    (hrun : w.containerd.tasks.find? id' = some .running) :
    Leaves id w (w.taskExit id' codes time) := by
  unfold World.taskExit
  rw [if_pos hrun]
  refine .of_memory rfl rfl rfl (fun h => h) (fun h => ?_) (fun _ h => h) fun pid => ?_
  · dsimp only
    rw [Table.find?_modify]
    split_ifs
    · rwa [Option.isSome_map]
    · exact h
  · by_cases hk : id = id' ∧ w.containerd.execs.find? (id, pid) = some .running
    · refine .inr ⟨hk.2, codes pid, time, ?_⟩
      unfold World.slot
      dsimp only
      rw [Table.find?_mapRows, hk.2, if_pos ⟨hk.1, rfl⟩, Option.map_some, if_pos ⟨hk.1, rfl⟩]
    · refine .inl ?_
      unfold World.slot
      dsimp only
      rw [Table.find?_mapRows, if_neg hk]
      cases hexec : w.containerd.execs.find? (id, pid) with
      | none => rfl
      | some state =>
        rw [Option.map_some, if_neg]
        rintro ⟨hid, rfl⟩
        exact hk ⟨hid, hexec⟩

theorem Lodging.leave (h : Lodging id w) (hs : Leaves id w w') : Lodging id w' := by
  refine ⟨fun pid hdir => hs.managed (h.home pid (hs.dir pid hdir)), fun b p hp hmine => ?_,
    fun pid hexec => hs.tasks (h.housed pid ?_)⟩
  · have hp' := hs.object b p hp hmine
    obtain ⟨hthere, hreg, hdown⟩ := h.member b p hp' hmine
    refine ⟨hs.managed hthere, hs.registry b p hp' hmine hreg, fun hserving => ?_⟩
    have hkey : p.info.key = (id, p.info.id) := Prod.ext hmine rfl
    have hrecorded := hdown (hs.serving hserving)
    have hrecord : w'.history.record? (id, p.info.id) = w.history.record? (id, p.info.id) :=
      (hs.slot p.info.id).record
    unfold World.Recorded at hrecorded ⊢
    rw [hkey] at hrecorded ⊢
    rw [hrecord]
    exact hrecorded
  · have hexec : (w'.slot (id, pid)).exec.isSome := hexec
    rwa [(hs.slot pid).exec] at hexec

end Sandcube.Adapter
