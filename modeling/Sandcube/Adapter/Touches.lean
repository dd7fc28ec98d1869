import Sandcube.Adapter.Beside
import Sandcube.Adapter.Lifecycle

/-!
# Changes of one process

Most changes that operations and watchers make are about one record in memory and about what there
is of its process outside of the memory: the directory, the exec and what happened to it.  `Touches`
says that everything else stays.  There is one rule for each primitive change, and changes compose
(`Touches.trans`).
-/

namespace Sandcube.Adapter

variable {w w' : World} {a : ℕ} {k : Key} {p : Tracked} {info : ProcessInfo}

/-! ### Records, directories and execs -/

/-- The directory of a process is there. -/
def World.HasDir (w : World) (k : Key) : Prop := (w.history.dirs.find? k).isSome

/-- The pipe of a process is there. -/
def World.Piped (w : World) (k : Key) : Prop :=
  ∃ dir, w.history.dirs.find? k = some dir ∧ "stdout.pipe" ∈ dir.pipes

/-- `process.json` is there. -/
def World.Recorded (w : World) (k : Key) : Prop := (w.history.record? k).isSome

theorem World.Recorded.hasDir (h : w.Recorded k) : w.HasDir k := by
  obtain ⟨info, hinfo⟩ := Option.isSome_iff_exists.mp h
  obtain ⟨dir, hdir, -⟩ := Option.bind_eq_some_iff.mp hinfo
  exact Option.isSome_of_eq_some hdir

theorem World.hasDir_setDir {k' : Key} {f : Dir → Dir} : (w.setDir k f).HasDir k' ↔ w.HasDir k' := by
  unfold World.HasDir World.setDir
  dsimp only
  rw [Table.find?_modify]
  split_ifs
  · rw [Option.isSome_map]
  · rfl

theorem World.managed?_congr {id : String}
    (h : w'.containerd.containers = w.containerd.containers) : w'.managed? id = w.managed? id := by
  unfold World.managed?
  rw [h]

theorem World.lookupProcess_eq_some {id pid : String} :
    w.lookupProcess id pid = some (a, p) ↔
      w.memory.registry.find? pid = some a ∧ w.object? a = some p ∧ p.info.sandboxId = id := by
  unfold World.lookupProcess
  constructor
  · intro h
    obtain ⟨b, hb, h⟩ := Option.bind_eq_some_iff.mp h
    obtain ⟨q, hq, h⟩ := Option.bind_eq_some_iff.mp h
    split_ifs at h with hmine
    obtain ⟨rfl, rfl⟩ := Prod.mk.inj (Option.some.inj h)
    exact ⟨hb, hq, hmine⟩
  · rintro ⟨hb, hq, hmine⟩
    rw [hb, Option.bind_some, hq, Option.bind_some, if_pos hmine]

/-- A pipe is made where there is none, or nothing happens. -/
theorem mkfifo_cases (w : World) (a : ℕ) (k : Key) (name : String) :
    (∃ e, w.mkfifo a k name = (.error e, w)) ∨
      ∃ dir, w.history.dirs.find? k = some dir ∧ name ∉ dir.pipes ∧ w.mkfifo a k name =
        (.ok (), (w.setDir k fun dir => { dir with pipes := name :: dir.pipes }).enter a
          (.building .piped)) := by
  unfold World.mkfifo
  split
  · exact .inl ⟨_, rfl⟩
  · next dir hdir =>
    split_ifs with hname
    · exact .inl ⟨_, rfl⟩
    · exact .inr ⟨dir, hdir, hname, rfl⟩

theorem deleteExec_cases (w : World) (k : Key) :
    (w.deleteExec k).2 = w ∨ (w.deleteExec k).2 = w.setExecs fun execs => execs.erase k := by
  unfold World.deleteExec
  split
  · exact .inl rfl
  · exact .inl rfl
  · exact .inr rfl

/-! ### Changes of one process -/

/-- A change of the record at `a` and of what there is of the process `k`. -/
structure Touches (a : ℕ) (k : Key) (w w' : World) : Prop where
  containers : w'.containerd.containers = w.containerd.containers
  tasks : w'.containerd.tasks = w.containerd.tasks
  snapshots : w'.containerd.snapshots = w.containerd.snapshots
  nextSnapshot : w'.containerd.nextSnapshot = w.containerd.nextSnapshot
  net : w'.net = w.net
  quota : w'.quota = w.quota
  registry : w'.memory.registry = w.memory.registry
  serving : w'.memory.serving = w.memory.serving
  object : ∀ b, b ≠ a → w'.object? b = w.object? b
  /-- The record stays, and it is about the same process. -/
  own : (w'.object? a).map (fun p => p.info.key) = (w.object? a).map fun p => p.info.key
  dirs : ∀ k', k' ≠ k → w'.history.dirs.find? k' = w.history.dirs.find? k'
  /-- A directory is made only in a sandbox that is there. -/
  dir : w'.HasDir k → w.HasDir k ∨ (w.managed? k.1).isSome
  recorded : w.Recorded k → w'.Recorded k
  piped : w.Piped k → w'.Piped k
  execs : ∀ k', k' ≠ k → w'.containerd.execs.find? k' = w.containerd.execs.find? k'
  /-- An exec is made only in a task. -/
  exec : (w'.containerd.execs.find? k).isSome →
    (w.containerd.execs.find? k).isSome ∨ (w.containerd.tasks.find? k.1).isSome
  exits : ∀ k', k' ≠ k → w'.trace.exits k' = w.trace.exits k'
  started : ∀ k', k' ≠ k → (k' ∈ w'.trace.started ↔ k' ∈ w.trace.started)
  undead : ∀ k', k' ≠ k → (.undead k' ∈ w'.trace.incidents ↔ .undead k' ∈ w.trace.incidents)
  incidents : ∀ i ∈ w.trace.incidents, i ∈ w'.trace.incidents
  requests : w'.trace.requests = w.trace.requests

namespace Touches

theorem refl (a : ℕ) (k : Key) (w : World) : Touches a k w w where
  containers := rfl
  tasks := rfl
  snapshots := rfl
  nextSnapshot := rfl
  net := rfl
  quota := rfl
  registry := rfl
  serving := rfl
  object _ _ := rfl
  own := rfl
  dirs _ _ := rfl
  dir := .inl
  recorded h := h
  piped h := h
  execs _ _ := rfl
  exec := .inl
  exits _ _ := rfl
  started _ _ := Iff.rfl
  undead _ _ := Iff.rfl
  incidents _ h := h
  requests := rfl

theorem trans {w'' : World} (h : Touches a k w w') (h' : Touches a k w' w'') :
    Touches a k w w'' where
  containers := h'.containers.trans h.containers
  tasks := h'.tasks.trans h.tasks
  snapshots := h'.snapshots.trans h.snapshots
  nextSnapshot := h'.nextSnapshot.trans h.nextSnapshot
  net := h'.net.trans h.net
  quota := h'.quota.trans h.quota
  registry := h'.registry.trans h.registry
  serving := h'.serving.trans h.serving
  object b hb := (h'.object b hb).trans (h.object b hb)
  own := h'.own.trans h.own
  dirs k' hk' := (h'.dirs k' hk').trans (h.dirs k' hk')
  dir hdir := by
    rcases h'.dir hdir with hdir | hthere
    · exact h.dir hdir
    · rw [World.managed?_congr h.containers] at hthere
      exact .inr hthere
  recorded hk := h'.recorded (h.recorded hk)
  piped hk := h'.piped (h.piped hk)
  execs k' hk' := (h'.execs k' hk').trans (h.execs k' hk')
  exec hexec := by
    rcases h'.exec hexec with hexec | htask
    · exact h.exec hexec
    · rw [h.tasks] at htask
      exact .inr htask
  exits k' hk' := (h'.exits k' hk').trans (h.exits k' hk')
  started k' hk' := (h'.started k' hk').trans (h.started k' hk')
  undead k' hk' := (h'.undead k' hk').trans (h.undead k' hk')
  incidents i hi := h'.incidents i (h.incidents i hi)
  requests := h'.requests.trans h.requests

/-- The record that is there afterwards is about the same process. -/
theorem before (h : Touches a k w w') {q : Tracked} (hq : w'.object? a = some q) :
    ∃ p, w.object? a = some p ∧ q.info.key = p.info.key := by
  have hown := h.own
  rw [hq, Option.map_some] at hown
  obtain ⟨p, hp, hkey⟩ := Option.map_eq_some_iff.mp hown.symm
  exact ⟨p, hp, hkey.symm⟩

theorem all_recorded (h : Touches a k w w') {k' : Key} (hk' : w.Recorded k') : w'.Recorded k' := by
  by_cases hk : k' = k
  · rw [hk] at hk' ⊢
    exact h.recorded hk'
  · unfold World.Recorded History.record? at hk' ⊢
    rw [h.dirs k' hk]
    exact hk'

theorem all_piped (h : Touches a k w w') {k' : Key} (hk' : w.Piped k') : w'.Piped k' := by
  by_cases hk : k' = k
  · rw [hk] at hk' ⊢
    exact h.piped hk'
  · unfold World.Piped at hk' ⊢
    rw [h.dirs k' hk]
    exact hk'

/-! ### Memory and trace -/

theorem setObject {f : Tracked → Tracked}
    (hf : ∀ p, w.object? a = some p → (f p).info.key = p.info.key) :
    Touches a k w (w.setObject a f) :=
  { refl a k w with
    object := fun b hb => World.object?_setObject_of_ne w hb f
    own := by
      rw [World.object?_setObject_self, Option.map_map]
      cases hp : w.object? a with
      | none => rfl
      | some p => exact congrArg some (hf p hp) }

theorem enter (stage : Stage) : Touches a k w (w.enter a stage) := setObject fun _ _ => rfl

theorem timedOut : Touches a k w
    (w.setObject a fun p => { p with info := { p.info with timedOut := true } }) :=
  setObject fun _ _ => rfl

theorem noteIf (c : Prop) [Decidable c] {i : Incident} (hi : ∀ k', k' ≠ k → i ≠ .undead k') :
    Touches a k w (if c then w.note i else w) := by
  split_ifs
  · refine { refl a k w with
      undead := fun k' hk' => ?_
      incidents := fun _ h => List.mem_cons_of_mem i h }
    exact List.mem_cons.trans (or_iff_right (hi k' hk').symm)
  · exact refl a k w

/-! ### The directory -/

/-- The directory changes; what is in it stays in it. -/
theorem setDir {f : Dir → Dir} (hrecord : ∀ dir, dir.record.isSome → (f dir).record.isSome)
    (hpipes : ∀ dir, dir.pipes ⊆ (f dir).pipes) : Touches a k w (w.setDir k f) := by
  have hself : (w.setDir k f).history.dirs.find? k = (w.history.dirs.find? k).map f :=
    Table.find?_modify_self _ _ _
  refine { refl a k w with
    dirs := fun k' hk' => Table.find?_modify_of_ne _ hk' _
    dir := fun hdir => .inl (World.hasDir_setDir.mp hdir)
    recorded := fun hk => ?_
    piped := ?_ }
  · unfold World.Recorded History.record? at hk ⊢
    rw [hself]
    cases hdir : w.history.dirs.find? k with
    | none => rw [hdir] at hk; cases hk
    | some dir => rw [hdir] at hk; exact hrecord dir hk
  · rintro ⟨dir, hdir, hpipe⟩
    exact ⟨f dir, by rw [hself, hdir, Option.map_some], hpipes dir hpipe⟩

theorem addPipe (name : String) : Touches a k w
    (w.setDir k fun dir => { dir with pipes := name :: dir.pipes }) :=
  setDir (fun _ h => h) fun _ => List.subset_cons_self _ _

theorem store (obj : w.object? a = some p) (hkey : info.key = p.info.key) (fault : Option Fault) :
    Touches a p.info.key w (w.store a info fault).2 := by
  have hset : Touches a p.info.key w (w.setObject a fun p => { p with info := info }) := by
    refine setObject fun p' hp' => ?_
    rw [obj] at hp'
    rw [← Option.some.inj hp']
    exact hkey
  unfold World.store
  rcases World.saveProcess_cases (w.setObject a fun p => { p with info := info }) info fault
    with hsame | hsaved
  · rw [hsame]
    exact hset
  · rw [hsaved, World.saved, hkey]
    exact hset.trans (setDir (fun _ _ => rfl) fun _ => List.Subset.refl _)

theorem makeDir (hmanaged : (w.managed? k.1).isSome) : Touches a k w (w.makeDir k) := by
  have hkept : ∀ dir, w.history.dirs.find? k = some dir →
      (w.makeDir k).history.dirs.find? k = some dir := by
    intro dir hdir
    unfold World.makeDir
    dsimp only
    rw [hdir]
    exact hdir
  refine { refl a k w with
    dirs := fun k' hk' => ?_
    dir := fun _ => .inr hmanaged
    recorded := fun hk => ?_
    piped := ?_ }
  · unfold World.makeDir
    dsimp only
    split
    · rfl
    · exact Table.find?_put_of_ne _ hk' _
  · obtain ⟨info, hinfo⟩ := Option.isSome_iff_exists.mp hk
    obtain ⟨dir, hdir, hrecord⟩ := Option.bind_eq_some_iff.mp hinfo
    exact Option.isSome_of_eq_some (Option.bind_eq_some_iff.mpr ⟨dir, hkept dir hdir, hrecord⟩)
  · rintro ⟨dir, hdir, hpipe⟩
    exact ⟨dir, hkept dir hdir, hpipe⟩

/-! ### The exec -/

theorem eraseExec (k : Key) : Touches a k w (w.setExecs fun execs => execs.erase k) :=
  { refl a k w with
    execs := fun _ hk' => Table.find?_erase_of_ne _ hk'
    exec := fun h => by
      have h : ((w.containerd.execs.erase k).find? k).isSome := h
      rw [Table.find?_erase_self] at h
      cases h }

theorem putExec (k : Key) (state : ExecState)
    (h : (w.containerd.execs.find? k).isSome ∨ (w.containerd.tasks.find? k.1).isSome) :
    Touches a k w (w.setExecs fun execs => execs.put k state) :=
  { refl a k w with
    execs := fun _ hk' => Table.find?_put_of_ne _ hk' _
    exec := fun _ => h }

theorem deleteExec (k : Key) : Touches a k w (w.deleteExec k).2 := by
  rcases deleteExec_cases w k with hsame | herase
  · rw [hsame]
    exact refl a k w
  · rw [herase]
    exact eraseExec k

end Touches

end Sandcube.Adapter
