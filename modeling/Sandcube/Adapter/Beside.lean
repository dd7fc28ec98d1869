import Sandcube.Adapter.BackMoves
import Sandcube.Adapter.Calls

/-!
# Assertions that background steps keep

Before each step of an operation any number of background steps may happen, so an assertion
about the state between two steps of an operation is of use only if no background step can make
it false (`Steady`).

`Beside` says once what one background step can do to the state; most assertions are steady by
one of its fields.  The rules at the end are those of the program logic for the adapter's steps.
-/

open Relation

namespace Sandcube.Adapter

variable {w : World} {a : ℕ} {p : Tracked} {f : Dir → Dir} {info : ProcessInfo}
  {fault : Option Fault} {steps : List Back}

/-! ### Records in memory -/

namespace World

theorem object?_setObject (w : World) (a b : ℕ) (f : Tracked → Tracked) :
    (w.setObject a f).object? b = if b = a then (w.object? b).map f else w.object? b := by
  unfold setObject object?
  rw [List.getElem?_modify]
  split_ifs with h h' h'
  · rfl
  · exact absurd h.symm h'
  · exact absurd h'.symm h
  · exact Option.map_id'

@[simp] theorem object?_setObject_self (w : World) (a : ℕ) (f : Tracked → Tracked) :
    (w.setObject a f).object? a = (w.object? a).map f := by
  rw [object?_setObject, if_pos rfl]

theorem object?_setObject_of_eq (hp : w.object? a = some p) (f : Tracked → Tracked) :
    (w.setObject a f).object? a = some (f p) := by
  rw [object?_setObject_self, hp, Option.map_some]

theorem object?_enter (hp : w.object? a = some p) (stage : Stage) :
    (w.enter a stage).object? a = some { p with stage := stage } :=
  object?_setObject_of_eq hp _

theorem object?_setObject_of_ne (w : World) {b : ℕ} (h : b ≠ a) (f : Tracked → Tracked) :
    (w.setObject a f).object? b = w.object? b := by
  rw [object?_setObject, if_neg h]

/-- A change of a directory that leaves `process.json` alone. -/
theorem record?_setDir (w : World) (k k' : Key) (hf : ∀ dir, (f dir).record = dir.record) :
    (w.setDir k f).history.record? k' = w.history.record? k' := by
  unfold setDir History.record?
  rw [Table.find?_modify]
  split_ifs
  · cases hdir : w.history.dirs.find? k' with
    | none => rfl
    | some dir => exact hf dir
  · rfl

/-- A save gives a directory that exists this record. -/
theorem record?_saved (w : World) (info : ProcessInfo) (k : Key) :
    (w.saved info).history.record? k =
      if k = info.key then (w.history.dirs.find? k).map fun _ => info else w.history.record? k := by
  unfold saved setDir History.record?
  rw [Table.find?_modify]
  split_ifs
  · cases w.history.dirs.find? k <;> rfl
  · rfl

/-- `saveProcess` writes one file, or nothing. -/
theorem saveProcess_cases (w : World) (info : ProcessInfo) (fault : Option Fault) :
    (w.saveProcess info fault).2 = w ∨ (w.saveProcess info fault).2 = w.saved info := by
  unfold saveProcess
  split
  · exact .inl rfl
  · exact .inr rfl
  · dsimp only
    split_ifs
    · exact .inr rfl
    · exact .inl rfl

@[simp] theorem object?_saveProcess (w : World) (info : ProcessInfo) (fault : Option Fault) (a : ℕ) :
    (w.saveProcess info fault).2.object? a = w.object? a := by
  rcases w.saveProcess_cases info fault with h | h
  · rw [h]
  · rw [h]; rfl

theorem object?_store (hp : w.object? a = some p) (info : ProcessInfo) (fault : Option Fault) :
    (w.store a info fault).2.object? a = some { p with info := info } := by
  unfold store
  rw [object?_saveProcess, object?_setObject_of_eq hp]

theorem trace_store (w : World) (a : ℕ) (info : ProcessInfo) (fault : Option Fault) :
    (w.store a info fault).2.trace = w.trace := by
  unfold store
  rcases saveProcess_cases (w.setObject a fun p => { p with info := info }) info fault with h | h
  · rw [h]; rfl
  · rw [h]; rfl

theorem object?_noteIf (w : World) (c : Prop) [Decidable c] (i : Incident) (a : ℕ) :
    (if c then w.note i else w).object? a = w.object? a := by
  split_ifs <;> rfl

theorem deleteExec_memory (w : World) (k : Key) : (w.deleteExec k).2.memory = w.memory := by
  unfold deleteExec
  split <;> rfl

end World

/-! ### One background step -/

/-- What background steps can do to a record in memory. -/
structure Tracked.Besides (p p' : Tracked) : Prop where
  key : p'.info.key = p.info.key
  hash : p'.info.requestHash = p.info.requestHash
  proc : p'.proc = p.proc
  /-- A record without a watcher changes only in its timeout. -/
  still : (∀ phase, p.stage ≠ .watched phase) →
    ∃ b, p' = { p with info := { p.info with timedOut := b } }
  /-- A watched record is watched until it is done. -/
  watched : ∀ phase, p.stage = .watched phase →
    p'.stage = .done ∨ ∃ phase', p'.stage = .watched phase'

namespace Tracked.Besides

variable {p p' p'' : Tracked}

theorem refl (p : Tracked) : p.Besides p :=
  ⟨rfl, rfl, rfl, fun _ => ⟨p.info.timedOut, rfl⟩, fun phase h => .inr ⟨phase, h⟩⟩

theorem timedOut (p : Tracked) (b : Bool) :
    p.Besides { p with info := { p.info with timedOut := b } } :=
  ⟨rfl, rfl, rfl, fun _ => ⟨b, rfl⟩, fun phase h => .inr ⟨phase, h⟩⟩

/-- Only a watched record becomes a watched record. -/
theorem watched_before (h : p.Besides p') {phase : WatchPhase} (hp' : p'.stage = .watched phase) :
    ∃ phase', p.stage = .watched phase' := by
  by_contra hnot
  obtain ⟨b, rfl⟩ := h.still fun phase' hphase => hnot ⟨phase', hphase⟩
  exact hnot ⟨phase, hp'⟩

theorem done (h : p.Besides p') (hp : p.stage = .done) : p'.stage = .done := by
  obtain ⟨b, rfl⟩ := h.still fun phase hphase => by rw [hp] at hphase; cases hphase
  exact hp

theorem trans (h : p.Besides p') (h' : p'.Besides p'') : p.Besides p'' := by
  refine ⟨h'.key.trans h.key, h'.hash.trans h.hash, h'.proc.trans h.proc, ?_, ?_⟩
  · intro hstill
    obtain ⟨b, rfl⟩ := h.still hstill
    exact h'.still hstill
  · intro phase hphase
    rcases h.watched phase hphase with hdone | ⟨phase', hphase'⟩
    · exact .inl (h'.done hdone)
    · exact h'.watched phase' hphase'

end Tracked.Besides

/-- What background steps can do to the state.  The exec records are left out: what happens to
them is the subject of other modules. -/
structure Beside (host : Host) (w w' : World) : Prop where
  containers : w'.containerd.containers = w.containerd.containers
  snapshots : w'.containerd.snapshots = w.containerd.snapshots
  nextSnapshot : w'.containerd.nextSnapshot = w.containerd.nextSnapshot
  tasks : ∀ id, w'.containerd.tasks.find? id = w.containerd.tasks.find? id ∨
    w.containerd.tasks.find? id = some .running ∧ w'.containerd.tasks.find? id = some .stopped
  homes : w'.history.homes = w.history.homes
  dirKeys : w'.history.dirs.keys = w.history.dirs.keys
  pipes : ∀ k, (w'.history.dirs.find? k).map Dir.pipes = (w.history.dirs.find? k).map Dir.pipes
  recorded : ∀ k, (w.history.record? k).isSome → (w'.history.record? k).isSome
  /-- Only watchers write records. -/
  rewritten : ∀ k, w'.history.record? k = w.history.record? k ∨
    ∃ a p phase, w.object? a = some p ∧ p.info.key = k ∧ p.stage = .watched phase
  registry : w'.memory.registry = w.memory.registry
  serving : w'.memory.serving = w.memory.serving
  length : w'.memory.heap.length = w.memory.heap.length
  object : ∀ a p, w.object? a = some p → ∃ p', w'.object? a = some p' ∧ p.Besides p'
  records : w'.net.records = w.net.records
  tables : w'.net.tables = w.net.tables
  links : w'.net.links = w.net.links
  namespaces : w'.net.namespaces = w.net.namespaces
  resolvers : w'.net.resolvers = w.net.resolvers
  /-- A new connection goes through a link. -/
  flow : ∀ f ∈ w'.net.conntrack, f ∈ w.net.conntrack ∨
    ∃ link, w.net.links.find? (host.networkName f.sandbox) = some link ∧ link.guest = some f.guest
  limits : w'.quota.limits = w.quota.limits
  attributes : w'.quota.attributes = w.quota.attributes
  journals : w'.quota.journals = w.quota.journals
  directory : ∀ n ∈ w'.quota.directories, n ∈ w.quota.directories
  inUse : ∀ n ∈ w.quota.directories, World.inUse w.containerd n = true → n ∈ w'.quota.directories
  usage : ∀ n, n ∉ w.quota.directories → w.quota.usage n = .zero → w'.quota.usage n = .zero
  invoked : w'.trace.invoked = w.trace.invoked
  started : w'.trace.started = w.trace.started
  requests : w'.trace.requests = w.trace.requests
  incidents : ∀ i ∈ w.trace.incidents, i ∈ w'.trace.incidents

namespace Beside

variable {host : Host} {w w' w'' : World} {a : ℕ} {p : Tracked} {phase : WatchPhase}

theorem refl (host : Host) (w : World) : Beside host w w where
  containers := rfl
  snapshots := rfl
  nextSnapshot := rfl
  tasks _ := .inl rfl
  homes := rfl
  dirKeys := rfl
  pipes _ := rfl
  recorded _ h := h
  rewritten _ := .inl rfl
  registry := rfl
  serving := rfl
  length := rfl
  object _ p h := ⟨p, h, .refl p⟩
  records := rfl
  tables := rfl
  links := rfl
  namespaces := rfl
  resolvers := rfl
  flow _ h := .inl h
  limits := rfl
  attributes := rfl
  journals := rfl
  directory _ h := h
  inUse _ h _ := h
  usage _ _ h := h
  invoked := rfl
  started := rfl
  requests := rfl
  incidents _ h := h

/-- An object that is there afterwards was there before. -/
theorem object_before (h : Beside host w w') {p' : Tracked} (hp' : w'.object? a = some p') :
    ∃ p, w.object? a = some p ∧ p.Besides p' := by
  have hlt : a < w.memory.heap.length := by
    rw [← h.length]
    exact (List.getElem?_eq_some_iff.mp hp').1
  obtain ⟨p'', hp'', hbesides⟩ := h.object a _ (List.getElem?_eq_getElem hlt)
  rw [hp'] at hp''
  obtain rfl := Option.some.inj hp''
  exact ⟨_, List.getElem?_eq_getElem hlt, hbesides⟩

theorem trans (h : Beside host w w') (h' : Beside host w' w'') : Beside host w w'' where
  containers := h'.containers.trans h.containers
  snapshots := h'.snapshots.trans h.snapshots
  nextSnapshot := h'.nextSnapshot.trans h.nextSnapshot
  tasks id := by
    rcases h.tasks id with h₁ | ⟨h₁, h₁'⟩
    · rw [← h₁]; exact h'.tasks id
    · rcases h'.tasks id with h₂ | ⟨h₂, -⟩
      · exact .inr ⟨h₁, h₂.trans h₁'⟩
      · rw [h₁'] at h₂; cases h₂
  homes := h'.homes.trans h.homes
  dirKeys := h'.dirKeys.trans h.dirKeys
  pipes k := (h'.pipes k).trans (h.pipes k)
  recorded k hk := h'.recorded k (h.recorded k hk)
  rewritten k := by
    rcases h.rewritten k with h₁ | h₁
    · rcases h'.rewritten k with h₂ | ⟨a, p', phase, hp', hkey, hphase⟩
      · exact .inl (h₂.trans h₁)
      · obtain ⟨p, hp, hbesides⟩ := h.object_before hp'
        obtain ⟨phase', hphase'⟩ := hbesides.watched_before hphase
        exact .inr ⟨a, p, phase', hp, hbesides.key.symm.trans hkey, hphase'⟩
    · exact .inr h₁
  registry := h'.registry.trans h.registry
  serving := h'.serving.trans h.serving
  length := h'.length.trans h.length
  object a p hp := by
    obtain ⟨p', hp', hbesides⟩ := h.object a p hp
    obtain ⟨p'', hp'', hbesides'⟩ := h'.object a p' hp'
    exact ⟨p'', hp'', hbesides.trans hbesides'⟩
  records := h'.records.trans h.records
  tables := h'.tables.trans h.tables
  links := h'.links.trans h.links
  namespaces := h'.namespaces.trans h.namespaces
  resolvers := h'.resolvers.trans h.resolvers
  flow f hf := by
    rcases h'.flow f hf with h₁ | h₁
    · exact h.flow f h₁
    · rw [h.links] at h₁; exact .inr h₁
  limits := h'.limits.trans h.limits
  attributes := h'.attributes.trans h.attributes
  journals := h'.journals.trans h.journals
  directory n hn := h.directory n (h'.directory n hn)
  inUse n hn huse := by
    refine h'.inUse n (h.inUse n hn huse) ?_
    unfold World.inUse at huse ⊢
    rw [h.snapshots]
    exact huse
  usage n hn hzero := h'.usage n (fun hn' => hn (h.directory n hn')) (h.usage n hn hzero)
  invoked := h'.invoked.trans h.invoked
  started := h'.started.trans h.started
  requests := h'.requests.trans h.requests
  incidents i hi := h'.incidents i (h.incidents i hi)

/-! ### The parts of a background step -/

theorem note (i : Incident) : Beside host w (w.note i) :=
  { refl host w with incidents := fun _ h => List.mem_cons_of_mem i h }

theorem setExecs (f : Table Key ExecState → Table Key ExecState) : Beside host w (w.setExecs f) :=
  { refl host w with }

theorem setWaiter (i : ℕ) (f : Waiter → Waiter) : Beside host w (w.setWaiter i f) :=
  { refl host w with }

theorem setObject {f : Tracked → Tracked} (hf : ∀ p, w.object? a = some p → p.Besides (f p)) :
    Beside host w (w.setObject a f) :=
  { refl host w with
    length := List.length_modify ..
    object := fun b p hp => by
      by_cases hb : b = a
      · subst hb
        exact ⟨f p, World.object?_setObject_of_eq hp f, hf p hp⟩
      · exact ⟨p, by rw [World.object?_setObject_of_ne w hb, hp], .refl p⟩ }

theorem setDir (k : Key) (hpipes : ∀ dir, (f dir).pipes = dir.pipes)
    (hrecord : ∀ dir, (f dir).record = dir.record) : Beside host w (w.setDir k f) :=
  { refl host w with
    dirKeys := by simp [World.setDir, Table.keys, Table.modify, Table.mapRows, Function.comp_def]
    pipes := fun k' => by
      rw [World.setDir, Table.find?_modify]
      split_ifs
      · rw [Option.map_map]
        exact congrArg (Option.map · _) (funext hpipes)
      · rfl
    recorded := fun k' h => by rw [w.record?_setDir k k' hrecord]; exact h
    rewritten := fun k' => .inl (w.record?_setDir k k' hrecord) }

/-- A watcher saves the record it watches. -/
theorem saved (hp : w.object? a = some p) (hphase : p.stage = .watched phase)
    (hkey : info.key = p.info.key) : Beside host w (w.saved info) :=
  { refl host w with
    dirKeys := by
      simp [World.saved, World.setDir, Table.keys, Table.modify, Table.mapRows, Function.comp_def]
    pipes := fun k => by
      rw [World.saved, World.setDir, Table.find?_modify]
      split_ifs
      · rw [Option.map_map]; rfl
      · rfl
    recorded := fun k hk => by
      rw [World.record?_saved]
      split_ifs
      · obtain ⟨info', hinfo'⟩ := Option.isSome_iff_exists.mp hk
        obtain ⟨dir, hdir, -⟩ := Option.bind_eq_some_iff.mp hinfo'
        rw [hdir]; rfl
      · exact hk
    rewritten := fun k => by
      rw [World.record?_saved]
      split_ifs with hk
      · exact .inr ⟨a, p, phase, hp, (hk.trans hkey).symm, hphase⟩
      · exact .inl rfl }

theorem saveProcess (hp : w.object? a = some p) (hphase : p.stage = .watched phase)
    (hkey : info.key = p.info.key) : Beside host w (w.saveProcess info fault).2 := by
  rcases w.saveProcess_cases info fault with h | h
  · rw [h]; exact refl host w
  · rw [h]; exact saved hp hphase hkey

theorem store (hp : w.object? a = some p) (hphase : p.stage = .watched phase)
    (hkey : info.key = p.info.key) (hhash : info.requestHash = p.info.requestHash) :
    Beside host w (w.store a info fault).2 := by
  have hchange : p.Besides { p with info := info } :=
    ⟨hkey, hhash, rfl, fun h => absurd hphase (h phase), fun phase' h => .inr ⟨phase', h⟩⟩
  have hset : Beside host w (w.setObject a fun p => { p with info := info }) := by
    refine setObject fun p' hp' => ?_
    rw [hp] at hp'
    obtain rfl := Option.some.inj hp'
    exact hchange
  exact hset.trans (saveProcess (World.object?_setObject_of_eq hp _) hphase rfl)

theorem enter {stage : Stage} (hp : w.object? a = some p) (hphase : p.stage = .watched phase)
    (hstage : stage = .done ∨ ∃ phase', stage = .watched phase') :
    Beside host w (w.enter a stage) := by
  refine setObject fun p' hp' => ?_
  rw [hp] at hp'
  obtain rfl := Option.some.inj hp'
  exact ⟨rfl, rfl, rfl, fun h => absurd hphase (h phase), fun _ _ => hstage⟩

theorem timedOut : Beside host w
    (w.setObject a fun p => { p with info := { p.info with timedOut := true } }) :=
  setObject fun p _ => .timedOut p true

/-- Noting something under a condition. -/
theorem noteIf (c : Prop) [Decidable c] (i : Incident) :
    Beside host w (if c then w.note i else w) := by
  split_ifs
  · exact note i
  · exact refl host w

theorem deleteExec (k : Key) : Beside host w (w.deleteExec k).2 := by
  unfold World.deleteExec
  split
  · exact refl host w
  · exact refl host w
  · exact setExecs fun execs => execs.erase k

/-- A watcher saves its record and goes on. -/
theorem conclude {saved : Stage} (hp : w.object? a = some p) (hphase : p.stage = .watched phase)
    (hkey : info.key = p.info.key) (hhash : info.requestHash = p.info.requestHash)
    (hsaved : saved = .done ∨ ∃ phase', saved = .watched phase') :
    Beside host w (w.conclude a info fault saved) := by
  refine (store hp hphase hkey hhash).trans (enter (World.object?_store hp info fault) hphase ?_)
  split_ifs
  · exact hsaved
  · exact .inr ⟨_, rfl⟩

/-! ### The background steps -/

theorem watch (move : WatchMove w a w') : Beside host w w' := by
  cases move with
  | missing obj stage | stopped obj stage | resume obj stage =>
    exact enter obj stage (.inr ⟨_, rfl⟩)
  | late obj stage =>
    exact timedOut.trans (enter (World.object?_setObject_of_eq obj _) stage (.inr ⟨_, rfl⟩))
  | lose now fault obj stage =>
    exact (noteIf _ _).trans
      (conclude ((World.object?_noteIf ..).trans obj) stage rfl rfl (.inl rfl))
  | save now fault obj stage =>
    exact (noteIf _ _).trans
      (conclude ((World.object?_noteIf ..).trans obj) stage rfl rfl (.inr ⟨_, rfl⟩))
  | @close p gone obj stage =>
    cases gone with
    | false => exact enter obj stage (.inl rfl)
    | true =>
      refine (deleteExec p.info.key).trans (enter (p := p) ?_ stage (.inl rfl))
      rw [World.object?, World.deleteExec_memory]
      exact obj

theorem wait {i : ℕ} (move : WaitMove w i w') : Beside host w w' := by
  cases move with
  | timer => exact ((noteIf _ _).trans timedOut).trans (setWaiter i _)
  | unneeded => exact (noteIf _ _).trans (setWaiter i _)
  | deliver => exact { refl host w with }
  | proceed | leave | signal | signalled | killed | finish | readStdout | readStderr | statStdout =>
    exact setWaiter i _

theorem exit (k : Key) (code : UInt32) (time : Option Time) : Beside host w (w.exit k code time) := by
  unfold World.exit
  split_ifs
  · exact { refl host w with }
  · exact refl host w

theorem taskExit (id : String) (codes : String → UInt32) (time : Option Time) :
    Beside host w (w.taskExit id codes time) := by
  unfold World.taskExit
  split_ifs with hrun
  · refine { refl host w with tasks := fun id' => ?_ }
    dsimp only
    rw [Table.find?_modify]
    split_ifs with hid
    · subst hid
      exact .inr ⟨hrun, by rw [hrun, Option.map_some]⟩
    · exact .inl rfl
  · exact refl host w

theorem collect (k : Key) (step : Collect) :
    Beside host w (w.setDir k (World.Collect.apply step)) := by
  refine setDir k (fun dir => ?_) (fun dir => ?_)
  all_goals
    unfold World.Collect.apply
    split_ifs
    · cases step with
      | write stderr bytes =>
        cases stderr with
        | false => cases dir.stdout <;> rfl
        | true => cases dir.stderr <;> rfl
      | start | finish | die => rfl
    · rfl

theorem move {b : Back} (move : BackMove host w b w') : Beside host w w' := by
  cases move with
  | idle => exact refl host w
  | exit => exact exit _ _ _
  | taskExit => exact taskExit _ _ _
  | watch move => exact watch move
  | wait move => exact wait move
  | collect => exact collect _ _
  | vanish | drift => exact setExecs _
  | removeDirectory unused =>
    refine { refl host w with
      directory := fun n hn => List.mem_of_mem_filter hn
      inUse := fun n hn huse => List.mem_filter.mpr ⟨hn, ?_⟩ }
    rw [decide_eq_true_eq]
    rintro rfl
    rw [unused] at huse
    cases huse
  | @charge number amount there =>
    refine { refl host w with usage := fun n hn hzero => ?_ }
    have hne : n ≠ number := fun h => hn (h ▸ there)
    exact (if_neg hne).trans hzero
  | discharge gone =>
    refine { refl host w with usage := fun n hn hzero => ?_ }
    dsimp only [World.withQuota]
    split_ifs
    · rfl
    · exact hzero
  | traffic linked =>
    refine { refl host w with flow := fun f hf => ?_ }
    rcases List.mem_cons.mp hf with rfl | hf
    · obtain ⟨link, hlink, hguest⟩ := Option.bind_eq_some_iff.mp linked
      exact .inr ⟨link, hlink, hguest⟩
    · exact .inl hf

theorem back (b : Back) : Beside host w (w.back host b) := move (w.back_move host b)

end Beside

/-! ### Steady assertions -/

open Prog (Does)

/-- The environment whose background steps are among these. -/
def within (May : Back → Prop) : Adversary Env where
  May
    | .go env | .crashAfter env => ∀ b ∈ env.background, May b
    | .crash => True
  may_default := nofun

/-- No background step makes the assertion false. -/
def Steady (host : Host) (May : Back → Prop) (P : World → Prop) : Prop :=
  ∀ w b, May b → P w → P (w.back host b)

/-- The steps of a relation include the background steps. -/
def Open (host : Host) (May : Back → Prop) (M : World → World → Prop) : Prop :=
  ∀ w b, May b → M w (w.back host b)

section Rules

variable {host : Host} {May : Back → Prop} {M : World → World → Prop} {P P' : World → Prop}
  {α : Type} {Q : α → World → Prop} {R E : Err → World → Prop}

theorem Steady.of_beside (h : ∀ w w', Beside host w w' → P w → P w') : Steady host May P :=
  fun w b _ hw => h w _ (.back b) hw

theorem Steady.trivial : Steady host May fun _ => True := fun _ _ _ _ => True.intro

theorem Steady.and (h : Steady host May P) (h' : Steady host May P') :
    Steady host May fun w => P w ∧ P' w :=
  fun w b hb hw => ⟨h w b hb hw.1, h' w b hb hw.2⟩

theorem Steady.pass (h : Steady host May P) (hsteps : ∀ b ∈ steps, May b) (hw : P w) :
    P (w.pass host steps) := by
  induction steps generalizing w with
  | nil => exact hw
  | cons b steps ih =>
    obtain ⟨hb, hsteps⟩ := List.forall_mem_cons.mp hsteps
    exact ih hsteps (h w b hb hw)

theorem Open.pass (hM : Open host May M) (hsteps : ∀ b ∈ steps, May b) (w : World) :
    ReflTransGen M w (w.pass host steps) := by
  induction steps generalizing w with
  | nil => exact .refl
  | cons b steps ih =>
    obtain ⟨hb, hsteps⟩ := List.forall_mem_cons.mp hsteps
    exact .head (hM w b hb) (ih hsteps _)

/-! ### The rules for the adapter's steps -/

/-- What the adversary lets happen before a step. -/
theorem within_may {env : Env}
    (h : (within May).May (.go env) ∨ (within May).May (.crashAfter env)) :
    ∀ b ∈ env.background, May b := by
  rcases h with h | h <;> exact h

section

variable (hM : Open host May M) (hP : Steady host May P)
include hM hP

/-- The background takes its steps first. -/
theorem does_atomic {step : Env → World → Except Err α × World}
    (hstep : ∀ env w, P (w.pass host env.background) →
      ReflTransGen M (w.pass host env.background) (step env w).2)
    (hok : ∀ env w a, P (w.pass host env.background) → (step env w).1 = .ok a → Q a (step env w).2)
    (herr : ∀ env w e, P (w.pass host env.background) → (step env w).1 = .error e →
      R e (step env w).2) : Does (within May) M P (.atomic step) Q R :=
  .atomic (fun w env hw henv => (hM.pass (within_may henv) w).trans
      (hstep env w (hP.pass (within_may henv) hw)))
    (fun w env a hw henv => hok env w a (hP.pass henv hw))
    fun w env e hw henv => herr env w e (hP.pass henv hw)

theorem does_call {f : Time → World → Except Err α × World}
    (hstep : ∀ now w, P w → ReflTransGen M w (f now w).2)
    (hok : ∀ now w a, P w → (f now w).1 = .ok a → Q a (f now w).2)
    (herr : ∀ now w e, P w → (f now w).1 = .error e → R e (f now w).2)
    (hlost : ∀ message w, P w → R (.other message) w)
    (hlate : ∀ message now w, P w → R (.other message) (f now w).2) :
    Does (within May) M P (call host f) Q R := by
  refine does_atomic hM hP (fun env w hw => ?_) (fun env w a hw ha => ?_) fun env w e hw he => ?_
  · cases env.fault with
    | none => exact hstep _ _ hw
    | some fault =>
      dsimp only
      split_ifs
      · exact hstep _ _ hw
      · exact .refl
  · cases hfault : env.fault with
    | none => rw [hfault] at ha; exact hok _ _ _ hw ha
    | some fault => rw [hfault] at ha; cases ha
  · cases hfault : env.fault with
    | none => rw [hfault] at he; exact herr _ _ _ hw he
    | some fault =>
      rw [hfault] at he
      obtain rfl := Except.error.inj he
      dsimp only
      split_ifs
      · exact hlate _ _ _ hw
      · exact hlost _ _ hw

theorem does_query {f : World → Except Err α}
    (hok : ∀ w a, P w → f w = .ok a → Q a w) (herr : ∀ w e, P w → f w = .error e → R e w)
    (hlost : ∀ message w, P w → R (.other message) w) :
    Does (within May) M P (query host f) Q R :=
  does_call hM hP (fun _ _ _ => .refl) (fun _ w a hw h => hok w a hw h)
    (fun _ w e hw h => herr w e hw h) hlost (fun message _ w hw => hlost message w hw)

theorem does_effect {f : World → World} {Q : Unit → World → Prop}
    (hstep : ∀ w, P w → ReflTransGen M w (f w)) (hok : ∀ w, P w → Q () (f w))
    (hlost : ∀ message w, P w → R (.other message) w)
    (hlate : ∀ message w, P w → R (.other message) (f w)) :
    Does (within May) M P (effect host f) Q R :=
  does_call hM hP (fun _ w hw => hstep w hw) (fun _ w _ hw _ => hok w hw)
    (fun _ _ _ _ h => nomatch h) hlost (fun message _ w hw => hlate message w hw)

theorem does_look {f : World → α} (hok : ∀ w, P w → Q (f w) w) :
    Does (within May) M P (look host f) Q R := by
  refine does_atomic hM hP (fun _ _ _ => .refl) (fun env w a hw ha => ?_) fun _ _ _ _ he => ?_
  · obtain rfl := Except.ok.inj ha
    exact hok _ hw
  · cases he

theorem does_update {f : Time → World → World} {Q : Unit → World → Prop}
    (hstep : ∀ now w, P w → ReflTransGen M w (f now w))
    (hok : ∀ now w, P w → Q () (f now w)) : Does (within May) M P (update host f) Q R := by
  refine does_atomic hM hP (fun _ _ hw => hstep _ _ hw) (fun _ _ _ hw _ => hok _ _ hw)
    fun _ _ _ _ he => ?_
  cases he

theorem does_await {ready : World → Bool} {message : String} {Q : Unit → World → Prop}
    (hok : ∀ w, P w → ready w = true → Q () w) (herr : ∀ w, P w → R (.other message) w) :
    Does (within May) M P (await host ready message) Q R := by
  refine does_atomic hM hP (fun _ _ _ => .refl) (fun env w _ hw ha => ?_) fun env w e hw he => ?_
  · dsimp only at ha
    split_ifs at ha with hready
    exact hok _ hw hready
  · dsimp only at he
    split_ifs at he
    obtain rfl := Except.error.inj he
    exact herr _ hw

theorem does_save {a : ℕ} {f : Time → ProcessInfo → ProcessInfo} {Q : Option Err → World → Prop}
    (hstep : ∀ now w p fault, P w → w.object? a = some p →
      ReflTransGen M w (w.store a (f now p.info) fault).2)
    (hok : ∀ now w p fault, P w → w.object? a = some p →
      Q (w.store a (f now p.info) fault).1 (w.store a (f now p.info) fault).2)
    (hnone : ∀ w, P w → w.object? a = none → Q none w) :
    Does (within May) M P (save host a f) Q R := by
  refine does_atomic hM hP (fun env w hw => ?_) (fun env w e hw he => ?_) fun env w e _ he => ?_
  · cases hp : (w.pass host env.background).object? a with
    | none => exact .refl
    | some p => exact hstep _ _ p _ hw hp
  · cases hp : (w.pass host env.background).object? a with
    | none =>
      rw [hp] at he
      obtain rfl := Except.ok.inj he
      exact hnone _ hw hp
    | some p =>
      rw [hp] at he
      obtain rfl := Except.ok.inj he
      exact hok _ _ p _ hw hp
  · split at he <;> cases he

theorem does_observe {f : World → Except Err α} {g : Except Err α → World → World}
    (hstep : ∀ w, P w → ReflTransGen M w (g (f w) w))
    (hok : ∀ w a, P w → f w = .ok a → Q a (g (f w) w))
    (herr : ∀ w e, P w → f w = .error e → R e (g (f w) w))
    (hlost : ∀ message w, P w → R (.other message) w) :
    Does (within May) M P (observe host f g) Q R := by
  refine does_atomic hM hP (fun env w hw => ?_) (fun env w a hw ha => ?_) fun env w e hw he => ?_
  · cases env.fault with
    | some fault => exact .refl
    | none => exact hstep _ hw
  · cases hfault : env.fault with
    | some fault => rw [hfault] at ha; cases ha
    | none => rw [hfault] at ha; exact hok _ _ hw ha
  · cases hfault : env.fault with
    | some fault =>
      rw [hfault] at he
      obtain rfl := Except.error.inj he
      exact hlost _ _ hw
    | none => rw [hfault] at he; exact herr _ _ hw he

end

theorem does_ifNotFound {p q : Op α} (hp : Does (within May) M P p Q E)
    (hq : Does (within May) M (E .notFound) q Q R)
    (hother : ∀ e w, e ≠ .notFound → E e w → R e w) :
    Does (within May) M P (ifNotFound p q) Q R := by
  refine .rescue hp fun e => ?_
  split_ifs with he
  · rw [he]; exact hq
  · exact .raise fun w hw => hother e w he hw

theorem does_ignoring {p : Op Unit} {Q : Unit → World → Prop} (hp : Does (within May) M P p Q E)
    (hE : ∀ e w, E e w → Q () w) : Does (within May) M P (ignoring p) Q R :=
  .rescue hp fun e => .pure fun w hw => hE e w hw

theorem does_check {e : Option Err} {Q : Unit → World → Prop} (hok : ∀ w, P w → e = none → Q () w)
    (herr : ∀ w e', P w → e = some e' → R e' w) : Does (within May) M P (check e) Q R := by
  cases e with
  | none => exact .pure fun w hw => hok w hw rfl
  | some e => exact .raise fun w hw => herr w e hw rfl

end Rules

end Sandcube.Adapter
