import Sandcube.Adapter.Calm
import Sandcube.Adapter.Registry

/-!
# Isolation of processes between sandboxes

The registry is keyed by process identifiers alone, and `lookupProcess` filters by sandbox.  An
operation on one sandbox leaves what is seen of another alone (`SameView`), with one exception:
`StartProcess` registers its record under the identifier of the request also when another sandbox
has a process with that identifier, and that process is then no longer found.

What follows for the identifiers on disk and for the restarts is in `Tenancy`.
-/

open Relation

namespace Sandcube.Adapter

variable {host : Host} {May : Back → Prop} {scope : Scope} {A B : String} {w w' : World} {a : ℕ}
variable {pid : String} {kind : Kind} {r : Request}

/-! ### What is seen of a sandbox -/

/-- The processes of the sandbox are seen as before: by `lookupProcess` and with it by `Process` and
`KillProcess`, by `Processes` and `settleProcesses` (the registered records), by `ProcessLogs` (the
directories) and by the runtime (the execs). -/
structure SameView (A : String) (w w' : World) : Prop where
  managed : w'.managed? A = w.managed? A
  lookup : ∀ pid, w'.lookupProcess A pid = w.lookupProcess A pid
  registered : w'.registered A = w.registered A
  object : ∀ a ∈ w.registered A, w'.object? a = w.object? a
  dirs : ∀ pid, w'.history.dirs.find? (A, pid) = w.history.dirs.find? (A, pid)
  execs : ∀ pid, w'.containerd.execs.find? (A, pid) = w.containerd.execs.find? (A, pid)

/-- The records of the sandbox in memory are the same. -/
def SameObjects (A : String) (w w' : World) : Prop :=
  ∀ a p, p.info.sandboxId = A → (w'.object? a = some p ↔ w.object? a = some p)

theorem SameObjects.of_heap (h : w'.memory.heap = w.memory.heap) : SameObjects A w w' := by
  intro a p _
  unfold World.object?
  rw [h]

theorem SameObjects.any (h : SameObjects A w w') (a : ℕ) :
    ((w'.object? a).any fun p => p.info.sandboxId = A) =
      ((w.object? a).any fun p => p.info.sandboxId = A) := by
  rw [Bool.eq_iff_iff, Option.any_eq_true, Option.any_eq_true]
  constructor
  · rintro ⟨p, hp, hmine⟩
    exact ⟨p, (h a p (of_decide_eq_true hmine)).mp hp, hmine⟩
  · rintro ⟨p, hp, hmine⟩
    exact ⟨p, (h a p (of_decide_eq_true hmine)).mpr hp, hmine⟩

/-- With the same registry and the same records of the sandbox, it is seen the same. -/
theorem SameView.of_registry (hobjects : SameObjects A w w')
    (hregistry : w'.memory.registry = w.memory.registry)
    (hmanaged : w'.managed? A = w.managed? A)
    (hdirs : ∀ pid, w'.history.dirs.find? (A, pid) = w.history.dirs.find? (A, pid))
    (hexecs : ∀ pid, w'.containerd.execs.find? (A, pid) = w.containerd.execs.find? (A, pid)) :
    SameView A w w' := by
  refine ⟨hmanaged, fun pid => ?_, ?_, fun a ha => ?_, hdirs, hexecs⟩
  · apply Option.ext
    rintro ⟨b, p⟩
    rw [World.lookupProcess_eq_some, World.lookupProcess_eq_some, hregistry]
    constructor
    · rintro ⟨hreg, hobj, hmine⟩
      exact ⟨hreg, (hobjects b p hmine).mp hobj, hmine⟩
    · rintro ⟨hreg, hobj, hmine⟩
      exact ⟨hreg, (hobjects b p hmine).mpr hobj, hmine⟩
  · unfold World.registered
    rw [hregistry]
    exact List.filter_congr fun b _ => hobjects.any b
  · obtain ⟨-, hmine⟩ := List.mem_filter.mp ha
    obtain ⟨p, hp, hmine⟩ := (Option.any_eq_true _ _).mp hmine
    rw [hp, (hobjects a p (of_decide_eq_true hmine)).mpr hp]

/-- A change that touches neither records nor directories. -/
theorem SameView.of_memory (hmemory : w'.memory = w.memory) (hdirs : w'.history.dirs = w.history.dirs)
    (hmanaged : w'.managed? A = w.managed? A)
    (hexecs : ∀ pid, w'.containerd.execs.find? (A, pid) = w.containerd.execs.find? (A, pid)) :
    SameView A w w' :=
  .of_registry (.of_heap (by rw [hmemory])) (by rw [hmemory]) hmanaged (fun _ => by rw [hdirs])
    hexecs

/-! ### Changes for another sandbox -/

/-- Work on a process of another sandbox. -/
theorem Work.sameView {p q : Tracked} (hs : Work w a p q w') (hne : p.info.sandboxId ≠ A) :
    SameView A w w' := by
  have ht := hs.touches
  have hother : ∀ pid, (A, pid) ≠ p.info.key := fun pid h => hne (congrArg Prod.fst h).symm
  refine .of_registry (fun b r hr => ?_) ht.registry (World.managed?_congr ht.containers)
    (fun pid => ht.dirs _ (hother pid)) fun pid => ht.execs _ (hother pid)
  by_cases hb : b = a
  · subst hb
    rw [hs.after, hs.before]
    constructor
    · intro h
      rw [← Option.some.inj h] at hr
      exact absurd ((congrArg Prod.fst hs.key).symm.trans hr) hne
    · intro h
      rw [← Option.some.inj h] at hr
      exact absurd hr hne
  · rw [ht.object b hb]

theorem SameView.eraseDir {k : Key} (hother : k.1 ≠ A) : SameView A w (w.eraseDir k) :=
  .of_registry (.of_heap rfl) rfl rfl
    (fun _ => Table.find?_erase_of_ne _ fun heq => hother (congrArg Prod.fst heq).symm) fun _ => rfl

theorem SameView.trans {w'' : World} (h : SameView A w w') (h' : SameView A w' w'') :
    SameView A w w'' where
  managed := h'.managed.trans h.managed
  lookup pid := (h'.lookup pid).trans (h.lookup pid)
  registered := h'.registered.trans h.registered
  object a ha := (h'.object a (h.registered ▸ ha)).trans (h.object a ha)
  dirs pid := (h'.dirs pid).trans (h.dirs pid)
  execs pid := (h'.execs pid).trans (h.execs pid)

/-! ### Moves for another sandbox -/

theorem StartMove.sameView (move : StartMove host w B w') (hne : B ≠ A) : SameView A w w' := by
  obtain ⟨a, p, q, rfl, hwork⟩ := move.work
  exact hwork.sameView hne

theorem World.lookupProcess_any (h : w.memory.registry.find? pid = some a) :
    (w.lookupProcess A pid).isSome = (w.object? a).any fun p => p.info.sandboxId = A := by
  unfold World.lookupProcess
  rw [h, Option.bind_some]
  cases w.object? a with
  | none => rfl
  | some p =>
    rw [Option.bind_some, Option.any_some]
    by_cases hmine : p.info.sandboxId = A
    · rw [if_pos hmine, decide_eq_true hmine]; rfl
    · rw [if_neg hmine, decide_eq_false hmine]; rfl

/-- The records of another sandbox leave the registry. -/
theorem SameView.unregister (hne : B ≠ A) : SameView A w (World.unregister B w) := by
  have hapart : ∀ pid a, w.memory.registry.find? pid = some a →
      ((w.object? a).any fun p => p.info.sandboxId = A) = true →
      (w.lookupProcess B pid).isSome = false := by
    intro pid a hreg hmine
    obtain ⟨p, hp, hmine⟩ := (Option.any_eq_true _ _).mp hmine
    rw [World.lookupProcess_any hreg, hp, Option.any_some, of_decide_eq_true hmine]
    exact decide_eq_false hne.symm
  refine ⟨rfl, fun pid => ?_, ?_, fun _ _ => rfl, fun _ => rfl, fun _ => rfl⟩
  · apply Option.ext
    rintro ⟨b, p⟩
    rw [World.lookupProcess_eq_some, World.lookupProcess_eq_some]
    unfold World.unregister
    dsimp only
    rw [Table.find?_eraseWhere]
    constructor
    · rintro ⟨hreg, hobj⟩
      split_ifs at hreg
      exact ⟨hreg, hobj⟩
    · rintro ⟨hreg, hobj, hmine⟩
      have hnot := hapart pid b hreg (by rw [hobj, Option.any_some, decide_eq_true hmine])
      rw [hnot, if_neg Bool.false_ne_true]
      exact ⟨hreg, hobj, hmine⟩
  · exact Table.filter_rows_eraseWhere _ hapart

theorem SameObjects.register (req : ExecRequest) (now : Time) (hne : B ≠ A) :
    SameObjects A w (World.register host B req pid now w) := by
  intro b p hmine
  rw [World.object?_register]
  split_ifs with hb
  · subst hb
    constructor
    · intro h
      rw [← Option.some.inj h] at hmine
      exact absurd hmine hne
    · intro h
      rw [World.object?, List.getElem?_eq_none (Nat.le_refl _)] at h
      cases h
  · exact Iff.rfl

theorem World.registry_register (w : World) (req : ExecRequest) (pid : String) (now : Time) :
    (World.register host B req pid now w).memory.registry =
      w.memory.registry.put pid w.memory.heap.length := by
  unfold World.register
  dsimp only
  split_ifs <;> rfl

theorem World.register_frame (host : Host) (B : String) (w : World) (req : ExecRequest)
    (pid : String) (now : Time) :
    (World.register host B req pid now w).containerd = w.containerd ∧
      (World.register host B req pid now w).history = w.history ∧
      (World.register host B req pid now w).memory.serving = w.memory.serving := by
  unfold World.register
  dsimp only
  split_ifs <;> exact ⟨rfl, rfl, rfl⟩

/-- After the registration of another sandbox, the sandbox has no process with the identifier. -/
theorem World.lookupProcess_register (req : ExecRequest) (now : Time) (hne : B ≠ A) :
    (World.register host B req pid now w).lookupProcess A pid = none := by
  unfold World.lookupProcess
  rw [World.registry_register, Table.find?_put_self, Option.bind_some, World.object?_register,
    if_pos rfl, Option.bind_some]
  exact if_neg hne

theorem World.lookupProcess_register_of_ne {pid' : String} (req : ExecRequest) (now : Time)
    (hne : B ≠ A) (hpid : pid' ≠ pid) :
    (World.register host B req pid now w).lookupProcess A pid' = w.lookupProcess A pid' := by
  have hobjects : SameObjects A w (World.register host B req pid now w) := .register req now hne
  apply Option.ext
  rintro ⟨b, p⟩
  rw [World.lookupProcess_eq_some, World.lookupProcess_eq_some, World.registry_register,
    Table.find?_put_of_ne _ hpid]
  constructor
  · rintro ⟨hreg, hobj, hmine⟩
    exact ⟨hreg, (hobjects b p hmine).mp hobj, hmine⟩
  · rintro ⟨hreg, hobj, hmine⟩
    exact ⟨hreg, (hobjects b p hmine).mpr hobj, hmine⟩

/-- A record of another sandbox is registered under an identifier that the sandbox does not have. -/
theorem SameView.register (req : ExecRequest) (now : Time) (hne : B ≠ A)
    (hfree : w.lookupProcess A pid = none) :
    SameView A w (World.register host B req pid now w) := by
  have hobjects : SameObjects A w (World.register host B req pid now w) := .register req now hne
  obtain ⟨hcontainerd, hhistory, -⟩ := w.register_frame host B req pid now
  refine ⟨World.managed?_congr (by rw [hcontainerd]), fun pid' => ?_, ?_, fun b hb => ?_,
    fun _ => by rw [hhistory], fun _ => by rw [hcontainerd]⟩
  · by_cases hpid : pid' = pid
    · rw [hpid, hfree]
      exact World.lookupProcess_register req now hne
    · exact World.lookupProcess_register_of_ne req now hne hpid
  · unfold World.registered
    rw [World.registry_register, List.filter_congr fun b _ => hobjects.any b]
    refine Table.filter_rows_put _ _ _ ?_ fun b hb => ?_
    · rw [← hobjects.any, World.object?_register, if_pos rfl, Option.any_some]
      exact decide_eq_false hne
    · rw [← World.lookupProcess_any hb, hfree]
      rfl
  · obtain ⟨-, hmine⟩ := List.mem_filter.mp hb
    obtain ⟨p, hp, hmine⟩ := (Option.any_eq_true _ _).mp hmine
    rw [hp, (hobjects b p (of_decide_eq_true hmine)).mpr hp]

theorem ForgetMove.sameView (move : ForgetMove host w B kind w') (hne : B ≠ A) :
    SameView A w w' := by
  cases move with
  | eraseDir => exact .eraseDir hne
  | eraseHome => exact .of_registry (.of_heap rfl) rfl rfl (fun _ => rfl) fun _ => rfl
  | unregister => exact .unregister hne
  | cleanup obj mine => subst mine; exact (Work.deleteExec obj).sameView hne

theorem TaskMove.sameView (move : TaskMove host w B w') (hne : B ≠ A) : SameView A w w' := by
  refine .of_memory move.still.1 (by rw [move.still.2])
    (World.managed?_congr move.containers_eq.1) fun pid => ?_
  have hremove : (w.removeTask B).containerd.execs.find? (A, pid) =
      w.containerd.execs.find? (A, pid) := by
    unfold World.removeTask
    dsimp only
    rw [Table.find?_eraseWhere, if_neg]
    exact fun h => hne (of_decide_eq_true h).symm
  cases move with
  | new => unfold World.newTask; split <;> rfl
  | start => unfold World.startTask; split <;> rfl
  | remove | removeSettled => exact hremove

theorem EraseMove.sameView (move : EraseMove w B w') (hne : B ≠ A) : SameView A w w' := by
  obtain ⟨-, -, -, rfl⟩ := move.inv
  refine .of_memory rfl rfl ?_ fun _ => rfl
  unfold World.managed?
  dsimp only
  rw [Table.find?_erase_of_ne _ hne.symm]

theorem QuotaMove.sameView (move : QuotaMove host w B kind w') (hne : B ≠ A) : SameView A w w' := by
  have hsame : SameView A w w := .of_memory rfl rfl rfl fun _ => rfl
  cases move with
  | prepareSnapshot =>
    unfold World.prepareSnapshot
    split
    · exact hsame
    · exact .of_memory rfl rfl rfl fun _ => rfl
  | removeSnapshot | dropSnapshot =>
    rw [World.removeSnapshot_eq]
    exact .of_memory rfl rfl rfl fun _ => rfl
  | claim | limit | mark | cleanup | unlimit | release => exact .of_memory rfl rfl rfl fun _ => rfl
  | commit =>
    unfold World.commitContainer
    split
    · exact hsame
    · refine .of_memory rfl rfl ?_ fun _ => rfl
      unfold World.managed?
      dsimp only
      rw [Table.find?_put_of_ne _ hne.symm]

/-! ### Operations on another sandbox -/

/-- The sandbox is left alone, except by background steps. -/
def Apart (host : Host) (May : Back → Prop) (A : String) : World → World → Prop :=
  ReflTransGen fun v v' => BackStep host May v v' ∨ SameView A v v'

/-- Moves for other sandboxes. -/
structure Scope.Abroad (scope : Scope) (A : String) : Prop where
  other : ∀ kind id, scope kind id → id ≠ A
  running : ∀ id, ¬ scope .boot id

/-- The identifiers that moves of the scope register are not those of the sandbox. -/
def Scope.Leaves (scope : Scope) (A : String) (w : World) : Prop :=
  ∀ pid id, scope (.register pid) id → w.lookupProcess A pid = none

theorem Move.apart (hscope : scope.Abroad A) (hleaves : scope.Leaves A w)
    (hm : Move host May scope w w') : BackStep host May w w' ∨ SameView A w w' := by
  cases hm with
  | back may => exact .inl ⟨_, may, rfl⟩
  | net inScope move => exact .inr (.of_memory rfl rfl rfl fun _ => rfl)
  | quota inScope move | erase inScope move | task inScope move =>
    exact .inr (move.sameView (hscope.other _ _ inScope))
  | register inScope move =>
    cases move with
    | register req now =>
      exact .inr (.register req now (hscope.other _ _ inScope) (hleaves _ _ inScope))
  | start inScope move | forget inScope move =>
    exact .inr (move.sameView (hscope.other _ _ inScope))
  | boot inScope move => exact absurd inScope (hscope.running _)

/-- A process that the sandbox does not have does not appear. -/
theorem Move.lookup_none (hscope : scope.Abroad A) (hm : Move host May scope w w')
    (h : w.lookupProcess A pid = none) : w'.lookupProcess A pid = none := by
  cases hm with
  | @back b may => exact (Beside.back b : Beside host w _).lookup_none h
  | @register id pid' w' inScope move =>
    cases move with
    | register req now =>
      by_cases hpid : pid = pid'
      · subst hpid
        exact World.lookupProcess_register req now (hscope.other _ _ inScope)
      · rw [World.lookupProcess_register_of_ne req now (hscope.other _ _ inScope) hpid]
        exact h
  | net inScope move => exact h
  | quota inScope move | erase inScope move | task inScope move | start inScope move
  | forget inScope move => rw [(move.sameView (hscope.other _ _ inScope)).lookup]; exact h
  | boot inScope move => exact absurd inScope (hscope.running _)

theorem apart_of_steps (hscope : scope.Abroad A) (hleaves : scope.Leaves A w)
    (h : ReflTransGen (Move host May scope) w w') : Apart host May A w w' := by
  suffices hboth : Apart host May A w w' ∧ scope.Leaves A w' from hboth.1
  induction h with
  | refl => exact ⟨.refl, hleaves⟩
  | tail _ hm ih =>
    refine ⟨ih.1.tail (hm.apart hscope ih.2), fun pid id hid => ?_⟩
    exact hm.lookup_none hscope (ih.2 pid id hid)

/-- The sandbox a request is about. -/
def Request.target : Request → Option String
  | .create spec _ => some spec.id
  | .start id | .stop id | .delete id _ | .inspect id | .startProcess id _ _ | .exec id _ _
  | .processes id | .process id _ | .processLogs id _ | .killProcess id _ => some id
  | .reconcile _ => none

/-- The identifier under which a request may register a process. -/
def Request.registers : Request → Option String
  | .startProcess _ req draw | .exec _ req draw => some (req.pid draw)
  | _ => none

theorem Request.scope_abroad (h : r.target = some B) (hne : A ≠ B) : r.scope.Abroad A := by
  have hkinds : ∀ kinds, Kind.boot ∉ kinds → (Scope.onKinds kinds B).Abroad A := fun kinds hboot =>
    ⟨fun _ _ hs => by rw [hs.2]; exact hne.symm, fun _ hs => hboot hs.1⟩
  have hnone : Scope.Abroad (fun _ _ => False) A := ⟨fun _ _ hs => hs.elim, fun _ hs => hs⟩
  cases r with
  | create | start | stop | delete | startProcess | exec =>
    obtain rfl := Option.some.inj h
    exact hkinds _ (by simp)
  | inspect | processes | process | processLogs | killProcess => exact hnone
  | reconcile => cases h

theorem Request.registers_of_scope {id : String} (h : r.target = some B)
    (hs : r.scope (.register pid) id) : r.registers = some pid := by
  cases r with
  | startProcess id' req draw =>
    rcases List.mem_cons.mp hs.1 with heq | hmem
    · exact congrArg some (Kind.register.inj heq).symm
    · simp at hmem
  | exec id' req draw =>
    rcases List.mem_cons.mp hs.1 with heq | hmem
    · have hpid : req.withDefault.pid draw = req.pid draw := by
        unfold ExecRequest.pid ExecRequest.withDefault
        split_ifs <;> rfl
      exact congrArg some (hpid.symm.trans (Kind.register.inj heq).symm)
    · simp at hmem
  | create | start | stop | delete => exact absurd hs.1 (by simp)
  | inspect | processes | process | processLogs | killProcess => exact hs.elim
  | reconcile => cases h

/-! ### A start that nothing disturbs -/

section Undisturbed

variable {req : ExecRequest} {draw : String} {fs : List (Fate Env)}

/-- The checks of `StartProcess` before it asks for the task. -/
theorem startProcess_unknown (hfs : undisturbed.Allows fs) (hmanaged : (w.managed? B).isSome)
    (hvalid : validProcessID req.requestId = true)
    (hunknown : w.lookupProcess B req.requestId = none) :
    ∃ fs', undisturbed.Allows fs' ∧ startProcess host B req draw w fs =
      (do
        requireRunning host B
        query host fun _ => .ok ()
        track host B req req.requestId : Op ProcessInfo) w fs' := by
  obtain ⟨c, hc⟩ := Option.isSome_iff_exists.mp hmanaged
  have hempty : req.requestId ≠ "" := by
    intro hempty
    rw [hempty] at hvalid
    exact absurd hvalid (by decide)
  obtain ⟨fs₁, hfs₁, hquery⟩ := query_undisturbed host w hfs
    fun w => (w.managed? B).elim (.error .notFound) Except.ok
  have hload : load host B w fs = ⟨.ok c, w, fs₁⟩ := by
    rw [load, hquery, hc]
    rfl
  obtain ⟨fs₂, hfs₂, hlook⟩ := look_undisturbed host w hfs₁ (known B req)
  have hknown : known B req w = none := by
    rw [known, if_neg hempty, hunknown]
    rfl
  rw [hknown] at hlook
  have hcheck : (Prog.when (req.requestId ≠ "" ∧ ¬ validProcessID req.requestId = true)
      (Prog.raise .invalidArgument) : Op Unit) w fs₁ = ⟨.ok (), w, fs₁⟩ := by
    rw [Prog.when, if_neg fun hbad => hbad.2 hvalid]
    rfl
  refine ⟨fs₂, hfs₂, ?_⟩
  unfold startProcess
  rw [Prog.bind_of_ok hload, Prog.bind_of_ok hcheck, Prog.bind_of_ok hlook, if_neg hempty]

/-- The task is asked for. -/
theorem requireRunning_undisturbed (hfs : undisturbed.Allows fs) :
    ∃ fs', undisturbed.Allows fs' ∧ requireRunning host B w fs =
      if w.containerd.tasks.find? B = some .running then ⟨.ok (), w, fs'⟩
      else ⟨.raised .failedPrecondition, w, fs'⟩ := by
  obtain ⟨fs', hfs', hquery⟩ := query_undisturbed host w hfs
    fun w => (w.containerd.tasks.find? B).elim (.error .notFound) Except.ok
  refine ⟨fs', hfs', ?_⟩
  unfold requireRunning
  cases htask : w.containerd.tasks.find? B with
  | none =>
    have hstatus : taskStatus host B w fs = ⟨.raised .notFound, w, fs'⟩ := by
      rw [taskStatus, hquery, htask]
      rfl
    have hraised : ifNotFound (taskStatus host B) (Prog.raise .failedPrecondition) w fs =
        ⟨.raised .failedPrecondition, w, fs'⟩ := by
      rw [ifNotFound, Prog.rescue_of_raised hstatus]
      rfl
    rw [Prog.bind_of_raised hraised, if_neg nofun]
  | some status =>
    have hstatus : taskStatus host B w fs = ⟨.ok status, w, fs'⟩ := by
      rw [taskStatus, hquery, htask]
      rfl
    have hok : ifNotFound (taskStatus host B) (Prog.raise .failedPrecondition) w fs =
        ⟨.ok status, w, fs'⟩ := by
      rw [ifNotFound, Prog.rescue_of_ok hstatus]
    rw [Prog.bind_of_ok hok]
    by_cases hrunning : status = .running
    · rw [if_pos hrunning, if_pos (congrArg some hrunning)]
      rfl
    · rw [if_neg hrunning, if_neg fun heq => hrunning (Option.some.inj heq)]
      rfl

/-- `StartProcess` gets to its registration. -/
theorem startProcess_registers (hfs : undisturbed.Allows fs) (hmanaged : (w.managed? B).isSome)
    (hvalid : validProcessID req.requestId = true)
    (hunknown : w.lookupProcess B req.requestId = none)
    (hrunning : w.containerd.tasks.find? B = some .running) :
    ∃ now fs', undisturbed.Allows fs' ∧ startProcess host B req draw w fs =
      bringUp host w.memory.heap.length (B, req.requestId)
        (World.register host B req req.requestId now w) fs' := by
  obtain ⟨fs₁, hfs₁, hchecked⟩ := startProcess_unknown hfs hmanaged hvalid hunknown
  obtain ⟨fs₂, hfs₂, hrequire⟩ := requireRunning_undisturbed hfs₁
  rw [if_pos hrunning] at hrequire
  obtain ⟨fs₃, hfs₃, hspec⟩ := query_undisturbed host w hfs₂ fun _ => Except.ok ()
  obtain ⟨fs₄, hfs₄, hlook⟩ := look_undisturbed host w hfs₃ fun w => w.memory.heap.length
  obtain ⟨now, fs₅, hfs₅, hupdate⟩ := update_undisturbed host w hfs₄
    (World.register host B req req.requestId)
  refine ⟨now, fs₅, hfs₅, ?_⟩
  rw [hchecked, Prog.bind_of_ok hrequire, Prog.bind_of_ok hspec, track, Prog.bind_of_ok hlook,
    Prog.bind_of_ok hupdate]

end Undisturbed

end Sandcube.Adapter
