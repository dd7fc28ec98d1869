import Sandcube.Adapter.Moves

/-!
# The steps of the process programs

`StartProcess` works on one new record, which nobody else writes until it is watched or done;
`Building` says how far it has come.  Recovery does the same with each record it reads
(`Recovering`).
-/

open Relation

namespace Sandcube.Adapter

variable {host : Host} {May : Back → Prop} {scope : Scope} {id : String} {a : ℕ}
  {info : ProcessInfo} {proc : Bool} {launch : Launch} {k : Key}
variable {p : Tracked} {w w' : World} {P : World → Prop} {f : World → Except Err Unit × World}
  {R : Err → World → Prop} {req : ExecRequest} {draw : String}

/-! ### The record that is worked on -/

/-- The record at `a`, up to its timeout, which waiting calls can set at any time. -/
def World.Has (w : World) (a : ℕ) (p : Tracked) : Prop :=
  ∃ b, w.object? a = some { p with info := { p.info with timedOut := b } }

/-- No operation works on the other records. -/
def World.Alone (w : World) (a : ℕ) : Prop :=
  ∀ b p, w.object? b = some p → b ≠ a → p.stage.Resting

theorem steady_has (hstage : ∀ phase, p.stage ≠ .watched phase) :
    Steady host May (World.Has · a p) := by
  refine .of_beside fun w w' h ⟨b, hp⟩ => ?_
  obtain ⟨p', hp', hbesides⟩ := h.object a _ hp
  obtain ⟨b', rfl⟩ := hbesides.still hstage
  exact ⟨b', hp'⟩

theorem steady_alone : Steady host May (World.Alone · a) := by
  refine .of_beside fun w w' h hw b p' hp' hb => ?_
  obtain ⟨p, hp, hbesides⟩ := h.object_before hp'
  exact (hw b p hp hb).besides hbesides

namespace World

variable {w w' : World} {p : Tracked}

theorem Has.congr (h : w.Has a p) (hmem : w'.memory = w.memory) : w'.Has a p := by
  obtain ⟨b, hb⟩ := h
  exact ⟨b, by rw [object?, hmem]; exact hb⟩

theorem Alone.congr (h : w.Alone a) (hmem : w'.memory = w.memory) : w'.Alone a := by
  intro b p hp
  rw [object?, hmem] at hp
  exact h b p hp

theorem Has.enter (h : w.Has a p) (stage : Stage) :
    (w.enter a stage).Has a { p with stage := stage } := by
  obtain ⟨b, hb⟩ := h
  exact ⟨b, by rw [World.enter, object?_setObject_self, hb, Option.map_some]⟩

theorem Alone.setObject (h : w.Alone a) (f : Tracked → Tracked) : (w.setObject a f).Alone a := by
  intro b p hp hb
  rw [object?_setObject_of_ne w hb] at hp
  exact h b p hp hb

/-- When the work on the record ends, everything is at rest. -/
theorem Alone.enter_atRest (h : w.Alone a) {stage : Stage} (hstage : stage.Resting) :
    (w.enter a stage).AtRest := by
  intro b p hp
  by_cases hb : b = a
  · subst hb
    rw [World.enter, object?_setObject_self] at hp
    obtain ⟨p', -, rfl⟩ := Option.map_eq_some_iff.mp hp
    exact hstage
  · exact h.setObject _ b p hp hb

/-- A save that succeeds leaves a record on disk. -/
theorem recorded_store {fault : Option Fault} (h : (w.store a info fault).1 = none) :
    (w.store a info fault).2.history.record? info.key = some info := by
  unfold store saveProcess at h ⊢
  cases hdir : (w.setObject a fun p => { p with info := info }).history.dirs.find? info.key with
  | none => rw [hdir] at h; cases h
  | some dir =>
    rw [hdir] at h
    cases fault with
    | none =>
      dsimp only
      rw [record?_saved, if_pos rfl, hdir, Option.map_some]
    | some fault => cases h

theorem Alone.store (h : w.Alone a) (info : ProcessInfo) (fault : Option Fault) :
    (w.store a info fault).2.Alone a := by
  intro b p hp hb
  rw [World.store, object?_saveProcess, object?_setObject_of_ne w hb] at hp
  exact h b p hp hb

/-- A save leaves containers alone. -/
theorem containers_store (w : World) (a : ℕ) (info : ProcessInfo) (fault : Option Fault) :
    (w.store a info fault).2.containerd = w.containerd := by
  unfold store
  rcases saveProcess_cases (w.setObject a fun p => { p with info := info }) info fault with h | h
  · rw [h]; rfl
  · rw [h]; rfl

end World

theorem steady_recorded : Steady host May (World.Recorded · k) :=
  .of_beside fun _ _ h hw => h.recorded k hw

theorem steady_managed : Steady host May fun w : World => (w.managed? id).isSome := by
  refine .of_beside fun w w' h hw => ?_
  rwa [World.managed?_congr h.containers]

/-! ### `StartProcess` -/

/-- `StartProcess` has come this far with the record at `a`. -/
structure Building (id : String) (a : ℕ) (info : ProcessInfo) (proc : Bool) (launch : Launch)
    (w : World) : Prop where
  has : w.Has a ⟨info, proc, .building launch⟩
  alone : w.Alone a
  managed : (w.managed? id).isSome

/-- `StartProcess` has not brought the process to life. -/
def Unbegun (id : String) (a : ℕ) (info : ProcessInfo) (w : World) : Prop :=
  ∃ proc launch, launch ≠ .begun ∧ Building id a info proc launch w

theorem steady_building : Steady host May (Building id a info proc launch) := fun w b hb hw =>
  ⟨steady_has (fun _ => by simp) w b hb hw.has, steady_alone w b hb hw.alone,
    steady_managed w b hb hw.managed⟩

theorem steady_unbegun : Steady host May (Unbegun id a info) :=
  fun w b hb ⟨proc, launch, hlaunch, hw⟩ => ⟨proc, launch, hlaunch, steady_building w b hb hw⟩

theorem Building.congr (h : Building id a info proc launch w) (hmem : w'.memory = w.memory)
    (hcontainers : w'.containerd.containers = w.containerd.containers) :
    Building id a info proc launch w' := by
  refine ⟨h.has.congr hmem, h.alone.congr hmem, ?_⟩
  rw [World.managed?_congr hcontainers]
  exact h.managed

theorem Building.setDir (h : Building id a info proc launch w) (k : Key) (f : Dir → Dir) :
    Building id a info proc launch (w.setDir k f) := h.congr rfl rfl

theorem Building.setExecs (h : Building id a info proc launch w)
    (f : Table Key ExecState → Table Key ExecState) :
    Building id a info proc launch (w.setExecs f) := h.congr rfl rfl

/-- A call of `StartProcess` before the process is alive. -/
theorem runs_startCall {Q : Unit → World → Prop} (hscope : scope .start id) (hP : Steady host May P)
    (hmove : ∀ w, P w → StartMove host w id (f w).2) (hbefore : ∀ w, P w → Unbegun id a info w)
    (hafter : ∀ w, P w → Unbegun id a info (f w).2)
    (hok : ∀ w, P w → (f w).1 = .ok () → Q () (f w).2) :
    Runs host May scope P (call host fun _ w => f w) Q (fun _ => Unbegun id a info) :=
  does_call (Move.isOpen scope) hP (fun _ w hw => .single (.start hscope (hmove w hw)))
    (fun _ w _ hw h => hok w hw h) (fun _ w _ hw _ => hafter w hw) (fun _ w hw => hbefore w hw)
    (fun _ _ w hw => hafter w hw)

theorem Building.unbegun (h : Building id a info proc launch w) (hlaunch : launch ≠ .begun) :
    Unbegun id a info w := ⟨proc, launch, hlaunch, h⟩

/-- The record gets a new content with the same key, and perhaps on disk as well. -/
theorem Building.store {f : ProcessInfo → ProcessInfo} (h : Building id a info proc launch w)
    (hf : ∀ b, f { info with timedOut := b } = { f info with timedOut := b })
    (hp : w.object? a = some p) (fault : Option Fault) :
    Building id a (f info) proc launch (w.store a (f p.info) fault).2 := by
  obtain ⟨b, hb⟩ := h.has
  obtain rfl := Option.some.inj (hp.symm.trans hb)
  refine ⟨⟨b, ?_⟩, h.alone.store _ fault, ?_⟩
  · rw [World.object?_store hp]
    exact congrArg (fun info' => some (Tracked.mk info' proc (.building launch))) (hf b)
  · unfold World.managed?
    rw [World.containers_store]
    exact h.managed

theorem Building.enter (h : Building id a info proc launch w) (launch' : Launch) :
    Building id a info proc launch' (w.enter a (.building launch')) :=
  ⟨h.has.enter _, h.alone.setObject _, h.managed⟩

/-- Neither `StartProcess` nor a collector removes `process.json`. -/
theorem World.Recorded.setDir {k' : Key} (h : w.Recorded k') {f : Dir → Dir}
    (hf : ∀ dir, (f dir).record = dir.record) : (w.setDir k f).Recorded k' := by
  unfold World.Recorded
  rw [World.record?_setDir w k k' hf]
  exact h

theorem createExec_frame (w : World) (k : Key) :
    (w.createExec k).2.memory = w.memory ∧ (w.createExec k).2.history = w.history ∧
      (w.createExec k).2.containerd.containers = w.containerd.containers := by
  unfold World.createExec
  split <;> exact ⟨rfl, rfl, rfl⟩

/-- The record on disk and the pipes are there. -/
def Prepared (id : String) (a : ℕ) (info : ProcessInfo) (proc : Bool) (w : World) : Prop :=
  Building id a info proc .piped w ∧ w.Recorded info.key

theorem steady_prepared : Steady host May (Prepared id a info proc) :=
  steady_building.and steady_recorded

theorem Prepared.unbegun (h : Prepared id a info proc w) : Unbegun id a info w :=
  h.1.unbegun nofun

section

variable (hscope : scope .start id) (hmine : info.sandboxId = id)
include hscope hmine

theorem runs_mkfifo {name : String}
    (hfirst : launch = .fresh ∧ name = "stdout.pipe" ∨ launch = .piped) :
    Runs host May scope (fun w => Building id a info false launch w ∧ w.Recorded info.key)
      (call host fun _ w => w.mkfifo a info.key name) (fun _ => Prepared id a info false)
      (fun _ => Unbegun id a info) := by
  have hlaunch : launch ≠ .begun := by
    rcases hfirst with ⟨rfl, -⟩ | rfl <;> nofun
  have hpiped : ∀ w : World, Building id a info false launch w → Building id a info false .piped
      ((w.setDir info.key fun dir => { dir with pipes := name :: dir.pipes }).enter a
        (.building .piped)) :=
    fun w hw => (hw.setDir _ _).enter .piped
  refine runs_startCall hscope (steady_building.and steady_recorded) ?_ ?_ ?_ ?_
  · rintro w ⟨hbuild, hrec⟩
    obtain ⟨b, hobj⟩ := hbuild.has
    exact .mkfifo hobj hmine rfl hfirst hrec
  · exact fun w hw => hw.1.unbegun hlaunch
  · rintro w ⟨hbuild, -⟩
    rcases mkfifo_cases w a info.key name with ⟨e, h⟩ | ⟨dir, -, -, h⟩
    · rw [h]; exact hbuild.unbegun hlaunch
    · rw [h]; exact (hpiped w hbuild).unbegun nofun
  · rintro w ⟨hbuild, hrec⟩ hok
    rcases mkfifo_cases w a info.key name with ⟨e, h⟩ | ⟨dir, -, -, h⟩
    · rw [h] at hok; cases hok
    · rw [h]; exact ⟨hpiped w hbuild, hrec.setDir fun _ => rfl⟩

/-- `os.MkdirAll` and the first save. -/
theorem runs_makeDir :
    Runs host May scope (Building id a info false .fresh) (effect host fun w => w.makeDir info.key)
      (fun _ => Building id a info false .fresh) (fun _ => Unbegun id a info) := by
  refine runs_startCall hscope steady_building ?_ ?_ ?_ ?_
  · intro w hw
    obtain ⟨b, hobj⟩ := hw.has
    exact .makeDir hobj hmine rfl hw.managed
  · exact fun w hw => hw.unbegun nofun
  · exact fun w hw => Building.unbegun (w := w.makeDir info.key) (hw.congr rfl rfl) nofun
  · exact fun w hw _ => hw.congr rfl rfl

theorem runs_saveStarting (hstatus : info.status = .starting) :
    Runs host May scope (Building id a info false .fresh) (save host a fun _ info => info)
      (fun e w => Building id a info false .fresh w ∧ (e = none → w.Recorded info.key)) R := by
  refine does_save (Move.isOpen scope) steady_building ?_ ?_ ?_
  · intro now w p fault hw hp
    obtain ⟨b, hobj⟩ := hw.has
    obtain rfl := Option.some.inj (hp.symm.trans hobj)
    exact .single (.start hscope (.saveStarting fault hp hmine rfl hw.managed hstatus))
  · intro now w p fault hw hp
    refine ⟨hw.store (f := fun info => info) (fun _ => rfl) hp fault, fun hnone => ?_⟩
    obtain ⟨b, hobj⟩ := hw.has
    obtain rfl := Option.some.inj (hp.symm.trans hobj)
    exact Option.isSome_of_eq_some (World.recorded_store hnone)
  · intro w hw hnone
    obtain ⟨b, hobj⟩ := hw.has
    rw [hnone] at hobj
    cases hobj

/-- The collector starts. -/
theorem runs_collect : Runs host May scope (Prepared id a info false)
      (effect host fun w => w.setDir info.key fun dir => { dir with collecting := true })
      (fun _ => Prepared id a info false) (fun _ => Unbegun id a info) := by
  have hkeep : ∀ w, Prepared id a info false w →
      Prepared id a info false (w.setDir info.key fun dir => { dir with collecting := true }) :=
    fun w hw => ⟨hw.1.setDir _ _, hw.2.setDir fun _ => rfl⟩
  refine runs_startCall hscope steady_prepared ?_ (fun _ hw => hw.unbegun)
    (fun w hw => (hkeep w hw).unbegun) (fun w hw _ => hkeep w hw)
  intro w hw
  obtain ⟨b, hobj⟩ := hw.1.has
  exact .collect hobj hmine rfl

/-- `t.Exec` -/
theorem runs_createExec :
    Runs host May scope (Prepared id a info false) (call host fun _ w => w.createExec info.key)
      (fun _ => Prepared id a info false) (fun _ => Unbegun id a info) := by
  have hkeep : ∀ w, Prepared id a info false w →
      Prepared id a info false (w.createExec info.key).2 := by
    rintro w ⟨hbuild, hrec⟩
    obtain ⟨hmem, hhist, hcontainers⟩ := createExec_frame w info.key
    refine ⟨hbuild.congr hmem hcontainers, ?_⟩
    unfold World.Recorded
    rw [hhist]
    exact hrec
  refine runs_startCall hscope steady_prepared ?_ (fun _ hw => hw.unbegun)
    (fun w hw => (hkeep w hw).unbegun) (fun w hw _ => hkeep w hw)
  intro w hw
  obtain ⟨b, hobj⟩ := hw.1.has
  exact .createExec hobj hmine rfl hw.1.managed hw.2

/-- The exec can be addressed from now on. -/
theorem runs_adopt : Runs host May scope (Prepared id a info false)
      (update host fun _ w => w.setObject a fun p => { p with proc := true })
      (fun _ => Prepared id a info true) R := by
  refine does_update (Move.isOpen scope) steady_prepared ?_ ?_
  · intro now w hw
    obtain ⟨b, hobj⟩ := hw.1.has
    exact .single (.start hscope (.adopt hobj hmine rfl))
  · rintro now w ⟨hbuild, hrec⟩
    obtain ⟨b, hobj⟩ := hbuild.has
    refine ⟨⟨⟨b, ?_⟩, hbuild.alone.setObject _, hbuild.managed⟩, hrec⟩
    rw [World.object?_setObject_self, hobj, Option.map_some]

/-- `proc.Start`: the attempt counts before its outcome is known. -/
theorem runs_startExec (hstatus : info.status = .starting) :
    Runs host May scope (Prepared id a info true) (startExec host a info.key)
      (fun _ => Building id a info true .begun) (fun _ => Building id a info true .tried) := by
  have htried : ∀ w, Prepared id a info true w →
      Move host May scope w (w.invoke a info.key) ∧
        Building id a info true .tried (w.invoke a info.key) := by
    rintro w ⟨hbuild, hrec⟩
    obtain ⟨b, hobj⟩ := hbuild.has
    exact ⟨.start hscope (.invoke hobj hmine rfl hbuild.managed hrec),
      Building.congr (hbuild.enter .tried) rfl rfl⟩
  refine does_atomic (Move.isOpen scope) steady_prepared (fun env w hw => ?_)
    (fun env w _ hw hok => ?_) fun env w e hw herr => ?_
  · obtain ⟨hmove, hbuild⟩ := htried _ hw
    refine .head hmove ?_
    obtain ⟨b, hobj⟩ := hbuild.has
    dsimp only
    split
    · next hcreated _ => exact .single (.start hscope (.succeed hobj hmine rfl hcreated hstatus))
    · next hcreated _ =>
      dsimp only
      split_ifs
      · exact .single (.start hscope (.launch hobj hmine rfl hcreated))
      · exact .refl
    · exact .refl
  · obtain ⟨-, hbuild⟩ := htried _ hw
    dsimp only at hok ⊢
    split at hok
    · exact Building.congr ((hbuild.setExecs _).enter .begun) rfl rfl
    · cases hok
    · cases hok
  · obtain ⟨-, hbuild⟩ := htried _ hw
    dsimp only at herr ⊢
    split at herr
    · cases herr
    · dsimp only
      split_ifs
      · exact hbuild.setExecs _
      · exact hbuild
    · exact hbuild

/-- A call that takes away the exec after a start that failed, or nothing. -/
theorem runs_discard
    (hf : ∀ w, (f w).2 = w ∨ (f w).2 = w.setExecs fun execs => execs.erase info.key) :
    Runs host May scope (Building id a info true .tried) (ignoring (call host fun _ w => f w))
      (fun _ => Building id a info true .tried) R := by
  have hkeep : ∀ w, Building id a info true .tried w → Building id a info true .tried (f w).2 := by
    intro w hw
    rcases hf w with h | h
    · rw [h]; exact hw
    · rw [h]; exact hw.setExecs _
  refine does_ignoring (E := fun _ => Building id a info true .tried) ?_ fun _ _ hw => hw
  refine does_call (Move.isOpen scope) steady_building ?_ (fun _ w _ hw _ => hkeep w hw)
    (fun _ w _ hw _ => hkeep w hw) (fun _ _ hw => hw) (fun _ _ w hw => hkeep w hw)
  intro _ w hw
  rcases hf w with h | h
  · rw [h]
  · obtain ⟨b, hobj⟩ := hw.has
    rw [h]
    exact .single (.start hscope (.discard hobj hmine rfl))

theorem runs_discardExec :
    Runs host May scope (Building id a info true .tried) (discardExec host info.key)
      (fun _ => Building id a info true .tried) R := by
  refine .bind (K := fun _ => Building id a info true .tried) ?_ fun state => ?_
  · refine .rescue (E := fun _ => Building id a info true .tried) ?_
      fun _ => .pure fun _ hw => hw
    refine .bind ?_ fun _ => .pure fun _ hw => hw
    exact does_query (Move.isOpen scope) steady_building (fun _ _ hw _ => hw) (fun _ _ hw _ => hw)
      (fun _ _ hw => hw)
  · split_ifs
    · refine runs_discard hscope hmine fun w => ?_
      split
      · exact .inl rfl
      · exact .inr rfl
    · exact runs_discard hscope hmine fun w => deleteExec_cases w info.key

theorem runs_begin (hstatus : info.status = .starting) :
    Runs host May scope (Building id a info false .fresh) (begin host a info.key)
      (fun _ => Building id a info true .begun) (fun _ => Unbegun id a info) := by
  refine .bind (runs_makeDir hscope hmine) fun _ => ?_
  refine .bind (runs_saveStarting hscope hmine hstatus) fun e => ?_
  refine .bind (K := fun _ w => Building id a info false .fresh w ∧ w.Recorded info.key)
    (does_check (fun _ hw he => ⟨hw.1, hw.2 he⟩) fun _ _ hw _ => hw.1.unbegun nofun) fun _ => ?_
  refine .bind (runs_mkfifo hscope hmine (.inl ⟨rfl, rfl⟩)) fun _ => ?_
  refine .bind (runs_mkfifo hscope hmine (.inr rfl)) fun _ => ?_
  refine .bind (K := fun _ => Prepared id a info false)
    (does_query (Move.isOpen scope) steady_prepared (fun _ _ hw _ => hw)
      (fun _ _ hw _ => hw.unbegun) (fun _ _ hw => hw.unbegun)) fun _ => ?_
  refine .bind (runs_collect hscope hmine) fun _ => ?_
  refine .bind (runs_createExec hscope hmine) fun _ => ?_
  refine .bind (runs_adopt hscope hmine) fun _ => ?_
  refine .rescue (runs_startExec hscope hmine hstatus) fun e => ?_
  exact .bind (runs_discardExec hscope hmine) fun _ => .raise fun _ hw => hw.unbegun nofun

theorem runs_abort (hexit : info.exitCode = none) :
    Runs host May scope (Unbegun id a info) (abort host a) (fun _ => World.AtRest) R := by
  refine .bind (K := fun _ w => ∃ now,
    Unbegun id a (failedInfo "Process start failed" now info) w) ?_ fun _ => ?_
  · refine does_save (Move.isOpen scope) steady_unbegun ?_ ?_ ?_
    · rintro now w p fault ⟨proc, launch, hlaunch, hw⟩ hp
      obtain ⟨b, hobj⟩ := hw.has
      obtain rfl := Option.some.inj (hp.symm.trans hobj)
      exact .single (.start hscope (.abort now fault hp hmine rfl hlaunch hw.managed hexit))
    · rintro now w p fault ⟨proc, launch, hlaunch, hw⟩ hp
      exact ⟨now, proc, launch, hlaunch, hw.store (fun _ => rfl) hp fault⟩
    · rintro w ⟨proc, launch, -, hw⟩ hnone
      obtain ⟨b, hobj⟩ := hw.has
      rw [hnone] at hobj
      cases hobj
  · refine does_update (Move.isOpen scope) ?_ ?_ ?_
    · exact fun w b hb ⟨now, hw⟩ => ⟨now, steady_unbegun w b hb hw⟩
    · rintro _ w ⟨now, proc, launch, hlaunch, hw⟩
      obtain ⟨b, hobj⟩ := hw.has
      exact .single (.start hscope (.close hobj hmine rfl hlaunch rfl))
    · rintro _ w ⟨now, proc, launch, hlaunch, hw⟩
      exact hw.alone.enter_atRest trivial

end

/-! ### The registry -/

theorem Beside.lookup (h : Beside host w w') {pid : String}
    (hp : w.lookupProcess id pid = some (a, p)) :
    ∃ p', w'.lookupProcess id pid = some (a, p') ∧ p.Besides p' := by
  obtain ⟨hreg, hobj, hmine⟩ := World.lookupProcess_eq_some.mp hp
  obtain ⟨p', hobj', hbesides⟩ := h.object a p hobj
  refine ⟨p', World.lookupProcess_eq_some.mpr ⟨h.registry ▸ hreg, hobj', ?_⟩, hbesides⟩
  exact (congrArg Prod.fst hbesides.key).trans hmine

theorem Beside.lookup_none (h : Beside host w w') {pid : String}
    (hp : w.lookupProcess id pid = none) : w'.lookupProcess id pid = none := by
  by_contra hsome
  obtain ⟨⟨a, p'⟩, hp'⟩ := Option.ne_none_iff_exists'.mp hsome
  obtain ⟨hreg, hobj, hmine⟩ := World.lookupProcess_eq_some.mp hp'
  obtain ⟨p, hobj₀, hbesides⟩ := h.object_before hobj
  have hfound : w.lookupProcess id pid = some (a, p) :=
    World.lookupProcess_eq_some.mpr
      ⟨h.registry ▸ hreg, hobj₀, (congrArg Prod.fst hbesides.key).symm.trans hmine⟩
  rw [hp] at hfound
  cases hfound

theorem World.object?_enroll (w : World) (info : ProcessInfo) (stage : Stage) (b : ℕ) :
    (w.enroll info stage).object? b =
      if b = w.memory.heap.length then some ⟨info, false, stage⟩ else w.object? b := by
  unfold enroll object?
  dsimp only
  split_ifs with hb
  · rw [hb, List.getElem?_concat_length]
  · by_cases hlt : b < w.memory.heap.length
    · rw [List.getElem?_append_left hlt]
    · rw [List.getElem?_eq_none (by rw [List.length_append, List.length_singleton]; omega),
        List.getElem?_eq_none (by omega)]

theorem World.object?_register (w : World) (id : String) (req : ExecRequest) (pid : String)
    (now : Time) (b : ℕ) :
    (World.register host id req pid now w).object? b =
      if b = w.memory.heap.length then
        some ⟨World.newInfo host id req pid now, false, .building .fresh⟩
      else w.object? b := by
  unfold register
  dsimp only
  rw [← World.object?_enroll]
  split_ifs <;> rfl

/-! ### `StartProcess` as a whole -/

/-- What `StartProcess` has checked. -/
structure Ready (id pid : String) (w : World) : Prop where
  rest : w.AtRest
  serving : w.memory.serving = true
  managed : (w.managed? id).isSome
  free : w.lookupProcess id pid = none

theorem steady_serving {b : Bool} : Steady host May fun w => w.memory.serving = b :=
  .of_beside fun _ _ h hw => h.serving.trans hw

theorem steady_ready {pid : String} : Steady host May (Ready id pid) := fun w b hb hw =>
  ⟨steady_atRest w b hb hw.rest, steady_serving w b hb hw.serving,
    steady_managed w b hb hw.managed, (Beside.back b).lookup_none hw.free⟩

/-- The new record, not yet on disk. -/
theorem Ready.register {pid : String} (h : Ready id pid w) (req : ExecRequest) (now : Time) :
    Building id w.memory.heap.length (World.newInfo host id req pid now) false .fresh
      (World.register host id req pid now w) := by
  refine ⟨⟨false, ?_⟩, ?_, ?_⟩
  · rw [World.object?_register, if_pos rfl]
    rfl
  · intro b p hp hb
    rw [World.object?_register, if_neg hb] at hp
    exact h.rest b p hp
  · unfold World.register
    dsimp only
    split_ifs <;> exact h.managed

/-- From the running process to its watcher. -/
theorem runs_saveRunning (hscope : scope .start id) (hmine : info.sandboxId = id)
    (hexit : info.exitCode = none) (hcompleted : info.completedAt = none) :
    Runs host May scope (Building id a info true .begun)
      (save host a fun _ info => { info with status := .running })
      (fun _ => Building id a { info with status := .running } true .begun) R := by
  refine does_save (Move.isOpen scope) steady_building ?_ ?_ ?_
  · intro now w p fault hw hp
    obtain ⟨b, hobj⟩ := hw.has
    obtain rfl := Option.some.inj (hp.symm.trans hobj)
    exact .single (.start hscope (.saveRunning fault hp hmine rfl hw.managed hexit hcompleted))
  · intro now w p fault hw hp
    exact hw.store (f := fun info => { info with status := .running }) (fun _ => rfl) hp fault
  · intro w hw hnone
    obtain ⟨b, hobj⟩ := hw.has
    rw [hnone] at hobj
    cases hobj

theorem runs_snapshot (hP : Steady host May P) :
    Runs host May scope P (snapshot host a) (fun _ => P) (fun _ => P) := by
  refine .bind (runs_look hP) fun o => ?_
  cases o with
  | none => exact .raise fun _ hw => hw
  | some p => exact .pure fun _ hw => hw

theorem runs_bringUp {pid : String} {now : Time} (hscope : scope .start id) :
    Runs host May scope (Building id a (World.newInfo host id req pid now) false .fresh)
      (bringUp host a (id, pid)) (fun _ => World.AtRest) (fun _ => World.AtRest) := by
  refine .bind (.rescue (runs_begin hscope rfl rfl) fun e => ?_) fun _ => ?_
  · exact .bind (runs_abort hscope rfl rfl) fun _ => .raise fun _ hw => hw
  refine .bind (runs_saveRunning hscope rfl rfl rfl) fun err => ?_
  refine .bind (K := fun _ => World.AtRest) ?_ fun _ => ?_
  · refine does_update (Move.isOpen scope) steady_building ?_ ?_
    · intro _ w hw
      obtain ⟨b, hobj⟩ := hw.has
      exact .single (.start hscope (.watch hobj rfl rfl rfl))
    · exact fun _ w hw => hw.alone.enter_atRest trivial
  · exact .bind (does_check (fun _ hw _ => hw) fun _ _ hw _ => hw) fun _ =>
      runs_snapshot steady_atRest

theorem runs_track {pid : String} (hregister : scope (.register pid) id) (hscope : scope .start id)
    (hvalid : validProcessID pid = true) :
    Runs host May scope (Ready id pid) (track host id req pid) (fun _ => World.AtRest)
      (fun _ => World.AtRest) := by
  refine .bind (K := fun a w => Ready id pid w ∧ w.memory.heap.length = a)
    (does_look (Move.isOpen scope) steady_ready fun w hw => ⟨hw, rfl⟩) fun a => ?_
  refine .bind (K := fun _ w => ∃ now,
    Building id a (World.newInfo host id req pid now) false .fresh w) ?_ fun _ => ?_
  · refine does_update (Move.isOpen scope) ?_ ?_ ?_
    · exact steady_ready.and (.of_beside fun _ _ h hw => h.length.trans hw)
    · intro now w hw
      exact .single (.register hregister (.register req now hw.1.rest hw.1.serving hw.1.managed
        hvalid hw.1.free))
    · rintro now w ⟨hready, rfl⟩
      exact ⟨now, hready.register req now⟩
  exact .of_exists fun now => runs_bringUp hscope

/-- An identifier that no process has. -/
structure World.Unused (w : World) (pid : String) : Prop where
  valid : validProcessID pid = true
  free : w.memory.registry.find? pid = none

theorem steady_unused {pid : String} : Steady host May (World.Unused · pid) :=
  .of_beside fun _ _ h hw => ⟨hw.valid, h.registry ▸ hw.free⟩

/-- A request can be served. -/
structure Serving (draw : String) (w : World) : Prop where
  rest : w.AtRest
  serving : w.memory.serving = true
  unused : w.Unused draw

theorem steady_serves : Steady host May (Serving draw) := fun w b hb hw =>
  ⟨steady_atRest w b hb hw.rest, steady_serving w b hb hw.serving, steady_unused w b hb hw.unused⟩

theorem runs_requireRunning (hP : Steady host May P) :
    Runs host May scope P (requireRunning host id) (fun _ => P) (fun _ => P) := by
  refine .bind (K := fun _ => P) ?_ fun status => ?_
  · exact does_ifNotFound (E := fun _ => P) (runs_query hP) (.raise fun _ hw => hw)
      fun _ _ _ hw => hw
  · split_ifs
    · exact .pure fun _ hw => hw
    · exact .raise fun _ hw => hw

/-- The identifier of the process that a request starts. -/
abbrev ExecRequest.pid (req : ExecRequest) (draw : String) : String :=
  if req.requestId = "" then draw else req.requestId

/-- The registry does not know the process of the request. -/
theorem Serving.ready (h : Serving draw w) (hmanaged : (w.managed? id).isSome)
    (hknown : known id req w = none) : Ready id (req.pid draw) w := by
  refine ⟨h.rest, h.serving, hmanaged, ?_⟩
  unfold known at hknown
  unfold ExecRequest.pid
  by_cases hempty : req.requestId = ""
  · rw [if_pos hempty]
    unfold World.lookupProcess
    rw [h.unused.free]
    rfl
  · rw [if_neg hempty] at hknown ⊢
    exact Option.map_eq_none_iff.mp hknown

/-- `load` finds a container of the adapter. -/
theorem runs_loaded (hP : Steady host May P) :
    Runs host May scope P (load host id) (fun _ w => P w ∧ (w.managed? id).isSome)
      (fun _ => P) := by
  refine does_query (Move.isOpen scope) hP ?_ (fun _ _ hw _ => hw) (fun _ _ hw => hw)
  intro w c hw hc
  cases hm : w.managed? id with
  | none => rw [hm] at hc; cases hc
  | some c' => exact ⟨hw, rfl⟩

theorem runs_startProcess (hregister : scope (.register (req.pid draw)) id)
    (hscope : scope .start id) :
    Runs host May scope (Serving draw) (startProcess host id req draw) (fun _ => World.AtRest)
      (fun _ => World.AtRest) := by
  have hrest : ∀ (e : Err) w, Serving draw w → w.AtRest := fun _ _ hw => hw.rest
  refine .bind ((runs_loaded steady_serves).conseq (fun _ hw => hw) (fun _ _ hw => hw) hrest)
    fun _ => ?_
  refine .bind (K := fun _ w => (Serving draw w ∧ (w.managed? id).isSome) ∧
    validProcessID (req.pid draw) = true) ?_ fun _ => ?_
  · refine .when (fun _ => .raise fun _ hw => hw.1.rest) fun hnot w hw => ⟨hw, ?_⟩
    unfold ExecRequest.pid
    split_ifs with hempty
    · exact hw.1.unused.valid
    · by_contra hbad
      exact hnot ⟨hempty, hbad⟩
  refine .assuming (fun _ hw => hw.2) fun hvalid => ?_
  refine .bind (K := fun o w => w.AtRest ∧ (o = none → Ready id (req.pid draw) w)) ?_ fun o => ?_
  · refine does_look (Move.isOpen scope) ((steady_serves.and steady_managed).and fun _ _ _ h => h) ?_
    rintro w ⟨⟨hserving, hmanaged⟩, -⟩
    exact ⟨hserving.rest, hserving.ready hmanaged⟩
  cases o with
  | some info =>
    dsimp only
    split_ifs
    · exact .pure fun _ hw => hw.1
    · exact .raise fun _ hw => hw.1
  | none =>
    have hready : ∀ (e : Err) w, Ready id (req.pid draw) w → w.AtRest := fun _ _ hw => hw.rest
    refine .bind ((runs_requireRunning steady_ready).conseq (fun _ hw => hw.2 rfl)
      (fun _ _ hw => hw) hready) fun _ => ?_
    refine .bind ((runs_query steady_ready).conseq (fun _ hw => hw) (fun _ _ hw => hw) hready)
      fun _ => ?_
    exact runs_track hregister hscope hvalid

/-- `PrepareExec` adds a call of `waitExec`. -/
theorem runs_prepareExec (hregister : scope (.register (req.pid draw)) id)
    (hscope : scope .start id) :
    Runs host May scope (Serving draw) (prepareExec host id req draw) (fun _ => World.AtRest)
      (fun _ => World.AtRest) := by
  refine .bind (runs_startProcess hregister hscope) fun info => ?_
  refine .bind (K := fun o w => w.AtRest ∧
    ∀ a p, o = some (a, p) → ∃ p', w.lookupProcess id info.id = some (a, p')) ?_ fun o => ?_
  · exact does_look (Move.isOpen scope) steady_atRest fun w hw => ⟨hw, fun a p h => ⟨p, h⟩⟩
  cases o with
  | none => exact .raise fun _ hw => hw.1
  | some q =>
    obtain ⟨a, p⟩ := q
    refine does_update (Move.isOpen scope) ?_ ?_ ?_
    · refine steady_atRest.and (.of_beside fun w w' h hw a p ho => ?_)
      obtain ⟨p', hp'⟩ := hw a p ho
      obtain ⟨p'', hp'', -⟩ := h.lookup hp'
      exact ⟨p'', hp''⟩
    · intro _ w hw
      obtain ⟨p', hp'⟩ := hw.2 a p rfl
      exact .single (.start hscope (.wait hp'))
    · exact fun _ w hw => hw.1

/-! ### Operations that change nothing -/

section Reads

variable {P : World → Prop} {pid : String}

section

variable (hP : Steady host May P)
include hP

theorem runs_describe :
    Runs host May scope P (describe host id) (fun _ => P) (fun _ => P) := runs_query hP

theorem runs_process : Runs host May scope P (process host id pid) (fun _ => P) (fun _ => P) := by
  refine .bind (runs_query hP) fun _ => .bind (runs_look hP) fun o => ?_
  cases o with
  | none => exact .raise fun _ hw => hw
  | some q => exact .pure fun _ hw => hw

/-- A signal, if there is something to send it to. -/
theorem runs_signal :
    Runs host May scope P (ifNotFound (signal host k) (pure ())) (fun _ => P) (fun _ => P) :=
  does_ifNotFound (E := fun _ => P) (runs_query hP) (.pure fun _ hw => hw) fun _ _ _ hw => hw

theorem runs_killProcess :
    Runs host May scope P (killProcess host id pid) (fun _ => P) (fun _ => P) := by
  refine .bind (runs_process hP) fun _ => .bind (runs_look hP) fun o => ?_
  cases o with
  | none => exact .raise fun _ hw => hw
  | some q =>
    dsimp only
    split_ifs
    · exact .pure fun _ hw => hw
    · exact .bind (runs_signal hP) fun _ => .bind (does_await (Move.isOpen scope) hP (fun _ hw _ => hw)
        fun _ hw => hw) fun _ => runs_snapshot hP

theorem runs_killTracked :
    Runs host May scope P (killTracked host a) (fun _ => P) (fun _ => P) := by
  refine .bind (runs_snapshot hP) fun info => ?_
  split_ifs
  · exact runs_signal hP
  · exact .pure fun _ hw => hw

end

end Reads

/-! ### Settling and forgetting -/

theorem Beside.registered (h : Beside host w w') (id : String) :
    w'.registered id = w.registered id := by
  unfold World.registered
  rw [h.registry]
  refine List.filter_congr fun a _ => ?_
  cases hp : w.object? a with
  | none =>
    cases hp' : w'.object? a with
    | none => rfl
    | some p' =>
      obtain ⟨p, hp₀, -⟩ := h.object_before hp'
      rw [hp] at hp₀
      cases hp₀
  | some p =>
    obtain ⟨p', hp', hbesides⟩ := h.object a p hp
    have hsandbox : p'.info.sandboxId = p.info.sandboxId := congrArg Prod.fst hbesides.key
    rw [hp', Option.any_some, Option.any_some, hsandbox]

theorem World.isDone_iff : w.isDone a = true ↔ ∃ p, w.object? a = some p ∧ p.stage = .done := by
  unfold isDone
  cases w.object? a with
  | none | some p => simp

theorem Beside.isDone (h : Beside host w w') (hdone : w.isDone a = true) : w'.isDone a = true := by
  obtain ⟨p, hp, hstage⟩ := World.isDone_iff.mp hdone
  obtain ⟨p', hp', hbesides⟩ := h.object a p hp
  exact World.isDone_iff.mpr ⟨p', hp', hbesides.done hstage⟩

theorem steady_settled : Steady host May (World.Settled · id) :=
  .of_beside fun _ _ h hw a ha => h.isDone (hw a (h.registered id ▸ ha))

/-- After `settleProcesses` every registered process of the sandbox is done. -/
theorem runs_settleProcesses (hP : Steady host May P) :
    Runs host May scope P (settleProcesses host id) (fun _ w => P w ∧ w.Settled id)
      (fun _ => P) := by
  refine .bind (K := fun ps w => P w ∧ w.registered id = ps)
    (does_look (Move.isOpen scope) hP fun w hw => ⟨hw, rfl⟩) fun ps => ?_
  -- What is not still to come is done.
  suffices h : Runs host May scope
      (fun w => (P w ∧ w.registered id = ps) ∧ ∀ a ∈ ps, a ∈ ps ∨ w.isDone a = true)
      (Prog.forEach ps fun a => await host (fun w => w.isDone a)
        "waiting for sandbox processes to stop: context deadline exceeded")
      (fun _ w => (P w ∧ w.registered id = ps) ∧ ∀ a ∈ ps, a ∈ [] ∨ w.isDone a = true)
      (fun _ => P) by
    refine h.conseq (fun _ hw => ⟨hw, fun _ ha => .inl ha⟩) ?_ fun _ _ hw => hw
    rintro _ w ⟨⟨hw, rfl⟩, hdone⟩
    exact ⟨hw, fun a ha => (hdone a ha).resolve_left List.not_mem_nil⟩
  refine .forEach (I := fun rest w =>
    (P w ∧ w.registered id = ps) ∧ ∀ a ∈ ps, a ∈ rest ∨ w.isDone a = true) fun b rest _ => ?_
  refine does_await (Move.isOpen scope) ?_ ?_ fun _ hw => hw.1.1
  · refine (hP.and (.of_beside fun w w' h hw => (h.registered id).trans hw)).and ?_
    exact .of_beside fun w w' h hw a ha => (hw a ha).imp_right h.isDone
  · rintro w ⟨hw, hdone⟩ hready
    refine ⟨hw, fun a ha => ?_⟩
    rcases hdone a ha with h | h
    · rcases List.mem_cons.mp h with rfl | h
      · exact .inr hready
      · exact .inl h
    · exact .inr h

/-- A sandbox without a container. -/
structure Forgettable (id : String) (w : World) : Prop where
  rest : w.AtRest
  unmanaged : w.managed? id = none

theorem steady_unmanaged : Steady host May fun w : World => w.managed? id = none := by
  refine .of_beside fun w w' h hw => ?_
  rwa [World.managed?_congr h.containers]

theorem steady_forgettable : Steady host May (Forgettable id) := fun w b hb hw =>
  ⟨steady_atRest w b hb hw.rest, steady_unmanaged w b hb hw.unmanaged⟩

/-- These directories of the sandbox are left at most. -/
abbrev Erasing (id : String) (ks : List Key) (w : World) : Prop :=
  Forgettable id w ∧ ∀ k ∈ w.history.dirs.keys, k.1 = id → k ∈ ks

theorem steady_erasing {ks : List Key} : Steady host May (Erasing id ks) :=
  steady_forgettable.and (.of_beside fun _ _ h hw k hk => hw k (h.dirKeys ▸ hk))

theorem runs_eraseDir {pid : String} {rest : List Key} (hscope : scope .forget id) :
    Runs host May scope (Erasing id ((id, pid) :: rest)) (effect host fun w => w.eraseDir (id, pid))
      (fun _ => Erasing id rest) unknown := by
  refine does_effect (Move.isOpen scope) steady_erasing ?_ ?_ (fun _ _ _ => trivial)
    (fun _ _ _ => trivial)
  · exact fun w hw => .single (.forget hscope (.eraseDir hw.1.rest hw.1.unmanaged))
  · rintro w ⟨hw, hkeys⟩
    refine ⟨⟨hw.rest, hw.unmanaged⟩, fun k hk hid => ?_⟩
    obtain ⟨dir, hdir⟩ := (Table.mem_keys_iff _ _).mp hk
    unfold World.eraseDir at hdir
    rw [Table.find?_erase] at hdir
    split_ifs at hdir with hne
    rcases List.mem_cons.mp (hkeys k ((Table.mem_keys_iff _ _).mpr ⟨dir, hdir⟩) hid) with h | h
    · exact absurd h hne
    · exact h

/-- The history of a sandbox is gone. -/
structure Unwritten (id : String) (w : World) : Prop where
  home : id ∉ w.history.homes
  dirs : ∀ k ∈ w.history.dirs.keys, k.1 ≠ id

theorem steady_unwritten : Steady host May (Unwritten id) := by
  refine .of_beside fun w w' h hw => ⟨?_, ?_⟩
  · rw [h.homes]; exact hw.home
  · rw [h.dirKeys]; exact hw.dirs

/-- The history of the sandbox is gone. -/
theorem runs_removeHistory (hscope : scope .forget id) :
    Runs host May scope (Forgettable id) (removeHistory host id)
      (fun _ w => Forgettable id w ∧ Unwritten id w) unknown := by
  refine .bind (K := fun ks w => (∀ k ∈ ks, k.1 = id) ∧ Erasing id ks w) ?_ fun ks => ?_
  · refine does_look (Move.isOpen scope) steady_forgettable fun w hw => ⟨?_, hw, ?_⟩
    · exact fun k hk => of_decide_eq_true (List.mem_filter.mp hk).2
    · exact fun k hk hid => List.mem_filter.mpr ⟨hk, decide_eq_true hid⟩
  refine .assuming (fun _ hw => hw.1) fun hmine => ?_
  refine .bind (K := fun _ => Erasing id []) ?_ fun _ => ?_
  · suffices h : Runs host May scope (Erasing id ks)
        (Prog.forEach ks fun k => effect host fun w => w.eraseDir k) (fun _ => Erasing id [])
        unknown from h.pre fun _ hw => hw.2
    refine .forEach (I := Erasing id) fun k rest hsuffix => ?_
    obtain ⟨id', pid⟩ := k
    obtain rfl : id' = id := hmine _ (hsuffix.mem List.mem_cons_self)
    exact runs_eraseDir hscope
  · refine does_effect (Move.isOpen scope) steady_erasing ?_ ?_ (fun _ _ _ => trivial)
      (fun _ _ _ => trivial)
    · exact fun w hw => .single (.forget hscope (.eraseHome hw.1.unmanaged))
    · rintro w ⟨hw, hkeys⟩
      refine ⟨⟨hw.rest, hw.unmanaged⟩, fun hmem => ?_, fun k hk hid => ?_⟩
      · exact of_decide_eq_true (List.mem_filter.mp hmem).2 rfl
      · exact List.not_mem_nil (hkeys k hk hid)

/-- Nothing is left of the processes of a sandbox. -/
structure Forgotten (id : String) (w : World) : Prop extends Unwritten id w where
  registry : ∀ pid, w.lookupProcess id pid = none

theorem World.lookupProcess_unregister (w : World) (id pid : String) :
    (World.unregister id w).lookupProcess id pid = none := by
  have hfind : (World.unregister id w).memory.registry.find? pid =
      if (w.lookupProcess id pid).isSome then none else w.memory.registry.find? pid :=
    Table.find?_eraseWhere _ _ _
  rw [lookupProcess, hfind]
  split_ifs with hfound
  · rfl
  · exact Option.not_isSome_iff_eq_none.mp hfound

theorem runs_forgetProcesses (hscope : scope .forget id) :
    Runs host May scope (Forgettable id) (forgetProcesses host id) (fun _ => Forgotten id)
      unknown := by
  refine .bind (runs_removeHistory hscope) fun _ => ?_
  refine does_update (Move.isOpen scope) (steady_forgettable.and steady_unwritten) ?_ ?_
  · rintro _ w ⟨hw, hunwritten⟩
    refine .single (.forget hscope (.unregister hw.rest hw.unmanaged fun pid => ?_))
    exact (Table.find?_eq_none_iff _ _).mpr fun hmem => hunwritten.dirs _ hmem rfl
  · exact fun _ w hw => ⟨⟨hw.2.home, hw.2.dirs⟩, w.lookupProcess_unregister id⟩

/-! ### `cleanupProcessRecords` -/

/-- The record at `a` is done; it is about this process. -/
def World.Over (w : World) (a : ℕ) (k : Key) : Prop :=
  ∃ p, w.object? a = some p ∧ p.info.key = k ∧ p.stage = .done

theorem steady_over : Steady host May (World.Over · a k) := by
  refine .of_beside fun w w' h ⟨p, hp, hkey, hdone⟩ => ?_
  obtain ⟨p', hp', hbesides⟩ := h.object a p hp
  exact ⟨p', hp', hbesides.key.trans hkey, hbesides.done hdone⟩

/-- The record of an exec that is over goes from the runtime. -/
theorem runs_cleanupExec (hscope : ∀ id, scope .clean id) (key : Key) :
    Runs host May scope (World.Over · a key)
      (execState host key >>= fun state =>
        match state with
        | .running => pure ()
        | .created | .stopped _ _ => deleteExec host key)
      (fun _ _ => True) unknown := by
  refine .bind (runs_ask (Q := fun _ => (World.Over · a key)) steady_over
    fun _ _ hw _ => hw) fun state => ?_
  have hdelete : Runs host May scope (World.Over · a key) (deleteExec host key)
      (fun _ _ => True) unknown := by
    refine does_call (Move.isOpen scope) steady_over ?_ (fun _ _ _ _ _ => trivial)
      (fun _ _ _ _ _ => trivial) (fun _ _ _ => trivial) (fun _ _ _ _ => trivial)
    rintro _ w ⟨q, hq, hkey, hdone⟩
    rw [← hkey]
    exact .single (.forget (hscope _) (.cleanup hq rfl hdone))
  cases state with
  | running => exact .pure fun _ _ => trivial
  | created | stopped code time => exact hdelete

theorem runs_cleanupRecord (hscope : ∀ id, scope .clean id) :
    Runs host May scope (fun _ => True) (cleanupRecord host a) (fun _ _ => True) unknown := by
  refine .bind (K := fun o w => ∀ p, o = some p → p.stage = .done → w.Over a p.info.key) ?_
    fun o => ?_
  · exact does_look (Move.isOpen scope) .trivial fun w _ p hp hdone => ⟨p, hp, rfl, hdone⟩
  cases o with
  | none => exact .pure fun _ _ => trivial
  | some p =>
    dsimp only
    split_ifs with hover
    · refine does_ifNotFound (E := unknown) ?_ (.pure fun _ _ => trivial) fun _ _ _ _ => trivial
      exact (runs_cleanupExec hscope p.info.key).pre fun _ hw => hw p rfl hover.1
    · exact .pure fun _ _ => trivial

theorem runs_cleanupProcessRecords (hscope : ∀ id, scope .clean id) :
    Runs host May scope (fun _ => True) (cleanupProcessRecords host) (fun _ _ => True) unknown :=
  .bind (runs_look .trivial) fun _ =>
    .forEach (I := fun _ _ => True) fun _ _ _ => runs_cleanupRecord hscope

end Sandcube.Adapter
