import Sandcube.Adapter.Lodging

/-!
# What is known of the processes of a sandbox

The exit code of a process is in the runtime's exec record until the watcher has saved it in
`process.json`; only then the exec record goes.

`Slot.Ok` says what must be true of a process on disk and in the runtime, and `Slot.Fits` what must
be true of the record in memory beside it, by the stage of whoever works on the record.  Both are
kept by the few changes that moves make: `process.json` is written (`Slot.Ok.write`), the exec goes
(`Slot.Ok.drop`), it is made or launched (`Slot.Ok.run`, `Slot.Ok.begin`), it stops
(`Slot.Halts.ok`).

`Books` are those of all processes of a sandbox.  A move that works on one process is checked
against that process alone (`Books.touch`); the others need no check (`Books.leave`).
-/

namespace Sandcube.Adapter

variable {id : String} {w w' : World} {a : ℕ} {p : Tracked} {info : ProcessInfo} {s s' : Slot}
variable {code : UInt32} {state : ExecState} {launch : Launch} {stage : Stage} {q : Tracked}

/-! ### One process -/

namespace Slot

/-- The exec does not run, and will not. -/
def Quiet (s : Slot) : Prop :=
  ∀ state, s.exec = some state → ∃ code time, state = .stopped code time

/-- `process.json` has the exit code. -/
def ExitedWith (s : Slot) (code : UInt32) : Prop :=
  ∃ info, s.record = some info ∧ info.status = .exited ∧ info.exitCode = some code

/-- `process.json` has an exit code. -/
def Exited (s : Slot) : Prop := ∃ info, s.record = some info ∧ info.status = .exited

/-- What a record says about the exit is so. -/
structure Backs (s : Slot) (info : ProcessInfo) : Prop where
  coded : info.status = .exited ↔ info.exitCode.isSome
  exit : ∀ code, info.exitCode = some code → s.exit = some code ∧ s.Quiet

/-- What there is of a process whose start succeeded. -/
structure Kept (s : Slot) : Prop where
  saved : ∃ info, s.record = some info ∧ info.status ≠ .error
  begun : s.exec ≠ some .created
  held : s.exec.isSome ∨ s.Exited

/-- A process on disk and in the runtime. -/
structure Ok (s : Slot) : Prop where
  sober : s.undead = false
  stopped : ∀ code time, s.exec = some (.stopped code time) → s.exit = some code
  record : ∀ info, s.record = some info → s.Backs info
  kept : s.started = true → s.Kept

/-- A record in memory, or what is about to be written, beside what there is of the process. -/
structure Holds (s : Slot) (info : ProcessInfo) : Prop where
  backs : s.Backs info
  agrees : s.Exited → info.status = .exited
  sane : s.started = true → info.status ≠ .error

/-- What is true when the work on a record has come to a stage. -/
def Suits (s : Slot) (info : ProcessInfo) : Stage → Prop
  | .building .begun => info.exitCode = none ∧ s.started = true
  | .building launch =>
    info.exitCode = none ∧ s.started = false ∧ (launch ≠ .fresh → s.record.isSome) ∧
      ∀ r, s.record = some r → r.status = .error → info.status = .error
  | .recovering seen =>
    (info.status = .exited → s.Exited) ∧ (seen = .missing → s.exec = none) ∧
      (seen = .created → s.started = false)
  | .watched .poll | .watched .late => s.started = true ∨ info.exitCode.isSome → s.exec.isSome
  | .watched .missing => s.started = false ∧ info.exitCode = none
  | .watched (.stopped code time) => s.exec = some (.stopped code time)
  | .watched .saved => s.Exited
  | .done => s.started = true → s.Exited

/-- A record in memory beside what there is of the process. -/
structure Fits (s : Slot) (p : Tracked) : Prop where
  holds : s.Holds p.info
  suits : s.Suits p.info p.stage

/-- What is written stays written. -/
def Stays (s s' : Slot) : Prop := ∀ code, s.ExitedWith code → s'.ExitedWith code

theorem Stays.refl (s : Slot) : s.Stays s := fun _ h => h

theorem Stays.of_record (h : s'.record = s.record) : s.Stays s' := by
  rintro code ⟨info, hrecord, hstatus⟩
  exact ⟨info, h.trans hrecord, hstatus⟩

theorem ExitedWith.exited (h : s.ExitedWith code) : s.Exited := by
  obtain ⟨info, hrecord, hstatus, -⟩ := h
  exact ⟨info, hrecord, hstatus⟩

/-- The exit code on disk is that of the process. -/
theorem Ok.exit_of_exitedWith (h : s.Ok) (hs : s.ExitedWith code) : s.exit = some code := by
  obtain ⟨info, hrecord, -, hcode⟩ := hs
  exact ((h.record info hrecord).exit code hcode).1

theorem Ok.exitedWith (h : s.Ok) (hs : s.Exited) : ∃ code, s.ExitedWith code := by
  obtain ⟨info, hrecord, hstatus⟩ := hs
  obtain ⟨code, hcode⟩ := Option.isSome_iff_exists.mp ((h.record info hrecord).coded.mp hstatus)
  exact ⟨code, info, hrecord, hstatus, hcode⟩

theorem Backs.not_exited (h : s.Backs info) (hcode : info.exitCode = none) :
    info.status ≠ .exited := by
  intro hstatus
  have hsome := h.coded.mp hstatus
  rw [hcode] at hsome
  cases hsome

/-- A record that knows nothing of an exit. -/
theorem Backs.of_none (hcode : info.exitCode = none) (hstatus : info.status ≠ .exited) :
    s.Backs info := by
  refine ⟨⟨fun h => absurd h hstatus, fun h => ?_⟩, fun code h => ?_⟩
  · rw [hcode] at h
    cases h
  · rw [hcode] at h
    cases h

/-- Where nobody knows of an exit, there is none on disk. -/
theorem Holds.not_exited (h : s.Holds info) (hcode : info.exitCode = none) : ¬ s.Exited :=
  fun hs => h.backs.not_exited hcode (h.agrees hs)

/-- A record without an exit beside a process without one. -/
theorem Holds.of_none (hcode : info.exitCode = none) (hstatus : info.status ≠ .exited)
    (hs : ¬ s.Exited) (hsane : s.started = true → info.status ≠ .error) : s.Holds info :=
  ⟨.of_none hcode hstatus, fun h => absurd h hs, hsane⟩

theorem Holds.timedOut (h : s.Holds info) (b : Bool) : s.Holds { info with timedOut := b } :=
  ⟨⟨h.backs.coded, h.backs.exit⟩, h.agrees, h.sane⟩

/-! ### `process.json` is written -/

theorem exited_write : (s.write info).Exited ↔ info.status = .exited := by
  constructor
  · rintro ⟨info', hrecord, hstatus⟩
    rw [Option.some.inj hrecord]
    exact hstatus
  · exact fun h => ⟨info, rfl, h⟩

theorem Holds.write (h : s.Holds info) : (s.write info).Holds info :=
  ⟨⟨h.backs.coded, h.backs.exit⟩, exited_write.mp, h.sane⟩

theorem Ok.write (h : s.Ok) (hholds : s.Holds info) : (s.write info).Ok := by
  refine ⟨h.sober, h.stopped, fun info' hrecord => ?_, fun hstarted => ?_⟩
  · rw [← Option.some.inj hrecord]
    exact hholds.write.backs
  · refine ⟨⟨info, rfl, hholds.sane hstarted⟩, (h.kept hstarted).begun, ?_⟩
    exact (h.kept hstarted).held.imp_right fun hs => exited_write.mpr (hholds.agrees hs)

theorem Ok.stays_write (h : s.Ok) (hholds : s.Holds info) : s.Stays (s.write info) := by
  intro code hs
  have hstatus := hholds.agrees hs.exited
  obtain ⟨code', hcode'⟩ := Option.isSome_iff_exists.mp (hholds.backs.coded.mp hstatus)
  have hsame : some code' = some code :=
    (hholds.backs.exit code' hcode').1.symm.trans (h.exit_of_exitedWith hs)
  exact ⟨info, rfl, hstatus, hcode'.trans hsame⟩

/-- A store: it writes, or it fails. -/
def Writes (s : Slot) (info : ProcessInfo) (s' : Slot) : Prop := s' = s ∨ s' = s.write info

theorem Writes.ok (h : s.Writes info s') (hs : s.Ok) (hholds : s.Holds info) : s'.Ok := by
  rcases h with rfl | rfl
  · exact hs
  · exact hs.write hholds

theorem Writes.stays (h : s.Writes info s') (hs : s.Ok) (hholds : s.Holds info) : s.Stays s' := by
  rcases h with rfl | rfl
  · exact .refl _
  · exact hs.stays_write hholds

theorem Writes.holds (h : s.Writes info s') (hholds : s.Holds info) : s'.Holds info := by
  rcases h with rfl | rfl
  · exact hholds
  · exact hholds.write

theorem Writes.started (h : s.Writes info s') : s'.started = s.started := by
  rcases h with rfl | rfl <;> rfl

theorem Writes.exec (h : s.Writes info s') : s'.exec = s.exec := by
  rcases h with rfl | rfl <;> rfl

/-! ### The exec changes -/

theorem quiet_setExec_none : (s.setExec none).Quiet := by
  intro state hstate
  cases hstate

/-- The exec goes. -/
theorem Ok.drop (h : s.Ok) (hsaved : s.started = true → s.Exited) : (s.setExec none).Ok := by
  refine ⟨h.sober, fun code time hexec => ?_, fun info hrecord => ?_, fun hstarted => ?_⟩
  · cases hexec
  · obtain ⟨hcoded, hexit⟩ := h.record info hrecord
    exact ⟨hcoded, fun code hcode => ⟨(hexit code hcode).1, quiet_setExec_none⟩⟩
  · refine ⟨(h.kept hstarted).saved, fun hexec => ?_, .inr (hsaved hstarted)⟩
    cases hexec

theorem Holds.drop (h : s.Holds info) : (s.setExec none).Holds info :=
  ⟨⟨h.backs.coded, fun code hcode => ⟨(h.backs.exit code hcode).1, quiet_setExec_none⟩⟩, h.agrees,
    h.sane⟩

/-- An exec is made or launched for a process that has not exited. -/
theorem Ok.run (h : s.Ok) (hs : ¬ s.Exited) (hstate : ∀ code time, state ≠ .stopped code time)
    (hstarted : s.started = false) : (s.setExec (some state)).Ok := by
  refine ⟨h.sober, fun code time hexec => ?_, fun info hrecord => ?_, fun hstarted' => ?_⟩
  · exact absurd (Option.some.inj hexec) (hstate code time)
  · have hcoded := (h.record info hrecord).coded
    have hstatus : info.status ≠ .exited := fun hstatus => hs ⟨info, hrecord, hstatus⟩
    refine ⟨hcoded, fun code hcode => absurd (hcoded.mpr ?_) hstatus⟩
    rw [hcode]
    rfl
  · have hstarted' : s.started = true := hstarted'
    rw [hstarted] at hstarted'
    cases hstarted'

theorem Holds.run (h : s.Holds info) (hcode : info.exitCode = none) :
    (s.setExec (some state)).Holds info := by
  refine ⟨⟨h.backs.coded, fun code hcode' => ?_⟩, h.agrees, h.sane⟩
  rw [hcode] at hcode'
  cases hcode'

/-- `proc.Start` returned without an error. -/
def begin (s : Slot) : Slot := { s with exec := some .running, started := true }

theorem Ok.begin (h : s.Ok) (hs : ¬ s.Exited)
    (hsaved : ∃ info, s.record = some info ∧ info.status ≠ .error) : s.begin.Ok := by
  refine ⟨h.sober, fun code time hexec => ?_, fun info hrecord => ?_,
    fun _ => ⟨hsaved, ?_, .inl rfl⟩⟩
  · cases hexec
  · have hcoded := (h.record info hrecord).coded
    have hstatus : info.status ≠ .exited := fun hstatus => hs ⟨info, hrecord, hstatus⟩
    refine ⟨hcoded, fun code hcode => absurd (hcoded.mpr ?_) hstatus⟩
    rw [hcode]
    rfl
  · intro hexec
    cases hexec

/-! ### A call of `StartProcess` -/

/-- What is true before `proc.Start` succeeds. -/
theorem suits_unbegun (h : launch ≠ .begun) :
    s.Suits info (.building launch) ↔
      info.exitCode = none ∧ s.started = false ∧ (launch ≠ .fresh → s.record.isSome) ∧
        ∀ r, s.record = some r → r.status = .error → info.status = .error := by
  cases launch with
  | begun => exact absurd rfl h
  | fresh | piped | tried => exact Iff.rfl

/-! ### Processes exit -/

theorem not_quiet_of_running (h : s.exec = some .running) : ¬ s.Quiet := by
  intro hquiet
  obtain ⟨code, time, hstate⟩ := hquiet _ h
  cases hstate

/-- Nobody knows of an exit that comes later. -/
theorem Backs.halt {time : Option Time} (h : s.Backs info) (hrun : s.exec = some .running) :
    Backs { s with exec := some (.stopped code time), exit := some code } info :=
  ⟨h.coded, fun code' hcode => absurd (h.exit code' hcode).2 (not_quiet_of_running hrun)⟩

theorem Halts.ok (h : s.Halts s') (hs : s.Ok) : s'.Ok := by
  rcases h with rfl | ⟨hrun, code, time, rfl⟩
  · exact hs
  · refine ⟨hs.sober, fun code' time' hexec => ?_,
      fun info hrecord => (hs.record info hrecord).halt hrun,
      fun hstarted => ⟨(hs.kept hstarted).saved, fun hexec => ?_, .inl rfl⟩⟩
    · cases hexec
      rfl
    · cases hexec

theorem Halts.stays (h : s.Halts s') : s.Stays s' := by
  rcases h with rfl | ⟨-, code, time, rfl⟩
  · exact .refl _
  · exact .of_record rfl

theorem Halts.fits (h : s.Halts s') (hp : s.Fits p) : s'.Fits p := by
  rcases h with rfl | ⟨hrun, code, time, rfl⟩
  · exact hp
  · obtain ⟨⟨hbacks, hagrees, hsane⟩, hsuits⟩ := hp
    refine ⟨⟨hbacks.halt hrun, hagrees, hsane⟩, ?_⟩
    cases hstage : p.stage with
    | building launch =>
      rw [hstage] at hsuits
      cases launch <;> exact hsuits
    | recovering seen =>
      rw [hstage] at hsuits
      refine ⟨hsuits.1, fun hseen => ?_, hsuits.2.2⟩
      rw [hsuits.2.1 hseen] at hrun
      cases hrun
    | watched phase =>
      rw [hstage] at hsuits
      cases phase with
      | poll | late => exact fun _ => rfl
      | missing => exact hsuits
      | stopped code' time' =>
        have hexec : s.exec = some (.stopped code' time') := hsuits
        rw [hrun] at hexec
        cases hexec
      | saved => exact hsuits
    | done =>
      rw [hstage] at hsuits
      exact hsuits

end Slot

/-! ### A sandbox -/

/-- The processes of a sandbox. -/
structure Books (id : String) (w : World) : Prop where
  lodging : Lodging id w
  slots : ∀ pid, (w.slot (id, pid)).Ok
  objects : ∀ a p, w.object? a = some p → p.info.sandboxId = id → (w.slot p.info.key).Fits p

/-- What the books say of one record. -/
structure Entry (id : String) (w : World) (p : Tracked) : Prop where
  mine : p.info.sandboxId = id
  ok : (w.slot p.info.key).Ok
  fits : (w.slot p.info.key).Fits p

/-- What is true at the stage of the record. -/
theorem Entry.suits (h : Entry id w p) (hstage : p.stage = stage) :
    (w.slot p.info.key).Suits p.info stage := by
  rw [← hstage]
  exact h.fits.suits

/-- The books are kept, and what is written stays written. -/
structure Kept (id : String) (w w' : World) : Prop where
  books : Books id w'
  stays : ∀ pid, (w.slot (id, pid)).Stays (w'.slot (id, pid))

theorem Kept.trans {w'' : World} (h : Kept id w w') (h' : Kept id w' w'') : Kept id w w'' :=
  ⟨h'.books, fun pid code hcode => h'.stays pid code (h.stays pid code hcode)⟩

namespace Books

section

variable (h : Books id w)
include h

theorem refl : Kept id w w := ⟨h, fun _ => .refl _⟩

theorem slot_key (hmine : p.info.sandboxId = id) : (w.slot p.info.key).Ok := by
  have hkey : p.info.key = (id, p.info.id) := Prod.ext hmine rfl
  rw [hkey]
  exact h.slots _

/-- Moves that leave the processes of the sandbox alone. -/
theorem leave (hs : Leaves id w w') : Kept id w w' := by
  refine ⟨⟨h.lodging.leave hs, fun pid => (hs.slot pid).ok (h.slots pid), fun b q hq hmine => ?_⟩,
    fun pid => (hs.slot pid).stays⟩
  have hkey : q.info.key = (id, q.info.id) := Prod.ext hmine rfl
  have hfits := h.objects b q (hs.object b q hq hmine) hmine
  rw [hkey] at hfits ⊢
  exact (hs.slot q.info.id).fits hfits

/-- The books have this record. -/
theorem entry (obj : w.object? a = some p) (hmine : p.info.sandboxId = id) : Entry id w p :=
  ⟨hmine, h.slot_key hmine, h.objects a p obj hmine⟩

/-- Changes of one process. -/
theorem touch (obj : w.object? a = some p) (ht : Touches a p.info.key w w')
    (obj' : w'.object? a = some q) (hslot : w'.slot p.info.key = s')
    (hok : Entry id w p → s'.Ok ∧ (w.slot p.info.key).Stays s') (hfits : Entry id w p → s'.Fits q) :
    Kept id w w' := by
  have hentry : ∀ pid, (id, pid) = p.info.key → Entry id w p :=
    fun pid hkey => h.entry obj (congrArg Prod.fst hkey).symm
  refine ⟨⟨h.lodging.touch ht, fun pid => ?_, fun b r hr hmine => ?_⟩, fun pid => ?_⟩
  · by_cases hkey : (id, pid) = p.info.key
    · rw [hkey, hslot]
      exact (hok (hentry pid hkey)).1
    · rw [ht.slot hkey]
      exact h.slots pid
  · by_cases hb : b = a
    · subst hb
      obtain ⟨p', hp', hkey⟩ := ht.before hr
      rw [obj] at hp'
      obtain rfl := Option.some.inj hp'
      rw [obj'] at hr
      obtain rfl := Option.some.inj hr
      rw [hkey, hslot]
      exact hfits (h.entry obj ((congrArg Prod.fst hkey).symm.trans hmine))
    · rw [ht.object b hb] at hr
      have hother : r.info.key ≠ p.info.key := by
        intro hkey
        exact hb (h.lodging.sole obj hr ((congrArg Prod.fst hkey).symm.trans hmine) hkey)
      rw [ht.slot hother]
      exact h.objects b r hr hmine
  · by_cases hkey : (id, pid) = p.info.key
    · rw [hkey, hslot]
      exact (hok (hentry pid hkey)).2
    · rw [ht.slot hkey]
      exact .refl _

/-- Changes of memory alone. -/
theorem work (obj : w.object? a = some p) (ht : Touches a p.info.key w w')
    (obj' : w'.object? a = some q) (hslot : w'.slot p.info.key = w.slot p.info.key)
    (hfits : Entry id w p → (w.slot p.info.key).Fits q) : Kept id w w' :=
  h.touch obj ht obj' hslot (fun he => ⟨he.ok, .refl _⟩) hfits

/-- The record in memory changes. -/
theorem setObject {f : Tracked → Tracked} (obj : w.object? a = some p)
    (hkey : (f p).info.key = p.info.key)
    (hfits : Entry id w p → (w.slot p.info.key).Fits (f p)) : Kept id w (w.setObject a f) := by
  refine h.work obj (.setObject fun p' hp' => ?_) (World.object?_setObject_of_eq obj f) rfl hfits
  rw [obj] at hp'
  rw [← Option.some.inj hp']
  exact hkey

/-- The work on a record comes to another stage. -/
theorem enter (obj : w.object? a = some p)
    (hsuits : Entry id w p → (w.slot p.info.key).Suits p.info stage) :
    Kept id w (w.enter a stage) :=
  h.setObject obj rfl fun he => ⟨he.fits.holds, hsuits he⟩

/-- A record is stored. -/
theorem store (obj : w.object? a = some p) (hkey : info.key = p.info.key)
    (fault : Option Fault) (hholds : Entry id w p → (w.slot p.info.key).Holds info)
    (hsuits : Entry id w p → ∀ s', (w.slot p.info.key).Writes info s' → s'.Suits info p.stage) :
    Kept id w (w.store a info fault).2 := by
  have hwrites : (w.slot p.info.key).Writes info ((w.store a info fault).2.slot p.info.key) := by
    rcases w.slot_store a info fault with ⟨-, hsame⟩ | hwritten
    · exact .inl (hsame _)
    · refine .inr ?_
      rw [hwritten, if_pos hkey.symm]
  refine h.touch obj (.store obj hkey fault) (World.object?_store obj info fault) rfl (fun he => ?_)
    fun he => ⟨hwrites.holds (hholds he), hsuits he _ hwrites⟩
  exact ⟨hwrites.ok he.ok (hholds he), hwrites.stays he.ok (hholds he)⟩

/-- A watcher stores its record and goes on. -/
theorem conclude {saved : Stage} (obj : w.object? a = some p)
    (hkey : info.key = p.info.key) (fault : Option Fault)
    (hholds : Entry id w p → (w.slot p.info.key).Holds info)
    (hsaved : Entry id w p → ((w.slot p.info.key).write info).Suits info saved)
    (hagain : Entry id w p → ∀ s', (w.slot p.info.key).Writes info s' →
      s'.Suits info (.watched .poll)) : Kept id w (w.conclude a info fault saved) := by
  set s' := (w.store a info fault).2.slot p.info.key with hs'
  have hwrites : (w.slot p.info.key).Writes info s' ∧
      ((w.store a info fault).1 = none → s' = (w.slot p.info.key).write info) := by
    rcases w.slot_store a info fault with ⟨hfailed, hsame⟩ | hwritten
    · exact ⟨.inl (hsame _), fun hnone => absurd hnone hfailed⟩
    · have hwritten' : s' = (w.slot p.info.key).write info := by
        rw [hs', hwritten, if_pos hkey.symm]
      exact ⟨.inr hwritten', fun _ => hwritten'⟩
  refine h.touch obj ((Touches.store obj hkey fault).trans (.enter _))
    (World.object?_enter (World.object?_store obj info fault) _) hs'.symm (fun he => ?_) fun he => ?_
  · exact ⟨hwrites.1.ok he.ok (hholds he), hwrites.1.stays he.ok (hholds he)⟩
  · refine ⟨hwrites.1.holds (hholds he), ?_⟩
    dsimp only
    split_ifs with hnone
    · rw [hwrites.2 hnone]
      exact hsaved he
    · exact hagain he s' hwrites.1

/-- The exec of a process goes. -/
theorem drop (obj : w.object? a = some p)
    (hsaved : Entry id w p → (w.slot p.info.key).started = true → (w.slot p.info.key).Exited)
    (hsuits : Entry id w p → ((w.slot p.info.key).setExec none).Suits p.info p.stage) :
    Kept id w (w.setExecs fun execs => execs.erase p.info.key) :=
  h.touch obj (.eraseExec _) obj (World.slot_eraseExec _)
    (fun he => ⟨he.ok.drop (hsaved he), .of_record rfl⟩) fun he => ⟨he.fits.holds.drop, hsuits he⟩

theorem deleteExec (obj : w.object? a = some p)
    (hsaved : Entry id w p → (w.slot p.info.key).started = true → (w.slot p.info.key).Exited)
    (hsuits : Entry id w p → ((w.slot p.info.key).setExec none).Suits p.info p.stage) :
    Kept id w (w.deleteExec p.info.key).2 := by
  rcases deleteExec_cases w p.info.key with hsame | herase
  · rw [hsame]
    exact h.refl
  · rw [herase]
    exact h.drop obj hsaved hsuits

/-- The exec of a process that is being started is made or launched. -/
theorem run {launch : Launch} {state : ExecState} (obj : w.object? a = some p)
    (stage : p.stage = .building launch) (hunbegun : launch ≠ .begun)
    (hstate : ∀ code time, state ≠ .stopped code time)
    (hhoused : (w.containerd.execs.find? p.info.key).isSome ∨
      (w.containerd.tasks.find? p.info.key.1).isSome) :
    Kept id w (w.setExecs fun execs => execs.put p.info.key state) := by
  refine h.touch obj (.putExec _ _ hhoused) obj (World.slot_putExec _ _) (fun he => ?_) fun he => ?_
  all_goals
    obtain ⟨hcode, hstarted, hrest⟩ := (Slot.suits_unbegun hunbegun).mp (he.suits stage)
  · exact ⟨he.ok.run (he.fits.holds.not_exited hcode) hstate hstarted, .of_record rfl⟩
  · refine ⟨he.fits.holds.run hcode, ?_⟩
    rw [stage]
    exact (Slot.suits_unbegun hunbegun).mpr ⟨hcode, hstarted, hrest⟩

/-- A timer fires. -/
theorem timedOut (a : ℕ) :
    Kept id w (w.setObject a fun p => { p with info := { p.info with timedOut := true } }) := by
  cases hobj : w.object? a with
  | some p =>
    refine h.setObject hobj rfl fun he => ⟨he.fits.holds.timedOut true, ?_⟩
    have hsuits := he.fits.suits
    revert hsuits
    cases p.stage with
    | building launch => cases launch <;> exact fun hsuits => hsuits
    | recovering seen => exact fun hsuits => hsuits
    | watched phase => cases phase <;> exact fun hsuits => hsuits
    | done => exact fun hsuits => hsuits
  | none =>
    refine h.leave { Leaves.refl id w with
      object := fun b p hp _ => ?_
      registry := fun _ _ _ _ h => h
      serving := fun h => h }
    rw [World.object?_setObject] at hp
    split_ifs at hp with hb
    · rw [hb, hobj] at hp
      cases hp
    · exact hp

end

end Books

end Sandcube.Adapter
