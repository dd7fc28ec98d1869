import Sandcube.Adapter.Books

/-!
# Moves keep the books

Five places remove exec records and eight write `process.json`, and the adapter can die between any
two of their steps.  Each of them keeps the books of a sandbox (`Move.kept`), with one exception:
where the task is deleted before the exits of its processes are saved (`Books.removeTask`).  `Stop`
waits for the saves; `Start` does not wait before it deletes a task that has stopped.
-/

namespace Sandcube.Adapter

variable {host : Host} {May : Back → Prop} {scope : Scope} {id : String} {w w' : World} {a : ℕ}
  {p : Tracked} {info : ProcessInfo}
variable {id' pid : String} {kind : Kind} {s : Slot}

/-! ### Watchers and calls of `waitExec` -/

theorem WatchMove.kept (move : WatchMove w a w') (h : Books id w) : Kept id w w' := by
  cases move with
  | @missing p obj stage gone =>
    refine h.enter obj fun he => ?_
    have hnot : ¬ ((w.slot p.info.key).started = true ∨ p.info.exitCode.isSome) := by
      intro hdue
      have hsome := he.suits stage hdue
      rw [World.slot, gone] at hsome
      cases hsome
    obtain ⟨hstarted, hcode⟩ := not_or.mp hnot
    exact ⟨Bool.eq_false_iff.mpr hstarted, Option.not_isSome_iff_eq_none.mp hcode⟩
  | stopped obj stage found => exact h.enter obj fun _ => found
  | late obj stage found alive =>
    have htimed := h.timedOut a
    refine htimed.trans (htimed.books.enter (World.object?_setObject_of_eq obj _) fun he => ?_)
    have hsuits := he.suits stage
    exact hsuits
  | resume obj stage =>
    refine h.enter obj fun he => ?_
    have hsuits := he.suits stage
    exact hsuits
  | @lose p now fault obj stage =>
    have hnote : Kept id w
        (if p.info.exitCode.isSome then w.note (.lateMissing p.info.key) else w) :=
      h.leave (.noteIf _ fun _ hi => by cases hi)
    refine hnote.trans (hnote.books.conclude ((World.object?_noteIf ..).trans obj) ?_ fault
      (fun he => ?_) (fun he => ?_) fun he s' hs' => ?_)
    · rfl
    all_goals
      have hsuits := he.suits stage
    · refine .of_none hsuits.2 (fun h => by cases h) (he.fits.holds.not_exited hsuits.2)
        fun hstarted => ?_
      rw [hsuits.1] at hstarted
      cases hstarted
    · intro hstarted
      rw [Slot.write, hsuits.1] at hstarted
      cases hstarted
    · rintro (hstarted | hcode)
      · rw [hs'.started, hsuits.1] at hstarted
        cases hstarted
      · rw [World.lost, hsuits.2] at hcode
        cases hcode
  | @save p code time now fault obj stage =>
    have hnote : Kept id w (if w.collecting p.info.key then w.note (.cutLogs p.info.key) else w) :=
      h.leave (.noteIf _ fun _ hi => by cases hi)
    refine hnote.trans (hnote.books.conclude ((World.object?_noteIf ..).trans obj) ?_ fault
      (fun he => ?_) (fun he => ?_) fun he s' hs' => ?_)
    · rfl
    all_goals
      have hsuits := he.suits stage
    · refine ⟨⟨⟨fun _ => rfl, fun _ => rfl⟩, fun code' hcode' => ?_⟩, fun _ => rfl,
        fun _ h => by cases h⟩
      rw [← Option.some.inj hcode']
      refine ⟨he.ok.stopped code time hsuits, fun state hstate => ⟨code, time, ?_⟩⟩
      rw [hsuits] at hstate
      exact (Option.some.inj hstate).symm
    · exact Slot.exited_write.mpr rfl
    · intro _
      rw [hs'.exec, hsuits]
      rfl
  | @close p gone obj stage =>
    have hfirst : Kept id w (if gone then (w.deleteExec p.info.key).2 else w) := by
      split_ifs
      · refine h.deleteExec obj (fun he _ => he.suits stage) fun he => ?_
        rw [stage]
        exact he.suits stage
      · exact h.refl
    refine hfirst.trans (hfirst.books.enter (p := p) ?_ fun he _ => he.suits stage)
    split_ifs
    · exact (Work.deleteExec obj).after
    · exact obj

theorem WaitMove.kept {i : ℕ} (move : WaitMove w i w') (h : Books id w) : Kept id w w' := by
  cases move with
  | timer waiter phase =>
    rename_i q
    have hnote : Kept id w (if w.inTime q.object then w.note (.overdue q.key) else w) :=
      h.leave (.noteIf _ fun _ hi => by cases hi)
    have htimed := hnote.trans (hnote.books.timedOut q.object)
    exact htimed.trans (htimed.books.leave (.setWaiter i _))
  | @unneeded q b p waiter phase found ended =>
    have hnote : Kept id w
        (if p.info.exitCode.isSome ∧ p.stage ≠ .done then w.note (.early q.key) else w) :=
      h.leave (.noteIf _ fun _ hi => by cases hi)
    exact hnote.trans (hnote.books.leave (.setWaiter i _))
  | deliver waiter phase =>
    exact h.leave (.of_slots rfl rfl rfl rfl rfl rfl fun _ => rfl)
  | proceed | leave | signal | signalled | killed | finish | readStdout | readStderr | statStdout =>
    exact h.leave (.setWaiter i _)

/-- **Background steps keep the books**, as long as the exec records of the sandbox follow
containerd's rules. -/
theorem BackMove.kept {b : Back} (move : BackMove host w b w') (h : Books id w)
    (hdrift : ∀ pid state, b ≠ .drift (id, pid) state) : Kept id w w' := by
  have hother : ∀ {k state}, b = .drift k state → ∀ pid, (id, pid) ≠ k := by
    rintro k state hb pid rfl
    exact hdrift pid state hb
  cases move with
  | idle => exact h.refl
  | exit running => exact h.leave (.exit _ _ running)
  | taskExit running => exact h.leave (.taskExit _ _ running)
  | watch move | wait move => exact move.kept h
  | collect =>
    refine h.leave (.of_memory rfl rfl rfl (fun h => h) (fun h => h) (fun pid hdir => ?_) fun pid =>
      .inl (World.slot_setDir _ _ (Collect.apply_record _)))
    exact World.hasDir_setDir.mp hdir
  | vanish =>
    exact h.leave (.of_frame rfl rfl rfl (fun h => h) (fun h => h) fun pid =>
      Table.find?_erase_of_ne _ (hother rfl pid))
  | drift =>
    exact h.leave (.of_frame rfl rfl rfl (fun h => h) (fun h => h) fun pid =>
      Table.find?_put_of_ne _ (hother rfl pid) _)
  | removeDirectory | charge | discharge | traffic =>
    exact h.leave (.of_slots rfl rfl rfl rfl rfl rfl fun _ => rfl)

/-! ### `StartProcess` -/

theorem StartMove.kept (move : StartMove host w id' w') (h : Books id w) : Kept id w w' := by
  cases move with
  | @makeDir a p obj mine stage managed =>
    refine h.work obj (.makeDir ?_) obj (World.slot_makeDir _) fun he => he.fits
    rw [ProcessInfo.key, mine]
    exact managed
  | @saveStarting a p fault obj mine stage managed status =>
    refine h.store obj rfl fault (fun he => he.fits.holds) fun he s' hs' => ?_
    obtain ⟨hcode, hstarted, -, herror⟩ := he.suits stage
    rw [stage]
    refine ⟨hcode, hs'.started.trans hstarted, fun hne => absurd rfl hne, fun r hr => ?_⟩
    rcases hs' with rfl | rfl
    · exact herror r hr
    · rw [Option.some.inj hr]
      exact fun hstatus => hstatus
  | @mkfifo a p launch name obj mine stage first recorded =>
    rcases mkfifo_cases w a p.info.key name with ⟨e, he⟩ | ⟨dir, hdir, hname, hok⟩
    · rw [he]
      exact h.refl
    · rw [hok]
      have hunbegun : launch ≠ .begun := by
        rcases first with ⟨rfl, -⟩ | rfl <;> exact fun hb => by cases hb
      have hwork := Work.pipe_made obj stage first hdir hname
      refine h.work obj hwork.touches hwork.after (World.slot_setDir _ _ fun _ => rfl) fun he => ?_
      obtain ⟨hcode, hstarted, -, herror⟩ := (Slot.suits_unbegun hunbegun).mp (he.suits stage)
      exact ⟨he.fits.holds, hcode, hstarted, fun _ => recorded, herror⟩
  | collect obj =>
    exact h.work obj (.setDir (fun _ h => h) fun _ => List.Subset.refl _) obj
      (World.slot_setDir _ _ fun _ => rfl) fun he => he.fits
  | @createExec a p obj mine stage managed recorded =>
    unfold World.createExec
    split
    · exact h.refl
    · exact h.refl
    · next htask hexec =>
      refine h.run obj stage (fun hb => by cases hb) (fun _ _ hs => by cases hs) (.inr ?_)
      exact Option.isSome_of_eq_some htask
  | adopt obj => exact h.setObject obj rfl fun he => ⟨he.fits.holds, he.fits.suits⟩
  | invoke obj mine stage managed recorded =>
    have hwork := Work.invoke obj stage (mine ▸ managed) recorded
    refine h.work obj hwork.touches hwork.after rfl fun he => ?_
    obtain ⟨hcode, hstarted, hrecord, herror⟩ := he.suits stage
    exact ⟨he.fits.holds, hcode, hstarted, fun _ => hrecord (fun hb => by cases hb), herror⟩
  | launch obj mine stage created =>
    exact h.run obj stage (fun hb => by cases hb) (fun _ _ hs => by cases hs)
      (.inl (Option.isSome_of_eq_some created))
  | @succeed a p obj mine stage created starting =>
    have hwork := Work.succeed obj stage created
    have hslot : ((World.launch p.info.key w).succeed a p.info.key).slot p.info.key =
        (w.slot p.info.key).begin := by
      unfold World.slot World.succeed World.launch World.enter World.setObject World.setExecs
        Slot.begin
      dsimp only
      rw [Table.find?_put_self, decide_eq_true List.mem_cons_self]
    refine h.touch obj hwork.touches hwork.after hslot (fun he => ?_) fun he => ?_
    all_goals
      obtain ⟨hcode, -, hrecord, herror⟩ := he.suits stage
    · refine ⟨he.ok.begin (he.fits.holds.not_exited hcode) ?_, .of_record rfl⟩
      obtain ⟨r, hr⟩ := Option.isSome_iff_exists.mp (hrecord fun hb => by cases hb)
      refine ⟨r, hr, fun hstatus => ?_⟩
      have hfailed := herror r hr hstatus
      rw [starting] at hfailed
      cases hfailed
    · have hholds : (w.slot p.info.key).begin.Holds p.info := by
        refine .of_none hcode ?_ (he.fits.holds.not_exited hcode) fun _ => ?_
        all_goals
          rw [starting]
          exact fun hs => by cases hs
      exact ⟨hholds, hcode, rfl⟩
  | @discard a p obj mine stage =>
    refine h.drop obj (fun he hstarted => ?_) fun he => ?_
    all_goals
      have hsuits := he.suits stage
    · rw [hsuits.2.1] at hstarted
      cases hstarted
    · rw [stage]
      exact hsuits
  | @abort a p launch now fault obj mine stage unbegun managed exitless =>
    refine h.store obj ?_ fault (fun he => ?_) fun he s' hs' => ?_
    · rfl
    all_goals
      obtain ⟨hcode, hstarted, hrecord, -⟩ := (Slot.suits_unbegun unbegun).mp (he.suits stage)
    · refine .of_none exitless (fun hs => by cases hs) (he.fits.holds.not_exited exitless)
        fun hstarted' => ?_
      rw [hstarted] at hstarted'
      cases hstarted'
    · rw [stage]
      refine (Slot.suits_unbegun unbegun).mpr ⟨hcode, hs'.started.trans hstarted, fun hne => ?_,
        fun _ _ _ => rfl⟩
      rcases hs' with rfl | rfl
      · exact hrecord hne
      · rfl
  | close obj mine stage unbegun failed =>
    refine h.enter obj fun he hstarted => ?_
    rw [((Slot.suits_unbegun unbegun).mp (he.suits stage)).2.1] at hstarted
    cases hstarted
  | @saveRunning a p fault obj mine stage managed exitless incomplete =>
    refine h.store obj ?_ fault (fun he => ?_) fun he s' hs' => ?_
    · rfl
    · exact .of_none exitless (fun hs => by cases hs) (he.fits.holds.not_exited exitless)
        fun _ hs => by cases hs
    · rw [stage]
      exact ⟨exitless, hs'.started.trans (he.suits stage).2⟩
  | watch obj mine stage running =>
    refine h.enter obj fun he _ => ?_
    obtain ⟨hcode, hstarted⟩ := he.suits stage
    exact (he.ok.kept hstarted).held.resolve_right (he.fits.holds.not_exited hcode)
  | wait => exact h.leave (.of_slots rfl rfl rfl rfl rfl rfl fun _ => rfl)

/-! ### The registry -/

/-- A record is made for a process of this or of another sandbox. -/
theorem Books.enroll {stage : Stage} (h : Books id w)
    (hfree : ∀ b q, w.object? b = some q → q.info.sandboxId = id → q.info.id ≠ info.id)
    (hmine : info.sandboxId = id → (w.managed? id).isSome ∧
      (w.memory.serving = false → w.Recorded info.key) ∧
      (w.slot info.key).Fits ⟨info, false, stage⟩) : Kept id w (w.enroll info stage) := by
  have hregistry : (w.enroll info stage).memory.registry =
      w.memory.registry.put info.id w.memory.heap.length := rfl
  refine ⟨⟨⟨h.lodging.home, fun b q hq hq' => ?_, h.lodging.housed⟩, h.slots, fun b q hq hq' => ?_⟩,
    fun _ => .refl _⟩
  · rw [World.object?_enroll] at hq
    split_ifs at hq with hb
    · rw [← Option.some.inj hq] at hq' ⊢
      obtain ⟨hthere, hrecorded, -⟩ := hmine hq'
      rw [hregistry, hb]
      exact ⟨hthere, Table.find?_put_self _ _ _, hrecorded⟩
    · obtain ⟨hthere, hreg, hdown⟩ := h.lodging.member b q hq hq'
      rw [hregistry, Table.find?_put_of_ne _ (hfree b q hq hq')]
      exact ⟨hthere, hreg, hdown⟩
  · rw [World.object?_enroll] at hq
    split_ifs at hq with hb
    · rw [← Option.some.inj hq] at hq' ⊢
      exact (hmine hq').2.2
    · exact h.objects b q hq hq'

theorem RegisterMove.kept (move : RegisterMove host w id' pid w') (h : Books id w) (ht : Tenancy w)
    (hdistinct : w'.Distinct) : Kept id w w' := by
  cases move with
  | register req now rest serving managed valid free =>
    have huntaken := hdistinct.untaken
    have henroll : Kept id w
        (w.enroll (World.newInfo host id' req pid now) (.building .fresh)) := by
      refine h.enroll (fun b q hq hmine hid => ?_) fun hmine => ⟨?_, fun hdown => ?_, ?_⟩
      · -- The record has the identifier: it is found, or it is of another sandbox.
        obtain ⟨-, hreg, -⟩ := h.lodging.member b q hq hmine
        have hid : q.info.id = pid := hid
        rw [hid] at hreg
        by_cases hsame : q.info.sandboxId = id'
        · rw [World.lookupProcess_eq_some.mpr ⟨hreg, hq, hsame⟩] at free
          cases free
        · rw [World.taken, hreg, Option.any_some, hq, Option.any_some,
            decide_eq_true hsame] at huntaken
          cases huntaken
      · have hmine : id' = id := hmine
        rw [← hmine]
        exact managed
      · rw [serving] at hdown
        cases hdown
      · -- What is not found is not saved.
        have hunsaved : w.history.record? (id', pid) = none := by
          rw [← Option.not_isSome_iff_eq_none]
          intro hsaved
          have hrecorded : w.Recorded (id', pid) := hsaved
          have hfound := ht.found serving _ hrecorded.hasDir (.inl hrecorded)
          rw [free] at hfound
          cases hfound
        have hmine : id' = id := hmine
        have hok : (w.slot (id', pid)).Ok := hmine ▸ h.slots pid
        have hstarted : (w.slot (id', pid)).started = false := by
          rw [Bool.eq_false_iff]
          intro hstarted
          obtain ⟨r, hr, -⟩ := (hok.kept hstarted).saved
          have hr : w.history.record? (id', pid) = some r := hr
          rw [hunsaved] at hr
          cases hr
        have hnone : ∀ r, (w.slot (id', pid)).record ≠ some r := by
          intro r hr
          have hr : w.history.record? (id', pid) = some r := hr
          rw [hunsaved] at hr
          cases hr
        have hholds : (w.slot (id', pid)).Holds (World.newInfo host id' req pid now) := by
          refine .of_none rfl (fun hs => by cases hs) ?_ fun _ hs => by cases hs
          rintro ⟨r, hr, -⟩
          exact hnone r hr
        exact ⟨hholds, rfl, hstarted, fun hne => absurd rfl hne, fun r hr => absurd hr (hnone r)⟩
    have hregister : World.register host id' req pid now w =
        { w.enroll (World.newInfo host id' req pid now) (.building .fresh) with
          trace := { w.trace with requests := ((id', pid), req) :: w.trace.requests } } := by
      unfold World.register
      dsimp only
      rw [huntaken, if_neg Bool.false_ne_true]
      rfl
    rw [hregister]
    exact henroll.trans (henroll.books.leave (.of_slots rfl rfl rfl rfl rfl rfl fun _ => rfl))

theorem World.slot_eraseDir (k k' : Key) (h : w.history.record? k = none) :
    (w.eraseDir k).slot k' = w.slot k' := by
  refine World.slot_congr ?_ rfl rfl
  unfold World.eraseDir History.record?
  dsimp only
  rw [Table.find?_erase]
  split_ifs with hk
  · rw [hk]
    exact h.symm
  · rfl

/-- A directory without a `process.json` goes. -/
theorem Leaves.eraseDir {k : Key} (h : w.history.record? k = none) :
    Leaves id w (w.eraseDir k) := by
  refine .of_memory rfl rfl rfl (fun h => h) (fun h => h) (fun pid hdir => ?_)
    fun pid => .inl (World.slot_eraseDir k _ h)
  obtain ⟨dir, hfind⟩ := Option.isSome_iff_exists.mp hdir
  exact Option.isSome_of_eq_some (Table.find?_of_find?_erase hfind)

theorem ForgetMove.kept (move : ForgetMove host w id' kind w') (h : Books id w) : Kept id w w' := by
  cases move with
  | @eraseDir pid rest unmanaged =>
    by_cases hid : id' = id
    · -- A sandbox without a container has no directories.
      have hnone : w.history.record? (id', pid) = none := by
        rw [← Option.not_isSome_iff_eq_none]
        intro hsaved
        have hrecorded : w.Recorded (id', pid) := hsaved
        rw [hid] at hrecorded unmanaged
        have hthere := h.lodging.home pid hrecorded.hasDir
        rw [unmanaged] at hthere
        cases hthere
      exact h.leave (.eraseDir hnone)
    · have hother : ∀ pid', (id, pid') ≠ (id', pid) := fun _ he => hid (congrArg Prod.fst he).symm
      have hfind : ∀ pid', (w.eraseDir (id', pid)).history.dirs.find? (id, pid') =
          w.history.dirs.find? (id, pid') := fun pid' => Table.find?_erase_of_ne _ (hother pid')
      refine h.leave (.of_memory rfl rfl rfl (fun h => h) (fun h => h) (fun pid' hdir => ?_)
        fun pid' => .inl (World.slot_congr ?_ rfl rfl))
      · unfold World.HasDir at hdir ⊢
        rwa [hfind] at hdir
      · unfold History.record?
        rw [hfind]
  | eraseHome =>
    exact h.leave (.of_slots rfl rfl rfl rfl rfl rfl fun _ => rfl)
  | unregister rest unmanaged empty =>
    refine h.leave { Leaves.refl id w with
      object := fun _ _ hp _ => hp
      registry := fun b q hq hmine hreg => ?_
      serving := fun h => h }
    have hid : id' ≠ id := by
      rintro rfl
      have hthere := (h.lodging.member b q hq hmine).1
      rw [unmanaged] at hthere
      cases hthere
    have hstays : (w.lookupProcess id' q.info.id).isSome = false := by
      rw [World.lookupProcess_any hreg, hq, Option.any_some, hmine]
      exact decide_eq_false hid.symm
    unfold World.unregister
    dsimp only
    rw [Table.find?_eraseWhere, hstays, if_neg Bool.false_ne_true]
    exact hreg
  | cleanup obj mine done =>
    refine h.deleteExec obj (fun he => he.suits done) fun he => ?_
    rw [done]
    exact he.suits done

/-! ### Recovery -/

/-- What is known of a record that has not ended. -/
theorem Slot.Holds.of_going (h : s.Holds info) (hgoing : ¬ info.Ended) :
    info.exitCode = none ∧ ¬ s.Exited := by
  refine ⟨?_, fun hs => hgoing (.inl (h.agrees hs))⟩
  rw [← Option.not_isSome_iff_eq_none]
  exact fun hcode => hgoing (.inl (h.backs.coded.mpr hcode))

/-- A process whose start succeeded and whose record has ended has exited. -/
theorem Slot.Holds.exited_of_ended (h : s.Holds info) (hended : info.Ended)
    (hstarted : s.started = true) : info.status = .exited :=
  hended.resolve_right (h.sane hstarted)

/-- Recovery has not met a process alive whose exit code the record has. -/
theorem Entry.exitless (he : Entry id w p)
    (hundead : p.info.exitCode.isSome → .undead p.info.key ∈ w.trace.incidents) :
    p.info.exitCode = none := by
  rw [← Option.not_isSome_iff_eq_none]
  intro hcode
  have hsober : decide (.undead p.info.key ∈ w.trace.incidents) = false := he.ok.sober
  exact of_decide_eq_false hsober (hundead hcode)

/-- Where the exec is alive, no exit code is known. -/
theorem Entry.meet_slot (he : Entry id w p) {state : ExecState}
    (hfound : w.containerd.execs.find? p.info.key = some state) (k : Key) :
    (World.meet a p.info state w).slot k = w.slot k := by
  have halive : (∀ code time, state ≠ .stopped code time) → p.info.exitCode.isSome = false := by
    intro halive
    rw [Bool.eq_false_iff]
    intro hcode
    obtain ⟨code, hcode⟩ := Option.isSome_iff_exists.mp hcode
    obtain ⟨code', time, hstate⟩ := (he.fits.holds.backs.exit code hcode).2 state hfound
    exact halive code' time hstate
  have hrevived : (if World.revives p.info state then w.note (.revived p.info.key) else w).slot k =
      w.slot k := World.slot_noteIf k _ fun hi => by cases hi
  cases state with
  | created | running =>
    unfold World.meet
    dsimp only
    rw [halive (fun _ _ hs => by cases hs), if_neg Bool.false_ne_true]
    exact hrevived
  | stopped code time => exact hrevived

theorem BootMove.kept (move : BootMove host w id' w') (h : Books id w) (ht : Tenancy w) :
    Kept id w w' := by
  cases move with
  | sweepDir down fresh unrecorded => exact h.leave (.eraseDir unrecorded)
  | @enroll info rest mine down valid recorded new =>
    have hrecorded : w.Recorded info.key := Option.isSome_of_eq_some recorded
    refine h.enroll (fun b q hq hmine hid => ?_) fun hmine => ⟨?_, fun _ => hrecorded, ?_⟩
    · -- Two records on disk have different identifiers.
      have hsaved := (h.lodging.member b q hq hmine).2.2 down
      exact new b q hq (ht.apart _ _ hsaved hrecorded hid)
    · have hkey : info.key = (id, info.id) := Prod.ext hmine rfl
      rw [hkey] at hrecorded
      exact h.lodging.home info.id hrecorded.hasDir
    · have hkey : info.key = (id, info.id) := Prod.ext hmine rfl
      have hok : (w.slot info.key).Ok := hkey ▸ h.slots info.id
      have hsame : ∀ r, (w.slot info.key).record = some r → r = info := by
        intro r hr
        have hr : w.history.record? info.key = some r := hr
        rw [recorded] at hr
        exact (Option.some.inj hr).symm
      refine ⟨⟨hok.record info recorded, ?_, fun hstarted => ?_⟩,
        fun hstatus => ⟨info, recorded, hstatus⟩, fun hs => ?_, fun hs => ?_⟩
      · rintro ⟨r, hr, hstatus⟩
        rw [hsame r hr] at hstatus
        exact hstatus
      · obtain ⟨r, hr, hstatus⟩ := (hok.kept hstarted).saved
        rw [hsame r hr] at hstatus
        exact hstatus
      · cases hs
      · cases hs
  | @miss a p obj mine stage missing =>
    refine h.enter obj fun he => ?_
    have hexec : (w.slot p.info.key).exec = none := by
      have hid : id' = id := mine.symm.trans he.mine
      have hkey : p.info.key = (id, p.info.id) := Prod.ext he.mine rfl
      rcases missing with hunmanaged | htaskless | hexec
      · have hthere := (h.lodging.member a p obj he.mine).1
        rw [← hid, hunmanaged] at hthere
        cases hthere
      · rw [← Option.not_isSome_iff_eq_none]
        intro hexec
        rw [hkey] at hexec
        have htask := h.lodging.housed _ hexec
        rw [← hid, htaskless] at htask
        cases htask
      · exact hexec
    refine ⟨(he.suits stage).1, fun _ => hexec, fun hs => ?_⟩
    cases hs
  | adopt obj => exact h.setObject obj rfl fun he => ⟨he.fits.holds, he.fits.suits⟩
  | @meet a p state obj mine stage found =>
    obtain ⟨seen, hcreated, hmissing, hwork⟩ := Work.meet obj stage
    refine h.touch obj hwork.touches hwork.after rfl (fun he => ?_) fun he => ?_
    · rw [he.meet_slot found]
      exact ⟨he.ok, .refl _⟩
    · rw [he.meet_slot found]
      refine ⟨he.fits.holds, (he.suits stage).1, fun hs => absurd hs hmissing, fun hs => ?_⟩
      rw [Bool.eq_false_iff]
      intro hstarted
      rw [hcreated hs] at found
      exact (he.ok.kept hstarted).begun found
  | @lose a p now fault obj mine stage going =>
    refine h.store obj ?_ fault (fun he => ?_) fun he s' hs' => ?_
    · rfl
    · obtain ⟨hcode, hexited⟩ := he.fits.holds.of_going going
      refine .of_none hcode (fun hs => by cases hs) hexited fun hstarted => ?_
      rcases (he.ok.kept hstarted).held with hexec | hs
      · rw [(he.suits stage).2.1 rfl] at hexec
        cases hexec
      · exact absurd hs hexited
    · rw [stage]
      refine ⟨fun hs => ?_, fun _ => ?_, fun hs => ?_⟩
      · cases hs
      · rw [hs'.exec]
        exact (he.suits stage).2.1 rfl
      · cases hs
  | @interrupt a p now fault obj mine stage revived undead =>
    refine h.store obj ?_ fault (fun he => ?_) fun he s' hs' => ?_
    · rfl
    · have hcode := he.exitless undead
      refine .of_none hcode (fun hs => by cases hs) (he.fits.holds.not_exited hcode)
        fun hstarted => ?_
      rw [(he.suits stage).2.2 rfl] at hstarted
      cases hstarted
    · rw [stage]
      refine ⟨fun hs => ?_, fun hs => ?_, fun _ => hs'.started.trans ((he.suits stage).2.2 rfl)⟩
      · cases hs
      · cases hs
  | @resume a p fault obj mine stage revived undead =>
    refine h.store obj ?_ fault (fun he => ?_) fun he s' hs' => ?_
    · rfl
    · have hcode := he.exitless undead
      exact .of_none hcode (fun hs => by cases hs) (he.fits.holds.not_exited hcode)
        fun _ hs => by cases hs
    · rw [stage]
      refine ⟨fun hs => ?_, fun hs => ?_, fun hs => ?_⟩
      all_goals cases hs
  | @dropInterrupted a p obj mine stage =>
    refine h.deleteExec obj (fun he hstarted => ?_) fun he => ?_
    · rw [(he.suits stage).2.2 rfl] at hstarted
      cases hstarted
    · rw [stage]
      exact ⟨(he.suits stage).1, fun _ => rfl, (he.suits stage).2.2⟩
  | @dropEnded a p obj mine stage ended =>
    refine h.deleteExec obj (fun he hstarted => ?_) fun he => ?_
    · exact (he.suits stage).1 (he.fits.holds.exited_of_ended ended hstarted)
    · rw [stage]
      exact ⟨(he.suits stage).1, fun _ => rfl, (he.suits stage).2.2⟩
  | close obj mine stage known ended =>
    refine h.enter obj fun he hstarted => ?_
    exact (he.suits stage).1 (he.fits.holds.exited_of_ended ended hstarted)
  | rewatch obj mine stage going =>
    refine h.enter obj fun he hdue => ?_
    obtain ⟨hcode, hexited⟩ := he.fits.holds.of_going going
    rcases hdue with hstarted | hsome
    · exact (he.ok.kept hstarted).held.resolve_right hexited
    · rw [hcode] at hsome
      cases hsome
  | serve rest complete =>
    refine h.leave { Leaves.refl id w with
      object := fun _ _ hp _ => hp
      registry := fun _ _ _ _ hreg => hreg
      serving := fun hdown => ?_ }
    cases hdown

/-! ### Tasks -/

/-- A process that is saved is found, by its own record. -/
theorem Tenancy.found_record (ht : Tenancy w) (hroster : Rostered w)
    (hserving : w.memory.serving = true) (hsaved : w.Recorded (id, pid)) :
    ∃ a p, w.lookupProcess id pid = some (a, p) ∧ w.object? a = some p ∧
      p.info.key = (id, pid) := by
  obtain ⟨⟨a, p⟩, hfound⟩ := Option.isSome_iff_exists.mp
    (ht.found hserving _ hsaved.hasDir (.inl hsaved))
  obtain ⟨hreg, hp, hmine⟩ := World.lookupProcess_eq_some.mp hfound
  obtain ⟨-, p', hp', hid⟩ := hroster pid a hreg
  rw [hp] at hp'
  rw [← Option.some.inj hp'] at hid
  exact ⟨a, p, hfound, hp, Prod.ext hmine hid⟩

/-- A task goes when the exits of its processes are saved. -/
theorem Books.removeTask (h : Books id w) (ht : Tenancy w) (hroster : Rostered w)
    (hserving : w.memory.serving = true) (hsettled : w.unsettled id = false) :
    Kept id w (w.removeTask id) := by
  have hslot : ∀ pid, (w.removeTask id).slot (id, pid) = (w.slot (id, pid)).setExec none := by
    intro pid
    unfold World.removeTask World.slot Slot.setExec
    dsimp only
    rw [hsettled, if_neg Bool.false_ne_true, Table.find?_eraseWhere, if_pos (decide_eq_true rfl)]
  have hdone : ∀ b q, w.object? b = some q → q.info.sandboxId = id → q.stage = .done := by
    intro b q hq hmine
    by_contra hstage
    have hany : w.unsettled id = true := by
      refine List.any_eq_true.mpr ⟨q, List.mem_of_getElem? hq, ?_⟩
      rw [decide_eq_true hmine, decide_eq_true hstage]
      rfl
    rw [hsettled] at hany
    cases hany
  have hframe : (w.removeTask id).memory = w.memory ∧ (w.removeTask id).history = w.history := by
    unfold World.removeTask
    dsimp only
    split_ifs <;> exact ⟨rfl, rfl⟩
  have hmanaged : (w.removeTask id).managed? id = w.managed? id := World.managed?_congr rfl
  refine ⟨⟨⟨fun pid hdir => ?_, fun b q hq hmine => ?_, fun pid hexec => ?_⟩, fun pid => ?_,
    fun b q hq hmine => ?_⟩, fun pid => ?_⟩
  · rw [hmanaged]
    refine h.lodging.home pid ?_
    unfold World.HasDir at hdir ⊢
    rwa [hframe.2] at hdir
  · rw [World.object?, hframe.1] at hq
    have hmember := h.lodging.member b q hq hmine
    unfold World.Recorded at hmember ⊢
    rw [hmanaged, hframe.1, hframe.2]
    exact hmember
  · have hnone : ((w.removeTask id).slot (id, pid)).exec = none := by
      rw [hslot]
      rfl
    have hexec : ((w.removeTask id).slot (id, pid)).exec.isSome := hexec
    rw [hnone] at hexec
    cases hexec
  · rw [hslot]
    refine (h.slots pid).drop fun hstarted => ?_
    -- The process is saved, so it is found, and its record is done.
    obtain ⟨r, hr, -⟩ := ((h.slots pid).kept hstarted).saved
    have hrecorded : w.Recorded (id, pid) := Option.isSome_of_eq_some hr
    obtain ⟨b, q, -, hq, hkey⟩ := ht.found_record hroster hserving hrecorded
    have hmine : q.info.sandboxId = id := congrArg Prod.fst hkey
    have hfits := (h.objects b q hq hmine).suits
    rw [hdone b q hq hmine, hkey] at hfits
    exact hfits hstarted
  · rw [World.object?, hframe.1] at hq
    have hkey : q.info.key = (id, q.info.id) := Prod.ext hmine rfl
    have hfits := h.objects b q hq hmine
    have hsuits := hfits.suits
    rw [hkey] at hfits hsuits ⊢
    rw [hslot]
    refine ⟨hfits.holds.drop, ?_⟩
    rw [hdone b q hq hmine] at hsuits ⊢
    exact hsuits
  · rw [hslot]
    exact .of_record rfl

theorem TaskMove.kept (move : TaskMove host w id' w') (h : Books id w) (ht : Tenancy w)
    (hroster : Rostered w) (hserving : w.memory.serving = true)
    (hsettled : .unsettled id ∉ w'.trace.incidents) : Kept id w w' := by
  have hremove : w' = w.removeTask id' → Kept id w w' := by
    rintro rfl
    by_cases hid : id' = id
    · subst hid
      refine h.removeTask ht hroster hserving ?_
      rw [Bool.eq_false_iff]
      intro hunsettled
      refine hsettled ?_
      unfold World.removeTask
      rw [if_pos hunsettled]
      exact List.mem_cons_self
    · have hnote : Kept id w (if w.unsettled id' then w.note (.unsettled id') else w) :=
        h.leave (.noteIf _ fun _ hi => by cases hi)
      refine hnote.trans (hnote.books.leave (.of_frame rfl rfl rfl ?_ ?_ fun pid => ?_))
      · split_ifs <;> exact fun hthere => hthere
      · intro htask
        unfold World.removeTask
        dsimp only
        rw [Table.find?_erase_of_ne _ (Ne.symm hid)]
        split_ifs at htask <;> exact htask
      · unfold World.removeTask
        dsimp only
        rw [Table.find?_eraseWhere, if_neg]
        · split_ifs <;> rfl
        · exact fun he => hid (of_decide_eq_true he).symm
  cases move with
  | new managed =>
    unfold World.newTask
    split
    · exact h.refl
    · exact h.refl
    · refine h.leave (.of_frame rfl rfl rfl (fun hthere => hthere) (fun htask => ?_) fun _ => rfl)
      exact Table.isSome_find?_put _ _ _ htask
  | start fenced managed =>
    unfold World.startTask
    split
    · refine h.leave (.of_frame rfl rfl rfl (fun hthere => hthere) (fun htask => ?_) fun _ => rfl)
      dsimp only
      rw [Table.find?_modify]
      split_ifs
      · rwa [Option.isSome_map]
      · exact htask
    · exact h.refl
    · exact h.refl
  | remove | removeSettled => exact hremove rfl

/-! ### All moves -/

/-- **Every move keeps the books** of a sandbox that is not deleted, as long as its exec records
follow containerd's rules, no process is registered under an identifier of another sandbox, and no
task goes before the exits of its processes are saved. -/
theorem Move.kept (hm : Move host May scope w w') (h : Books id w) (ht : Tenancy w)
    (hroster : Rostered w) (hdrift : ∀ pid state, ¬ May (.drift (id, pid) state))
    (herase : ¬ scope .erase id) (hserving : ∀ id', scope .task id' → w.memory.serving = true)
    (hdistinct : w'.Distinct) (hsettled : .unsettled id ∉ w'.trace.incidents) : Kept id w w' := by
  cases hm with
  | @back b may =>
    refine (w.back_move host b).kept h fun pid state hb => hdrift pid state ?_
    rw [← hb]
    exact may
  | net inScope move =>
    exact h.leave (.of_slots rfl rfl rfl rfl rfl rfl fun _ => rfl)
  | quota inScope move =>
    have hmanaged : (w.managed? id).isSome → (w'.managed? id).isSome := move.managed
    obtain ⟨_, _, _, _, rfl⟩ := move.frame
    exact h.leave (.of_frame rfl rfl rfl hmanaged (fun htask => htask) fun _ => rfl)
  | @erase id' w' inScope move =>
    have hne : id' ≠ id := by
      rintro rfl
      exact herase inScope
    obtain ⟨-, -, -, rfl⟩ := move.inv
    refine h.leave (.of_memory rfl rfl rfl (fun hthere => ?_) (fun h => h) (fun _ h => h)
      fun _ => .inl rfl)
    unfold World.managed? at hthere ⊢
    dsimp only
    rw [Table.find?_erase_of_ne _ hne.symm]
    exact hthere
  | task inScope move => exact move.kept h ht hroster (hserving _ inScope) hsettled
  | register inScope move => exact move.kept h ht hdistinct
  | start inScope move | forget inScope move => exact move.kept h
  | boot inScope move => exact move.kept h ht

end Sandcube.Adapter
