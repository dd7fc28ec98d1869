import Sandcube.Adapter.Background

/-!
# The background steps, case by case

What one step of a watcher, of a call of `waitExec` or of the host does when it does something,
with what it has seen.  Invariants about background steps are proved by cases over these.
-/

namespace Sandcube.Adapter

/-- The save of a watcher, and where it goes from there. -/
def World.conclude (w : World) (a : ℕ) (info : ProcessInfo) (fault : Option Fault) (saved : Stage) :
    World :=
  (w.store a info fault).2.enter a
    (if (w.store a info fault).1 = none then saved else .watched .poll)

/-- One step of the watcher of the record at `a`. -/
inductive WatchMove (w : World) (a : ℕ) : World → Prop
  | missing {p : Tracked} (obj : w.object? a = some p) (stage : p.stage = .watched .poll)
      (gone : w.containerd.execs.find? p.info.key = none) :
      WatchMove w a (w.enter a (.watched .missing))
  | stopped {p : Tracked} {code : UInt32} {time : Option Time} (obj : w.object? a = some p)
      (stage : p.stage = .watched .poll)
      (found : w.containerd.execs.find? p.info.key = some (.stopped code time)) :
      WatchMove w a (w.enter a (.watched (.stopped code time)))
  | late {p : Tracked} {state : ExecState} (obj : w.object? a = some p)
      (stage : p.stage = .watched .poll) (found : w.containerd.execs.find? p.info.key = some state)
      (alive : ∀ code time, state ≠ .stopped code time) :
      WatchMove w a
        ((w.setObject a fun p => { p with info := { p.info with timedOut := true } }).enter a
          (.watched .late))
  | resume {p : Tracked} (obj : w.object? a = some p) (stage : p.stage = .watched .late) :
      WatchMove w a (w.enter a (.watched .poll))
  | lose {p : Tracked} (now : Time) (fault : Option Fault) (obj : w.object? a = some p)
      (stage : p.stage = .watched .missing) :
      WatchMove w a
        ((if p.info.exitCode.isSome then w.note (.lateMissing p.info.key) else w).conclude a
          (World.lost p.info now) fault .done)
  | save {p : Tracked} {code : UInt32} {time : Option Time} (now : Time) (fault : Option Fault)
      (obj : w.object? a = some p) (stage : p.stage = .watched (.stopped code time)) :
      WatchMove w a
        ((if w.collecting p.info.key then w.note (.cutLogs p.info.key) else w).conclude a
          (World.exited p.info (w.logsDone p.info.key) code (time.getD now)) fault
          (.watched .saved))
  | close {p : Tracked} (gone : Bool) (obj : w.object? a = some p)
      (stage : p.stage = .watched .saved) :
      WatchMove w a ((if gone then (w.deleteExec p.info.key).2 else w).enter a .done)

/-- One step of the call of `waitExec` with the number `i`. -/
inductive WaitMove (w : World) (i : ℕ) : World → Prop
  | proceed {q : Waiter} (waiter : w.memory.waiters[i]? = some q) (phase : q.phase = .select)
      (done : w.isDone q.object = true) : WaitMove w i (w.resume i .finish)
  | timer {q : Waiter} (waiter : w.memory.waiters[i]? = some q) (phase : q.phase = .select) :
      WaitMove w i
        (((if w.inTime q.object then w.note (.overdue q.key) else w).setObject q.object fun p =>
          { p with info := { p.info with timedOut := true } }).setWaiter i fun q =>
            { q with timedOut := true, phase := .kill })
  | leave {q : Waiter} (waiter : w.memory.waiters[i]? = some q) : WaitMove w i (w.resume i .ended)
  | unneeded {q : Waiter} {b : ℕ} {p : Tracked} (waiter : w.memory.waiters[i]? = some q)
      (phase : q.phase = .kill) (found : w.lookupProcess q.key.1 q.key.2 = some (b, p))
      (ended : p.info.status ≠ .running) :
      WaitMove w i
        ((if p.info.exitCode.isSome ∧ p.stage ≠ .done then w.note (.early q.key) else w).resume i
          .finish)
  | signal {q : Waiter} {b : ℕ} {p : Tracked} (waiter : w.memory.waiters[i]? = some q)
      (phase : q.phase = .kill) (found : w.lookupProcess q.key.1 q.key.2 = some (b, p)) :
      WaitMove w i (w.resume i (.signal b))
  | signalled {q : Waiter} {b : ℕ} (waiter : w.memory.waiters[i]? = some q)
      (phase : q.phase = .signal b) : WaitMove w i (w.resume i (.killed b))
  | killed {q : Waiter} {b : ℕ} (waiter : w.memory.waiters[i]? = some q)
      (phase : q.phase = .killed b) (done : w.isDone b = true) : WaitMove w i (w.resume i .finish)
  | finish {q : Waiter} {p : Tracked} {code : UInt32} (waiter : w.memory.waiters[i]? = some q)
      (phase : q.phase = .finish) (obj : w.object? q.object = some p)
      (exit : p.info.exitCode = some code) :
      WaitMove w i
        (w.resume i (.readStdout ⟨[], [], code, q.timedOut || p.info.timedOut, false⟩))
  | readStdout {q : Waiter} {r : ExecResult} {dir : Dir} {bytes : Bytes}
      (waiter : w.memory.waiters[i]? = some q) (phase : q.phase = .readStdout r)
      (there : w.history.dirs.find? q.key = some dir) (stdout : dir.stdout = some bytes) :
      WaitMove w i (w.resume i (.readStderr { r with stdout := bytes }))
  | readStderr {q : Waiter} {r : ExecResult} {dir : Dir} {bytes : Bytes}
      (waiter : w.memory.waiters[i]? = some q) (phase : q.phase = .readStderr r)
      (there : w.history.dirs.find? q.key = some dir) (stderr : dir.stderr = some bytes) :
      WaitMove w i (w.resume i (.statStdout { r with stderr := bytes }))
  | statStdout {q : Waiter} {r : ExecResult} (waiter : w.memory.waiters[i]? = some q)
      (phase : q.phase = .statStdout r) :
      WaitMove w i
        (w.resume i (.statStderr
          { r with truncated := (w.history.dirs.find? q.key).any Dir.stdoutTruncated }))
  | deliver {q : Waiter} {r : ExecResult} (waiter : w.memory.waiters[i]? = some q)
      (phase : q.phase = .statStderr r) :
      WaitMove w i
        (w.deliver i q.key
          { r with
            truncated := r.truncated || (w.history.dirs.find? q.key).any Dir.stderrTruncated })

/-- One step beside the operations. -/
inductive BackMove (host : Host) (w : World) : Back → World → Prop
  | idle {b : Back} : BackMove host w b w
  | exit {k : Key} {code : UInt32} {time : Option Time}
      (running : w.containerd.execs.find? k = some .running) :
      BackMove host w (.exit k code time) (w.exit k code time)
  | taskExit {id : String} {codes : String → UInt32} {time : Option Time}
      (running : w.containerd.tasks.find? id = some .running) :
      BackMove host w (.taskExit id codes time) (w.taskExit id codes time)
  | watch {a : ℕ} {now : Time} {fault : Option Fault} {w' : World} (move : WatchMove w a w') :
      BackMove host w (.watch a now fault) w'
  | wait {i : ℕ} {choice : WaitChoice} {fault : Option Fault} {w' : World}
      (move : WaitMove w i w') : BackMove host w (.wait i choice fault) w'
  | collect {k : Key} {step : Collect} :
      BackMove host w (.collect k step) (w.setDir k (World.Collect.apply step))
  | vanish {k : Key} : BackMove host w (.drift k none) (w.setExecs fun execs => execs.erase k)
  | drift {k : Key} {state : ExecState} :
      BackMove host w (.drift k (some state)) (w.setExecs fun execs => execs.put k state)
  | removeDirectory {n : ℕ} (unused : World.inUse w.containerd n = false) :
      BackMove host w (.removeDirectory n)
        (w.withQuota fun q => { q with directories := q.directories.filter (· ≠ n) })
  | charge {n : ℕ} {amount : Amount} (there : n ∈ w.quota.directories)
      (marked : n ∈ w.quota.attributes.map Prod.fst) :
      BackMove host w (.charge n amount)
        (w.withQuota fun q => { q with usage := fun m => if m = n then amount else q.usage m })
  | discharge {n : ℕ} (gone : n ∉ w.quota.directories) :
      BackMove host w (.discharge n)
        (w.withQuota fun q => { q with usage := fun m => if m = n then .zero else q.usage m })
  | traffic {id : String} {inbound : Bool} {guest : Address}
      (linked : (w.net.links.find? (host.networkName id)).bind Link.guest = some guest) :
      BackMove host w (.traffic id inbound)
        (w.withNet fun n => { n with conntrack := ⟨id, guest, inbound⟩ :: n.conntrack })

section Inversion

variable {host : Host} {w : World}

theorem World.watch_move (w : World) (a : ℕ) (now : Time) (fault : Option Fault) :
    w.watch a now fault = w ∨ WatchMove w a (w.watch a now fault) := by
  unfold watch
  cases hp : w.object? a with
  | none => exact .inl rfl
  | some p =>
    dsimp only
    split
    · exact .inl rfl
    · exact .inl rfl
    · exact .inl rfl
    · next hstage =>
      unfold watchPoll
      split
      · exact .inl rfl
      · next hgone => exact .inr (.missing hp hstage hgone)
      · next hfound => exact .inr (.stopped hp hstage hfound)
      · next state hnot hfound =>
        split_ifs
        · exact .inr (.late hp hstage hfound fun code time h => hnot code time h)
        · exact .inl rfl
    · next hstage => exact .inr (.resume hp hstage)
    · next hstage =>
      have hmove := WatchMove.lose now fault hp hstage
      unfold conclude at hmove
      unfold watchMissing
      dsimp only
      split
      · next heq => rw [heq, if_pos rfl] at hmove; exact .inr hmove
      · next heq => rw [heq, if_neg (Option.some_ne_none _)] at hmove; exact .inr hmove
    · next code time hstage =>
      have hmove := WatchMove.save now fault hp hstage
      unfold conclude at hmove
      unfold watchStopped
      dsimp only
      split
      · next heq => rw [heq, if_pos rfl] at hmove; exact .inr hmove
      · next heq => rw [heq, if_neg (Option.some_ne_none _)] at hmove; exact .inr hmove
    · next hstage => exact .inr (.close _ hp hstage)

theorem World.wait_move (w : World) (i : ℕ) (choice : WaitChoice) (fault : Option Fault) :
    w.wait i choice fault = w ∨ WaitMove w i (w.wait i choice fault) := by
  unfold wait
  cases hq : w.memory.waiters[i]? with
  | none => exact .inl rfl
  | some q =>
    dsimp only
    have hleave : WaitMove w i (w.resume i .ended) := .leave hq
    split
    · exact .inl rfl
    · next hphase =>
      cases choice with
      | proceed =>
        unfold waitSelect
        dsimp only
        split_ifs with hdone
        · exact .inr (.proceed hq hphase hdone)
        · exact .inl rfl
      | timer => exact .inr (.timer hq hphase)
      | cancel => exact .inr hleave
    · next b hphase =>
      cases choice with
      | proceed =>
        unfold waitKilled
        dsimp only
        split_ifs with hdone
        · exact .inr (.killed hq hphase hdone)
        · exact .inl rfl
      | timer | cancel => exact .inr hleave
    · next hphase =>
      unfold waitFinish
      split
      · exact .inr hleave
      · next p hp =>
        split
        · exact .inr hleave
        · next code hcode => exact .inr (.finish hq hphase hp hcode)
    · next hphase =>
      split_ifs
      · exact .inr hleave
      · unfold waitKill
        split
        · next b p _ hfound =>
          by_cases hstatus : p.info.status ≠ .running
          · rw [if_pos hstatus]
            exact .inr (.unneeded hq hphase hfound hstatus)
          · rw [if_neg hstatus]
            exact .inr (.signal hq hphase hfound)
        · exact .inr hleave
    · next b hphase =>
      split_ifs
      · exact .inr hleave
      · exact .inr (.signalled hq hphase)
    · next r hphase =>
      split_ifs
      · exact .inr hleave
      · unfold waitRead
        rw [hphase]
        cases hdir : w.history.dirs.find? q.key with
        | none => exact .inr hleave
        | some dir =>
          dsimp only
          cases hout : dir.stdout with
          | none => exact .inr hleave
          | some bytes => exact .inr (.readStdout hq hphase hdir hout)
    · next r hphase =>
      split_ifs
      · exact .inr hleave
      · unfold waitRead
        rw [hphase]
        cases hdir : w.history.dirs.find? q.key with
        | none => exact .inr hleave
        | some dir =>
          dsimp only
          cases herr : dir.stderr with
          | none => exact .inr hleave
          | some bytes => exact .inr (.readStderr hq hphase hdir herr)
    · next r hphase =>
      unfold waitRead
      rw [hphase]
      exact .inr (.statStdout hq hphase)
    · next r hphase =>
      unfold waitRead
      rw [hphase]
      exact .inr (.deliver hq hphase)

/-- **Inversion of the background steps.** -/
theorem World.back_move (host : Host) (w : World) (b : Back) :
    BackMove host w b (w.back host b) := by
  cases b with
  | exit k code time =>
    by_cases hrun : w.containerd.execs.find? k = some .running
    · exact .exit hrun
    · simp only [back, exit, if_neg hrun]
      exact .idle
  | taskExit id codes time =>
    by_cases hrun : w.containerd.tasks.find? id = some .running
    · exact .taskExit hrun
    · simp only [back, taskExit, if_neg hrun]
      exact .idle
  | watch a now fault =>
    simp only [back]
    rcases w.watch_move a now fault with h | h
    · rw [h]; exact .idle
    · exact .watch h
  | wait i choice fault =>
    simp only [back]
    rcases w.wait_move i choice fault with h | h
    · rw [h]; exact .idle
    · exact .wait h
  | collect k step => exact .collect
  | drift k state =>
    cases state with
    | none => exact .vanish
    | some state => exact .drift
  | removeDirectory n =>
    simp only [back]
    split_ifs with huse
    · exact .idle
    · exact .removeDirectory (Bool.eq_false_iff.mpr huse)
  | charge n amount =>
    simp only [back]
    split_ifs with hthere
    · exact .charge hthere.1 hthere.2
    · exact .idle
  | discharge n =>
    simp only [back]
    split_ifs with hthere
    · exact .idle
    · exact .discharge hthere
  | traffic id inbound =>
    simp only [back]
    split
    · next hguest => exact .traffic hguest
    · exact .idle

end Inversion

end Sandcube.Adapter
