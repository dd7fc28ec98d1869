import Sandcube.Adapter.System

/-!
# What records say

The content of a process record is in memory and on disk, and eight places change it.  `Rewrite`
lists the changes with what is known where each is made; `Move.knows` says that there are no others.
Whatever is to hold of every record is proved by cases over `Rewrite`.
-/

namespace Sandcube.Adapter

variable {host : Host} {May : Back → Prop} {scope : Scope} {id : String} {w w' : World} {a : ℕ}
  {info : ProcessInfo}
variable {f : Tracked → Tracked} {stage : Stage} {k : Key} {info₀ : ProcessInfo}

/-- A content that the adapter has, in memory or on disk. -/
def World.Knows (w : World) (info : ProcessInfo) : Prop :=
  (∃ a p, w.object? a = some p ∧ p.info = info) ∨ ∃ k, w.history.record? k = some info

/-- The contents that a step makes out of those before it. -/
inductive Rewrite (host : Host) (w w' : World) : ProcessInfo → Prop
  | new (id : String) (req : ExecRequest) (pid : String) (now : Time)
      (requested : ((id, pid), req) ∈ w'.trace.requests) :
      Rewrite host w w' (World.newInfo host id req pid now)
  | timedOut {a : ℕ} {p : Tracked} (obj : w.object? a = some p) :
      Rewrite host w w' { p.info with timedOut := true }
  /-- The watcher found the runtime's record missing. -/
  | lost {a : ℕ} {p : Tracked} (now : Time) (obj : w.object? a = some p)
      (late : p.info.exitCode.isSome → .lateMissing p.info.key ∈ w'.trace.incidents) :
      Rewrite host w w' (World.lost p.info now)
  | exited {a : ℕ} {p : Tracked} (complete : Bool) (code : UInt32) (time : Time)
      (obj : w.object? a = some p) : Rewrite host w w' (World.exited p.info complete code time)
  /-- A start failed, or recovery found that it never happened. -/
  | failed {a : ℕ} {p : Tracked} (message : String) (now : Time) (obj : w.object? a = some p)
      (revived : p.info.exitCode.isSome → .revived p.info.key ∈ w'.trace.incidents) :
      Rewrite host w w' (failedInfo message now p.info)
  /-- Recovery found a process that was going missing. -/
  | missing {a : ℕ} {p : Tracked} (message : String) (now : Time) (obj : w.object? a = some p)
      (going : ¬ p.info.Ended) : Rewrite host w w' (failedInfo message now p.info)
  | running {a : ℕ} {p : Tracked} (error : String) (obj : w.object? a = some p)
      (exitless : p.info.exitCode = none) (incomplete : p.info.completedAt = none) :
      Rewrite host w w' { p.info with status := .running, error := error }
  | resumed {a : ℕ} {p : Tracked} (obj : w.object? a = some p)
      (revived : p.info.completedAt.isSome → .revived p.info.key ∈ w'.trace.incidents) :
      Rewrite host w w' { p.info with status := .running, error := "" }

/-! ### Primitive changes -/

section Primitives

theorem World.trace_enter (w : World) (a : ℕ) (stage : Stage) : (w.enter a stage).trace = w.trace :=
  rfl

theorem World.Knows.of_object {p : Tracked} (h : w.object? a = some p) : w.Knows p.info :=
  .inl ⟨a, p, h, rfl⟩

theorem World.Knows.congr (h : w'.Knows info) (hheap : w'.memory.heap = w.memory.heap)
    (hdirs : w'.history.dirs = w.history.dirs) : w.Knows info := by
  unfold World.Knows World.object? History.record? at h ⊢
  rw [hheap, hdirs] at h
  exact h

theorem World.Knows.before_setObject (h : (w.setObject a f).Knows info) :
    w.Knows info ∨ ∃ p, w.object? a = some p ∧ info = (f p).info := by
  rcases h with ⟨b, p, hp, rfl⟩ | hrecord
  · rw [object?_setObject] at hp
    split_ifs at hp with hb
    · subst hb
      obtain ⟨p₀, hp₀, rfl⟩ := Option.map_eq_some_iff.mp hp
      exact .inr ⟨p₀, hp₀, rfl⟩
    · exact .inl (.of_object hp)
  · exact .inl (.inr hrecord)

/-- A change of an object that keeps its content. -/
theorem World.Knows.before_keep (h : (w.setObject a f).Knows info) (hf : ∀ p, (f p).info = p.info) :
    w.Knows info := by
  rcases h.before_setObject with h | ⟨p, hp, rfl⟩
  · exact h
  · rw [hf]; exact .of_object hp

theorem World.Knows.before_enter (h : (w.enter a stage).Knows info) : w.Knows info :=
  World.Knows.before_keep (f := fun p => { p with stage := stage }) h fun _ => rfl

theorem World.Knows.before_setDir {f : Dir → Dir} (h : (w.setDir k f).Knows info)
    (hf : ∀ dir, (f dir).record = dir.record) : w.Knows info := by
  rcases h with hobject | ⟨k', hrecord⟩
  · exact .inl hobject
  · rw [record?_setDir w k k' hf] at hrecord
    exact .inr ⟨k', hrecord⟩

theorem World.Knows.before_store {fault : Option Fault} (h : (w.store a info₀ fault).2.Knows info) :
    w.Knows info ∨ info = info₀ := by
  have hset : ∀ {info}, (w.setObject a fun p => { p with info := info₀ }).Knows info →
      w.Knows info ∨ info = info₀ := by
    intro info h
    rcases h.before_setObject with h | ⟨p, -, rfl⟩
    · exact .inl h
    · exact .inr rfl
  unfold World.store at h
  rcases World.saveProcess_cases (w.setObject a fun p => { p with info := info₀ }) info₀ fault
    with hsave | hsave
  · rw [hsave] at h
    exact hset h
  · rw [hsave] at h
    rcases h with hobject | ⟨k, hrecord⟩
    · exact hset (.inl hobject)
    · rw [record?_saved] at hrecord
      split_ifs at hrecord
      · obtain ⟨_, -, rfl⟩ := Option.map_eq_some_iff.mp hrecord
        exact .inr rfl
      · exact .inl (.inr ⟨k, hrecord⟩)

theorem World.Knows.before_enroll (h : (w.enroll info₀ stage).Knows info) :
    w.Knows info ∨ info = info₀ := by
  rcases h with ⟨b, p, hp, rfl⟩ | hrecord
  · rw [object?_enroll] at hp
    split_ifs at hp
    · rw [← Option.some.inj hp]
      exact .inr rfl
    · exact .inl (.of_object hp)
  · exact .inl (.inr hrecord)

theorem World.Knows.before_eraseDir (h : (w.eraseDir k).Knows info) : w.Knows info := by
  rcases h with hobject | ⟨k', hrecord⟩
  · exact .inl hobject
  · refine .inr ⟨k', ?_⟩
    unfold World.eraseDir History.record? at hrecord
    obtain ⟨dir, hdir, hrecord⟩ := Option.bind_eq_some_iff.mp hrecord
    exact Option.bind_eq_some_iff.mpr ⟨dir, Table.find?_of_find?_erase hdir, hrecord⟩

theorem World.Knows.before_makeDir (h : (w.makeDir k).Knows info) : w.Knows info := by
  rcases h with hobject | ⟨k', hrecord⟩
  · exact .inl hobject
  · refine .inr ⟨k', ?_⟩
    unfold World.makeDir History.record? at hrecord
    dsimp only at hrecord
    split at hrecord
    · exact hrecord
    · rw [Table.find?_put] at hrecord
      split_ifs at hrecord
      · cases hrecord
      · exact hrecord

theorem World.Knows.before_deleteExec (h : (w.deleteExec k).2.Knows info) : w.Knows info := by
  rcases deleteExec_cases w k with hsame | herase
  · rwa [hsame] at h
  · rw [herase] at h; exact h

theorem World.Knows.before_meet {state : ExecState} (h : (World.meet a info₀ state w).Knows info) :
    w.Knows info := by
  have hnote : ∀ {v : World} {c : Prop} [Decidable c] {i : Incident},
      (if c then v.note i else v).Knows info → v.Knows info := by
    intro v c _ i h
    split_ifs at h
    · exact h.congr rfl rfl
    · exact h
  cases state with
  | created | running => exact hnote (hnote h.before_enter)
  | stopped code time => exact hnote h.before_enter

theorem Collect.apply_record (step : Collect) (dir : Dir) :
    (World.Collect.apply step dir).record = dir.record := by
  unfold World.Collect.apply
  by_cases hcollecting : dir.collecting = true
  · rw [if_pos hcollecting]
    cases step with
    | start | finish | die => rfl
    | write stderr bytes =>
      cases stderr with
      | false | true => dsimp only; split <;> rfl
  · rw [if_neg hcollecting]

end Primitives

/-! ### Moves -/

theorem WatchMove.knows (move : WatchMove w a w') (h : w'.Knows info) :
    w.Knows info ∨ Rewrite host w w' info := by
  have hnote : ∀ (c : Prop) [Decidable c] (i : Incident),
      (if c then w.note i else w).memory.heap = w.memory.heap ∧
        (if c then w.note i else w).history.dirs = w.history.dirs := by
    intro c _ i
    split_ifs <;> exact ⟨rfl, rfl⟩
  cases move with
  | missing | stopped | resume => exact .inl h.before_enter
  | late obj =>
    rcases h.before_enter.before_setObject with h | ⟨p', hp', rfl⟩
    · exact .inl h
    · exact .inr (.timedOut hp')
  | lose now fault obj stage =>
    rename_i p
    unfold World.conclude at h ⊢
    rcases h.before_enter.before_store with h | rfl
    · exact .inl (h.congr (hnote _ _).1 (hnote _ _).2)
    · refine .inr (.lost now obj fun hexit => ?_)
      rw [World.trace_enter, World.trace_store, if_pos hexit]
      exact List.mem_cons_self
  | save now fault obj stage =>
    unfold World.conclude at h
    rcases h.before_enter.before_store with h | rfl
    · exact .inl (h.congr (hnote _ _).1 (hnote _ _).2)
    · exact .inr (.exited _ _ _ obj)
  | close gone obj stage =>
    have h := h.before_enter
    split at h
    · exact .inl h.before_deleteExec
    · exact .inl h

theorem WaitMove.knows {i : ℕ} (move : WaitMove w i w') (h : w'.Knows info) :
    w.Knows info ∨ Rewrite host w w' info := by
  cases move with
  | proceed | leave | signal | signalled | killed | finish | readStdout | readStderr | statStdout
  | deliver => exact .inl (h.congr rfl rfl)
  | timer waiter phase =>
    rename_i q
    have h : (World.setObject (if w.inTime q.object then w.note (.overdue q.key) else w) q.object
        fun p => { p with info := { p.info with timedOut := true } }).Knows info := h
    rcases h.before_setObject with h | ⟨p, hp, rfl⟩
    · exact .inl (h.congr (by split_ifs <;> rfl) (by split_ifs <;> rfl))
    · refine .inr (.timedOut (a := q.object) ?_)
      split_ifs at hp
      · exact hp
      · exact hp
  | unneeded waiter phase found ended =>
    exact .inl (h.congr (by split_ifs <;> rfl) (by split_ifs <;> rfl))

theorem BackMove.knows {b : Back} (move : BackMove host w b w') (h : w'.Knows info) :
    w.Knows info ∨ Rewrite host w w' info := by
  cases move with
  | idle | vanish | drift | removeDirectory | charge | discharge | traffic =>
    exact .inl (h.congr rfl rfl)
  | exit running =>
    rw [World.exit, if_pos running] at h
    exact .inl (h.congr rfl rfl)
  | taskExit running =>
    rw [World.taskExit, if_pos running] at h
    exact .inl (h.congr rfl rfl)
  | watch move | wait move => exact move.knows h
  | collect => exact .inl (h.before_setDir (Collect.apply_record _))

theorem RegisterMove.knows {pid : String} (move : RegisterMove host w id pid w')
    (h : w'.Knows info) : w.Knows info ∨ Rewrite host w w' info := by
  cases move with
  | register req now rest serving managed valid free =>
    rcases World.Knows.before_enroll (w := if w.taken id _ then w.note (.collision (id, _)) else w)
      (h.congr rfl rfl) with h | rfl
    · exact .inl (h.congr (by split_ifs <;> rfl) (by split_ifs <;> rfl))
    · exact .inr (.new _ _ _ _ List.mem_cons_self)

theorem StartMove.knows (move : StartMove host w id w') (h : w'.Knows info) :
    w.Knows info ∨ Rewrite host w w' info := by
  cases move with
  | makeDir => exact .inl h.before_makeDir
  | saveStarting fault obj =>
    rcases h.before_store with h | rfl
    · exact .inl h
    · exact .inl (.of_object obj)
  | mkfifo obj mine stage first recorded =>
    rcases mkfifo_cases w _ _ _ with ⟨e, he⟩ | ⟨dir, -, -, hok⟩
    · rw [he] at h; exact .inl h
    · rw [hok] at h
      exact .inl (h.before_enter.before_setDir fun _ => rfl)
  | collect => exact .inl (h.before_setDir fun _ => rfl)
  | createExec =>
    have hframe := createExec_frame w
    exact .inl (h.congr (by rw [(hframe _).1]) (by rw [(hframe _).2.1]))
  | adopt => exact .inl (h.before_keep fun _ => rfl)
  | invoke => exact .inl (World.Knows.before_enter (h.congr rfl rfl))
  | launch | discard | wait => exact .inl (h.congr rfl rfl)
  | succeed => exact .inl (World.Knows.congr (World.Knows.before_enter (h.congr rfl rfl)) rfl rfl)
  | abort now fault obj mine stage unbegun managed exitless =>
    rcases h.before_store with h | rfl
    · exact .inl h
    · exact .inr (.failed _ _ obj fun hexit => by rw [exitless] at hexit; cases hexit)
  | close => exact .inl h.before_enter
  | saveRunning fault obj mine stage managed exitless incomplete =>
    rcases h.before_store with h | rfl
    · exact .inl h
    · exact .inr (.running _ obj exitless incomplete)
  | watch => exact .inl h.before_enter

theorem BootMove.knows (move : BootMove host w id w') (h : w'.Knows info) :
    w.Knows info ∨ Rewrite host w w' info := by
  cases move with
  | sweepDir => exact .inl h.before_eraseDir
  | enroll rest mine down valid recorded new =>
    rcases h.before_enroll with h | rfl
    · exact .inl h
    · exact .inl (.inr ⟨_, recorded⟩)
  | miss | close | rewatch => exact .inl h.before_enter
  | adopt => exact .inl (h.before_keep fun _ => rfl)
  | meet state obj mine stage found => exact .inl h.before_meet
  | lose now fault obj mine stage going =>
    rcases h.before_store with h | rfl
    · exact .inl h
    · exact .inr (.missing _ _ obj going)
  | interrupt now fault obj mine stage revived undead =>
    rcases h.before_store with h | rfl
    · exact .inl h
    · refine .inr (.failed _ _ obj fun hexit => ?_)
      rw [World.trace_store]
      exact revived hexit
  | resume fault obj mine stage revived undead =>
    rcases h.before_store with h | rfl
    · exact .inl h
    · refine .inr (.resumed obj fun hcompleted => ?_)
      rw [World.trace_store]
      exact revived hcompleted
  | dropInterrupted | dropEnded => exact .inl h.before_deleteExec
  | serve => exact .inl (h.congr rfl rfl)

/-! ### What is never forgotten -/

theorem World.trace_register (host : Host) (w : World) (id : String) (req : ExecRequest) (pid : String)
    (now : Time) :
    (∀ i ∈ w.trace.incidents, i ∈ (World.register host id req pid now w).trace.incidents) ∧
      (World.register host id req pid now w).trace.requests =
        ((id, pid), req) :: w.trace.requests := by
  unfold World.register
  dsimp only
  split_ifs
  · exact ⟨fun i hi => List.mem_cons_of_mem _ hi, rfl⟩
  · exact ⟨fun i hi => hi, rfl⟩

/-- Incidents and requests stay on record. -/
theorem Move.trace_mono (hm : Move host May scope w w') :
    (∀ i ∈ w.trace.incidents, i ∈ w'.trace.incidents) ∧
      ∀ r ∈ w.trace.requests, r ∈ w'.trace.requests := by
  have hsame : ∀ {v : World}, v.trace = w.trace →
      (∀ i ∈ w.trace.incidents, i ∈ v.trace.incidents) ∧
        ∀ r ∈ w.trace.requests, r ∈ v.trace.requests := by
    intro v hv
    rw [hv]
    exact ⟨fun _ hi => hi, fun _ hr => hr⟩
  have htouches : ∀ {a k} {v : World}, Touches a k w v →
      (∀ i ∈ w.trace.incidents, i ∈ v.trace.incidents) ∧
        ∀ r ∈ w.trace.requests, r ∈ v.trace.requests :=
    fun ht => ⟨ht.incidents, fun r hr => ht.requests ▸ hr⟩
  cases hm with
  | back may =>
    rename_i b
    have hbeside : Beside host w (w.back host b) := .back b
    exact ⟨hbeside.incidents, fun r hr => by rw [hbeside.requests]; exact hr⟩
  | net inScope move => exact hsame rfl
  | quota inScope move =>
    obtain ⟨_, _, _, _, rfl⟩ := move.frame
    exact hsame rfl
  | erase inScope move =>
    obtain ⟨-, -, -, rfl⟩ := move.inv
    exact ⟨fun _ hi => hi, fun _ hr => hr⟩
  | task inScope move =>
    obtain ⟨_, _, _, hincidents, rfl⟩ := move.frame
    exact ⟨fun _ hi => hincidents hi, fun _ hr => hr⟩
  | register inScope move =>
    cases move with
    | register req now =>
      obtain ⟨hincidents, hrequests⟩ := World.trace_register host w _ req _ now
      exact ⟨hincidents, fun r hr => by rw [hrequests]; exact List.mem_cons_of_mem _ hr⟩
  | start inScope move =>
    obtain ⟨a, p, q, -, hwork⟩ := move.work
    exact htouches hwork.touches
  | forget inScope move =>
    cases move with
    | eraseDir | eraseHome | unregister => exact hsame rfl
    | cleanup obj => exact htouches (Work.deleteExec obj).touches
  | boot inScope move =>
    rcases move.work with ⟨a, p, q, -, hwork⟩ | ⟨pid, -, -, rfl⟩ | ⟨info, -, -, -, -, -, rfl⟩ |
      ⟨-, -, rfl⟩
    · exact htouches hwork.touches
    · exact hsame rfl
    · exact hsame rfl
    · exact hsame rfl

/-! ### All moves -/

/-- **The changes of records.**  A content after a move was there before it, or is one of the
contents that `Rewrite` lists. -/
theorem Move.knows (hm : Move host May scope w w') (h : w'.Knows info) :
    w.Knows info ∨ Rewrite host w w' info := by
  cases hm with
  | back may => exact (w.back_move host _).knows h
  | net inScope move | quota inScope move | erase inScope move | task inScope move =>
    exact .inl (h.congr (by rw [move.still.1]) (by rw [move.still.2]))
  | register inScope move | start inScope move => exact move.knows h
  | forget inScope move =>
    cases move with
    | eraseDir => exact .inl h.before_eraseDir
    | eraseHome | unregister => exact .inl (h.congr rfl rfl)
    | cleanup => exact .inl h.before_deleteExec
  | boot inScope move => exact move.knows h

end Sandcube.Adapter
