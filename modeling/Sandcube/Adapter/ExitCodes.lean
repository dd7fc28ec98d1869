import Sandcube.Adapter.BookMoves

/-!
# Exit codes are kept

The books of a sandbox that is not deleted are in order in every reachable state
(`Reachable.accounts`), what is written in them stays written (`Setting.Later.stays`), and what
`lookupProcess` finds is what is written (`Reports.lookup`).
-/

namespace Sandcube.Adapter

variable {host : Host} {May : Back → Prop} {scope : Scope} {id : String} {w w' : World}
variable {pid : String} {code : UInt32}

/-! ### Runs -/

theorem Books.of_empty (hobject : ∀ a, w.object? a = none)
    (hdir : ∀ pid, ¬ w.HasDir (id, pid)) (hexec : ∀ pid, (w.slot (id, pid)).exec = none)
    (htrace : w.trace = .empty) : Books id w := by
  have hunsaved : ∀ pid info, (w.slot (id, pid)).record ≠ some info := by
    intro pid info hrecord
    have hrecorded : w.Recorded (id, pid) := Option.isSome_of_eq_some hrecord
    exact hdir pid hrecorded.hasDir
  refine ⟨⟨fun pid h => absurd h (hdir pid), fun a p hp => ?_, fun pid h => ?_⟩, fun pid => ?_,
    fun a p hp => ?_⟩
  · rw [hobject] at hp
    cases hp
  · have h : (w.slot (id, pid)).exec.isSome := h
    rw [hexec] at h
    cases h
  · refine ⟨?_, fun code time h => ?_, fun info h => absurd h (hunsaved pid info), fun h => ?_⟩
    · unfold World.slot
      rw [htrace]
      rfl
    · rw [hexec] at h
      cases h
    · unfold World.slot at h
      rw [htrace] at h
      cases h
  · rw [hobject] at hp
    cases hp

/-- The adapter dies; disk and runtime stay. -/
theorem Books.die (h : Books id w) : Kept id w w.die := by
  refine ⟨⟨⟨h.lodging.home, fun a p hp => ?_, h.lodging.housed⟩, h.slots, fun a p hp => ?_⟩,
    fun _ => .refl _⟩
  · rw [World.object?_die] at hp
    cases hp
  · rw [World.object?_die] at hp
    cases hp

/-- What is true of a state in which no process was registered under an identifier of another
sandbox and the task of the sandbox always went after the exits were saved. -/
structure Accounts (id : String) (w : World) : Prop where
  rostered : Rostered w
  tenancy : w.Distinct → Tenancy w
  books : w.Distinct → .unsettled id ∉ w.trace.incidents → Books id w

section Runs

variable {S : Setting}

theorem Accounts.die (h : Accounts id w) : Accounts id w.die := by
  refine ⟨fun pid a ha => ?_, fun hd => (h.tenancy hd).die, fun hd hs => (h.books hd hs).die.books⟩
  cases ha

/-- What happened stays in the trace. -/
theorem Move.distinct_before (hm : Move host May scope w w') (h : w'.Distinct) : w.Distinct :=
  fun k hk => h k (hm.trace_mono.1 _ hk)

/-- One move of a run in which the sandbox is not deleted. -/
theorem Accounts.kept (hdrift : ∀ pid state, ¬ S.May (.drift (id, pid) state))
    (hdelete : ∀ polls, ¬ S.Accepts (.delete id polls)) (hadmits : S.Admits scope w)
    (hm : Move S.host S.May scope w w') (h : Accounts id w) (hd : w'.Distinct)
    (hs : .unsettled id ∉ w'.trace.incidents) : Kept id w w' := by
  have hd' := hm.distinct_before hd
  refine hm.kept (h.books hd' fun hi => hs (hm.trace_mono.1 _ hi)) (h.tenancy hd') h.rostered hdrift
    (fun herase => ?_) hadmits.serving hd hs
  obtain ⟨polls, haccepts⟩ := hadmits.erase id herase
  exact hdelete polls haccepts

theorem Accounts.move (hdrift : ∀ pid state, ¬ S.May (.drift (id, pid) state))
    (hdelete : ∀ polls, ¬ S.Accepts (.delete id polls)) (hadmits : S.Admits scope w)
    (hm : Move S.host S.May scope w w') (h : Accounts id w) : Accounts id w' :=
  ⟨h.rostered.step hm.persists hm.registry,
    fun hd => hm.tenancy (h.tenancy (hm.distinct_before hd)) hd,
    fun hd hs => (h.kept hdrift hdelete hadmits hm hd hs).books⟩

theorem Reachable.accounts (hdrift : ∀ pid state, ¬ S.May (.drift (id, pid) state))
    (hdelete : ∀ polls, ¬ S.Accepts (.delete id polls)) (hw : Reachable S w) : Accounts id w := by
  refine hw.induct_serving (fun w h => ?_) (fun w h => h.die) fun scope w w' hadmits h hm =>
    h.move hdrift hdelete hadmits hm
  have hw : Reachable S w := .init h
  refine ⟨hw.rostered, hw.tenancy, fun _ _ => .of_empty (fun a => ?_) (fun pid hdir => ?_)
    (fun pid => ?_) h.trace⟩
  · rw [World.object?, h.memory]
    rfl
  · rw [World.HasDir, h.history] at hdir
    cases hdir
  · rw [World.slot, h.execless]
    rfl

/-- What is written stays written. -/
theorem Setting.Later.stays (hdrift : ∀ pid state, ¬ S.May (.drift (id, pid) state))
    (hdelete : ∀ polls, ¬ S.Accepts (.delete id polls)) (hw : Reachable S w) (hlater : S.Later w w')
    (hd : w'.Distinct) (hs : .unsettled id ∉ w'.trace.incidents)
    (hcode : (w.slot (id, pid)).ExitedWith code) :
    Accounts id w' ∧ (w'.slot (id, pid)).ExitedWith code := by
  suffices hboth : Accounts id w' ∧ (w'.Distinct → .unsettled id ∉ w'.trace.incidents →
      (w'.slot (id, pid)).ExitedWith code) from ⟨hboth.1, hboth.2 hd hs⟩
  refine hlater.induct_serving (I := fun v => Accounts id v ∧ (v.Distinct →
    .unsettled id ∉ v.trace.incidents → (v.slot (id, pid)).ExitedWith code)) (fun v h => ?_)
    (fun scope v v' hadmits h hm => ?_) hw.standing ⟨hw.accounts hdrift hdelete, fun _ _ => hcode⟩
  · exact ⟨h.1.die, h.2⟩
  · refine ⟨h.1.move hdrift hdelete hadmits hm, fun hd hs => ?_⟩
    have hkept := h.1.kept hdrift hdelete hadmits hm hd hs
    exact hkept.stays pid code
      (h.2 (hm.distinct_before hd) fun hi => hs (hm.trace_mono.1 _ hi))

end Runs

/-! ### Looking -/

/-- A process whose exit is saved, in a state in which it can be looked up. -/
structure Reports (id pid : String) (code : UInt32) (w : World) : Prop where
  books : Books id w
  tenancy : Tenancy w
  rostered : Rostered w
  serving : w.memory.serving = true
  saved : (w.slot (id, pid)).ExitedWith code

/-- The record in memory has the exit code that is saved. -/
theorem Reports.lookup (h : Reports id pid code w) :
    ∃ a p, w.lookupProcess id pid = some (a, p) ∧ p.info.status = .exited ∧
      p.info.exitCode = some code := by
  obtain ⟨info, hrecord, -⟩ := h.saved
  have hrecorded : w.Recorded (id, pid) := Option.isSome_of_eq_some hrecord
  obtain ⟨a, p, hfound, hp, hkey⟩ := h.tenancy.found_record h.rostered h.serving hrecorded
  have hfits := h.books.objects a p hp (congrArg Prod.fst hkey)
  rw [hkey] at hfits
  have hstatus := hfits.holds.agrees h.saved.exited
  obtain ⟨code', hcode'⟩ := Option.isSome_iff_exists.mp (hfits.holds.backs.coded.mp hstatus)
  have hsame : some code' = some code :=
    (hfits.holds.backs.exit code' hcode').1.symm.trans
      ((h.books.slots pid).exit_of_exitedWith h.saved)
  exact ⟨a, p, hfound, hstatus, hcode'.trans hsame⟩

theorem steady_reports (hdrift : ∀ pid state, ¬ May (.drift (id, pid) state)) :
    Steady host May (Reports id pid code) := by
  intro w b hb h
  have hbeside : Beside host w (w.back host b) := .back b
  have hkept : Kept id w (w.back host b) := by
    refine (w.back_move host b).kept h.books fun pid state heq => hdrift pid state ?_
    rw [← heq]
    exact hb
  exact ⟨hkept.books, h.tenancy.ordinary hbeside.ordinary,
    h.rostered.step hbeside.persists (.same hbeside.registry), hbeside.serving.trans h.serving,
    hkept.stays pid code h.saved⟩

/-- `Process` reports the exit code. -/
theorem runs_process_reports (hdrift : ∀ pid state, ¬ May (.drift (id, pid) state)) :
    Runs host May scope (Reports id pid code) (process host id pid)
      (fun info _ => info.status = .exited ∧ info.exitCode = some code) unknown := by
  have hsteady : Steady host May (Reports id pid code) := steady_reports hdrift
  refine .bind (runs_ask hsteady fun _ _ hw _ => hw) fun _ => ?_
  refine .bind (K := fun found w => ∃ a p, found = some (a, p) ∧ p.info.status = .exited ∧
    p.info.exitCode = some code) (does_look (Move.isOpen scope) hsteady fun w hw => hw.lookup)
    fun found => ?_
  cases found with
  | none => exact .raise fun _ _ => trivial
  | some q =>
    refine .pure fun w hw => ?_
    obtain ⟨a, p, hq, hexit⟩ := hw
    rw [Option.some.inj hq]
    exact hexit

/-! ### The result -/

/-- **Exit codes are kept.**  In every run in which the sandbox is not deleted and its exec records
follow containerd's rules, for every process whose start succeeded the runtime holds its exec
record, or `process.json` has its exit code; and an exit code in `process.json` stays there and is
what every later lookup reports, after any number of restarts.  A crash can come between any two
steps and leaves disk and runtime as they are, so this holds at every moment.

Two things must not have happened: a process was registered under an identifier of another sandbox,
and the task of the sandbox was deleted before the exits of its processes were saved. -/
theorem exit_codes_kept {S : Setting} (hdrift : ∀ pid state, ¬ S.May (.drift (id, pid) state))
    (hdelete : ∀ polls, ¬ S.Accepts (.delete id polls)) (hw : Reachable S w)
    (hdistinct : w.Distinct) (hsettled : .unsettled id ∉ w.trace.incidents) :
    (∀ pid, (id, pid) ∈ w.trace.started →
      (w.containerd.execs.find? (id, pid)).isSome ∨
        ∃ info code, w.history.record? (id, pid) = some info ∧ info.status = .exited ∧
          info.exitCode = some code ∧ w.trace.exits (id, pid) = some code) ∧
    ∀ pid info code, w.history.record? (id, pid) = some info → info.status = .exited →
      info.exitCode = some code → ∀ w', S.Later w w' → w'.Distinct →
      .unsettled id ∉ w'.trace.incidents →
        (∃ info', w'.history.record? (id, pid) = some info' ∧ info'.status = .exited ∧
          info'.exitCode = some code) ∧
        (w'.memory.serving = true →
          (∃ a p, w'.lookupProcess id pid = some (a, p) ∧ p.info.status = .exited ∧
            p.info.exitCode = some code) ∧
          ∀ fates info', (within S.May).Allows fates →
            (process S.host id pid w' fates).outcome = .ok info' →
              info'.status = .exited ∧ info'.exitCode = some code) := by
  have hbooks := (hw.accounts hdrift hdelete).books hdistinct hsettled
  refine ⟨fun pid hstarted => ?_, fun pid info code hrecord hstatus hcode w' hlater hd hs => ?_⟩
  · have hok := hbooks.slots pid
    refine (hok.kept (decide_eq_true hstarted)).held.imp_right fun hexited => ?_
    obtain ⟨code, hsaved⟩ := hok.exitedWith hexited
    have hexit := hok.exit_of_exitedWith hsaved
    obtain ⟨info, hrecord, hstatus, hcode⟩ := hsaved
    exact ⟨info, code, hrecord, hstatus, hcode, hexit⟩
  · have hsaved : (w.slot (id, pid)).ExitedWith code := ⟨info, hrecord, hstatus, hcode⟩
    obtain ⟨haccounts, hstays⟩ := hlater.stays hdrift hdelete hw hd hs hsaved
    refine ⟨hstays, fun hserving => ?_⟩
    have hreports : Reports id pid code w' :=
      ⟨haccounts.books hd hs, haccounts.tenancy hd, haccounts.rostered, hserving, hstays⟩
    refine ⟨hreports.lookup, fun fates info' hfates houtcome => ?_⟩
    have hruns : Runs S.host S.May (fun _ _ => False) (Reports id pid code) (process S.host id pid)
        (fun info _ => info.status = .exited ∧ info.exitCode = some code) unknown :=
      runs_process_reports hdrift
    exact hruns.ok hfates hreports houtcome

/-- Background steps in which containerd follows its rules. -/
def lawful : Back → Bool
  | .drift _ _ => false
  | _ => true

/-- Requests that delete nothing. -/
def sparing : Request → Bool
  | .delete _ _ => false
  | _ => true

/-- A process that exits, and the watcher that saves the exit. -/
def savedActs : List Act :=
  launchedActs ++
    [.back (.exit ("sbx_a", samplePid) 7 none), .back (.collect ("sbx_a", samplePid) .finish),
      .back (.watch 0 1000 none), .back (.watch 0 2000 none)]

/-- A restart. -/
def restartActs : List Act := [.crash, .boot 1 []]

theorem exit_codes_kept_restart :
    ∃ a p, (Transition.run (next .plain) (runFrom .plain savedActs) restartActs).lookupProcess
        "sbx_a" samplePid = some (a, p) ∧ p.info.status = .exited ∧ p.info.exitCode = some 7 := by
  have hreach : Reachable (.of .plain lawful sparing) (runFrom .plain savedActs) :=
    reachable_run (by decide +kernel)
  have hlater : (Setting.of .plain lawful sparing).Later (runFrom .plain savedActs)
      (Transition.run (next .plain) (runFrom .plain savedActs) restartActs) :=
    Transition.Later.run (admissible_of_allowedRun (by decide +kernel))
  have hcalm : (runFrom .plain savedActs).trace.incidents = [] ∧
      (Transition.run (next .plain) (runFrom .plain savedActs) restartActs).trace.incidents = [] ∧
      (Transition.run (next .plain) (runFrom .plain savedActs) restartActs).memory.serving =
        true := by
    decide +kernel
  have hsaved : (((runFrom .plain savedActs).history.record? ("sbx_a", samplePid)).any fun info =>
      info.status = .exited ∧ info.exitCode = some 7) = true := by
    decide +kernel
  obtain ⟨info, hrecord, hinfo⟩ := (Option.any_eq_true _ _).mp hsaved
  have hinfo := of_decide_eq_true hinfo
  obtain ⟨hbefore, hafter, hserving⟩ := hcalm
  have hnothing : ∀ {w : World}, w.trace.incidents = [] → ∀ i, i ∉ w.trace.incidents := by
    intro w hw i
    rw [hw]
    exact List.not_mem_nil
  have hdrift : ∀ pid state,
      ¬ (Setting.of .plain lawful sparing).May (.drift ("sbx_a", pid) state) := by
    intro pid state h
    cases h
  have hdelete : ∀ polls, ¬ (Setting.of .plain lawful sparing).Accepts (.delete "sbx_a" polls) := by
    intro polls h
    cases h
  have hkept := (exit_codes_kept hdrift hdelete hreach (fun _ => hnothing hbefore _)
    (hnothing hbefore _)).2
  exact ((hkept samplePid info 7 hrecord hinfo.1 hinfo.2 _ hlater (fun _ => hnothing hafter _)
    (hnothing hafter _)).2 hserving).1

/-- The process exits with its sandbox, which is started again before the watcher has looked. -/
def lostActs : List Act :=
  launchedActs ++ [.back (.taskExit "sbx_a" (fun _ => 7) none), .request (.start "sbx_a") []]

/-- **A lost exit code.**  `Start` deletes the task that has stopped, and the exec record with it.
`process.json` does not have the exit code, and the watcher then saves that there is none. -/
theorem exit_code_lost :
    Reachable (.of .plain lawful sparing) (runFrom .plain lostActs) ∧
    ("sbx_a", samplePid) ∈ (runFrom .plain lostActs).trace.started ∧
    (runFrom .plain lostActs).trace.exits ("sbx_a", samplePid) = some 7 ∧
    (runFrom .plain lostActs).containerd.execs.find? ("sbx_a", samplePid) = none ∧
    ((runFrom .plain lostActs).history.record? ("sbx_a", samplePid)).map ProcessInfo.status =
      some .running ∧
    ((runFrom .plain (lostActs ++ [.back (.watch 0 1000 none),
      .back (.watch 0 2000 none)])).history.record? ("sbx_a", samplePid)).map
        (fun info => (info.status, info.exitCode)) = some (.error, none) := by
  refine ⟨reachable_run (by decide +kernel), ?_⟩
  decide +kernel

/-- The timer of an exec fires between the save of the exit and the end of the watcher; after a
restart the request is made again. -/
def replayActs : List Act :=
  startedActs ++
    [.request (.exec "sbx_a" sampleRequest samplePid) [],
      .back (.collect ("sbx_a", samplePid) .start), .back (.exit ("sbx_a", samplePid) 7 none),
      .back (.collect ("sbx_a", samplePid) .finish), .back (.watch 0 29900 none),
      .back (.watch 0 29950 none), .back (.wait 0 .timer none)] ++
    List.replicate 6 (.back (.wait 0 .proceed none)) ++ restartActs ++
    [.request (.exec "sbx_a" sampleRequest "proc_11111111111111111111111111111111") []] ++
    List.replicate 6 (.back (.wait 0 .proceed none))

/-- **A timeout is not kept.**  The timer sets it in memory after the exit was saved.  The first
answer says that the exec timed out, and the answer after the restart, with the same exit code,
that it did not. -/
theorem exec_replay_disagrees :
    Reachable (.of .plain lawful sparing) (runFrom .plain replayActs) ∧
    (runFrom .plain replayActs).trace.results.map (fun r => (r.1, r.2.exitCode, r.2.timedOut)) =
      [(("sbx_a", samplePid), 7, false), (("sbx_a", samplePid), 7, true)] := by
  refine ⟨reachable_run (by decide +kernel), ?_⟩
  decide +kernel

end Sandcube.Adapter
