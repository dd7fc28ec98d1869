import Sandcube.Adapter.Infos

/-!
# Coherent process records

A record that is going has neither exit code nor completion time, one that exited has both, and one
that failed has only the time.  Two places break this (`Incident.revived`, `Incident.lateMissing`):
recovery takes up a process whose record has ended and keeps its completion time or its exit code,
and a watcher that noted an exit but could not save it keeps the code when the runtime's record is
gone at the next look.
-/

namespace Sandcube.Adapter

/-- Status, exit code and completion time fit together. -/
def ProcessInfo.Coherent (info : ProcessInfo) : Prop :=
  match info.status with
  | .starting | .running => info.exitCode = none ∧ info.completedAt = none
  | .exited => info.exitCode.isSome ∧ info.completedAt.isSome
  | .error => info.completedAt.isSome ∧ info.exitCode = none

instance (info : ProcessInfo) : Decidable info.Coherent := by
  unfold ProcessInfo.Coherent
  split <;> infer_instance

namespace ProcessInfo.Coherent

variable {info : ProcessInfo}

/-- A record that has not ended is empty. -/
theorem of_going (h : info.Coherent) (hgoing : ¬ info.Ended) :
    info.exitCode = none ∧ info.completedAt = none := by
  unfold Coherent at h
  unfold Ended at hgoing
  cases hstatus : info.status with
  | starting | running => rw [hstatus] at h; exact h
  | exited => exact absurd (.inl hstatus) hgoing
  | error => exact absurd (.inr hstatus) hgoing

/-- Without a completion time there is no exit code. -/
theorem exitCode_eq_none (h : info.Coherent) (hincomplete : info.completedAt = none) :
    info.exitCode = none := by
  refine (h.of_going ?_).1
  rintro (hstatus | hstatus)
  · simp [Coherent, hstatus, hincomplete] at h
  · simp [Coherent, hstatus, hincomplete] at h

theorem failedInfo (message : String) (now : Time) (h : info.exitCode = none) :
    (failedInfo message now info).Coherent := ⟨rfl, h⟩

theorem running (error : String) (h : info.exitCode = none) (h' : info.completedAt = none) :
    Coherent { info with status := .running, error := error } := ⟨h, h'⟩

end ProcessInfo.Coherent

variable {host : Host} {w w' : World} {info : ProcessInfo}

/-- Neither of the two incidents happened to the process. -/
structure Unbroken (k : Key) (w : World) : Prop where
  revived : .revived k ∉ w.trace.incidents
  lateMissing : .lateMissing k ∉ w.trace.incidents

theorem eq_none_of_isSome_imp {α : Type} {o : Option α} {P : Prop} (h : o.isSome → P)
    (hnot : ¬ P) : o = none := by
  cases o with
  | none => rfl
  | some a => exact absurd (h rfl) hnot

/-- One change keeps records coherent. -/
theorem Rewrite.coherent (h : Rewrite host w w' info)
    (hw : ∀ info, w.Knows info → Unbroken info.key w' → info.Coherent)
    (hunbroken : Unbroken info.key w') : info.Coherent := by
  have hbefore : ∀ {a p}, w.object? a = some p → p.info.key = info.key → p.info.Coherent :=
    fun hp hkey => hw _ (.of_object hp) (hkey ▸ hunbroken)
  cases h with
  | new id req pid now requested => exact ⟨rfl, rfl⟩
  | timedOut obj => exact hbefore obj rfl
  | lost now obj late =>
    exact .failedInfo _ _ (eq_none_of_isSome_imp late hunbroken.lateMissing)
  | exited complete code time obj => exact ⟨rfl, rfl⟩
  | failed message now obj revived =>
    exact .failedInfo _ _ (eq_none_of_isSome_imp revived hunbroken.revived)
  | missing message now obj going => exact .failedInfo _ _ ((hbefore obj rfl).of_going going).1
  | running error obj exitless incomplete => exact .running _ exitless incomplete
  | resumed obj revived =>
    have hincomplete := eq_none_of_isSome_imp revived hunbroken.revived
    exact .running _ ((hbefore obj rfl).exitCode_eq_none hincomplete) hincomplete

/-- **Records are coherent.**  In every reachable state every content of a record, in memory or on
disk, is coherent, unless recovery took up the process after its record had ended, or its runtime
record went missing after its exit was noted. -/
theorem records_coherent {S : Setting} (hw : Reachable S w) :
    (∀ a p, w.object? a = some p → Unbroken p.info.key w → p.info.Coherent) ∧
      ∀ k info, w.history.record? k = some info → Unbroken info.key w → info.Coherent := by
  suffices hall : ∀ info, w.Knows info → Unbroken info.key w → info.Coherent from
    ⟨fun a p hp => hall _ (.of_object hp), fun k info hk => hall info (.inr ⟨k, hk⟩)⟩
  refine hw.induct (I := fun w => ∀ info, w.Knows info → Unbroken info.key w → info.Coherent)
    ?_ ?_ ?_
  · rintro w h info (⟨a, p, hp, -⟩ | ⟨k, hk⟩)
    · rw [World.object?, h.memory] at hp
      cases hp
    · rw [h.history] at hk
      cases hk
  · rintro w h info (⟨a, p, hp, -⟩ | hrecord)
    · cases hp
    · exact fun hunbroken => h info (.inr hrecord) ⟨hunbroken.revived, hunbroken.lateMissing⟩
  · intro w w' h hm info hinfo hunbroken
    have hbefore : ∀ k, Unbroken k w' → Unbroken k w := fun k hk =>
      ⟨fun hi => hk.revived (hm.trace_mono.1 _ hi), fun hi => hk.lateMissing (hm.trace_mono.1 _ hi)⟩
    rcases hm.knows hinfo with hold | hnew
    · exact h info hold (hbefore _ hunbroken)
    · exact hnew.coherent (fun info' hinfo' hk => h info' hinfo' (hbefore _ hk)) hunbroken

/-- The record of a process that was started. -/
theorem records_coherent_launched :
    ∃ p, (runFrom .plain launchedActs).object? 0 = some p ∧ p.info.Coherent := by
  have hreach : Reachable (.of .plain (fun _ => true) fun _ => true)
      (runFrom .plain launchedActs) :=
    reachable_run (by decide +kernel)
  have hcalm : (runFrom .plain launchedActs).trace.incidents = [] := by decide +kernel
  have hsome : ((runFrom .plain launchedActs).object? 0).isSome := by decide +kernel
  obtain ⟨p, hp⟩ := Option.isSome_iff_exists.mp hsome
  refine ⟨p, hp, (records_coherent hreach).1 0 p hp ⟨?_, ?_⟩⟩
  · rw [hcalm]; exact List.not_mem_nil
  · rw [hcalm]; exact List.not_mem_nil

/-- A step that fails, with or without its effect. -/
def failing (late : Bool) : Fate Env := .go ⟨[], some ⟨late, "unavailable"⟩, 0⟩

/-- `proc.Start` fails after its effect, the cleanup fails, and the adapter is started again: the
process runs, its record had ended. -/
def revivedActs : List Act :=
  startedActs ++
    [.request (.startProcess "sbx_a" sampleRequest samplePid)
        (List.replicate 14 (.go default) ++ [failing true, failing false, failing false]),
      .crash, .boot 1 []]

/-- The task exits, the watcher notes the exit of the process but cannot save it, and `Start`
deletes the task before the watcher looks again. -/
def lateMissingActs : List Act :=
  launchedActs ++
    [.back (.taskExit "sbx_a" (fun _ => 7) none), .back (.watch 0 0 none),
      .back (.watch 0 0 (some ⟨false, "no space left on device"⟩)), .request (.start "sbx_a") [],
      .back (.watch 0 0 none), .back (.watch 0 0 none)]

/-- **Records that are not coherent.**  A running process has a completion time, in memory and on
disk; a failed one has an exit code. -/
theorem incoherent_records :
    (Reachable (.of .plain (fun _ => true) fun _ => true) (runFrom .plain revivedActs) ∧
      ((runFrom .plain revivedActs).history.record? ("sbx_a", samplePid)).map
        (fun info => (info.status, info.exitCode, info.completedAt)) =
          some (.running, none, some 0)) ∧
    Reachable (.of .plain (fun _ => true) fun _ => true) (runFrom .plain lateMissingActs) ∧
      ((runFrom .plain lateMissingActs).history.record? ("sbx_a", samplePid)).map
        (fun info => (info.status, info.exitCode, info.completedAt)) =
          some (.error, some 7, some 0) := by
  have hruns : ∀ acts ∈ [revivedActs, lateMissingActs],
      allowedRun .plain (fun _ => true) (fun _ => true) .pristine acts = true := by
    decide +kernel
  refine ⟨⟨reachable_run (hruns _ (by simp)), ?_⟩, reachable_run (hruns _ (by simp)), ?_⟩
  · decide +kernel
  · decide +kernel

end Sandcube.Adapter
