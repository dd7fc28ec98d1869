import Sandcube.Adapter.Calm
import Sandcube.Adapter.QuotaSafety

/-!
# Reclaiming a quota after a crash

`reclaimQuota` reads the quota of the project before it clears the limits.  A project with neither
limits nor charges is not known to the kernel, so the journal of a sandbox whose limits were not yet
set, or are cleared already, is never removed (`reclaimQuota_resumes_iff`).
-/

namespace Sandcube.Adapter

open Prog (Does)

variable {host : Host} {May : Back → Prop} {id : String} {r : QuotaRecord} {w : World}

/-- The storage of the project is gone, and its journal is still there. -/
structure Abandoned (id : String) (r : QuotaRecord) (w : World) : Prop where
  claimed : w.quota.journals.find? id = some r
  gone : r.project ∉ w.quota.directories
  unused : w.quota.usage r.project = .zero

/-- The storage is gone, and the limits are such. -/
abbrev Left (id : String) (r : QuotaRecord) (limits : Amount → Prop) (w : World) : Prop :=
  Abandoned id r w ∧ limits (w.quota.limits r.project)

theorem steady_left {limits : Amount → Prop} : Steady host May (Left id r limits) := by
  refine .of_beside fun w w' h ⟨hw, hlimits⟩ => ⟨⟨?_, ?_, h.usage _ hw.gone hw.unused⟩, ?_⟩
  · rw [h.journals]; exact hw.claimed
  · exact fun hp => hw.gone (h.directory _ hp)
  · rw [h.limits]; exact hlimits

theorem Abandoned.cleanup (h : Abandoned id r w) :
    Abandoned id r (w.withQuota fun q =>
      { q with directories := q.directories.filter (World.inUse w.containerd) }) :=
  ⟨h.claimed, fun hp => h.gone (List.mem_of_mem_filter hp), h.unused⟩

/-- What `reclaimQuota` does up to its first look at the storage. -/
theorem does_reclaimQuota {limits : Amount → Prop} {polls : ℕ} (hvalid : r.Valid id)
    {Q : Unit → World → Prop} {R : Err → World → Prop}
    (h : Does (calm May) (fun _ _ => True) (Left id r limits) (do
        awaitReclaimed host r.project (polls + 1)
        quotaEffect host (Quota.setLimits r.project .zero)
        quotaEffect host fun q => { q with journals := q.journals.erase id }) Q R) :
    Does (calm May) (fun _ _ => True) (Left id r limits) (reclaimQuota host id polls) Q R := by
  have hread : Completes May (Left id r limits)
      (query host fun w => .ok (w.quota.journals.find? id))
      (fun found w => found = some r ∧ Left id r limits w) :=
    completes_query steady_left fun w hw => ⟨_, rfl, hw.1.claimed, hw⟩
  refine .bind (hread.relax fun _ _ hw => hw.elim) fun found => ?_
  refine .assuming (fun _ hw => hw.1) fun hfound => ?_
  subst hfound
  dsimp only
  rw [if_pos hvalid]
  have hdevice : Completes May (Left id r limits) (quotaDevice host) (fun _ => Left id r limits) :=
    completes_query steady_left fun w hw => ⟨(), rfl, hw⟩
  have hcleanup : Completes May (Left id r limits)
      (effect host fun w => w.withQuota fun q =>
        { q with directories := q.directories.filter (World.inUse w.containerd) })
      (fun _ => Left id r limits) :=
    completes_effect steady_left fun w hw => ⟨hw.1.cleanup, hw.2⟩
  refine .bind (hdevice.conseq (fun _ hw => hw.2) (fun _ _ hw => hw) fun _ _ hw => hw.elim)
    fun _ => ?_
  exact .bind (hcleanup.relax fun _ _ hw => hw.elim) fun _ => h

/-- The first look: is the directory there? -/
theorem completes_look_directory {limits : Amount → Prop} :
    Completes May (Left id r limits)
      (query host fun w => .ok (decide (r.project ∈ w.quota.directories)))
      (fun there w => there = false ∧ Left id r limits w) :=
  completes_query steady_left fun _ hw => ⟨_, rfl, decide_eq_false hw.1.gone, hw⟩

/-- With limits the kernel knows the project: the journal is removed. -/
theorem completes_reclaimQuota (polls : ℕ) (hvalid : r.Valid id) :
    Completes May (Left id r (· ≠ .zero)) (reclaimQuota host id polls)
      (fun _ w => w.quota.journals.find? id = none) := by
  refine does_reclaimQuota hvalid ?_
  refine .bind (K := fun _ => Left id r (· ≠ .zero)) ?_ fun _ => ?_
  · refine .bind completes_look_directory fun there => ?_
    refine .assuming (fun _ hw => hw.1) fun hthere => ?_
    refine .bind (K := fun answer w => answer.2 = .zero ∧ Left id r (· ≠ .zero) w) ?_
      fun answer => ?_
    · have hget : Completes May (Left id r (· ≠ .zero))
          (query host fun w => w.quota.get r.project)
          (fun answer w => answer.2 = .zero ∧ Left id r (· ≠ .zero) w) := by
        refine completes_query steady_left fun w hw => ⟨_, if_neg fun hnone => hw.2 hnone.1, ?_, hw⟩
        exact hw.1.unused
      exact hget.pre fun _ hw => hw.2
    · refine .assuming (fun _ hw => hw.1) fun husage => ?_
      dsimp only
      rw [if_pos ⟨hthere, husage⟩]
      exact .pure fun _ hw => hw.2
  · refine .bind (K := fun _ _ => True) (completes_effect steady_left fun _ _ => trivial) fun _ => ?_
    exact completes_effect .trivial fun _ _ => Table.find?_erase_self _ _

/-- Without limits the kernel does not know the project: the journal stays. -/
theorem refused_reclaimQuota (polls : ℕ) (hvalid : r.Valid id) :
    Does (calm May) (fun _ _ => True) (Left id r (· = .zero)) (reclaimQuota host id polls)
      (fun _ _ => False) (fun e w => e = .other "no such file or directory" ∧ Abandoned id r w) := by
  refine does_reclaimQuota hvalid ?_
  refine .bind (K := fun _ _ => False) ?_ fun _ => .never fun _ hw => hw
  refine .bind (completes_look_directory.conseq (fun _ hw => hw)
    (fun _ _ hw => hw.2) fun _ _ hw => hw.elim) fun there => ?_
  refine .bind (K := fun _ _ => False) ?_ fun _ => .never fun _ hw => hw
  refine refused_query steady_left fun w hw => ⟨_, ?_, rfl, hw.1⟩
  exact if_pos ⟨hw.2, hw.1.unused⟩

/-- **When reclamation can be resumed.**  In a reachable state with a journal whose project has no
directory and no charges, a `reclaimQuota` in which no call fails returns and removes the journal if
and only if the project still has limits. -/
theorem reclaimQuota_resumes_iff {S : Setting} (hw : Reachable S w)
    (hr : w.quota.journals.find? id = some r) (hgone : r.project ∉ w.quota.directories)
    (hunused : w.quota.usage r.project = .zero) (polls : ℕ) {fates : List (Fate Env)}
    (hfates : (calm S.May).Allows fates) :
    ((reclaimQuota S.host id polls w fates).outcome = .ok () ∧
      (reclaimQuota S.host id polls w fates).state.quota.journals.find? id = none) ↔
    w.quota.limits r.project ≠ .zero := by
  have hvalid := (hw.owning.journal id r hr).1
  constructor
  · rintro ⟨hok, -⟩ hzero
    exact (refused_reclaimQuota polls hvalid).ok hfates ⟨⟨hr, hgone, hunused⟩, hzero⟩ hok
  · intro hlimits
    obtain ⟨_, hok, hremoved⟩ := (completes_reclaimQuota polls hvalid).returns hfates
      ⟨⟨hr, hgone, hunused⟩, hlimits⟩
    exact ⟨hok, hremoved⟩

/-- A sandbox whose `Delete` dies after so many of its steps. -/
def cutDelete (steps : ℕ) : List Act :=
  [.boot 1 [], .request (.create (sampleSpec "sbx_a") 1) [],
    .request (.delete "sbx_a" 1) (List.replicate steps (.go default) ++ [.crash])]

/-- A `Delete` that died when the directory was gone is resumed. -/
theorem reclaimQuota_resumes_iff_limited :
    (reclaimQuota .plain "sbx_a" 1 (runFrom .plain (cutDelete 12)) []).outcome = .ok () := by
  have hreach : Reachable (.of .plain (fun _ => true) fun _ => true)
      (runFrom .plain (cutDelete 12)) :=
    reachable_run (by decide +kernel)
  have hjournal : ((runFrom .plain (cutDelete 12)).quota.journals.find? "sbx_a").map
      QuotaRecord.project = some 1 := by
    decide +kernel
  have hstate : 1 ∉ (runFrom .plain (cutDelete 12)).quota.directories ∧
      (runFrom .plain (cutDelete 12)).quota.usage 1 = .zero ∧
      (runFrom .plain (cutDelete 12)).quota.limits 1 ≠ .zero := by
    decide +kernel
  obtain ⟨r, hr, hproject⟩ := Option.map_eq_some_iff.mp hjournal
  rw [← hproject] at hstate
  exact ((reclaimQuota_resumes_iff hreach hr hstate.1 hstate.2.1 1 (Adversary.allows_nil _)).mpr
    hstate.2.2).1

/-- A sandbox whose `Create` dies between the journal and the limits; the next start removes the
snapshot and fails. -/
def cutCreate : List Act :=
  [.boot 1 [], .request (.create (sampleSpec "sbx_a") 1) (List.replicate 10 (.go default) ++ [.crash]),
    .boot 1 []]

/-- After these steps the storage of the sandbox is gone and its journal is not, and both
`reclaimQuota` and the start of the adapter fail although no call of theirs is made to. -/
def StuckAfter (acts : List Act) : Prop :=
  ((runFrom .plain acts).quota.journals.find? "sbx_a").map QuotaRecord.project = some 1 ∧
    1 ∉ (runFrom .plain acts).quota.directories ∧ (runFrom .plain acts).quota.usage 1 = .zero ∧
    (reclaimQuota .plain "sbx_a" 1 (runFrom .plain acts) []).outcome =
      .raised (.other "no such file or directory") ∧
    (boot .plain 1 (runFrom .plain acts) []).outcome =
      .raised (.other "no such file or directory")

instance (acts : List Act) : Decidable (StuckAfter acts) := by
  unfold StuckAfter; infer_instance

/-- **Reclamation gets stuck.**  When a `Create` dies between the journal and the limits, or a
`Delete` between the limits and the journal, `reclaimQuota` fails although nothing of the storage is
left and no other call fails, and with it every start of the adapter. -/
theorem reclaimQuota_unknown_project :
    Reachable (.of .plain (fun _ => true) fun _ => true) (runFrom .plain cutCreate) ∧
      StuckAfter cutCreate ∧
      Reachable (.of .plain (fun _ => true) fun _ => true) (runFrom .plain (cutDelete 15)) ∧
      StuckAfter (cutDelete 15) := by
  have hcreate : StuckAfter cutCreate := by decide +kernel
  have hdelete : StuckAfter (cutDelete 15) := by decide +kernel
  exact ⟨reachable_run (by decide +kernel), hcreate, reachable_run (by decide +kernel), hdelete⟩

end Sandcube.Adapter
