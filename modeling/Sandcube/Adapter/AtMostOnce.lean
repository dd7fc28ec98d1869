import Sandcube.Adapter.Calm
import Sandcube.Adapter.Registry

/-!
# A keyed process is started at most once

`proc.Start` is called on an exec only after its pipe was made, and a pipe is made only where there
is none.  The directory with the pipe goes only when the sandbox has no container, or when there is
no `process.json`, which is written first.  So the pipe is the evidence of an earlier start, whatever
crashes and other sandboxes do to the registry.
-/

namespace Sandcube.Adapter

open Prog (Does)

variable {host : Host} {May : Back → Prop} {scope : Scope} {id : String} {w w' : World} {a : ℕ}

/-! ### Evidence -/

/-- What a call of `proc.Start` leaves behind. -/
structure World.Evidence (w : World) (k : Key) : Prop where
  recorded : w.Recorded k
  piped : w.Piped k
  managed : (w.managed? k.1).isSome

/-- The operation at work is one, and it calls `proc.Start` where there is no evidence. -/
structure Launching (w : World) : Prop where
  nodup : w.trace.invoked.Nodup
  evidence : ∀ k ∈ w.trace.invoked, w.Evidence k
  piped : ∀ a p, w.object? a = some p → p.stage = .building .piped →
    w.Piped p.info.key ∧ p.info.key ∉ w.trace.invoked
  sole : ∀ a b p q, w.object? a = some p → w.object? b = some q → ¬ p.stage.Resting →
    ¬ q.stage.Resting → a = b

/-- The records in progress were in progress before, and no step towards `proc.Start` was made. -/
def Follows (w w' : World) : Prop :=
  ∀ a p', w'.object? a = some p' → ¬ p'.stage.Resting →
    ∃ p, w.object? a = some p ∧ ¬ p.stage.Resting ∧ p'.info.key = p.info.key ∧
      (p'.stage = .building .piped → p.stage = .building .piped)

theorem Launching.mono (h : Launching w) (hfollows : Follows w w')
    (hinvoked : w'.trace.invoked.Sublist w.trace.invoked)
    (hevidence : ∀ k ∈ w'.trace.invoked, w.Evidence k → w'.Evidence k)
    (hpiped : ∀ a p, w'.object? a = some p → p.stage = .building .piped → w.Piped p.info.key →
      w'.Piped p.info.key) : Launching w' := by
  refine ⟨h.nodup.sublist hinvoked, ?_, ?_, ?_⟩
  · exact fun k hk => hevidence k hk (h.evidence k (hinvoked.subset hk))
  · intro a p' hp' hstage
    obtain ⟨p, hp, -, hkey, hbefore⟩ := hfollows a p' hp' (by rw [hstage]; exact id)
    obtain ⟨hpipe, hnew⟩ := h.piped a p hp (hbefore hstage)
    rw [← hkey] at hpipe hnew
    exact ⟨hpiped a p' hp' hstage hpipe, fun hk => hnew (hinvoked.subset hk)⟩
  · intro a b p' q' hp' hq' hp'rest hq'rest
    obtain ⟨p, hp, hrest, -⟩ := hfollows a p' hp' hp'rest
    obtain ⟨q, hq, hrest', -⟩ := hfollows b q' hq' hq'rest
    exact h.sole a b p q hp hq hrest hrest'

/-! ### Steps that follow -/

theorem Follows.of_heap (h : w'.memory.heap = w.memory.heap) : Follows w w' := by
  intro a p hp hrest
  unfold World.object? at hp
  rw [h] at hp
  exact ⟨p, hp, hrest, rfl, fun hs => hs⟩

theorem Follows.of_rest (h : w'.AtRest) : Follows w w' :=
  fun a p hp hrest => absurd (h a p hp) hrest

theorem Beside.follows (h : Beside host w w') : Follows w w' := by
  intro a p' hp' hrest
  obtain ⟨p, hp, hbesides⟩ := h.object_before hp'
  have hbefore : ¬ p.stage.Resting := fun hs => hrest (hs.besides hbesides)
  obtain ⟨b, rfl⟩ := hbesides.still fun phase hphase => hbefore (by rw [hphase]; trivial)
  exact ⟨p, hp, hbefore, rfl, fun hs => hs⟩

/-! ### Evidence stays -/

/-- Pipes stay. -/
def KeepsPipes (w w' : World) : Prop := ∀ k, w.Piped k → w'.Piped k

theorem KeepsPipes.of_pipes (h : ∀ k, (w'.history.dirs.find? k).map Dir.pipes =
    (w.history.dirs.find? k).map Dir.pipes) : KeepsPipes w w' := by
  rintro k ⟨dir, hdir, hpipe⟩
  have hk := h k
  rw [hdir, Option.map_some] at hk
  obtain ⟨dir', hdir', hpipes⟩ := Option.map_eq_some_iff.mp hk
  exact ⟨dir', hdir', hpipes ▸ hpipe⟩

theorem Launching.of_evidence (h : Launching w) (hfollows : Follows w w')
    (hinvoked : w'.trace.invoked = w.trace.invoked) (hpipes : KeepsPipes w w')
    (hrecorded : ∀ k, w.Recorded k → w'.Recorded k)
    (hmanaged : ∀ id, (w.managed? id).isSome → (w'.managed? id).isSome) : Launching w' :=
  h.mono hfollows (by rw [hinvoked]) (fun k _ he =>
    ⟨hrecorded k he.recorded, hpipes k he.piped, hmanaged k.1 he.managed⟩)
    fun _ _ _ _ => hpipes _

/-- A change of memory and of the trace only. -/
theorem Launching.of_history (h : Launching w) (hfollows : Follows w w')
    (hinvoked : w'.trace.invoked = w.trace.invoked) (hhistory : w'.history.dirs = w.history.dirs)
    (hcontainers : w'.containerd.containers = w.containerd.containers) : Launching w' := by
  refine h.of_evidence hfollows hinvoked (.of_pipes fun k => by rw [hhistory]) (fun k hk => ?_)
    fun id hid => ?_
  · unfold World.Recorded History.record? at hk ⊢
    rwa [hhistory]
  · rwa [World.managed?_congr hcontainers]

/-! ### The moves of processes -/

/-- A new record that nobody called `proc.Start` for. -/
theorem Launching.enroll (h : Launching w) (hrest : w.AtRest) (info : ProcessInfo) {stage : Stage}
    (hstage : stage ≠ .building .piped) : Launching (w.enroll info stage) := by
  refine ⟨h.nodup, fun k hk => ?_, ?_, ?_⟩
  · exact ⟨(h.evidence k hk).recorded, (h.evidence k hk).piped, (h.evidence k hk).managed⟩
  · intro b p hp hpiped
    rw [World.object?_enroll] at hp
    split_ifs at hp with hb
    · rw [← Option.some.inj hp] at hpiped
      exact absurd hpiped hstage
    · exact h.piped b p hp hpiped
  · intro b c p q hp hq hpwork hqwork
    rw [World.object?_enroll] at hp hq
    split_ifs at hp hq with hb hc hc
    · rw [hb, hc]
    · exact absurd (hrest c q hq) hqwork
    · exact absurd (hrest b p hp) hpwork
    · exact absurd (hrest b p hp) hpwork

/-- **Work on a process.**  The pipe is made where there was none, and `proc.Start` is called after
that. -/
theorem Launching.work {p q : Tracked} (h : Launching w) (hs : Work w a p q w') : Launching w' := by
  have ht := hs.touches
  have hbefore : ∀ b r, w'.object? b = some r → ¬ r.stage.Resting →
      ∃ r₀, w.object? b = some r₀ ∧ ¬ r₀.stage.Resting := by
    intro b r hr hwork
    by_cases hb : b = a
    · subst hb
      rw [hs.after] at hr
      obtain rfl := Option.some.inj hr
      exact ⟨p, hs.before, fun hrest => hwork (hs.resting hrest)⟩
    · rw [ht.object b hb] at hr
      exact ⟨r, hr, hwork⟩
  have hsole : ∀ b c r r', w'.object? b = some r → w'.object? c = some r' → ¬ r.stage.Resting →
      ¬ r'.stage.Resting → b = c := by
    intro b c r r' hr hr' hwork hwork'
    obtain ⟨r₀, hr₀, hwork₀⟩ := hbefore b r hr hwork
    obtain ⟨r₁, hr₁, hwork₁⟩ := hbefore c r' hr' hwork'
    exact h.sole b c r₀ r₁ hr₀ hr₁ hwork₀ hwork₁
  have hevidence : ∀ k, w.Evidence k → w'.Evidence k := by
    intro k hk
    refine ⟨ht.all_recorded hk.recorded, ht.all_piped hk.piped, ?_⟩
    rw [World.managed?_congr ht.containers]
    exact hk.managed
  have hpiped : ∀ b r, w'.object? b = some r → r.stage = .building .piped →
      w'.Piped r.info.key ∧ r.info.key ∉ w.trace.invoked := by
    intro b r hr hstage
    by_cases hb : b = a
    · subst hb
      rw [hs.after] at hr
      obtain rfl := Option.some.inj hr
      rw [hs.key]
      rcases hs.pipe hstage with hpiped | ⟨hnone, hpipe⟩
      · obtain ⟨hpipe, hnew⟩ := h.piped b p hs.before hpiped
        exact ⟨ht.all_piped hpipe, hnew⟩
      · -- A pipe that was there before the first one is made would be evidence.
        exact ⟨hpipe, fun hk => hnone (h.evidence _ hk).piped⟩
    · rw [ht.object b hb] at hr
      obtain ⟨hpipe, hnew⟩ := h.piped b r hr hstage
      exact ⟨ht.all_piped hpipe, hnew⟩
  rcases hs.invoked with hsame | ⟨hstage, htried, hmanaged, hrecorded, hinvoked⟩
  · refine ⟨hsame ▸ h.nodup, fun k hk => ?_, fun b r hr hstage => ?_, hsole⟩
    · rw [hsame] at hk
      exact hevidence k (h.evidence k hk)
    · rw [hsame]
      exact hpiped b r hr hstage
  · obtain ⟨hpipe, hnew⟩ := h.piped a p hs.before hstage
    refine ⟨?_, fun k hk => hevidence k ?_, fun b r hr hstage' => ?_, hsole⟩
    · rw [hinvoked]
      exact List.nodup_cons.mpr ⟨hnew, h.nodup⟩
    · rw [hinvoked] at hk
      rcases List.mem_cons.mp hk with rfl | hk
      · exact ⟨hrecorded, hpipe, hmanaged⟩
      · exact h.evidence k hk
    · -- The record at work is past its pipes, and it is the only one at work.
      exfalso
      obtain rfl := hsole b a r q hr hs.after (by rw [hstage']; exact id) (by rw [htried]; exact id)
      rw [hs.after] at hr
      rw [← Option.some.inj hr, htried] at hstage'
      cases hstage'

theorem RegisterMove.launching {pid : String} (move : RegisterMove host w id pid w')
    (h : Launching w) : Launching w' := by
  cases move with
  | register req now rest serving managed valid free =>
    -- The note about a taken identifier changes nothing here.
    have hnoted : Launching (if w.taken id pid then w.note (.collision (id, pid)) else w) ∧
        (if w.taken id pid then w.note (.collision (id, pid)) else w).AtRest := by
      split_ifs
      · exact ⟨h.of_history (.of_heap rfl) rfl rfl rfl, rest⟩
      · exact ⟨h, rest⟩
    exact (hnoted.1.enroll hnoted.2 (World.newInfo host id req pid now) (by simp)).of_history
      (.of_heap rfl) rfl rfl rfl

theorem StartMove.launching (move : StartMove host w id w') (h : Launching w) : Launching w' := by
  obtain ⟨a, p, q, -, hwork⟩ := move.work
  exact h.work hwork

/-- The directory of a process goes when there is nothing of it. -/
theorem Launching.eraseDir {k : Key} (h : Launching w) (hrest : w.AtRest)
    (hnever : k ∉ w.trace.invoked) : Launching (w.eraseDir k) := by
  have hother : ∀ k' ∈ w.trace.invoked,
      (w.eraseDir k).history.dirs.find? k' = w.history.dirs.find? k' := by
    intro k' hk'
    exact Table.find?_erase_of_ne _ (fun heq => hnever (heq ▸ hk'))
  refine h.mono (.of_rest hrest) (List.Sublist.refl _) (fun k' hk' he => ?_) ?_
  · obtain ⟨dir, hdir, hpipe⟩ := he.piped
    refine ⟨?_, ⟨dir, ?_, hpipe⟩, he.managed⟩
    · unfold World.Recorded History.record?
      rw [hother k' hk']
      exact he.recorded
    · rw [hother k' hk']
      exact hdir
  · intro b p hp hpiped
    have hresting : p.stage.Resting := hrest b p hp
    rw [hpiped] at hresting
    exact hresting.elim

theorem ForgetMove.launching {kind : Kind} (move : ForgetMove host w id kind w')
    (h : Launching w) : Launching w' := by
  cases move with
  | eraseDir rest unmanaged =>
    refine h.eraseDir rest fun hk => ?_
    have hmanaged := (h.evidence _ hk).managed
    rw [unmanaged] at hmanaged
    cases hmanaged
  | eraseHome | unregister => exact h.of_history (.of_heap rfl) rfl rfl rfl
  | cleanup obj => exact h.work (.deleteExec obj)

theorem BootMove.launching (move : BootMove host w id w') (h : Launching w) : Launching w' := by
  rcases move.work with ⟨a, p, q, -, hwork⟩ | ⟨pid, fresh, unrecorded, rfl⟩ |
    ⟨info, rest, -, -, -, -, rfl⟩ | ⟨-, -, rfl⟩
  · exact h.work hwork
  · refine h.eraseDir (fun b p hp => ?_) fun hk => ?_
    · rw [World.object?, fresh] at hp
      cases hp
    · have hrecorded := (h.evidence _ hk).recorded
      rw [World.Recorded, unrecorded] at hrecorded
      cases hrecorded
  · exact h.enroll rest info (by simp)
  · exact h.of_history (.of_heap rfl) rfl rfl rfl

/-! ### All moves -/

theorem Beside.launching (hb : Beside host w w') (h : Launching w) : Launching w' := by
  refine h.of_evidence hb.follows hb.invoked (.of_pipes hb.pipes) hb.recorded fun id hid => ?_
  rwa [World.managed?_congr hb.containers]

theorem EraseMove.launching (move : EraseMove w id w') (h : Launching w) : Launching w' := by
  obtain ⟨rest, -, -, rfl⟩ := move.inv
  refine h.mono (.of_rest rest) List.filter_sublist (fun k hk he => ?_) fun _ _ _ _ hk => hk
  refine ⟨he.recorded, he.piped, ?_⟩
  have hmanaged := he.managed
  unfold World.managed? at hmanaged ⊢
  dsimp only
  rw [Table.find?_erase_of_ne _ (of_decide_eq_true (List.mem_filter.mp hk).2)]
  exact hmanaged

theorem Move.launching (hm : Move host May scope w w') (h : Launching w) : Launching w' := by
  cases hm with
  | back may => exact Beside.launching (.back _) h
  | net inScope move => exact h.of_history (.of_heap rfl) rfl rfl rfl
  | quota inScope move =>
    have hmanaged : ∀ id, (w.managed? id).isSome → (w'.managed? id).isSome := fun _ => move.managed
    obtain ⟨_, _, _, _, rfl⟩ := move.frame
    exact h.of_evidence (.of_heap rfl) rfl (.of_pipes fun _ => rfl) (fun _ hk => hk) hmanaged
  | erase inScope move => exact move.launching h
  | task inScope move =>
    obtain ⟨_, _, _, -, rfl⟩ := move.frame
    exact h.of_history (.of_heap rfl) rfl rfl rfl
  | register inScope move | start inScope move | forget inScope move | boot inScope move =>
    exact move.launching h

theorem Reachable.launching {S : Setting} (hw : Reachable S w) : Launching w := by
  refine hw.induct (fun w h => ?_) (fun w h => ?_) fun w w' h hm => hm.launching h
  · have hinvoked : w.trace.invoked = [] := by rw [h.trace]; rfl
    have hobject : ∀ b, w.object? b = none := fun b => by rw [World.object?, h.memory]; rfl
    refine ⟨by rw [hinvoked]; exact .nil, fun k hk => ?_, fun b p hp => ?_, fun b c p q hp => ?_⟩
    · rw [hinvoked] at hk; cases hk
    · rw [hobject] at hp; cases hp
    · rw [hobject] at hp; cases hp
  · refine h.of_history ?_ rfl rfl rfl
    intro b p hp
    rw [World.object?_die] at hp
    cases hp

/-! ### Requests that were made before -/

/-- Every record comes from a request, whose hash it has. -/
def Requested (host : Host) (w : World) : Prop :=
  ∀ info, w.Knows info → ∃ req, (info.key, req) ∈ w.trace.requests ∧
    info.requestHash = host.requestHash req

theorem Rewrite.requested {info : ProcessInfo} (h : Rewrite host w w' info)
    (hw : Requested host w) (hmono : ∀ r ∈ w.trace.requests, r ∈ w'.trace.requests) :
    ∃ req, (info.key, req) ∈ w'.trace.requests ∧ info.requestHash = host.requestHash req := by
  have hbefore : ∀ {a p}, w.object? a = some p → info.key = p.info.key →
      info.requestHash = p.info.requestHash → ∃ req, (info.key, req) ∈ w'.trace.requests ∧
        info.requestHash = host.requestHash req := by
    intro a p hp hkey hhash
    obtain ⟨req, hreq, heq⟩ := hw p.info (.of_object hp)
    rw [hkey, hhash]
    exact ⟨req, hmono _ hreq, heq⟩
  cases h with
  | new id req pid now requested => exact ⟨req, requested, rfl⟩
  | timedOut obj | lost now obj | exited complete code time obj | failed message now obj
  | missing message now obj | running error obj | resumed obj => exact hbefore obj rfl rfl

theorem Reachable.requested {S : Setting} (hw : Reachable S w) : Requested S.host w := by
  refine hw.induct ?_ ?_ fun w w' h hm info hinfo => ?_
  · rintro w h info (⟨a, p, hp, -⟩ | ⟨k, hk⟩)
    · rw [World.object?, h.memory] at hp
      cases hp
    · rw [h.history] at hk
      cases hk
  · rintro w h info (⟨a, p, hp, -⟩ | hrecord)
    · cases hp
    · exact h info (.inr hrecord)
  · rcases hm.knows hinfo with hold | hnew
    · obtain ⟨req, hreq, hhash⟩ := h info hold
      exact ⟨req, hm.trace_mono.2 _ hreq, hhash⟩
    · exact hnew.requested h hm.trace_mono.2

/-! ### A request for a process that is there -/

section Replay

variable {r hash : String}

/-- The sandbox has a container, and the registry leads to its record with this hash. -/
structure Held (id r : String) (a : ℕ) (hash : String) (w : World) : Prop where
  managed : (w.managed? id).isSome
  found : ∃ p, w.lookupProcess id r = some (a, p) ∧ p.info.requestHash = hash

theorem steady_held : Steady host May (Held id r a hash) := by
  refine fun w b hb hw => ⟨steady_managed w b hb hw.managed, ?_⟩
  obtain ⟨p, hp, hhash⟩ := hw.found
  obtain ⟨p', hp', hbesides⟩ := (Beside.back b : Beside host w _).lookup hp
  exact ⟨p', hp', hbesides.hash.trans hhash⟩

/-- `StartProcess` with an identifier that is taken only looks. -/
theorem does_replay {req : ExecRequest} {draw : String} (hreq : req.requestId = r)
    (hvalid : validProcessID r = true) :
    Does (calm May) (BackStep host May) (Held id r a hash) (startProcess host id req draw)
      (fun info w => hash = host.requestHash req ∧
        ∃ p, w.lookupProcess id r = some (a, p) ∧ info = p.info)
      (fun e _ => hash ≠ host.requestHash req ∧ e = .alreadyExists) := by
  have hopen : Open host May (BackStep host May) := fun w b hb => ⟨b, hb, rfl⟩
  have hempty : r ≠ "" := by
    rintro rfl
    exact absurd hvalid (by decide)
  have hload : Does (calm May) (BackStep host May) (Held id r a hash) (load host id)
      (fun _ => Held id r a hash) (fun _ _ => False) := by
    refine calm_query hopen steady_held fun w hw => ?_
    obtain ⟨c, hc⟩ := Option.isSome_iff_exists.mp hw.managed
    exact ⟨c, by rw [hc]; rfl, hw⟩
  have hlook : Does (calm May) (BackStep host May) (Held id r a hash) (look host (known id req))
      (fun found w => ∃ p, w.lookupProcess id r = some (a, p) ∧ p.info.requestHash = hash ∧
        found = some p.info) (fun _ _ => False) := by
    refine calm_look hopen steady_held fun w hw => ?_
    obtain ⟨p, hp, hhash⟩ := hw.found
    refine ⟨p, hp, hhash, ?_⟩
    unfold known
    rw [hreq, if_neg hempty, hp]
    rfl
  refine .bind (hload.relax fun _ _ hw => hw.elim) fun _ => ?_
  refine .bind (K := fun _ => Held id r a hash) ?_ fun _ => ?_
  · refine .when (fun hbad => ?_) fun _ _ hw => hw
    rw [hreq] at hbad
    exact absurd hvalid hbad.2
  refine .bind (hlook.relax fun _ _ hw => hw.elim)
    fun found => ?_
  refine .of_exists fun p => ?_
  refine .assuming (fun _ hw => hw.2) fun ⟨hhash, hfound⟩ => ?_
  subst hfound
  dsimp only
  split_ifs with hsame
  · exact .pure fun w hw => ⟨hhash.symm.trans hsame, p, hw.1, rfl⟩
  · exact .raise fun w hw => ⟨fun heq => hsame (hhash.trans heq), rfl⟩

end Replay

/-! ### The result -/

/-- The same identifier with another command. -/
def otherRequest : ExecRequest := { sampleRequest with command := ["false"] }

end Sandcube.Adapter
