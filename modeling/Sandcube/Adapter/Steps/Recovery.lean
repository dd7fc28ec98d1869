import Sandcube.Adapter.Steps.Processes

/-!
# The steps of recovery

Recovery takes up the records on disk one after the other.  `Frontier` says which are still to
come: every other record on disk has one in memory.
-/

open Relation

namespace Sandcube.Adapter

variable {host : Host} {May : Back → Prop} {scope : Scope} {a : ℕ} {info : ProcessInfo}
  {proc : Bool} {seen : Seen} {k : Key} {rest : List Key}
variable {p : Tracked} {state : ExecState} {w : World} {R : Err → World → Prop} {P : World → Prop}

/-! ### The records that are still to come -/

/-- The socket is closed, and the records on disk are those to come and those in memory. -/
structure Frontier (rest : List Key) (w : World) : Prop where
  down : w.memory.serving = false
  complete : ∀ k, w.Recorded k → k ∈ rest ∨ ∃ a p, w.object? a = some p ∧ p.info.key = k
  new : ∀ a p, w.object? a = some p → p.info.key ∉ rest

theorem steady_frontier : Steady host May (Frontier rest) := by
  refine .of_beside fun w w' h hw => ⟨h.serving.trans hw.down, fun k hk => ?_, fun a p' hp' => ?_⟩
  · have hbefore : w.Recorded k ∨ ∃ a p, w.object? a = some p ∧ p.info.key = k := by
      rcases h.rewritten k with hsame | ⟨a, p, -, hp, hkey, -⟩
      · exact .inl (by unfold World.Recorded; rw [← hsame]; exact hk)
      · exact .inr ⟨a, p, hp, hkey⟩
    rcases hbefore.elim (hw.complete k) .inr with hrest | ⟨a, p, hp, hkey⟩
    · exact .inl hrest
    · obtain ⟨p', hp', hbesides⟩ := h.object a p hp
      exact .inr ⟨a, p', hp', hbesides.key.trans hkey⟩
  · obtain ⟨p, hp, hbesides⟩ := h.object_before hp'
    rw [hbesides.key]
    exact hw.new a p hp

namespace Frontier

variable {w w' : World}

theorem congr (h : Frontier rest w) (hmem : w'.memory = w.memory)
    (hhist : w'.history = w.history) : Frontier rest w' := by
  refine ⟨by rw [hmem]; exact h.down, fun k hk => ?_, fun b p hp => ?_⟩
  · have hk' : w.Recorded k := by unfold World.Recorded; rw [← hhist]; exact hk
    rcases h.complete k hk' with hrest | ⟨b, p, hp, hkey⟩
    · exact .inl hrest
    · exact .inr ⟨b, p, by rw [World.object?, hmem]; exact hp, hkey⟩
  · rw [World.object?, hmem] at hp
    exact h.new b p hp

theorem setObject (h : Frontier rest w) {f : Tracked → Tracked}
    (hf : ∀ p, (w.object? a = some p) → (f p).info.key = p.info.key) :
    Frontier rest (w.setObject a f) := by
  refine ⟨h.down, fun k hk => ?_, fun b p hp => ?_⟩
  · rcases h.complete k hk with hrest | ⟨b, p, hp, hkey⟩
    · exact .inl hrest
    · by_cases hb : b = a
      · subst hb
        refine .inr ⟨b, f p, ?_, (hf p hp).trans hkey⟩
        rw [World.object?_setObject_self, hp, Option.map_some]
      · exact .inr ⟨b, p, by rw [World.object?_setObject_of_ne w hb]; exact hp, hkey⟩
  · by_cases hb : b = a
    · subst hb
      rw [World.object?_setObject_self] at hp
      obtain ⟨p', hp', rfl⟩ := Option.map_eq_some_iff.mp hp
      rw [hf p' hp']
      exact h.new b p' hp'
    · rw [World.object?_setObject_of_ne w hb] at hp
      exact h.new b p hp

/-- A save of a record in memory puts no new record on disk. -/
theorem store (h : Frontier rest w) (hp : w.object? a = some p) (hkey : info.key = p.info.key)
    (fault : Option Fault) : Frontier rest (w.store a info fault).2 := by
  have hset : Frontier rest (w.setObject a fun p => { p with info := info }) := by
    refine h.setObject fun p' hp' => ?_
    obtain rfl := Option.some.inj (hp.symm.trans hp')
    exact hkey
  have hobj := World.object?_store hp info fault
  unfold World.store at hobj ⊢
  rcases World.saveProcess_cases (w.setObject a fun p => { p with info := info }) info fault with
    hsave | hsave
  · rw [hsave]; exact hset
  · rw [hsave] at hobj ⊢
    refine ⟨hset.down, fun k hk => ?_, hset.new⟩
    unfold World.Recorded at hk
    rw [World.record?_saved] at hk
    split_ifs at hk with hkk
    · exact .inr ⟨a, _, hobj, hkk.symm⟩
    · exact hset.complete k hk

/-- The next record is taken up. -/
theorem enroll (h : Frontier (k :: rest) w) (hkey : info.key = k) (hnew : k ∉ rest)
    (stage : Stage) : Frontier rest (w.enroll info stage) := by
  refine ⟨h.down, fun k' hk' => ?_, fun b p hp => ?_⟩
  · rcases h.complete k' hk' with hmem | ⟨b, p, hp, hp'⟩
    · rcases List.mem_cons.mp hmem with rfl | hmem
      · refine .inr ⟨w.memory.heap.length, ⟨info, false, stage⟩, ?_, hkey⟩
        rw [World.object?_enroll, if_pos rfl]
      · exact .inl hmem
    · refine .inr ⟨b, p, ?_, hp'⟩
      rw [World.object?_enroll, if_neg, hp]
      rintro rfl
      rw [World.object?, List.getElem?_length] at hp
      cases hp
  · rw [World.object?_enroll] at hp
    split_ifs at hp
    · obtain rfl := Option.some.inj hp
      rw [hkey]
      exact hnew
    · exact fun hmem => h.new b p hp (List.mem_cons_of_mem k hmem)

end Frontier

/-! ### One record -/

/-- Recovery works on the record at `a`. -/
structure Recovering (rest : List Key) (a : ℕ) (info : ProcessInfo) (proc : Bool) (seen : Seen)
    (w : World) : Prop where
  has : w.Has a ⟨info, proc, .recovering seen⟩
  alone : w.Alone a
  frontier : Frontier rest w

theorem steady_recovering : Steady host May (Recovering rest a info proc seen) :=
  fun w b hb hw => ⟨steady_has (fun _ => by simp) w b hb hw.has, steady_alone w b hb hw.alone,
    steady_frontier w b hb hw.frontier⟩

namespace Recovering

variable {w : World}

section

variable (h : Recovering rest a info proc seen w)
include h

theorem enter (seen' : Seen) : Recovering rest a info proc seen' (w.enter a (.recovering seen')) :=
  ⟨h.has.enter _, h.alone.setObject _, h.frontier.setObject fun _ _ => rfl⟩

theorem note (i : Incident) : Recovering rest a info proc seen (w.note i) :=
  ⟨h.has.congr rfl, h.alone.congr rfl, h.frontier.congr rfl rfl⟩

theorem deleteExec (k : Key) : Recovering rest a info proc seen (w.deleteExec k).2 := by
  rcases deleteExec_cases w k with hsame | herase
  · rw [hsame]; exact h
  · rw [herase]; exact ⟨h.has.congr rfl, h.alone.congr rfl, h.frontier.congr rfl rfl⟩

theorem store {f : ProcessInfo → ProcessInfo}
    (hf : ∀ b, f { info with timedOut := b } = { f info with timedOut := b })
    (hkey : (f info).key = info.key) (hp : w.object? a = some p) (fault : Option Fault) :
    Recovering rest a (f info) proc seen (w.store a (f p.info) fault).2 := by
  obtain ⟨b, hb⟩ := h.has
  obtain rfl := Option.some.inj (hp.symm.trans hb)
  refine ⟨⟨b, ?_⟩, h.alone.store _ fault, h.frontier.store hp ?_ fault⟩
  · rw [World.object?_store hp]
    exact congrArg (fun info' => some (Tracked.mk info' proc (.recovering seen))) (hf b)
  · rw [hf b]
    exact hkey

/-- The work on the record ends. -/
theorem finish {stage : Stage} (hstage : stage.Resting) :
    (w.enter a stage).AtRest ∧ Frontier rest (w.enter a stage) :=
  ⟨h.alone.enter_atRest hstage, h.frontier.setObject fun _ _ => rfl⟩

end

end Recovering

/-! ### What the runtime knows of it -/

/-- One of the lookups of `loadProcess`.  What is not found is noted. -/
theorem runs_find {α : Type} {f : World → Option α} (hscope : scope .boot k.1) (hkey : info.key = k)
    (hmissing : ∀ w, f w = none → w.managed? k.1 = none ∨ w.containerd.tasks.find? k.1 = none ∨
      w.containerd.execs.find? k = none) :
    Runs host May scope (Recovering rest a info false .nothing)
      (observe host (fun w => (f w).elim (.error .notFound) .ok) (World.miss a))
      (fun _ => Recovering rest a info false .nothing)
      (fun e w => e = .notFound → Recovering rest a info false .missing w) := by
  subst hkey
  refine does_observe (Move.isOpen scope) steady_recovering ?_ ?_ ?_ fun _ _ _ => nofun
  · intro w hw
    cases hf : f w with
    | some x => exact .refl
    | none =>
      obtain ⟨b, hobj⟩ := hw.has
      exact .single (.boot hscope (.miss hobj rfl rfl (hmissing w hf)))
  · intro w x hw hx
    cases hf : f w with
    | none => rw [hf] at hx; cases hx
    | some x => exact hw
  · intro w e hw he _
    cases hf : f w with
    | none => exact hw.enter .missing
    | some x => rw [hf] at he; cases he

theorem runs_loadProcess (hscope : scope .boot k.1) (hkey : info.key = k) :
    Runs host May scope (Recovering rest a info false .nothing) (loadProcess host a k)
      (fun _ => Recovering rest a info true .nothing)
      (fun e w => e = .notFound → Recovering rest a info false .missing w) := by
  refine .bind (runs_find hscope hkey fun _ h => .inl h) fun _ => ?_
  refine .bind (runs_find hscope hkey fun _ h => .inr (.inl h)) fun _ => ?_
  refine .bind (runs_find hscope hkey fun _ h => .inr (.inr h)) fun _ => ?_
  refine does_update (Move.isOpen scope) steady_recovering ?_ ?_
  · intro _ w hw
    obtain ⟨b, hobj⟩ := hw.has
    exact .single (.boot hscope (.adopt hobj (congrArg Prod.fst hkey) rfl))
  · intro _ w hw
    obtain ⟨b, hobj⟩ := hw.has
    refine ⟨⟨b, ?_⟩, hw.alone.setObject _, hw.frontier.setObject fun _ _ => rfl⟩
    rw [World.object?_setObject_self, hobj, Option.map_some]

/-- What a state of the exec says about the record: where it has ended, that is noted. -/
def Met (info : ProcessInfo) (state : ExecState) (w : World) : Prop :=
  match state with
  | .created =>
    info.exitCode.isSome →
      .revived info.key ∈ w.trace.incidents ∧ .undead info.key ∈ w.trace.incidents
  | .running =>
    (info.completedAt.isSome → .revived info.key ∈ w.trace.incidents) ∧
      (info.exitCode.isSome → .undead info.key ∈ w.trace.incidents)
  | .stopped _ _ => True

theorem steady_met : Steady host May (Met info state) := by
  refine .of_beside fun w w' h hw => ?_
  cases state with
  | created => exact fun hexit => (hw hexit).imp (h.incidents _) (h.incidents _)
  | running => exact hw.imp (fun hc hs => h.incidents _ (hc hs)) fun he hs => h.incidents _ (he hs)
  | stopped code time => trivial

/-- What recovery has seen when it knows the state of the exec. -/
def seenAs : ExecState → Seen
  | .created => .created
  | .running | .stopped _ _ => .begun

theorem incidents_noteIf (w : World) (c : Prop) [Decidable c] (i : Incident) :
    (∀ j ∈ w.trace.incidents, j ∈ (if c then w.note i else w).trace.incidents) ∧
      (c → i ∈ (if c then w.note i else w).trace.incidents) := by
  split_ifs with hc
  · exact ⟨fun j hj => List.mem_cons_of_mem i hj, fun _ => List.mem_cons_self⟩
  · exact ⟨fun _ hj => hj, fun h => absurd h hc⟩

theorem Recovering.noteIf (h : Recovering rest a info proc seen w) (c : Prop) [Decidable c]
    (i : Incident) : Recovering rest a info proc seen (if c then w.note i else w) := by
  split_ifs
  · exact h.note i
  · exact h

theorem Recovering.meet (h : Recovering rest a info proc .nothing w) (state : ExecState) :
    Recovering rest a info proc (seenAs state) (World.meet a info state w) ∧
      Met info state (World.meet a info state w) := by
  obtain ⟨hkept, hrevived⟩ := incidents_noteIf w (World.revives info state) (.revived info.key)
  have hw := h.noteIf (World.revives info state) (.revived info.key)
  unfold World.meet
  dsimp only
  revert hkept hrevived hw
  generalize (if World.revives info state then w.note (.revived info.key) else w) = w₁
  intro hkept hrevived hw
  obtain ⟨hkept', hundead⟩ := incidents_noteIf w₁ (info.exitCode.isSome) (.undead info.key)
  cases state with
  | created =>
    exact ⟨(hw.noteIf _ _).enter _, fun hexit => ⟨hkept' _ (hrevived hexit), hundead hexit⟩⟩
  | running =>
    exact ⟨(hw.noteIf _ _).enter _, fun hcompleted => hkept' _ (hrevived hcompleted), hundead⟩
  | stopped code time => exact ⟨hw.enter _, trivial⟩

/-- The timeout plays no part in what recovery notes. -/
theorem meet_timedOut (w : World) (a : ℕ) (info : ProcessInfo) (b : Bool) (state : ExecState) :
    World.meet a { info with timedOut := b } state w = World.meet a info state w := by
  cases state <;> rfl

theorem runs_findExec (hscope : scope .boot info.sandboxId) :
    Runs host May scope (Recovering rest a info true .nothing) (findExec host a info)
      (fun state w => Recovering rest a info true (seenAs state) w ∧ Met info state w) unknown := by
  refine does_observe (Move.isOpen scope) steady_recovering ?_ ?_ (fun _ _ _ _ => trivial)
    fun _ _ _ => trivial
  · intro w hw
    cases hexec : w.containerd.execs.find? info.key with
    | none => exact .refl
    | some state =>
      obtain ⟨b, hobj⟩ := hw.has
      have hmove : BootMove host w info.sandboxId
          (World.meet a { info with timedOut := b } state w) := .meet state hobj rfl rfl hexec
      rw [meet_timedOut] at hmove
      exact .single (.boot hscope hmove)
  · intro w state hw hstate
    rw [hstate]
    exact hw.meet state

/-! ### What recovery makes of it -/

/-- Nobody works on a record; those to come are `rest`. -/
def Between (rest : List Key) (w : World) : Prop := w.AtRest ∧ Frontier rest w

theorem steady_between : Steady host May (Between rest) := steady_atRest.and steady_frontier

theorem runs_closeDone (hscope : scope .boot info.sandboxId) (hseen : seen ≠ .nothing)
    (hended : info.Ended) :
    Runs host May scope (Recovering rest a info proc seen) (closeDone host a)
      (fun _ => Between rest) R := by
  refine does_update (Move.isOpen scope) steady_recovering ?_ fun _ _ hw => hw.finish trivial
  intro _ w hw
  obtain ⟨b, hobj⟩ := hw.has
  exact .single (.boot hscope (.close hobj rfl rfl hseen hended))

theorem runs_watchProcess (hscope : scope .boot info.sandboxId) (hgoing : ¬ info.Ended) :
    Runs host May scope (Recovering rest a info proc .begun) (watchProcess host a)
      (fun _ => Between rest) R := by
  refine does_update (Move.isOpen scope) steady_recovering ?_ fun _ _ hw => hw.finish trivial
  intro _ w hw
  obtain ⟨b, hobj⟩ := hw.has
  exact .single (.boot hscope (.rewatch hobj rfl rfl hgoing))

/-- A save that failed ends recovery. -/
theorem runs_checked {e : Option Err} : Runs host May scope P (check e) (fun _ => P) unknown :=
  does_check (fun _ hw _ => hw) fun _ _ _ _ => trivial

/-- Recovery writes the record. -/
theorem runs_recoverySave {P : World → Prop} {f : Time → ProcessInfo → ProcessInfo}
    {R : Err → World → Prop} (hscope : scope .boot info.sandboxId) (hP : Steady host May P)
    (hf : ∀ now b, f now { info with timedOut := b } = { f now info with timedOut := b })
    (hkey : ∀ now, (f now info).key = info.key)
    (hmove : ∀ now w p fault, P w → w.object? a = some p →
      (∃ b, p = ⟨{ info with timedOut := b }, proc, .recovering seen⟩) →
      BootMove host w info.sandboxId (w.store a (f now p.info) fault).2) :
    Runs host May scope (fun w => Recovering rest a info proc seen w ∧ P w) (save host a f)
      (fun _ w => ∃ now, Recovering rest a (f now info) proc seen w) R := by
  refine does_save (Move.isOpen scope) (steady_recovering.and hP) ?_ ?_ ?_
  · intro now w p fault hw hp
    obtain ⟨b, hobj⟩ := hw.1.has
    exact .single (.boot hscope (hmove now w p fault hw.2 hp ⟨b, Option.some.inj
      (hp.symm.trans hobj)⟩))
  · exact fun now w p fault hw hp => ⟨now, hw.1.store (hf now) (hkey now) hp fault⟩
  · intro w hw hnone
    obtain ⟨b, hobj⟩ := hw.1.has
    rw [hnone] at hobj
    cases hobj

theorem runs_reattach {terminal : Bool} (hscope : scope .boot info.sandboxId)
    (hterminal : terminal = true ↔ info.Ended) :
    Runs host May scope (fun w => Recovering rest a info true (seenAs state) w ∧ Met info state w)
      (reattach host a info terminal state) (fun _ => Between rest) unknown := by
  cases state with
  | created =>
    refine .bind (runs_recoverySave hscope steady_met (fun _ _ => rfl) (fun _ => rfl) ?_) fun e => ?_
    · rintro now w p fault hmet hp ⟨b, rfl⟩
      exact .interrupt now fault hp rfl rfl (fun h => (hmet h).1) fun h => (hmet h).2
    refine .of_exists fun now => ?_
    refine .bind runs_checked fun _ => ?_
    refine .bind (K := fun _ => Recovering rest a
      (failedInfo "Process start interrupted" now info) true .created) ?_ fun _ =>
        runs_closeDone hscope (fun h => by cases h) (.inr rfl)
    refine does_ignoring (E := fun _ => Recovering rest a
      (failedInfo "Process start interrupted" now info) true .created) ?_ fun _ _ hw => hw
    refine does_call (Move.isOpen scope) steady_recovering ?_ (fun _ _ _ hw _ => hw.deleteExec _)
      (fun _ _ _ hw _ => hw.deleteExec _) (fun _ _ hw => hw) (fun _ _ _ hw => hw.deleteExec _)
    intro _ w hw
    obtain ⟨b, hobj⟩ := hw.has
    exact .single (.boot hscope (.dropInterrupted hobj rfl rfl))
  | running =>
    refine .bind (runs_recoverySave hscope steady_met
      (f := fun _ info => { info with status := .running, error := "" }) (fun _ _ => rfl)
      (fun _ => rfl) ?_) fun e => ?_
    · rintro now w p fault hmet hp ⟨b, rfl⟩
      exact .resume fault hp rfl rfl hmet.1 hmet.2
    refine .of_exists fun _ => ?_
    refine .bind runs_checked fun _ => ?_
    exact runs_watchProcess hscope (by rintro (h | h) <;> cases h)
  | stopped code time =>
    unfold reattach
    split_ifs with hterm
    · have hended := hterminal.mp hterm
      refine .bind (K := fun _ => Recovering rest a info true .begun) ?_
        fun _ => runs_closeDone hscope nofun hended
      refine does_ifNotFound (E := fun _ => Recovering rest a info true .begun) ?_
        (.pure fun _ hw => hw) fun _ _ _ _ => trivial
      suffices h : Runs host May scope (Recovering rest a info true .begun)
          (deleteExec host info.key) (fun _ => Recovering rest a info true .begun)
          (fun _ => Recovering rest a info true .begun) from
        h.pre fun _ hw => hw.1
      refine does_call (Move.isOpen scope) steady_recovering ?_ (fun _ _ _ hw _ => hw.deleteExec _)
        (fun _ _ _ hw _ => hw.deleteExec _) (fun _ _ hw => hw) (fun _ _ _ hw => hw.deleteExec _)
      intro _ w hw
      obtain ⟨b, hobj⟩ := hw.has
      exact .single (.boot hscope (.dropEnded hobj rfl rfl hended))
    · exact (runs_watchProcess hscope fun h => hterm (hterminal.mpr h)).pre fun _ hw => hw.1

/-- The record of a process that the runtime does not know. -/
theorem runs_lose (hscope : scope .boot info.sandboxId) (hgoing : ¬ info.Ended) :
    Runs host May scope (Recovering rest a info false .missing)
      (do
        check (← save host a
          (failedInfo "Process missing after runtime restart; exit code unavailable"))
        closeDone host a)
      (fun _ => Between rest) unknown := by
  suffices h : Runs host May scope
      (fun w => Recovering rest a info false .missing w ∧ True)
      (save host a (failedInfo "Process missing after runtime restart; exit code unavailable"))
      (fun _ w => ∃ now, Recovering rest a
        (failedInfo "Process missing after runtime restart; exit code unavailable" now info) false
        .missing w) unknown by
    refine .bind (h.pre fun _ hw => ⟨hw, trivial⟩)
      fun e => .of_exists fun now => ?_
    exact .bind runs_checked fun _ => runs_closeDone hscope nofun (.inr rfl)
  refine runs_recoverySave hscope .trivial (fun _ _ => rfl) (fun _ => rfl) ?_
  rintro now w p fault - hp ⟨b, rfl⟩
  exact .lose now fault hp rfl rfl hgoing

/-! ### The whole of it -/

/-- The record to be taken up next, as it is on disk. -/
theorem steady_next :
    Steady host May fun w => Between (k :: rest) w ∧ w.history.record? k = some info := by
  refine fun w b hb hw => ⟨steady_between w b hb hw.1, ?_⟩
  rcases (Beside.back b : Beside host w _).rewritten k with hsame | ⟨a, p, -, hp, hkey, -⟩
  · exact hsame.trans hw.2
  · exact absurd (hkey ▸ List.mem_cons_self) (hw.1.2.new a p hp)

/-- The next record is read. -/
theorem runs_readRecord :
    Runs host May scope (Between (k :: rest))
      (query host fun w =>
        match w.history.record? k with
        | some info => .ok info
        | none => .error (.other "no such file or directory"))
      (fun info w => Between (k :: rest) w ∧ w.history.record? k = some info) unknown := by
  refine runs_ask steady_between fun w info hw hinfo => ⟨hw, ?_⟩
  split at hinfo
  · next info' hrecord => rw [hrecord, Except.ok.inj hinfo]
  · cases hinfo

/-- The record gets its place in the registry. -/
theorem runs_enroll (hscope : scope .boot k.1) (hkey : info.key = k)
    (hvalid : validProcessID info.id = true) (hnew : k ∉ rest) :
    Runs host May scope
      (fun w => (Between (k :: rest) w ∧ w.history.record? k = some info) ∧
        w.memory.heap.length = a)
      (update host fun _ w => w.enroll info (.recovering .nothing))
      (fun _ => Recovering rest a info false .nothing) R := by
  refine does_update (Move.isOpen scope)
    (steady_next.and (.of_beside fun _ _ h hw => h.length.trans hw)) ?_ ?_
  · rintro _ w ⟨⟨⟨hrest, hfrontier⟩, hrecord⟩, -⟩
    refine .single (.boot hscope (.enroll hrest (congrArg Prod.fst hkey) hfrontier.down hvalid
      (hkey ▸ hrecord) fun b p hp h => ?_))
    exact hfrontier.new b p hp (h.trans hkey ▸ List.mem_cons_self)
  · rintro _ w ⟨⟨⟨hrest, hfrontier⟩, -⟩, rfl⟩
    refine ⟨⟨info.timedOut, ?_⟩, fun b p hp hb => ?_, hfrontier.enroll hkey hnew _⟩
    · rw [World.object?_enroll, if_pos rfl]
    · rw [World.object?_enroll, if_neg hb] at hp
      exact hrest b p hp

theorem runs_recoverProcess (hscope : scope .boot k.1) (hnew : k ∉ rest) :
    Runs host May scope (Between (k :: rest)) (recoverProcess host k) (fun _ => Between rest)
      unknown := by
  refine .bind runs_readRecord fun info => ?_
  split_ifs with hmeta
  · obtain ⟨-, hvalid, hkey⟩ := hmeta
    have hscope' : scope .boot info.sandboxId := by
      rw [← hkey] at hscope
      exact hscope
    refine .bind (K := fun a w => (Between (k :: rest) w ∧ w.history.record? k = some info) ∧
      w.memory.heap.length = a) (does_look (Move.isOpen scope) steady_next fun w hw => ⟨hw, rfl⟩)
      fun a => ?_
    refine .bind (runs_enroll hscope hkey hvalid hnew) fun _ => ?_
    have hterminal : (decide (info.status = .exited ∨ info.status = .error)) = true ↔ info.Ended :=
      decide_eq_true_iff
    refine .bind (K := fun found w => (found = true → Recovering rest a info true .nothing w) ∧
      (found = false → Recovering rest a info false .missing w)) ?_ fun found => ?_
    · refine does_ifNotFound (.bind (runs_loadProcess hscope hkey) fun _ => .pure ?_) (.pure ?_) ?_
      · exact fun _ hw => ⟨fun _ => hw, nofun⟩
      · exact fun _ hw => ⟨nofun, fun _ => hw rfl⟩
      · exact fun _ _ _ _ => trivial
    cases found with
    | true =>
      refine .bind ((runs_findExec hscope').pre fun _ hw => hw.1 rfl)
        fun state => runs_reattach hscope' hterminal
    | false =>
      rw [if_neg Bool.false_ne_true]
      split_ifs with hended
      · have hclose : Runs host May scope (Recovering rest a info false .missing)
            (closeDone host a) (fun _ => Between rest) unknown :=
          runs_closeDone hscope' (fun h => by cases h) (hterminal.mp hended)
        exact hclose.pre fun _ hw => hw.2 rfl
      · exact (runs_lose hscope' fun h => hended (hterminal.mpr h)).pre fun _ hw => hw.2 rfl
  · exact .raise fun _ _ => trivial

/-- The adapter has just started. -/
structure Starting (w : World) : Prop where
  down : w.memory.serving = false
  fresh : w.memory.heap = []

theorem steady_starting : Steady host May Starting := by
  refine .of_beside fun w w' h hw => ⟨h.serving.trans hw.down, ?_⟩
  rw [← List.length_eq_zero_iff, h.length, hw.fresh]
  rfl

theorem Starting.object? (h : Starting w) (a : ℕ) : w.object? a = none := by
  unfold World.object?
  rw [h.fresh]
  rfl

theorem runs_sweepDir (hscope : scope .boot k.1) :
    Runs host May scope Starting (sweepDir host k) (fun _ => Starting) unknown := by
  unfold sweepDir
  split_ifs
  · refine .bind (K := fun record w => Starting w ∧ w.history.record? k = record)
      (runs_ask steady_starting fun w record hw h => ⟨hw, Except.ok.inj h⟩) fun record => ?_
    split_ifs with hnone
    · have hsteady : Steady host May fun w => Starting w ∧ w.history.record? k = record := by
        refine fun w b hb hw => ⟨steady_starting w b hb hw.1, ?_⟩
        rcases (Beside.back b : Beside host w _).rewritten k with hsame | ⟨a, p, -, hp, -, -⟩
        · exact hsame.trans hw.2
        · rw [hw.1.object?] at hp
          cases hp
      refine does_effect (Move.isOpen scope) hsteady ?_ ?_ (fun _ _ _ => trivial)
        fun _ _ _ => trivial
      · rintro w ⟨hw, hrecord⟩
        exact .single (.boot hscope (.sweepDir hw.down hw.fresh (hrecord.trans hnone)))
      · exact fun w hw => ⟨hw.1.down, hw.1.fresh⟩
    · exact .pure fun _ hw => hw.1
  · exact .pure fun _ hw => hw

theorem perm_globOrder (ks : List Key) : (globOrder ks).Perm ks := List.perm_insertionSort _ ks

/-- After recovery every record on disk has one in memory. -/
theorem runs_recoverProcesses (hscope : ∀ id, scope .boot id) :
    Runs host May scope Starting (recoverProcesses host) (fun _ => Between []) unknown := by
  refine .bind (runs_ask (Q := fun _ => Starting) steady_starting fun _ _ hw _ => hw) fun _ => ?_
  refine .bind (runs_look steady_starting) fun ks => ?_
  refine .bind (.forEach (I := fun _ => Starting) fun k rest _ => runs_sweepDir (hscope _))
    fun _ => ?_
  refine .bind (K := fun paths w => paths.Nodup ∧ Between paths w) ?_ fun paths => ?_
  · refine does_look (Move.isOpen scope) steady_starting fun w hw => ⟨?_, ?_, ?_⟩
    · exact (perm_globOrder _).nodup_iff.mpr (w.history.dirs.nodup_keys.filter _)
    · exact fun a p hp => nomatch (hw.object? a).symm.trans hp
    · refine ⟨hw.down, fun k hk => .inl ?_, fun a p hp => nomatch (hw.object? a).symm.trans hp⟩
      rw [(perm_globOrder _).mem_iff, List.mem_filter]
      refine ⟨?_, hk⟩
      unfold World.Recorded History.record? at hk
      obtain ⟨info, hinfo⟩ := Option.isSome_iff_exists.mp hk
      obtain ⟨dir, hdir, -⟩ := Option.bind_eq_some_iff.mp hinfo
      exact (Table.mem_keys_iff _ _).mpr ⟨dir, hdir⟩
  refine .assuming (fun _ hw => hw.1) fun hnodup => ?_
  suffices h : Runs host May scope (Between paths) (Prog.forEach paths (recoverProcess host))
      (fun _ => Between []) unknown from
    h.pre fun _ hw => hw.2
  refine .forEach (I := Between) fun k rest hsuffix => runs_recoverProcess (hscope _) ?_
  exact (List.nodup_cons.mp (hnodup.sublist hsuffix.sublist)).1

end Sandcube.Adapter
