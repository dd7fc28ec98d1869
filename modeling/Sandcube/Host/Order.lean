import Sandcube.Host.Goal
import Sandcube.Prog.Lockstep
import Sandcube.Runtime.Scripted

/-!
# The order of a sweep

A sweep visits the sandboxes in the order in which the query returned their rows.  A visit reads and
writes what belongs to its sandbox, the row, the records, the image reference and the container, and
it adds to the counters; so does the removal of an orphan.  Hence neither the order of the visits nor
the failures of one sandbox's requests make a difference to another sandbox.
-/

namespace Sandcube

open Prog (Lockstep Completes rescue when forEach)

/-! ### What belongs to a sandbox -/

/-- The rows that belong to `x`: its own, that of its image reference, and its records by key. -/
def Journal.share (x : String) (j : Journal) : Option Row × Option String × (String → Option Record) :=
  (j.sandboxes.find? x, j.sandboxImages.find? x,
    fun key => (j.requests.find? key).filter (·.sandboxId = x))

/-- What belongs to `x`: its rows, its container and the requests about it. -/
def World.part (x : String) (w : World Scripted) :
    (Option Row × Option String × (String → Option Record)) × Option Container × List Call :=
  (w.journal.share x, w.runtime.containers.find? x, w.runtime.made x)

/-- The counters. -/
def World.tally (w : World Scripted) : String → ℕ := w.journal.counters

/-- Two programs that are about `x` alone. -/
abbrev Own {α : Type} (x : String) (p q : Reliability.Op Scripted Unit α) : Prop :=
  Prog.Local World.part World.tally x p q

/-! ### Statements -/

namespace Journal

/-- A statement about `x`: it changes what belongs to `x` by what belongs to `x`. -/
structure Touches (x : String) (f : Journal → Journal) : Prop where
  own : ∀ j j', j.share x = j'.share x → (f j).share x = (f j').share x
  other : ∀ j y, y ≠ x → (f j).share y = j.share y
  tally : ∃ d, ∀ j, (f j).counters = j.counters + d

namespace Touches

variable {x : String} {f g : Journal → Journal}
variable {c : Call} {ids : List String} {container : Json} {sweep sweep' : Sweep}

theorem comp (hf : Touches x f) (hg : Touches x g) : Touches x fun j => g (f j) := by
  obtain ⟨d, hd⟩ := hf.tally
  obtain ⟨d', hd'⟩ := hg.tally
  exact ⟨fun j j' h => hg.own _ _ (hf.own j j' h),
    fun j y hy => (hg.other _ y hy).trans (hf.other j y hy),
    d + d', fun j => by rw [hd', hd, add_assoc]⟩

theorem skip : Touches x fun j => j := ⟨fun _ _ h => h, fun _ _ _ => rfl, 0, fun _ => by simp⟩

theorem ite (c : Prop) [Decidable c] (hf : Touches x f) :
    Touches x fun j => if c then f j else j := by
  by_cases hc : c
  · simpa only [if_pos hc] using hf
  · simpa only [if_neg hc] using skip

theorem setRow (x : String) (update : Row → Row) : Touches x fun j => j.setRow x update := by
  refine ⟨fun j j' h => ?_, fun j y hy => ?_, 0, fun j => (add_zero _).symm⟩
  · simp only [share, Prod.mk.injEq] at h ⊢
    exact ⟨by simp [Journal.setRow, h.1], h.2⟩
  · simp only [share, find?_setRow_of_ne hy]
    rfl

theorem answer (x : String) (saved : Saved) (status : ℕ → ℕ) :
    Touches x fun j => j.answer x saved status := by
  set write : Record → Record := fun rec =>
    if rec.sandboxId = x ∧ rec.response = none then
      { rec with response := some saved, responseStatus := status rec.responseStatus }
    else rec with hwrite
  have hid : ∀ rec, (write rec).sandboxId = rec.sandboxId := by
    intro rec
    simp only [hwrite]
    split_ifs <;> rfl
  have hfilter : ∀ (j : Journal) (y key : String),
      ((j.answer x saved status).requests.find? key).filter (·.sandboxId = y) =
        ((j.requests.find? key).filter (·.sandboxId = y)).map write := by
    intro j y key
    rw [find?_answer]
    cases j.requests.find? key with
    | none => rfl
    | some rec => by_cases hy : rec.sandboxId = y <;> simp [Option.filter, ← hwrite, hid, hy]
  refine ⟨fun j j' h => ?_, fun j y hy => ?_, 0, fun j => (add_zero _).symm⟩
  · simp only [share, Prod.mk.injEq] at h ⊢
    refine ⟨h.1, h.2.1, funext fun key => ?_⟩
    rw [hfilter, hfilter, congrFun h.2.2 key]
  · simp only [share, Prod.mk.injEq]
    refine ⟨rfl, rfl, funext fun key => ?_⟩
    rw [hfilter]
    cases j.requests.find? key with
    | none => rfl
    | some rec =>
      by_cases hrec : rec.sandboxId = y
      · simp [Option.filter, hrec, hwrite, hy]
      · simp [Option.filter, hrec]

theorem count (x name : String) : Touches x (Journal.count name) := by
  refine ⟨fun j j' h => h, fun j y _ => rfl, Pi.single name 1, fun j => ?_⟩
  funext n
  by_cases hn : n = name
  · subst hn
    simp [Journal.count]
  · simp [Journal.count, hn]

theorem dropImage (x : String) : Touches x (Journal.dropImage x) := by
  refine ⟨fun j j' h => ?_, fun j y hy => ?_, 0, fun j => (add_zero _).symm⟩
  · simp only [share, Prod.mk.injEq] at h ⊢
    exact ⟨h.1, by simp [Journal.dropImage], h.2.2⟩
  · simp only [share, Journal.dropImage, Table.find?_erase_of_ne _ hy]

theorem compensate (x : String) (status : ℕ) (body : String) :
    Touches x (Journal.compensate x status body) :=
  (setRow x Row.doomed).comp (answer x _ _)

end Touches

/-- The last transaction of `converge` is refused or is a statement about its sandbox, and which of
the two depends on what belongs to the sandbox. -/
theorem complete_touches (x : String) (status : Status) {j j' : Journal}
    (h : j.share x = j'.share x) :
    (∃ e, j.complete x status = .error e ∧ j'.complete x status = .error e) ∨
      ∃ f, Touches x f ∧ j.complete x status = .ok (f j) ∧ j'.complete x status = .ok (f j') := by
  have hrow : j.sandboxes.find? x = j'.sandboxes.find? x := congrArg Prod.fst h
  cases hfind : j'.sandboxes.find? x with
  | none =>
    exact .inl ⟨_, complete_of_find?_eq_none (hrow.trans hfind) status,
      complete_of_find?_eq_none hfind status⟩
  | some row =>
    refine .inr ⟨_, ((((Touches.setRow x (·.finished status)).comp
      (Touches.answer x (.response ((row.finished status).response x)) fun c => c)).comp
      (.ite (status = .deleted) (.dropImage x))).comp (.count x "lifecycle_completed")).comp
      (.ite (status = .deleted) (.count x "cleanup_completed")), ?_, ?_⟩
    · rw [complete_of_find? (hrow.trans hfind)]
      by_cases hs : status = .deleted <;> simp only [if_pos, hs] <;> rfl
    · rw [complete_of_find? hfind]
      by_cases hs : status = .deleted <;> simp only [if_pos, hs] <;> rfl

end Journal

/-! ### Steps -/

theorem Script.note_of_ne {x y : String} (hc : c.target? = some x) (hy : y ≠ x)
    (made : String → List Call) : note c made y = made y := by
  simp only [note, hc]
  exact Function.update_of_ne hy _ _

theorem Script.note_self {x : String} (hc : c.target? = some x) (made : String → List Call) :
    note c made x = c :: made x := by
  simp only [note, hc]
  exact Function.update_self ..

/-- A request that does not name the sandbox leaves its container alone. -/
theorem Containers.find?_serve_of_ne {y : String} (hc : c.target? ≠ some y)
    (failure : Option (Bool × Failure)) (cs : Containers) :
    (serve ⟨[], failure⟩ c cs).2.find? y = cs.find? y := by
  have hexit : (cs.find? y).map (Container.exited y []) = cs.find? y := by
    cases cs.find? y <;> simp [Container.exited]
  rcases find?_serve ⟨[], failure⟩ c cs y with h | h
  · rw [h, hexit]
  · rw [h, hexit, Container.effect_of_ne hc]

/-- What becomes of a container, and what is answered, depends on the container. -/
theorem Containers.serve_congr {x : String} (hc : c.target? = some x)
    (failure : Option (Bool × Failure)) {cs cs' : Containers} (h : cs.find? x = cs'.find? x) :
    (serve ⟨[], failure⟩ c cs).1 = (serve ⟨[], failure⟩ c cs').1 ∧
      (serve ⟨[], failure⟩ c cs).2.find? x = (serve ⟨[], failure⟩ c cs').2.find? x := by
  have hexit : (cs.exit []).find? x = (cs'.exit []).find? x := by
    rw [find?_exit, find?_exit, h]
  have hreply := execute_congr hc hexit
  have heffect : (execute c (cs.exit [])).2.find? x = (execute c (cs'.exit [])).2.find? x := by
    rw [find?_execute, find?_execute, hexit]
  match failure with
  | none => exact ⟨hreply, heffect⟩
  | some (true, _) => exact ⟨rfl, heffect⟩
  | some (false, _) => exact ⟨rfl, hexit⟩

section

variable {x : String} {s₀ t₀ s t : World Scripted}

theorem beside_withJournal (h : Prog.Beside World.part World.tally x s₀ t₀ s t)
    {f : Journal → Journal} (hf : Journal.Touches x f) :
    Prog.Beside World.part World.tally x s₀ t₀ (s.withJournal f) (t.withJournal f) := by
  obtain ⟨hsame, hleft, hright, d, hs, ht⟩ := h
  obtain ⟨d', hd'⟩ := hf.tally
  have hother : ∀ (w : World Scripted) (y : String), y ≠ x →
      World.part y (w.withJournal f) = World.part y w :=
    fun w y hy => Prod.ext (hf.other w.journal y hy) rfl
  have htally : ∀ w : World Scripted, (w.withJournal f).tally = w.tally + d' := fun w => hd' w.journal
  refine ⟨Prod.ext (hf.own _ _ (congrArg (·.1) hsame)) (congrArg (·.2) hsame :),
    fun y hy => (hother s y hy).trans (hleft y hy), fun y hy => (hother t y hy).trans (hright y hy),
    d + d', ?_, ?_⟩
  · rw [htally, hs, add_assoc]
  · rw [htally, ht, add_assoc]

theorem beside_called (h : Prog.Beside World.part World.tally x s₀ t₀ s t) {script script' : Script}
    (hscript : script'.about x = script.about x) (hc : c.target? = some x) :
    (script.runtime.serve () c s.runtime).1 = (script'.runtime.serve () c t.runtime).1 ∧
      Prog.Beside World.part World.tally x s₀ t₀ (s.called script.runtime () c)
        (t.called script'.runtime () c) := by
  obtain ⟨hsame, hleft, hright, hgrown⟩ := h
  have hmade : s.runtime.made x = t.runtime.made x := congrArg (·.2.2) hsame
  have hfailure : script.failure s.runtime.made c = script'.failure t.runtime.made c := by
    simp only [Script.failure, hc, hmade, hscript]
  obtain ⟨hreply, hcontainer⟩ :=
    Containers.serve_congr hc (script'.failure t.runtime.made c) (congrArg (·.2.1) hsame)
  have hother : ∀ (script : Script) (w : World Scripted) (y : String), y ≠ x →
      World.part y (w.called script.runtime () c) = World.part y w := by
    intro script w y hy
    have hne : c.target? ≠ some y := by simpa [hc] using hy.symm
    exact Prod.ext rfl (Prod.ext (Containers.find?_serve_of_ne hne _ _)
      (Script.note_of_ne hc hy _))
  refine ⟨?_, Prod.ext (congrArg (·.1) hsame :) (Prod.ext ?_ ?_),
    fun y hy => (hother _ s y hy).trans (hleft y hy),
    fun y hy => (hother _ t y hy).trans (hright y hy), hgrown⟩
  · simpa only [Script.runtime, hfailure] using hreply
  · simpa only [World.part, World.called, Script.runtime, hfailure] using hcontainer
  · simp only [World.part, World.called, Script.runtime, Script.note_self hc, hmade]

end

/-! ### Programs -/

namespace Reliability

variable {x : String} {script script' : Script}

/-- What `visit` rescues. -/
def turn {ρ ψ : Type} [Inhabited ψ] (R : Runtime ρ ψ) (sweep : Sweep) (id : String) : Op ρ ψ Unit := do
  let row ← query fun j =>
    match j.sandboxes.find? id with
    | some row => .ok row
    | none => .error .noResult
  when (row.Expired (sweep.clock id)) (exec (Journal.doom id))
  converge R id
  let row ← query (Journal.get id)
  when (row.status ≠ .deleted) (refresh R id)

/-- What `visitContainer` rescues. -/
def removal {ρ ψ : Type} [Inhabited ψ] (R : Runtime ρ ψ) (id : String) : Op ρ ψ Unit := do
  let _ ← call R (.delete id)
  exec (Journal.dropImage id)
  exec (Journal.count "orphans_cleaned")

theorem visitContainer_of_word {ρ ψ : Type} [Inhabited ψ] {R : Runtime ρ ψ} {id : String}
    (h : container.word "id" = .ok id) :
    visitContainer R ids container =
      if id ∈ ids then pure ()
      else query (fun j => .ok ((j.sandboxes.find? id).map Row.status)) >>= fun known =>
        if known.any (· ≠ .deleted) then pure ()
        else rescue (removal R id) (fun _ => exec (Journal.count "cleanup_failures")) := by
  rw [visitContainer, h]
  rfl

theorem own_query {α : Type} {f : Journal → Except Ex α}
    (h : ∀ j j', j.share x = j'.share x → f j = f j') : Own x (query f) (query f) :=
  fun _ _ => .read fun _ _ hst => h _ _ (congrArg Prod.fst hst.same)

theorem own_transaction {f : Journal → Except Ex Journal}
    (h : ∀ j j', j.share x = j'.share x → (∃ e, f j = .error e ∧ f j' = .error e) ∨
      ∃ g, Journal.Touches x g ∧ f j = .ok (g j) ∧ f j' = .ok (g j')) :
    Own x (transaction f) (transaction f) := by
  intro s₀ t₀
  refine .atomic fun s t hst => ?_
  have hquiet : ∀ w : World Scripted, w.interfere (default : Env Unit).images = w := fun _ => rfl
  simp only [hquiet]
  rcases h _ _ (congrArg Prod.fst hst.same) with ⟨e, he, he'⟩ | ⟨g, hg, he, he'⟩
  · simp only [he, he']
    exact ⟨trivial, hst⟩
  · simp only [he, he']
    exact ⟨trivial, beside_withJournal hst hg⟩

theorem own_exec {f : Journal → Journal} (hf : Journal.Touches x f) : Own x (exec f) (exec f) :=
  own_transaction fun _ _ _ => .inr ⟨f, hf, rfl, rfl⟩

theorem own_call (hscript : script'.about x = script.about x) (hc : c.target? = some x) :
    Own x (call script.runtime c) (call script'.runtime c) := by
  intro s₀ t₀
  refine .atomic fun s t hst => ?_
  obtain ⟨hreply, hbeside⟩ := beside_called hst hscript hc
  exact ⟨congrArg Reply.toExcept hreply, hbeside⟩

theorem share_get {j j' : Journal} (h : j.share x = j'.share x) : j.get x = j'.get x := by
  have hrow : j.sandboxes.find? x = j'.sandboxes.find? x := congrArg Prod.fst h
  rw [Journal.get, Journal.get, hrow]

section

variable (hscript : script'.about x = script.about x)
include hscript

theorem own_perform (config : Config) (action : Action) :
    Own x (perform script.runtime x config action) (perform script'.runtime x config action) := by
  intro s₀ t₀
  have hcall : ∀ {c : Call}, c.target? = some x →
      Lockstep (Prog.Beside World.part World.tally x s₀ t₀) (call script.runtime c)
        (call script'.runtime c) := fun hc => own_call hscript hc s₀ t₀
  cases action with
  | create => exact (hcall rfl).bind fun _ => (hcall rfl).bind fun _ => .pure ()
  | start => exact (hcall rfl).bind fun _ => .pure ()
  | restart =>
    exact (hcall rfl).bind fun _ => (own_exec (.setRow x _) s₀ t₀).bind fun _ =>
      (hcall rfl).bind fun _ => .pure ()
  | stop | delete => exact (hcall rfl).bind fun _ => .pure ()

omit hscript in
theorem own_fail {again again' : Op Scripted Unit Unit} (hagain : Own x again again')
    (intent : Action) (ex : Ex) : Own x (fail again x intent ex) (fail again' x intent ex) := by
  intro s₀ t₀
  refine (own_exec (.setRow x _) s₀ t₀).bind fun _ => (own_exec (.count x _) s₀ t₀).bind fun _ =>
    (own_exec (.count x _) s₀ t₀).when.bind fun _ => ?_
  unfold recover
  split
  · exact (own_exec (.compensate x _ _) s₀ t₀).bind fun _ =>
      ((hagain s₀ t₀).rescue fun _ => .pure ()).bind fun _ => .raise _
  · exact .raise _

theorem own_attempt {again again' : Op Scripted Unit Unit} (hagain : Own x again again') :
    Own x (attempt script.runtime again x) (attempt script'.runtime again' x) := by
  intro s₀ t₀
  refine (own_query (fun _ _ => share_get) s₀ t₀).bind fun row => ?_
  cases row.intent with
  | none => exact .pure ()
  | some intent =>
    exact ((own_perform hscript row.config intent s₀ t₀).bind fun _ =>
      own_transaction (fun _ _ => Journal.complete_touches x _) s₀ t₀).rescue fun ex =>
        own_fail hagain intent ex s₀ t₀

theorem own_converge : Own x (converge script.runtime x) (converge script'.runtime x) :=
  own_attempt hscript (own_attempt hscript fun _ _ => .pure ())

theorem own_refresh : Own x (refresh script.runtime x) (refresh script'.runtime x) := by
  intro s₀ t₀
  have hobserve : Lockstep (Prog.Beside World.part World.tally x s₀ t₀) (observe script.runtime x)
      (observe script'.runtime x) :=
    (own_call hscript rfl s₀ t₀).bind fun _ => (Lockstep.ofExcept _).bind fun _ =>
      (own_exec (.setRow x _) s₀ t₀).bind fun _ => (own_exec (.setRow x _) s₀ t₀).when
  refine hobserve.rescue fun ex => ?_
  split
  · exact own_exec (.setRow x _) s₀ t₀
  · exact .raise _

theorem own_turn (sweep : Sweep) :
    Own x (turn script.runtime sweep x) (turn script'.runtime sweep x) := by
  intro s₀ t₀
  have hrow : ∀ j j' : Journal, j.share x = j'.share x →
      (match j.sandboxes.find? x with | some row => .ok row | none => .error .noResult :
        Except Ex Row) =
      match j'.sandboxes.find? x with | some row => .ok row | none => .error .noResult := by
    intro j j' h
    have hfind : j.sandboxes.find? x = j'.sandboxes.find? x := congrArg Prod.fst h
    rw [hfind]
  exact (own_query hrow s₀ t₀).bind fun _ => (own_exec (.setRow x _) s₀ t₀).when.bind fun _ =>
    (own_converge hscript s₀ t₀).bind fun _ => (own_query (fun _ _ => share_get) s₀ t₀).bind fun _ =>
      (own_refresh hscript s₀ t₀).when

theorem own_visit (sweep : Sweep) :
    Own x (visit script.runtime sweep x) (visit script'.runtime sweep x) := fun s₀ t₀ =>
  (own_turn hscript sweep s₀ t₀).rescue fun _ => own_exec (.count x _) s₀ t₀

theorem own_removal : Own x (removal script.runtime x) (removal script'.runtime x) := fun s₀ t₀ =>
  (own_call hscript rfl s₀ t₀).bind fun _ => (own_exec (.dropImage x) s₀ t₀).bind fun _ =>
    own_exec (.count x _) s₀ t₀

theorem own_visitContainer (hid : container.word "id" = .ok x) :
    Own x (visitContainer script.runtime ids container)
      (visitContainer script'.runtime ids container) := by
  intro s₀ t₀
  rw [visitContainer_of_word hid, visitContainer_of_word hid]
  split_ifs
  · exact .pure ()
  · have hknown : ∀ j j' : Journal, j.share x = j'.share x →
        (.ok ((j.sandboxes.find? x).map Row.status) : Except Ex (Option Status)) =
          .ok ((j'.sandboxes.find? x).map Row.status) := by
      intro j j' h
      have hfind : j.sandboxes.find? x = j'.sandboxes.find? x := congrArg Prod.fst h
      rw [hfind]
    refine (own_query hknown s₀ t₀).bind fun known => ?_
    split_ifs
    · exact .pure ()
    · exact (own_removal hscript s₀ t₀).rescue fun _ => own_exec (.count x _) s₀ t₀

end

/-! ### Nothing escapes a turn -/

theorem completes_exec (f : Journal → Journal) : Completes (exec f : Op Scripted Unit Unit) :=
  fun w => ⟨(), w.withJournal f, rfl⟩

theorem completes_visit (script : Script) (sweep : Sweep) (x : String) :
    Completes (visit script.runtime sweep x) := by
  have hsame : script.about x = script.about x := rfl
  exact (own_turn hsame sweep).completes_rescue fun _ => completes_exec _

theorem completes_visitContainer (script : Script) (ids : List String)
    (hid : container.word "id" = .ok x) :
    Completes (visitContainer script.runtime ids container) := by
  have hsame : script.about x = script.about x := rfl
  rw [visitContainer_of_word hid]
  split_ifs
  · exact .pure ()
  · have hquery : Completes (query (fun j => .ok ((j.sandboxes.find? x).map Row.status)) :
        Op Scripted Unit (Option Status)) := fun w => ⟨_, w, rfl⟩
    refine hquery.bind fun known => ?_
    split_ifs
    · exact .pure ()
    · exact (own_removal hsame).completes_rescue fun _ => completes_exec _

/-! ### The sweep -/

/-- A sweep, once the inventory and the rows are known. -/
def rounds {ρ ψ : Type} [Inhabited ψ] (R : Runtime ρ ψ) (sweep : Sweep) (inventory : List Json)
    (ids : List String) : Op ρ ψ Unit := do
  forEach ids (visit R sweep)
  forEach inventory (visitContainer R ids)
  let _ ← call R .reconcile
  exec (Journal.count "reconcile_completed")

/-- Sweeps keep step if they do so once the inventory and the rows are known. -/
theorem reconcile_lockstep {sweep sweep' : Sweep} {I : World Scripted → World Scripted → Prop}
    (hrefl : ∀ w, I w w) (hwhole : script'.whole = script.whole)
    (h : ∀ inventory live, live.Nodup →
      Lockstep I (rounds script.runtime sweep inventory (sweep.order live))
        (rounds script'.runtime sweep' inventory (sweep'.order live))) (w : World Scripted) :
    I (reconcile script.runtime sweep w []).state (reconcile script'.runtime sweep' w []).state := by
  -- The first request is the same in both sweeps, and so is what comes back.
  have hlist : Lockstep Eq (call script.runtime .list) (call script'.runtime .list) := by
    refine .atomic fun s t hst => ?_
    have hserve : ∀ r, script'.runtime.serve () .list r = script.runtime.serve () .list r := by
      intro r
      simp only [Script.runtime, Script.failure, Call.target?, hwhole]
    subst hst
    exact ⟨congrArg (·.1.toExcept) (hserve s.runtime).symm, by simp only [World.called, hserve]⟩
  obtain ⟨o, w₁, _, ho, hp, hq, rfl⟩ := hlist w w rfl
  simp only [reconcile, rescue, Prog.bind_apply, hp, hq]
  cases o with
  | crashed => exact (ho rfl).elim
  | raised e => exact hrefl w₁
  | ok answer =>
    dsimp only
    cases answer.asArray with
    | error e => exact hrefl w₁
    | ok inventory =>
      obtain ⟨o, s', t', ho, hs, ht, hI⟩ :=
        h inventory w₁.journal.live (Table.nodup_keysWhere ..) w₁ w₁ (hrefl w₁)
      change I (rescue (rounds script.runtime sweep inventory (sweep.order w₁.journal.live))
          (fun _ => pure ()) w₁ []).state
        (rescue (rounds script'.runtime sweep' inventory (sweep'.order w₁.journal.live))
          (fun _ => pure ()) w₁ []).state
      simp only [rescue, hs, ht]
      cases o with
      | crashed => exact (ho rfl).elim
      | raised e | ok a => exact hI

/-- `POST /reconcile` is answered by the script and changes no sandbox. -/
theorem lockstep_callReconcile {I : World Scripted → World Scripted → Prop}
    (hwhole : script'.whole = script.whole)
    (hI : ∀ s t s' t', I s t → (∀ y, World.part y s' = World.part y s) → s'.tally = s.tally →
      (∀ y, World.part y t' = World.part y t) → t'.tally = t.tally → I s' t') :
    Lockstep I (call script.runtime .reconcile) (call script'.runtime .reconcile) := by
  have hpart : ∀ (script : Script) (w : World Scripted) (y : String),
      World.part y (w.called script.runtime () .reconcile) = World.part y w := fun script w y =>
    Prod.ext rfl (Prod.ext (Containers.find?_serve_of_ne (by simp [Call.target?]) _ _) rfl)
  have hreply : ∀ failure (cs cs' : Containers),
      (Containers.serve ⟨[], failure⟩ .reconcile cs).1 =
        (Containers.serve ⟨[], failure⟩ .reconcile cs').1 := by
    intro failure cs cs'
    match failure with
    | none | some (true, _) | some (false, _) => rfl
  refine .atomic fun s t hst => ⟨congrArg Reply.toExcept ?_,
    hI s t _ _ hst (hpart script s) rfl (hpart script' t) rfl⟩
  refine (hreply _ s.runtime.containers t.runtime.containers).trans ?_
  simp only [Script.runtime, Script.failure, Call.target?, hwhole]
  rfl

theorem visit_congr {ρ ψ : Type} [Inhabited ψ] (R : Runtime ρ ψ)
    (hclock : sweep'.clock = sweep.clock) : visit R sweep' = visit R sweep := by
  obtain ⟨clock, order, perm⟩ := sweep
  obtain ⟨clock', order', perm'⟩ := sweep'
  obtain rfl : clock' = clock := hclock
  rfl

theorem visitContainer_perm {ρ ψ : Type} [Inhabited ψ] (R : Runtime ρ ψ) {ids' : List String}
    (hperm : ids.Perm ids') : visitContainer R ids' = visitContainer R ids := by
  funext container
  simp only [visitContainer, hperm.mem_iff]

/-- A container whose description has no id ends the sweep. -/
theorem visitContainer_of_error {ρ ψ : Type} [Inhabited ψ] {R : Runtime ρ ψ} {e : Ex}
    (h : container.word "id" = .error e) : visitContainer R ids container = Prog.raise e := by
  rw [visitContainer, h]
  rfl

/-- Two orders of the rows. -/
theorem rounds_order (hclock : sweep'.clock = sweep.clock) (inventory : List Json)
    {ids' : List String} (hperm : ids.Perm ids') (hnodup : ids.Nodup) :
    Lockstep (Prog.Same World.part World.tally) (rounds script.runtime sweep inventory ids)
      (rounds script.runtime sweep' inventory ids') := by
  rw [rounds, rounds, visit_congr _ hclock, visitContainer_perm _ hperm]
  refine (Prog.lockstep_forEach_perm (fun x => own_visit rfl sweep) (completes_visit script sweep)
    hperm hnodup).bind fun _ => .bind (.forEach fun container _ => ?_) fun _ =>
      .bind (lockstep_callReconcile rfl ?_) fun _ => (own_exec (.count "" _)).lockstep_same
  · cases hid : container.word "id" with
    | error e =>
      rw [visitContainer_of_error hid]
      exact .raise e
    | ok x => exact (own_visitContainer rfl hid).lockstep_same
  · intro s t s' t' h hs hs' ht ht'
    exact ⟨fun y => by rw [hs, ht, h.parts], by rw [hs', ht', h.tally]⟩

/-- Two scripts that agree about `x`. -/
theorem rounds_isolated (hscript : script'.about x = script.about x)
    (hwhole : script'.whole = script.whole) (sweep : Sweep) (inventory : List Json)
    (ids : List String) :
    Lockstep (fun s t => World.part x s = World.part x t) (rounds script.runtime sweep inventory ids)
      (rounds script'.runtime sweep inventory ids) := by
  refine .bind (.forEach fun y _ => ?_) fun _ => .bind (.forEach fun container _ => ?_) fun _ =>
    .bind (lockstep_callReconcile hwhole ?_) fun _ => (own_exec (.count x _)).lockstep_part
  · by_cases hy : x = y
    · subst hy
      exact (own_visit hscript sweep).lockstep_part
    · exact Prog.Local.elsewhere hy (own_visit rfl sweep) (own_visit rfl sweep)
        (completes_visit script sweep y) (completes_visit script' sweep y)
  · cases hid : container.word "id" with
    | error e =>
      rw [visitContainer_of_error hid, visitContainer_of_error hid]
      exact .raise e
    | ok y =>
      by_cases hy : x = y
      · subst hy
        exact (own_visitContainer hscript hid).lockstep_part
      · exact Prog.Local.elsewhere hy (own_visitContainer rfl hid) (own_visitContainer rfl hid)
          (completes_visitContainer script ids hid) (completes_visitContainer script' ids hid)
  · intro s t s' t' h hs _ ht _
    rw [hs, ht, h]

/-- A record is seen from its own sandbox. -/
theorem record_ext {o o' : Option Record}
    (h : ∀ x, o.filter (·.sandboxId = x) = o'.filter (·.sandboxId = x)) : o = o' := by
  cases o with
  | none =>
    cases o' with
    | none => rfl
    | some rec => simpa [Option.filter] using h rec.sandboxId
  | some rec =>
    have hrec := h rec.sandboxId
    cases o' with
    | none => simp [Option.filter] at hrec
    | some rec' =>
      by_cases hid : rec'.sandboxId = rec.sandboxId
      · simpa [Option.filter, hid] using hrec
      · simp [Option.filter, hid] at hrec

/-- **A sweep does not depend on the order of the rows, and it isolates failures.**  For every script
of failures, two sweeps from one world that read the rows in different orders leave the same rows in
`sandboxes`, `lifecycle_requests` and `sandbox_images`, the same counters and the same containers.
And a script that agrees about the requests of `x`, whatever it says about those of the other
sandboxes, leaves `x` the same: its row, its image reference, its records and its container. -/
theorem reconcile_independent (script : Script) (sweep sweep' : Sweep)
    (hclock : sweep'.clock = sweep.clock) (w : World Scripted) :
    (let w₁ := (reconcile script.runtime sweep w []).state
     let w₂ := (reconcile script.runtime sweep' w []).state
     w₁.journal.sandboxes.rows.Perm w₂.journal.sandboxes.rows ∧
       w₁.journal.requests.rows.Perm w₂.journal.requests.rows ∧
       w₁.journal.sandboxImages.rows.Perm w₂.journal.sandboxImages.rows ∧
       w₁.journal.counters = w₂.journal.counters ∧
       w₁.runtime.containers.rows.Perm w₂.runtime.containers.rows) ∧
    ∀ (x : String) (script' : Script), script'.about x = script.about x →
      script'.whole = script.whole →
      let w₁ := (reconcile script.runtime sweep w []).state
      let w₂ := (reconcile script'.runtime sweep' w []).state
      w₁.journal.sandboxes.find? x = w₂.journal.sandboxes.find? x ∧
        w₁.journal.sandboxImages.find? x = w₂.journal.sandboxImages.find? x ∧
        (∀ key, (w₁.journal.requests.find? key).filter (·.sandboxId = x) =
          (w₂.journal.requests.find? key).filter (·.sandboxId = x)) ∧
        w₁.runtime.containers.find? x = w₂.runtime.containers.find? x := by
  have horder : ∀ script : Script, Prog.Same World.part World.tally
      (reconcile script.runtime sweep w []).state (reconcile script.runtime sweep' w []).state :=
    fun script => reconcile_lockstep Prog.Same.refl rfl (fun inventory live hnodup =>
      rounds_order hclock inventory ((sweep.perm live).trans (sweep'.perm live).symm)
        ((sweep.perm live).nodup_iff.mpr hnodup)) w
  refine ⟨?_, fun x script' hscript hwhole => ?_⟩
  · obtain ⟨hparts, htally⟩ := horder script
    exact ⟨Table.rows_perm_of_find?_eq fun x => congrArg (·.1.1) (hparts x),
      Table.rows_perm_of_find?_eq fun key => record_ext fun x =>
        congrFun (congrArg (·.1.2.2) (hparts x)) key,
      Table.rows_perm_of_find?_eq fun x => congrArg (·.1.2.1) (hparts x), htally,
      Table.rows_perm_of_find?_eq fun x => congrArg (·.2.1) (hparts x)⟩
  · have hisolated : World.part x (reconcile script.runtime sweep w []).state =
        World.part x (reconcile script'.runtime sweep w []).state :=
      reconcile_lockstep (I := fun s t => World.part x s = World.part x t) (fun _ => rfl) hwhole
        (fun inventory live _ => rounds_isolated hscript hwhole sweep inventory _) w
    have hpart := hisolated.trans ((horder script').parts x)
    exact ⟨congrArg (·.1.1) hpart, congrArg (·.1.2.1) hpart,
      fun key => congrFun (congrArg (·.1.2.2) hpart) key, congrArg (·.2.1) hpart⟩

/-! Two creates are pending, and the requests of one of them get lost. -/

/-- The world with two pending creates. -/
def Sample.pair : World Scripted where
  journal :=
    { Journal.empty with
      sandboxes := ⟨[("a", .fresh Sample.config none), ("b", .fresh Sample.config none)], by decide⟩ }
  fibers := .none
  runtime := ⟨.empty, fun _ => []⟩
  sent := []
  last := none

/-- Nothing fails. -/
def Sample.smooth : Script := ⟨fun _ _ => none, fun _ => none⟩

/-- The answers about `b` get lost. -/
def Sample.deaf : Script :=
  ⟨fun x _ => if x = "b" then some (true, .lost "timeout") else none, fun _ => none⟩

/-- The rows come in the other order. -/
def Sample.backward : Sweep := ⟨Sample.sweep.clock, List.reverse, List.reverse_perm⟩

theorem reconcile_independent_pair :
    Sample.backward.clock = Sample.sweep.clock ∧
    (reconcile Sample.deaf.runtime Sample.sweep Sample.pair []).state.journal.counters =
      (reconcile Sample.deaf.runtime Sample.backward Sample.pair []).state.journal.counters ∧
    (reconcile Sample.smooth.runtime Sample.sweep Sample.pair []).state.journal.sandboxes.find? "a" =
      (reconcile Sample.deaf.runtime Sample.backward Sample.pair []).state.journal.sandboxes.find?
        "a" :=
  ⟨rfl, (reconcile_independent Sample.deaf Sample.sweep Sample.backward rfl Sample.pair).1.2.2.2.1,
    ((reconcile_independent Sample.smooth Sample.sweep Sample.backward rfl Sample.pair).2 "a"
      Sample.deaf rfl rfl).1⟩

example : (reconcile Sample.deaf.runtime Sample.sweep Sample.pair []).state.journal.counters
    "reconcile_failures" = 1 := by decide +kernel

end Reliability

end Sandcube
