import Sandcube.Adapter.NetworkSafety
import Sandcube.Adapter.QuotaSafety

/-!
# Deletion is complete and can be repeated

`Delete` has two bodies: with a container it stops the sandbox and takes it apart, without one it
looks for what an interrupted operation has left.  Both end with nothing of the sandbox.

What a `Delete` does where nothing is left is a matter of looking only: `Passes` are the programs
whose steps are all background steps.
-/

open Relation

namespace Sandcube.Adapter

open Prog (Does)

variable {host : Host} {May : Back → Prop} {id : String} {w : World}

/-! ### Programs that only look -/

/-- Whatever happens, the program itself changes nothing; in a calm environment it ends as `Q` and
`R` say. -/
structure Passes {α : Type} (host : Host) (May : Back → Prop) (P : World → Prop) (p : Op α)
    (Q : α → World → Prop) (R : Err → World → Prop) : Prop where
  quiet : Does (within May) (BackStep host May) P p Q unknown
  ends : Does (calm May) (fun _ _ => True) P p Q R

namespace Passes

variable {α β : Type} {P P' : World → Prop} {Q Q' : α → World → Prop} {R : Err → World → Prop}

theorem open_backStep : Open host May (BackStep host May) := fun _ b hb => ⟨b, hb, rfl⟩

theorem pure {a : α} (h : ∀ w, P w → Q a w) : Passes host May P (pure a) Q R :=
  ⟨.pure h, .pure h⟩

theorem raise {e : Err} (h : ∀ w, P w → R e w) : Passes host May P (Prog.raise e) Q R :=
  ⟨.raise fun _ _ => trivial, .raise h⟩

theorem bind {p : Op α} {k : α → Op β} {Q' : β → World → Prop} (h : Passes host May P p Q R)
    (hk : ∀ a, Passes host May (Q a) (k a) Q' R) : Passes host May P (p >>= k) Q' R :=
  ⟨.bind h.quiet fun a => (hk a).quiet, .bind h.ends fun a => (hk a).ends⟩

theorem assuming {C : Prop} {p : Op α} (hC : ∀ w, P w → C) (h : C → Passes host May P p Q R) :
    Passes host May P p Q R :=
  ⟨.assuming hC fun hc => (h hc).quiet, .assuming hC fun hc => (h hc).ends⟩

theorem conseq {p : Op α} (h : Passes host May P' p Q' R) (hP : ∀ w, P w → P' w)
    (hQ : ∀ a w, Q' a w → Q a w) : Passes host May P p Q R :=
  ⟨h.quiet.conseq hP hQ fun _ _ hw => hw, h.ends.conseq hP hQ fun _ _ hw => hw⟩

section

variable (hP : Steady host May P)
include hP

/-- A question that has an answer. -/
theorem query {f : World → α} :
    Passes host May P (query host fun w => .ok (f w)) (fun a w => a = f w ∧ P w) R where
  quiet := does_query open_backStep hP (fun _ _ hw ha => ⟨(Except.ok.inj ha).symm, hw⟩)
    (fun _ _ _ _ => trivial) fun _ _ _ => trivial
  ends := calm_ask (fun _ _ _ => trivial) hP (fun _ _ hw ha => ⟨(Except.ok.inj ha).symm, hw⟩)
    fun _ _ _ he => nomatch he

theorem look {f : World → α} : Passes host May P (look host f) (fun a w => a = f w ∧ P w) R where
  quiet := does_look open_backStep hP fun _ hw => ⟨rfl, hw⟩
  ends := (calm_look (Q := fun a w => a = f w ∧ P w) (fun _ _ _ => trivial) hP
    fun _ hw => ⟨rfl, hw⟩).relax fun _ _ hw => hw.elim

/-- A look for something that may be missing. -/
theorem optional {f : World → Option α} : Passes host May P
      (optional (Adapter.query host fun w => (f w).elim (.error .notFound) .ok))
      (fun a w => a = f w ∧ P w) R := by
  have hok : ∀ (w : World) a, P w →
      (f w).elim (.error .notFound) .ok = (.ok a : Except Err α) → some a = f w ∧ P w := by
    intro w a hw ha
    cases hf : f w with
    | none => rw [hf] at ha; cases ha
    | some a' => rw [hf] at ha; exact ⟨congrArg some (Except.ok.inj ha).symm, hw⟩
  have herr : ∀ (w : World) e, P w →
      (f w).elim (.error .notFound) .ok = (.error e : Except Err α) →
      e = .notFound ∧ none = f w ∧ P w := by
    intro w e hw he
    cases hf : f w with
    | none => rw [hf] at he; exact ⟨(Except.error.inj he).symm, rfl, hw⟩
    | some a' => rw [hf] at he; cases he
  constructor
  · refine does_ifNotFound (E := fun e w => e = .notFound → none = f w ∧ P w)
      (.bind (K := fun a w => some a = f w ∧ P w) (does_query open_backStep hP hok
        (fun w e hw he _ => (herr w e hw he).2) fun _ _ _ => nofun) fun a => .pure fun _ hw => hw)
      (.pure fun _ hw => hw rfl) fun _ _ _ _ => trivial
  · refine .rescue (E := fun e w => e = .notFound ∧ none = f w ∧ P w)
      (.bind (K := fun a w => some a = f w ∧ P w) (calm_ask (fun _ _ _ => trivial) hP hok herr)
        fun a => .pure fun _ hw => hw) fun e => ?_
    refine .assuming (fun _ hw => hw.1) fun he => ?_
    rw [if_pos he]
    exact .pure fun _ hw => hw.2

/-- A change that is none here. -/
theorem effect {f : World → World} (hf : ∀ w, P w → f w = w) :
    Passes host May P (effect host f) (fun _ => P) R where
  quiet := by
    refine does_effect open_backStep hP (fun w hw => ?_) (fun w hw => ?_) (fun _ _ _ => trivial)
      fun _ _ _ => trivial
    · rw [hf w hw]
    · rw [hf w hw]; exact hw
  ends := by
    refine (completes_effect hP fun w hw => ?_).relax fun _ _ hw => hw.elim
    rw [hf w hw]
    exact hw

theorem update {f : Time → World → World}
    (hf : ∀ now w, P w → f now w = w) : Passes host May P (update host f) (fun _ => P) R where
  quiet := by
    refine does_update open_backStep hP (fun now w hw => ?_) fun now w hw => ?_
    · rw [hf now w hw]
    · rw [hf now w hw]; exact hw
  ends := by
    refine .atomic (fun _ _ _ _ => .single trivial) ?_ (fun _ _ _ _ _ he => nomatch he)
    rintro w env a hw ⟨-, hback⟩ -
    dsimp only
    rw [hf _ _ (hP.pass hback hw)]
    exact hP.pass hback hw

end

/-- What is left after the program: what background steps have made of the state. -/
theorem pass {p : Op α} (h : Passes host May P p Q R) {fates : List (Fate Env)} (hw : P w)
    (hfates : (within May).Allows fates) :
    ∃ steps, (∀ b ∈ steps, May b) ∧ (p w fates).state = w.pass host steps :=
  exists_pass (h.quiet.steps hfates hw)

end Passes

/-! ### Nothing is left -/

/-- Nothing of the sandbox is left. -/
structure Deleted (host : Host) (id : String) (w : World) : Prop where
  container : w.containerd.containers.find? id = none
  snapshot : ∀ s, w.containerd.snapshots.find? id = some s → s.managed = false
  journal : w.quota.journals.find? id = none
  network : Bare host id w
  history : id ∉ w.history.homes ∧ ∀ k ∈ w.history.dirs.keys, k.1 ≠ id
  registry : ∀ pid, w.lookupProcess id pid = none

namespace Deleted

section

variable (h : Deleted host id w)
include h

theorem registered : w.registered id = [] := by
  refine List.filter_eq_nil_iff.mpr fun a ha => ?_
  obtain ⟨⟨pid, a'⟩, hrow, rfl⟩ := List.mem_map.mp ha
  have hfind := (Table.find?_eq_some_iff_mem _ _ _).mpr hrow
  cases hobj : w.object? a' with
  | none => simp
  | some p =>
    intro hmine
    have hfound : w.lookupProcess id pid = some (a', p) :=
      World.lookupProcess_eq_some.mpr ⟨hfind, hobj, of_decide_eq_true hmine⟩
    rw [h.registry pid] at hfound
    cases hfound

theorem unregister : World.unregister id w = w := by
  have hregistry : w.memory.registry.eraseWhere (fun pid => (w.lookupProcess id pid).isSome) =
      w.memory.registry := by
    refine Table.ext (List.filter_eq_self.mpr fun row _ => ?_)
    dsimp only
    rw [h.registry row.1]
    rfl
  unfold World.unregister
  rw [hregistry]

theorem eraseHome : w.eraseHome id = w := by
  have hhomes : w.history.homes.filter (· ≠ id) = w.history.homes := by
    refine List.filter_eq_self.mpr fun home hhome => decide_eq_true ?_
    rintro rfl
    exact h.history.1 hhome
  unfold World.eraseHome
  rw [hhomes]

theorem keys : (w.history.dirs.keys.filter fun k => k.1 = id) = [] :=
  List.filter_eq_nil_iff.mpr fun k hk hid => h.history.2 k hk (of_decide_eq_true hid)

theorem unmanaged : w.managed? id = none :=
  World.unmanaged_of_absent h.container

end

end Deleted

theorem steady_deleted : Steady host May (Deleted host id) := by
  refine .of_beside fun w w' h hw => ⟨?_, ?_, ?_, ?_, ?_, fun pid => h.lookup_none (hw.registry pid)⟩
  · rw [h.containers]; exact hw.container
  · rw [h.snapshots]; exact hw.snapshot
  · rw [h.journals]; exact hw.journal
  · exact hw.network.beside h
  · rw [h.homes, h.dirKeys]; exact hw.history

/-! ### `Delete` where nothing is left -/

section Again

variable {R : Err → World → Prop}

theorem passes_clearSnapshot :
    Passes host May (Deleted host id) (clearSnapshot host id false) (fun _ => Deleted host id) R := by
  refine .bind (.query steady_deleted) fun found => ?_
  cases found with
  | none => exact .pure fun _ hw => hw.2
  | some s =>
    refine .assuming (fun w hw => hw.2.snapshot s hw.1.symm) fun hs => ?_
    dsimp only
    rw [if_neg (by simp [hs])]
    exact .pure fun _ hw => hw.2

theorem passes_reclaimQuota (polls : ℕ) :
    Passes host May (Deleted host id) (reclaimQuota host id polls) (fun _ => Deleted host id) R := by
  refine .bind (.query steady_deleted) fun found => ?_
  refine .assuming (fun w hw => hw.1.trans hw.2.journal) fun hfound => ?_
  subst hfound
  exact .pure fun _ hw => hw.2

theorem passes_settleProcesses :
    Passes host May (Deleted host id) (settleProcesses host id) (fun _ => Deleted host id) R := by
  refine .bind (.look steady_deleted) fun ps => ?_
  refine .assuming (fun w hw => hw.1.trans hw.2.registered) fun hps => ?_
  subst hps
  exact .pure fun _ hw => hw.2

theorem passes_removeNetwork :
    Passes host May (Deleted host id) (removeNetwork host id) (fun _ => Deleted host id) R := by
  refine .bind (.query steady_deleted) fun _ => ?_
  refine .bind ((Passes.query steady_deleted).conseq (fun _ hw => hw.2) fun _ _ hw => hw)
    fun found => ?_
  refine .assuming (fun w hw => hw.1.trans hw.2.network.record) fun hfound => ?_
  subst hfound
  exact .pure fun _ hw => hw.2

theorem passes_forgetProcesses :
    Passes host May (Deleted host id) (forgetProcesses host id) (fun _ => Deleted host id) R := by
  refine .bind ?_ fun _ => .update steady_deleted fun _ _ hw => hw.unregister
  refine .bind (.look steady_deleted) fun ks => ?_
  refine .assuming (fun w hw => hw.1.trans hw.2.keys) fun hks => ?_
  subst hks
  refine .bind (Q := fun _ => Deleted host id) (.pure fun _ hw => hw.2) fun _ => ?_
  exact .effect steady_deleted fun _ hw => hw.eraseHome

theorem passes_delete (polls : ℕ) :
    Passes host May (Deleted host id) (delete host id polls) (fun _ => Deleted host id) R := by
  refine .bind (.optional steady_deleted) fun found => ?_
  refine .assuming (fun w hw => hw.1.trans hw.2.unmanaged) fun hfound => ?_
  subst hfound
  refine .bind ((Passes.optional steady_deleted).conseq (fun _ hw => hw.2) fun _ _ hw => hw)
    fun other => ?_
  refine .assuming (fun w hw => hw.1.trans hw.2.container) fun hother => ?_
  subst hother
  refine .bind (passes_clearSnapshot.conseq (fun _ hw => hw.2) fun _ _ hw => hw) fun _ => ?_
  refine .bind (passes_reclaimQuota polls) fun _ => .bind passes_settleProcesses fun _ => ?_
  exact .bind passes_removeNetwork fun _ => passes_forgetProcesses

end Again

/-! ### Containers of others -/

/-- The identifier is that of a container of someone else. -/
def World.Taken (w : World) (id : String) : Prop :=
  ∃ c, w.containerd.containers.find? id = some c ∧ c.managed = false

theorem steady_taken : Steady host May (World.Taken · id) :=
  steady_quota fun containers _ _ _ => ∃ c, containers.find? id = some c ∧ c.managed = false

theorem World.Taken.unmanaged (h : w.Taken id) : w.managed? id = none := by
  obtain ⟨c, hc, hforeign⟩ := h
  unfold World.managed?
  rw [hc]
  simp [hforeign]

/-- `Delete` stops at a container of someone else. -/
theorem passes_delete_taken (polls : ℕ) :
    Passes host May (World.Taken · id) (delete host id polls) (fun _ _ => False)
      fun e _ => e = .notFound := by
  refine .bind (.optional steady_taken) fun found => ?_
  refine .assuming (fun w hw => hw.1.trans hw.2.unmanaged) fun hfound => ?_
  subst hfound
  refine .bind ((Passes.optional steady_taken).conseq (fun _ hw => hw.2) fun _ _ hw => hw)
    fun other => ?_
  cases other with
  | some c => exact .raise fun _ _ => rfl
  | none =>
    refine .assuming (C := False) (fun w hw => ?_) False.elim
    obtain ⟨c, hc, -⟩ := hw.2
    rw [← hw.1] at hc
    cases hc

/-! ### The result -/

/-- The first body of `Delete` removes the snapshot of the container, which is that of the sandbox. -/
theorem Owning.snapshotOf (h : Owning w) (id : String) : w.snapshotOf id = id := by
  unfold World.snapshotOf
  cases hc : w.managed? id with
  | none => rfl
  | some c => exact (h.container id c hc).1

theorem deleted_of_delete {S : Setting} (hname : Function.Injective S.host.networkName)
    (hw : Reachable S w) {polls : ℕ} {fates : List (Fate Env)}
    (ha : S.Ok w (.request (.delete id polls) fates))
    (hok : (delete S.host id polls w fates).outcome = .ok ()) :
    Deleted S.host id (delete S.host id polls w fates).state := by
  obtain ⟨hforgotten, hcleared⟩ := (runs_deleted id polls id).ok ha.2.2.2.2
    ⟨hw.standing.rest, hw.owning.snapshotOf id⟩ hok
  have hfencing : Fencing S.host (delete S.host id polls w fates).state :=
    Reachable.fencing hname (hw.later (Setting.Later.of_request (r := .delete id polls) ha hok))
  exact ⟨hcleared.absent, hcleared.unlabelled, hcleared.unclaimed, hfencing.bare hcleared.unwired,
    ⟨hforgotten.home, hforgotten.dirs⟩, hforgotten.registry⟩

/-- **Deletion is complete and can be repeated.**  Whatever earlier operations and crashes have left,
a `Delete` that returns without an error leaves no container, snapshot, journal, network object,
history or registered process of the sandbox.  A further `Delete` changes nothing, and returns
without an error unless something fails.  Where the identifier is that of a container of someone
else, `Delete` changes nothing and never succeeds; unless something fails its answer is "not
found". -/
theorem delete_complete {S : Setting} (hname : Function.Injective S.host.networkName)
    (hw : Reachable S w) (id : String) (polls : ℕ) (fates : List (Fate Env))
    (ha : S.Ok w (.request (.delete id polls) fates)) :
    ((delete S.host id polls w fates).outcome = .ok () →
      Deleted S.host id (delete S.host id polls w fates).state ∧
      ∀ May polls' fates', (within May).Allows fates' →
        (∃ steps, (∀ b ∈ steps, May b) ∧
          (delete S.host id polls' (delete S.host id polls w fates).state fates').state =
            (delete S.host id polls w fates).state.pass S.host steps) ∧
        ((calm May).Allows fates' →
          (delete S.host id polls' (delete S.host id polls w fates).state fates').outcome =
            .ok ())) ∧
    (∀ c, w.containerd.containers.find? id = some c → c.managed = false →
      (∃ steps, (∀ b ∈ steps, S.May b) ∧
        (delete S.host id polls w fates).state = w.pass S.host steps) ∧
      (delete S.host id polls w fates).outcome ≠ .ok () ∧
      ((calm S.May).Allows fates →
        (delete S.host id polls w fates).outcome = .raised .notFound)) := by
  constructor
  · intro hok
    have hdeleted := deleted_of_delete hname hw ha hok
    refine ⟨hdeleted, fun May polls' fates' hfates' => ?_⟩
    have hagain : Passes S.host May (Deleted S.host id) (delete S.host id polls')
        (fun _ => Deleted S.host id) fun _ _ => False := passes_delete polls'
    refine ⟨hagain.pass hdeleted hfates', fun hcalm => ?_⟩
    obtain ⟨_, hreturns, -⟩ := Completes.returns hagain.ends hcalm hdeleted
    exact hreturns
  · intro c hc hforeign
    have htaken : w.Taken id := ⟨c, hc, hforeign⟩
    have hstops : Passes S.host S.May (World.Taken · id) (delete S.host id polls)
        (fun _ _ => False) fun e _ => e = .notFound := passes_delete_taken polls
    refine ⟨hstops.pass htaken ha.2.2.2.2, fun hok => ?_, fun hcalm => ?_⟩
    · exact hstops.quiet.ok ha.2.2.2.2 htaken hok
    · rcases hstops.ends.survives hcalm htaken (calm_gentle S.May) with ⟨_, -, hfalse⟩ | ⟨e, he, rfl⟩
      · exact hfalse.elim
      · exact he

/-- The adapter dies in a `Delete` when the snapshot is gone and the container is not. -/
def interruptedActs : List Act :=
  startedActs ++
    [.request (.delete "sbx_a" 1) (List.replicate 23 (.go default) ++ [.crash]), .boot 1 []]

/-- What the interrupted `Delete` has left is gone after the next one, and the one after that changes
nothing. -/
theorem delete_complete_interrupted :
    ((runFrom .plain interruptedActs).managed? "sbx_a").isSome ∧
    (runFrom .plain interruptedActs).containerd.snapshots.find? "sbx_a" = none ∧
    Deleted .plain "sbx_a" (delete .plain "sbx_a" 1 (runFrom .plain interruptedActs) []).state ∧
    (delete .plain "sbx_a" 1 (delete .plain "sbx_a" 1 (runFrom .plain interruptedActs) []).state
      []).outcome = .ok () := by
  have hreach : Reachable (.of .plain (fun _ => true) fun _ => true)
      (runFrom .plain interruptedActs) := reachable_run (by decide +kernel)
  have hserving : (runFrom .plain interruptedActs).memory.serving = true := by decide +kernel
  have hok : (delete .plain "sbx_a" 1 (runFrom .plain interruptedActs) []).outcome = .ok () := by
    decide +kernel
  obtain ⟨hdeleted, hagain⟩ :=
    (delete_complete (S := .of .plain (fun _ => true) fun _ => true) (fun _ _ h => h) hreach "sbx_a"
      1 [] ⟨hserving, by decide +kernel, rfl, trivial, Adversary.allows_nil _⟩).1 hok
  refine ⟨by decide +kernel, by decide +kernel, hdeleted, ?_⟩
  exact (hagain (fun _ => True) 1 [] (Adversary.allows_nil _)).2 (Adversary.allows_nil _)

end Sandcube.Adapter
