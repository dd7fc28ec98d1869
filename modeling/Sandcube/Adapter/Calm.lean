import Sandcube.Adapter.Beside

/-!
# Operations in which nothing fails

`calm` is the environment in which no call fails and the adapter does not die; the background steps
are still its choice.  `Completes` says that an operation returns there.
-/

namespace Sandcube.Adapter

open Prog (Does)

/-- No call fails and the adapter does not die. -/
def calm (May : Back → Prop) : Adversary Env where
  May
    | .go env => env.fault = none ∧ ∀ b ∈ env.background, May b
    | .crash | .crashAfter _ => False
  may_default := ⟨rfl, nofun⟩

theorem calm_gentle (May : Back → Prop) : (calm May).Gentle := by
  intro t ht hfatal
  cases t with
  | go env => exact hfatal
  | crash | crashAfter env => exact ht

/-- In a calm environment the operation returns, and the postcondition holds. -/
abbrev Completes {α : Type} (May : Back → Prop) (P : World → Prop) (p : Op α)
    (Q : α → World → Prop) : Prop :=
  Does (calm May) (fun _ _ => True) P p Q fun _ _ => False

section Rules

variable {host : Host} {May : Back → Prop} {P : World → Prop} {α : Type} {Q : α → World → Prop}
variable {M : World → World → Prop} {f : World → Except Err α}

theorem Completes.returns {p : Op α} (h : Completes May P p Q) {w : World}
    {fates : List (Fate Env)} (hfates : (calm May).Allows fates) (hw : P w) :
    ∃ a, (p w fates).outcome = .ok a ∧ Q a (p w fates).state := by
  rcases h.survives hfates hw (calm_gentle May) with hok | ⟨e, -, hfalse⟩
  · exact hok
  · exact hfalse.elim

/-- A call that cannot be refused. -/
theorem completes_call {f : Time → World → Except Err α × World} (hP : Steady host May P)
    (hok : ∀ now w, P w → ∃ a, (f now w).1 = .ok a ∧ Q a (f now w).2) :
    Completes May P (call host f) Q := by
  have hany : ∀ w w' : World, Relation.ReflTransGen (fun _ _ : World => True) w w' :=
    fun _ _ => .single trivial
  refine .atomic (fun _ _ _ _ => hany _ _) ?_ ?_
  · rintro w env a hw ⟨hfault, hback⟩ ha
    obtain ⟨a', ha', hQ⟩ := hok env.now _ (hP.pass hback hw)
    rw [hfault] at ha ⊢
    obtain rfl := Except.ok.inj (ha.symm.trans ha')
    exact hQ
  · rintro w env e hw ⟨hfault, hback⟩ he
    obtain ⟨a', ha', -⟩ := hok env.now _ (hP.pass hback hw)
    rw [hfault] at he
    cases he.symm.trans ha'

/-- A query in a calm environment gets its answer.  The steps of the operation are those of `M`. -/
theorem calm_ask {R : Err → World → Prop} (hM : Open host May M) (hP : Steady host May P)
    (hok : ∀ w a, P w → f w = .ok a → Q a w) (herr : ∀ w e, P w → f w = .error e → R e w) :
    Does (calm May) M P (query host f) Q R := by
  unfold query call
  refine .atomic ?_ ?_ ?_
  · rintro w env hw (⟨hfault, hback⟩ | hnever)
    · rw [hfault]
      exact hM.pass hback w
    · exact hnever.elim
  · rintro w env a hw ⟨hfault, hback⟩ ha
    rw [hfault] at ha ⊢
    exact hok _ a (hP.pass hback hw) ha
  · rintro w env e hw ⟨hfault, hback⟩ he
    rw [hfault] at he ⊢
    exact herr _ e (hP.pass hback hw) he

/-- A query that is answered. -/
theorem calm_query (hM : Open host May M) (hP : Steady host May P)
    (hok : ∀ w, P w → ∃ a, f w = .ok a ∧ Q a w) :
    Does (calm May) M P (query host f) Q fun _ _ => False := by
  refine calm_ask hM hP ?_ ?_
  · intro w a hw ha
    obtain ⟨a', ha', hQ⟩ := hok w hw
    obtain rfl := Except.ok.inj (ha.symm.trans ha')
    exact hQ
  · intro w e hw he
    obtain ⟨a', ha', -⟩ := hok w hw
    cases he.symm.trans ha'

theorem completes_query (hP : Steady host May P) (hok : ∀ w, P w → ∃ a, f w = .ok a ∧ Q a w) :
    Completes May P (query host f) Q :=
  calm_query (fun _ _ _ => trivial) hP hok

/-- A query that is refused. -/
theorem refused_query {R : Err → World → Prop} (hP : Steady host May P)
    (herr : ∀ w, P w → ∃ e, f w = .error e ∧ R e w) :
    Does (calm May) (fun _ _ => True) P (query host f) (fun _ _ => False) R := by
  refine calm_ask (fun _ _ _ => trivial) hP ?_ ?_
  · intro w a hw ha
    obtain ⟨e, he, -⟩ := herr w hw
    cases ha.symm.trans he
  · intro w e hw he
    obtain ⟨e', he', hR⟩ := herr w hw
    obtain rfl := Except.error.inj (he.symm.trans he')
    exact hR

theorem completes_effect {f : World → World} {Q : Unit → World → Prop} (hP : Steady host May P)
    (hok : ∀ w, P w → Q () (f w)) : Completes May P (effect host f) Q :=
  completes_call hP fun _ w hw => ⟨(), rfl, hok w hw⟩

theorem calm_look {f : World → α} (hM : Open host May M) (hP : Steady host May P)
    (hok : ∀ w, P w → Q (f w) w) : Does (calm May) M P (look host f) Q fun _ _ => False := by
  refine .atomic ?_ ?_ ?_
  · rintro w env hw (⟨-, hback⟩ | hnever)
    · exact hM.pass hback w
    · exact hnever.elim
  · rintro w env a hw ⟨-, hback⟩ ha
    obtain rfl := Except.ok.inj ha
    exact hok _ (hP.pass hback hw)
  · intro w env e _ _ he
    cases he

/-! ### Background steps alone -/

/-- One background step. -/
def BackStep (host : Host) (May : Back → Prop) (w w' : World) : Prop :=
  ∃ b, May b ∧ w' = w.back host b

theorem exists_pass {w w' : World} (h : Relation.ReflTransGen (BackStep host May) w w') :
    ∃ steps, (∀ b ∈ steps, May b) ∧ w' = w.pass host steps := by
  induction h with
  | refl => exact ⟨[], nofun, rfl⟩
  | tail _ hlast ih =>
    obtain ⟨steps, hsteps, rfl⟩ := ih
    obtain ⟨b, hb, rfl⟩ := hlast
    refine ⟨steps ++ [b], ?_, ?_⟩
    · intro b' hb'
      rcases List.mem_append.mp hb' with hb' | hb'
      · exact hsteps b' hb'
      · rw [List.mem_singleton.mp hb']
        exact hb
    · unfold World.pass
      rw [List.foldl_append]
      rfl

/-! ### Operations that nothing disturbs -/

/-- Nothing happens beside the operation, and nothing fails. -/
abbrev undisturbed : Adversary Env := calm fun _ => False

section Undisturbed

variable {fs : List (Fate Env)}

theorem granted_undisturbed (h : undisturbed.Allows fs) :
    ∃ env fs', Prog.granted fs = some (env, fs') ∧ env.fault = none ∧ env.background = [] ∧
      undisturbed.Allows fs' := by
  cases fs with
  | nil => exact ⟨default, [], rfl, rfl, rfl, h⟩
  | cons t fs =>
    obtain ⟨ht, hrest⟩ := Adversary.allows_cons.mp h
    cases t with
    | go env =>
      refine ⟨env, fs, rfl, ht.1, ?_, hrest⟩
      exact List.eq_nil_iff_forall_not_mem.mpr ht.2
    | crash | crashAfter env => exact ht.elim

theorem query_undisturbed (host : Host) (w : World) (h : undisturbed.Allows fs)
    (f : World → Except Err α) :
    ∃ fs', undisturbed.Allows fs' ∧ query host f w fs = Prog.ofExcept (f w) w fs' := by
  obtain ⟨env, fs', hgranted, hfault, hback, hfs'⟩ := granted_undisturbed h
  refine ⟨fs', hfs', ?_⟩
  unfold query call
  rw [Prog.atomic_apply hgranted, hfault, hback]
  rfl

theorem look_undisturbed (host : Host) (w : World) (h : undisturbed.Allows fs) (f : World → α) :
    ∃ fs', undisturbed.Allows fs' ∧ look host f w fs = ⟨.ok (f w), w, fs'⟩ := by
  obtain ⟨env, fs', hgranted, hfault, hback, hfs'⟩ := granted_undisturbed h
  refine ⟨fs', hfs', ?_⟩
  unfold look
  rw [Prog.atomic_apply hgranted, hback]
  rfl

theorem update_undisturbed (host : Host) (w : World) (h : undisturbed.Allows fs)
    (f : Time → World → World) :
    ∃ now fs', undisturbed.Allows fs' ∧ update host f w fs = ⟨.ok (), f now w, fs'⟩ := by
  obtain ⟨env, fs', hgranted, hfault, hback, hfs'⟩ := granted_undisturbed h
  refine ⟨env.now, fs', hfs', ?_⟩
  unfold update
  rw [Prog.atomic_apply hgranted, hback]
  rfl

end Undisturbed

end Rules

end Sandcube.Adapter
