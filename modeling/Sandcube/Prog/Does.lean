import Sandcube.Prog.Basic

/-!
# A program logic with crashes

A program logic for programs that can be killed between any two steps.

`Does A M P p Q R` says: started in a state that satisfies `P`, against any fates the
adversary `A` may choose, the program `p` changes the store only by steps of the relation
`M`, and it ends in a state that satisfies `Q a` when it returns `a`, in one that
satisfies `R e` when it raises `e`, and it is killed only if the adversary may kill.

The relation `M` holds of every single step on the way, also of the steps before a crash:
a property that every step of `M` preserves holds in every state the program passes
through, whatever point it is killed at.  With `M` the full relation the judgement is an
ordinary Hoare triple.
-/

open Relation

/-- The fates an environment may choose.  The default fate, which every step falls back on,
is always among them. -/
structure Adversary (φ : Type) [Inhabited φ] where
  May : Fate φ → Prop
  may_default : May (.go default)

namespace Adversary

variable {φ : Type} [Inhabited φ]

/-- The environment that may do anything. -/
def any : Adversary φ := ⟨fun _ => True, trivial⟩

/-- Every fate of the list is one the adversary may choose. -/
def Allows (A : Adversary φ) (fs : List (Fate φ)) : Prop := ∀ t ∈ fs, A.May t

theorem allows_nil (A : Adversary φ) : A.Allows [] := fun _ h => nomatch h

theorem allows_cons {A : Adversary φ} {t : Fate φ} {fs : List (Fate φ)} :
    A.Allows (t :: fs) ↔ A.May t ∧ A.Allows fs :=
  List.forall_mem_cons

theorem allows_any (fs : List (Fate φ)) : (any : Adversary φ).Allows fs := fun _ _ => trivial

/-- An adversary that never kills the process. -/
def Gentle (A : Adversary φ) : Prop := ∀ t, A.May t → ¬ t.Fatal

end Adversary

namespace Prog

variable {σ φ ε α β : Type} [Inhabited φ] {A : Adversary φ} {M : σ → σ → Prop} {P : σ → Prop}

/-- The judgement: see the head of the file. -/
def Does (A : Adversary φ) (M : σ → σ → Prop) (P : σ → Prop) (p : Prog σ φ ε α)
    (Q : α → σ → Prop) (R : ε → σ → Prop) : Prop :=
  ∀ s fs, A.Allows fs → P s →
    A.Allows (p s fs).fates ∧ ReflTransGen M s (p s fs).state ∧
    match (p s fs).outcome with
    | .ok a => Q a (p s fs).state
    | .raised e => R e (p s fs).state
    | .crashed => ¬ A.Gentle

variable {Q Q' : α → σ → Prop} {R R' : ε → σ → Prop} {p : Prog σ φ ε α} {M' : σ → σ → Prop} {s : σ}
  {fs : List (Fate φ)}

/-! ### Structural rules -/

theorem Does.conseq {P' : σ → Prop} (h : Does A M P' p Q' R') (hP : ∀ s, P s → P' s)
    (hQ : ∀ a s, Q' a s → Q a s) (hR : ∀ e s, R' e s → R e s) : Does A M P p Q R := by
  intro s fs hfs hs
  obtain ⟨hfates, hsteps, hend⟩ := h s fs hfs (hP s hs)
  refine ⟨hfates, hsteps, ?_⟩
  cases ho : (p s fs).outcome with
  | ok a => rw [ho] at hend; exact hQ a _ hend
  | raised e => rw [ho] at hend; exact hR e _ hend
  | crashed => rw [ho] at hend; exact hend

theorem Does.pre {P' : σ → Prop} (h : Does A M P' p Q R) (hP : ∀ s, P s → P' s) : Does A M P p Q R :=
  h.conseq hP (fun _ _ h => h) fun _ _ h => h

theorem Does.post (h : Does A M P p Q' R) (hQ : ∀ a s, Q' a s → Q a s) : Does A M P p Q R :=
  h.conseq (fun _ h => h) hQ fun _ _ h => h

theorem Does.relax (h : Does A M P p Q R') (hR : ∀ e s, R' e s → R e s) : Does A M P p Q R :=
  h.conseq (fun _ h => h) (fun _ _ h => h) hR

theorem Does.mono (h : Does A M' P p Q R) (hM : ∀ s s', M' s s' → M s s') :
    Does A M P p Q R := fun s fs hfs hs =>
  let ⟨hfates, hsteps, hend⟩ := h s fs hfs hs
  ⟨hfates, ReflTransGen.mono hM _ _ hsteps, hend⟩

/-- What the precondition says about no state at all may be assumed. -/
theorem Does.assuming {C : Prop} (hC : ∀ s, P s → C) (h : C → Does A M P p Q R) :
    Does A M P p Q R := fun s fs hfs hs => h (hC s hs) s fs hfs hs

/-- Nothing is owed for states that do not occur. -/
theorem Does.never (h : ∀ s, ¬ P s) : Does A M P p Q R :=
  fun s _ _ hs => (h s hs).elim

/-- It is enough to treat the initial states one by one. -/
theorem Does.of_state (h : ∀ s₀, P s₀ → Does A M (· = s₀) p Q R) :
    Does A M P p Q R := fun s fs hfs hs => h s hs s fs hfs rfl

/-- Values that the precondition only says to exist can be fixed. -/
theorem Does.of_exists {ι : Type} {P : ι → σ → Prop} (h : ∀ i, Does A M (P i) p Q R) :
    Does A M (fun s => ∃ i, P i s) p Q R :=
  fun s fs hfs ⟨i, hs⟩ => h i s fs hfs hs

/-- A property that every step of `M` preserves is kept by the whole program, so that its steps
are those that `M` takes from states with the property. -/
theorem Does.keep_mono {I : σ → Prop} (h : Does A M P p Q R) (hI : ∀ s s', I s → M s s' → I s')
    (hM : ∀ s s', I s → M s s' → M' s s') :
    Does A M' (fun s => P s ∧ I s) p (fun a s => Q a s ∧ I s) (fun e s => R e s ∧ I s) := by
  intro s fs hfs hs
  obtain ⟨hfates, hsteps, hend⟩ := h s fs hfs hs.1
  have hkept : ∀ t, ReflTransGen M s t → I t ∧ ReflTransGen M' s t := by
    intro t ht
    induction ht with
    | refl => exact ⟨hs.2, .refl⟩
    | tail _ hstep ih => exact ⟨hI _ _ ih.1 hstep, ih.2.tail (hM _ _ ih.1 hstep)⟩
  obtain ⟨hkept, hsteps⟩ := hkept _ hsteps
  refine ⟨hfates, hsteps, ?_⟩
  cases ho : (p s fs).outcome with
  | ok a | raised e => rw [ho] at hend; exact ⟨hend, hkept⟩
  | crashed => rw [ho] at hend; exact hend

/-- A property that every step of `M` preserves is kept by the whole program. -/
theorem Does.keep {I : σ → Prop} (h : Does A M P p Q R) (hI : ∀ s s', I s → M s s' → I s') :
    Does A M (fun s => P s ∧ I s) p (fun a s => Q a s ∧ I s) (fun e s => R e s ∧ I s) :=
  h.keep_mono hI fun _ _ _ hstep => hstep

/-- Two judgements about one program. -/
theorem Does.and {P' : σ → Prop} (h : Does A M P p Q R) (h' : Does A M' P' p Q' R') :
    Does A M (fun s => P s ∧ P' s) p (fun a s => Q a s ∧ Q' a s) (fun e s => R e s ∧ R' e s) := by
  intro s fs hfs hs
  obtain ⟨hfates, hsteps, hend⟩ := h s fs hfs hs.1
  have hend' := (h' s fs hfs hs.2).2.2
  refine ⟨hfates, hsteps, ?_⟩
  cases ho : (p s fs).outcome with
  | ok a | raised e => rw [ho] at hend hend'; exact ⟨hend, hend'⟩
  | crashed => rw [ho] at hend; exact hend

/-! ### One rule for each combinator -/

theorem Does.pure {a : α} (h : ∀ s, P s → Q a s) : Does A M P (Pure.pure a) Q R :=
  fun s _ hfs hs => ⟨hfs, .refl, h s hs⟩

theorem Does.raise {e : ε} (h : ∀ s, P s → R e s) :
    Does A M P (Prog.raise e : Prog σ φ ε α) Q R :=
  fun s _ hfs hs => ⟨hfs, .refl, h s hs⟩

theorem Does.ofExcept {x : Except ε α} (hok : ∀ a s, x = .ok a → P s → Q a s)
    (herr : ∀ e s, x = .error e → P s → R e s) : Does A M P (Prog.ofExcept x) Q R := by
  cases x with
  | ok a => exact .pure fun s hs => hok a s rfl hs
  | error e => exact .raise fun s hs => herr e s rfl hs

theorem Does.read {f : σ → Except ε α} (hok : ∀ s a, P s → f s = .ok a → Q a s)
    (herr : ∀ s e, P s → f s = .error e → R e s) : Does A M P (Prog.read f) Q R := by
  intro s fs hfs hs
  cases hf : f s with
  | ok a =>
    have : Prog.read f s fs = ⟨.ok a, s, fs⟩ := by simp [Prog.read, hf, Prog.ofExcept, pure_apply]
    rw [this]
    exact ⟨hfs, .refl, hok s a hs hf⟩
  | error e =>
    have : Prog.read f s fs = ⟨.raised e, s, fs⟩ := by
      simp [Prog.read, hf, Prog.ofExcept, raise_apply]
    rw [this]
    exact ⟨hfs, .refl, herr s e hs hf⟩

theorem Does.bind {f : α → Prog σ φ ε β} {K : α → σ → Prop} {Q : β → σ → Prop}
    (hp : Does A M P p K R) (hf : ∀ a, Does A M (K a) (f a) Q R) : Does A M P (p >>= f) Q R := by
  intro s fs hfs hs
  obtain ⟨hfates, hsteps, hend⟩ := hp s fs hfs hs
  rw [bind_apply]
  generalize p s fs = r at hfates hsteps hend
  obtain ⟨o, s', fs'⟩ := r
  cases o with
  | ok a =>
    obtain ⟨hfates', hsteps', hend'⟩ := hf a s' fs' hfates hend
    exact ⟨hfates', hsteps.trans hsteps', hend'⟩
  | raised e | crashed => exact ⟨hfates, hsteps, hend⟩

theorem Does.rescue {handler : ε → Prog σ φ ε α} {E : ε → σ → Prop} (hp : Does A M P p Q E)
    (hh : ∀ e, Does A M (E e) (handler e) Q R) : Does A M P (Prog.rescue p handler) Q R := by
  intro s fs hfs hs
  obtain ⟨hfates, hsteps, hend⟩ := hp s fs hfs hs
  unfold Prog.rescue
  generalize p s fs = r at hfates hsteps hend
  obtain ⟨o, s', fs'⟩ := r
  cases o with
  | ok a => exact ⟨hfates, hsteps, hend⟩
  | raised e =>
    obtain ⟨hfates', hsteps', hend'⟩ := hh e s' fs' hfates hend
    exact ⟨hfates', hsteps.trans hsteps', hend'⟩
  | crashed => exact ⟨hfates, hsteps, hend⟩

theorem Does.ensuring {q : Prog σ φ ε Unit} {K : α → σ → Prop} {E : ε → σ → Prop}
    (hp : Does A M P p K E) (hok : ∀ a, Does A M (K a) q (fun _ => Q a) R)
    (hraised : ∀ e, Does A M (E e) q (fun _ => R e) R) : Does A M P (Prog.ensuring p q) Q R := by
  intro s fs hfs hs
  obtain ⟨hfates, hsteps, hend⟩ := hp s fs hfs hs
  unfold Prog.ensuring
  generalize p s fs = r at hfates hsteps hend
  obtain ⟨o, s', fs'⟩ := r
  cases o with
  | ok a =>
    obtain ⟨hfates', hsteps', hend'⟩ :=
      Does.bind (hok a) (fun _ => .pure fun _ h => h) s' fs' hfates hend
    exact ⟨hfates', hsteps.trans hsteps', hend'⟩
  | raised e =>
    obtain ⟨hfates', hsteps', hend'⟩ :=
      Does.bind (hraised e) (fun _ => .raise fun _ h => h) s' fs' hfates hend
    exact ⟨hfates', hsteps.trans hsteps', hend'⟩
  | crashed => exact ⟨hfates, hsteps, hend⟩

/-- The rule for an atomic step.  What the adversary lets happen (with or without the process
surviving it) has to be a chain of `M`-steps; the postconditions are owed only when the
process survives, but the same argument gives both. -/
theorem Does.atomic {step : φ → σ → Except ε α × σ}
    (hsteps : ∀ s f, P s → (A.May (.go f) ∨ A.May (.crashAfter f)) →
      ReflTransGen M s (step f s).2)
    (hok : ∀ s f a, P s → A.May (.go f) → (step f s).1 = .ok a → Q a (step f s).2)
    (herr : ∀ s f e, P s → A.May (.go f) → (step f s).1 = .error e → R e (step f s).2) :
    Does A M P (Prog.atomic step) Q R := by
  -- What a step that is carried out gives, for the default fate and for a chosen one.
  have hgo : ∀ s f (fs : List (Fate φ)), A.Allows fs → P s → A.May (.go f) →
      A.Allows (Prog.ofExcept (step f s).1 (step f s).2 fs).fates ∧
      ReflTransGen M s (Prog.ofExcept (step f s).1 (step f s).2 fs).state ∧
      match (Prog.ofExcept (step f s).1 (step f s).2 fs).outcome with
      | .ok a => Q a (Prog.ofExcept (step f s).1 (step f s).2 fs).state
      | .raised e => R e (Prog.ofExcept (step f s).1 (step f s).2 fs).state
      | .crashed => ¬ A.Gentle := by
    intro s f fs hfs hs hf
    have hM := hsteps s f hs (Or.inl hf)
    cases hx : (step f s).1 with
    | ok a => exact ⟨hfs, hM, hok s f a hs hf hx⟩
    | error e => exact ⟨hfs, hM, herr s f e hs hf hx⟩
  intro s fs hfs hs
  cases fs with
  | nil => exact hgo s default [] A.allows_nil hs A.may_default
  | cons t fs =>
    obtain ⟨ht, hrest⟩ := Adversary.allows_cons.mp hfs
    cases t with
    | go f => exact hgo s f fs hrest hs ht
    | crash => exact ⟨hrest, .refl, fun hg => hg _ ht trivial⟩
    | crashAfter f => exact ⟨hrest, hsteps s f hs (Or.inr ht), fun hg => hg _ ht trivial⟩

theorem Does.when {c : Prop} [Decidable c] {p : Prog σ φ ε Unit} {Q : Unit → σ → Prop}
    (hp : c → Does A M P p Q R) (hskip : ¬ c → ∀ s, P s → Q () s) :
    Does A M P (Prog.when c p) Q R := by
  unfold Prog.when
  split_ifs with hc
  · exact hp hc
  · exact .pure (hskip hc)

/-- The loop rule.  The invariant may speak of the elements still to come. -/
theorem Does.forEach {I : List β → σ → Prop} {body : β → Prog σ φ ε Unit} {l : List β}
    (h : ∀ b rest, b :: rest <:+ l → Does A M (I (b :: rest)) (body b) (fun _ => I rest) R) :
    Does A M (I l) (Prog.forEach l body) (fun _ => I []) R := by
  induction l with
  | nil => exact .pure fun _ hs => hs
  | cons b bs ih =>
    refine .bind (h b bs (List.suffix_refl _)) fun _ => ih fun b' rest hsuf => ?_
    exact h b' rest (hsuf.trans (List.suffix_cons b bs))

/-! ### Reading a judgement on one run -/

theorem Does.steps (h : Does A M P p Q R) (hfs : A.Allows fs) (hs : P s) :
    ReflTransGen M s (p s fs).state :=
  (h s fs hfs hs).2.1

theorem Does.ok (h : Does A M P p Q R) (hfs : A.Allows fs) (hs : P s) {a : α}
    (ho : (p s fs).outcome = .ok a) : Q a (p s fs).state := by
  have hend := (h s fs hfs hs).2.2
  rwa [ho] at hend

theorem Does.raised (h : Does A M P p Q R) (hfs : A.Allows fs) (hs : P s) {e : ε}
    (ho : (p s fs).outcome = .raised e) : R e (p s fs).state := by
  have hend := (h s fs hfs hs).2.2
  rwa [ho] at hend

/-- A gentle environment lets the program end: it returns or raises. -/
theorem Does.survives (h : Does A M P p Q R) (hfs : A.Allows fs) (hs : P s) (hA : A.Gentle) :
    (∃ a, (p s fs).outcome = .ok a ∧ Q a (p s fs).state) ∨
      ∃ e, (p s fs).outcome = .raised e ∧ R e (p s fs).state := by
  have hend := (h s fs hfs hs).2.2
  cases ho : (p s fs).outcome with
  | ok a => rw [ho] at hend; exact .inl ⟨a, rfl, hend⟩
  | raised e => rw [ho] at hend; exact .inr ⟨e, rfl, hend⟩
  | crashed => rw [ho] at hend; exact absurd hA hend

end Prog
