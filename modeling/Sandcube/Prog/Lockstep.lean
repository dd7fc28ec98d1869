import Sandcube.Prog.Basic

/-!
# Two runs side by side

Two runs that nobody kills, compared from beginning to end.

`Lockstep I p q` says: from two states that `I` relates, with every step carried out under the default
choice, `p` and `q` end in the same way, neither is killed, and `I` relates the states they leave.

The second half is about stores that are made of parts, with a tally that all parts add to.  A program
is `Local i` if what it does depends on part `i` alone, and it changes no other part.  Local programs
of different parts commute, so the order of a loop over distinct parts does not matter
(`lockstep_forEach_perm`), and a part does not see what the programs of other parts do
(`Local.elsewhere`).
-/

namespace Prog

variable {σ φ ε α β : Type} {I : σ → σ → Prop}
variable {p q : Prog σ φ ε α} {s t : σ}

/-- The judgement: see the head of the file. -/
def Lockstep (I : σ → σ → Prop) (p q : Prog σ φ ε α) : Prop :=
  ∀ s t, I s t → ∃ o s' t', o ≠ .crashed ∧ p s [] = ⟨o, s', []⟩ ∧ q t [] = ⟨o, t', []⟩ ∧ I s' t'

/-- The program returns, whatever state it starts in. -/
def Completes (p : Prog σ φ ε α) : Prop := ∀ s, ∃ a s', p s [] = ⟨.ok a, s', []⟩

protected theorem Completes.pure (a : α) : Completes (pure a : Prog σ φ ε α) := fun s => ⟨a, s, rfl⟩

protected theorem Completes.bind {f : α → Prog σ φ ε β} (hp : Completes p)
    (hf : ∀ a, Completes (f a)) : Completes (p >>= f) := by
  intro s
  obtain ⟨a, s', hs'⟩ := hp s
  rw [bind_of_ok hs']
  exact hf a s'

namespace Lockstep

protected theorem pure (a : α) : Lockstep I (pure a : Prog σ φ ε α) (pure a) :=
  fun s t h => ⟨.ok a, s, t, by simp, rfl, rfl, h⟩

protected theorem raise (e : ε) : Lockstep I (raise e : Prog σ φ ε α) (raise e) :=
  fun s t h => ⟨.raised e, s, t, by simp, rfl, rfl, h⟩

protected theorem ofExcept (x : Except ε α) :
    Lockstep I (ofExcept x : Prog σ φ ε α) (ofExcept x) := by
  cases x with
  | ok a => exact .pure a
  | error e => exact .raise e

protected theorem bind {f g : α → Prog σ φ ε β} (h : Lockstep I p q)
    (hf : ∀ a, Lockstep I (f a) (g a)) : Lockstep I (p >>= f) (q >>= g) := by
  intro s t hI
  obtain ⟨o, s', t', ho, hp, hq, hI'⟩ := h s t hI
  simp only [bind_apply, hp, hq]
  cases o with
  | ok a => exact hf a s' t' hI'
  | raised e => exact ⟨.raised e, s', t', by simp, rfl, rfl, hI'⟩
  | crashed => exact (ho rfl).elim

protected theorem rescue {f g : ε → Prog σ φ ε α} (h : Lockstep I p q)
    (hf : ∀ e, Lockstep I (f e) (g e)) : Lockstep I (rescue p f) (rescue q g) := by
  intro s t hI
  obtain ⟨o, s', t', ho, hp, hq, hI'⟩ := h s t hI
  simp only [Prog.rescue, hp, hq]
  cases o with
  | ok a => exact ⟨.ok a, s', t', by simp, rfl, rfl, hI'⟩
  | raised e => exact hf e s' t' hI'
  | crashed => exact (ho rfl).elim

protected theorem when {c : Prop} [Decidable c] {p q : Prog σ φ ε Unit} (h : Lockstep I p q) :
    Lockstep I (when c p) (when c q) := by
  unfold Prog.when
  split_ifs
  · exact h
  · exact .pure ()

protected theorem read {f g : σ → Except ε α} (h : ∀ s t, I s t → f s = g t) :
    Lockstep I (read f : Prog σ φ ε α) (read g) := by
  intro s t hI
  simp only [Prog.read, h s t hI]
  exact Lockstep.ofExcept (g t) s t hI

protected theorem atomic [Inhabited φ] {step step' : φ → σ → Except ε α × σ}
    (h : ∀ s t, I s t → (step default s).1 = (step' default t).1 ∧
      I (step default s).2 (step' default t).2) : Lockstep I (atomic step) (atomic step') := by
  intro s t hI
  obtain ⟨hreply, hI'⟩ := h s t hI
  simp only [Prog.atomic, hreply]
  exact Lockstep.ofExcept _ _ _ hI'

protected theorem forEach {l : List β} {p q : β → Prog σ φ ε Unit}
    (h : ∀ b ∈ l, Lockstep I (p b) (q b)) : Lockstep I (forEach l p) (forEach l q) := by
  induction l with
  | nil => exact .pure ()
  | cons b l ih =>
    exact (h b List.mem_cons_self).bind fun _ => ih fun b' hb' => h b' (List.mem_cons_of_mem b hb')

/-- Two programs that each keep step with a third keep step with each other. -/
protected theorem trans {r : Prog σ φ ε α} (hrefl : ∀ s, I s s)
    (htrans : ∀ s t u, I s t → I t u → I s u) (hpq : Lockstep I p q) (hqr : Lockstep I q r) :
    Lockstep I p r := by
  intro s u hI
  obtain ⟨o, s', t', ho, hp, hq, hst⟩ := hpq s s (hrefl s)
  obtain ⟨o', t'', u', -, hq', hr, htu⟩ := hqr s u hI
  obtain ⟨rfl, rfl, -⟩ := Result.mk.inj (hq.symm.trans hq')
  exact ⟨o, s', u', ho, hp, hr, htrans s' t' u' hst htu⟩

end Lockstep

/-! ### Parts of a store -/

section Local

variable {ι ν M : Type} (part : ι → σ → ν) (tally : σ → M)

/-- Two states with the same parts and the same tally. -/
structure Same (s t : σ) : Prop where
  parts : ∀ i, part i s = part i t
  tally : tally s = tally t

variable {part tally}

theorem Same.refl (s : σ) : Same part tally s s := ⟨fun _ => rfl, rfl⟩

theorem Same.trans {u : σ} (h : Same part tally s t) (h' : Same part tally t u) :
    Same part tally s u :=
  ⟨fun i => (h.parts i).trans (h'.parts i), h.tally.trans h'.tally⟩

variable [AddCommMonoid M] (part tally)

/-- From `s₀` to `s` and from `t₀` to `t` only part `i` has changed, it is the same now, and the two
tallies have grown by the same. -/
structure Beside (i : ι) (s₀ t₀ s t : σ) : Prop where
  same : part i s = part i t
  left : ∀ j, j ≠ i → part j s = part j s₀
  right : ∀ j, j ≠ i → part j t = part j t₀
  grown : ∃ d, tally s = tally s₀ + d ∧ tally t = tally t₀ + d

/-- Two programs of one part. -/
def Local (i : ι) (p q : Prog σ φ ε α) : Prop := ∀ s₀ t₀, Lockstep (Beside part tally i s₀ t₀) p q

variable {part tally} {i : ι}

theorem Beside.refl (h : part i s = part i t) : Beside part tally i s t s t :=
  ⟨h, fun _ _ => rfl, fun _ _ => rfl, 0, (add_zero _).symm, (add_zero _).symm⟩

theorem Beside.to_same {s₀ t₀ s t : σ} (h : Beside part tally i s₀ t₀ s t)
    (h₀ : Same part tally s₀ t₀) : Same part tally s t := by
  refine ⟨fun j => ?_, ?_⟩
  · by_cases hj : j = i
    · rw [hj, h.same]
    · rw [h.left j hj, h.right j hj, h₀.parts j]
  · obtain ⟨d, hs, ht⟩ := h.grown
    rw [hs, ht, h₀.tally]

namespace Local

/-- Programs of part `i` from two states with the same part `i`. -/
theorem run (h : Local part tally i p q) (hst : part i s = part i t) :
    ∃ o s' t', o ≠ .crashed ∧ p s [] = ⟨o, s', []⟩ ∧
      q t [] = ⟨o, t', []⟩ ∧ Beside part tally i s t s' t' :=
  h s t s t (.refl hst)

/-- Programs of one part keep step on states that are the same. -/
theorem lockstep_same (h : Local part tally i p q) : Lockstep (Same part tally) p q := by
  intro s t hst
  obtain ⟨o, s', t', ho, hp, hq, hbeside⟩ := h.run (hst.parts i)
  exact ⟨o, s', t', ho, hp, hq, hbeside.to_same hst⟩

/-- Programs of one part keep step on states that agree on that part. -/
theorem lockstep_part (h : Local part tally i p q) :
    Lockstep (fun s t => part i s = part i t) p q := by
  intro s t hst
  obtain ⟨o, s', t', ho, hp, hq, hbeside⟩ := h.run hst
  exact ⟨o, s', t', ho, hp, hq, hbeside.same⟩

/-- What two runs of programs of one part have done. -/
theorem beside (h : Local part tally i p q) {s' t' : σ} {o o' : Outcome ε α}
    {fs fs' : List (Fate φ)} (hst : part i s = part i t) (hp : p s [] = ⟨o, s', fs⟩)
    (hq : q t [] = ⟨o', t', fs'⟩) : Beside part tally i s t s' t' := by
  obtain ⟨_, s₁, t₁, -, hp₁, hq₁, hbeside⟩ := h.run hst
  obtain ⟨-, rfl, -⟩ := Result.mk.inj (hp.symm.trans hp₁)
  obtain ⟨-, rfl, -⟩ := Result.mk.inj (hq.symm.trans hq₁)
  exact hbeside

/-- A part does not see what the programs of another part do. -/
theorem elsewhere {j : ι} {p q : Prog σ φ ε Unit} (hj : i ≠ j) (hp : Local part tally j p p)
    (hq : Local part tally j q q) (hpc : Completes p) (hqc : Completes q) :
    Lockstep (fun s t => part i s = part i t) p q := by
  intro s t hst
  obtain ⟨_, s', hs⟩ := hpc s
  obtain ⟨_, t', ht⟩ := hqc t
  refine ⟨.ok (), s', t', by simp, hs, ht, ?_⟩
  change part i s' = part i t'
  rw [(hp.beside rfl hs hs).left i hj, (hq.beside rfl ht ht).left i hj, hst]

/-- What a program of one part raises can be rescued. -/
theorem completes_rescue {handler : ε → Prog σ φ ε α} (h : Local part tally i p p)
    (hh : ∀ e, Completes (handler e)) : Completes (rescue p handler) := by
  intro s
  obtain ⟨o, s', _, ho, hp, -, -⟩ := h.run (rfl : part i s = part i s)
  simp only [Prog.rescue, hp]
  cases o with
  | ok a => exact ⟨a, s', rfl⟩
  | raised e => exact hh e s'
  | crashed => exact (ho rfl).elim

end Local

/-- Two programs of different parts may change places. -/
theorem lockstep_swap {i j : ι} (hij : i ≠ j) {p q : Prog σ φ ε Unit} (hp : Local part tally i p p)
    (hq : Local part tally j q q) (hpc : Completes p) (hqc : Completes q)
    {rest : Prog σ φ ε Unit} (hrest : Lockstep (Same part tally) rest rest) :
    Lockstep (Same part tally) (p >>= fun _ => q >>= fun _ => rest)
      (q >>= fun _ => p >>= fun _ => rest) := by
  intro s t hst
  -- `s ⟶ s₁ ⟶ s₂` runs `p` and then `q`, and `t ⟶ t₁ ⟶ t₂` the other way round.
  obtain ⟨_, s₁, hs₁⟩ := hpc s
  obtain ⟨_, s₂, hs₂⟩ := hqc s₁
  obtain ⟨_, t₁, ht₁⟩ := hqc t
  obtain ⟨_, t₂, ht₂⟩ := hpc t₁
  have hbesideq : Beside part tally j s₁ t s₂ t₁ :=
    hq.beside (((hp.beside rfl hs₁ hs₁).left j hij.symm).trans (hst.parts j)) hs₂ ht₁
  have hbesidep : Beside part tally i s t₁ s₁ t₂ :=
    hp.beside ((hst.parts i).trans (hbesideq.right i hij).symm) hs₁ ht₂
  have hsame : Same part tally s₂ t₂ := by
    refine ⟨fun k => ?_, ?_⟩
    · by_cases hki : k = i
      · subst hki
        rw [hbesideq.left k hij, hbesidep.same]
      · by_cases hkj : k = j
        · subst hkj
          rw [hbesideq.same, hbesidep.right k hki]
        · rw [hbesideq.left k hkj, hbesidep.left k hki, hst.parts k, hbesidep.right k hki,
            hbesideq.right k hkj]
    · obtain ⟨d, hd, hd'⟩ := hbesidep.grown
      obtain ⟨c, hc, hc'⟩ := hbesideq.grown
      rw [hc, hd, hd', hc', hst.tally, add_right_comm]
  simp only [bind_apply, hs₁, hs₂, ht₁, ht₂]
  exact hrest s₂ t₂ hsame

/-- **The order of a loop over distinct parts does not matter.** -/
theorem lockstep_forEach_perm {p : ι → Prog σ φ ε Unit} (hp : ∀ i, Local part tally i (p i) (p i))
    (hpc : ∀ i, Completes (p i)) {l l' : List ι} (hperm : l.Perm l') (hnodup : l.Nodup) :
    Lockstep (Same part tally) (forEach l p) (forEach l' p) := by
  induction hperm with
  | nil => exact .pure ()
  | cons i _ ih => exact (hp i).lockstep_same.bind fun _ => ih hnodup.of_cons
  | swap i j l =>
    refine lockstep_swap ?_ (hp j) (hp i) (hpc j) (hpc i) (.forEach fun i _ => (hp i).lockstep_same)
    rintro rfl
    simp at hnodup
  | trans h _ ih ih' =>
    exact .trans Same.refl (fun _ _ _ => Same.trans) (ih hnodup) (ih' (h.nodup_iff.mp hnodup))

end Local

end Prog
