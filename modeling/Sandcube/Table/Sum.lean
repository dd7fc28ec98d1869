import Sandcube.Table.Basic

/-!
# Sums over tables

Column sums of keyed tables.

`t.sum f` is `SELECT sum(f) FROM t`, and `(t.erase k).sum f` the same sum with
`WHERE key != k`.  The lemmas say how a sum changes under one update, which is all
an admission check on a sum needs, and compare the sums of two tables row by row.
-/

namespace Table

variable {κ ρ ρ' : Type}

/-- `SELECT COALESCE(sum(f),0)`. -/
def sum (t : Table κ ρ) (f : ρ → ℤ) : ℤ := (t.rows.map fun p => f p.2).sum

@[simp] theorem sum_empty (f : ρ → ℤ) : (empty : Table κ ρ).sum f = 0 := rfl

/-- `SELECT count(*) … WHERE p`. -/
def count (t : Table κ ρ) (p : ρ → Bool) : ℕ := t.rows.countP fun q => p q.2

theorem sum_add (t : Table κ ρ) (f g : ρ → ℤ) : (t.sum fun v => f v + g v) = t.sum f + t.sum g :=
  List.sum_map_add

/-- A count is the sum of its indicator. -/
theorem sum_indicator (t : Table κ ρ) (p : ρ → Bool) :
    (t.sum fun v => if p v then 1 else 0) = t.count p := by
  obtain ⟨rows, nodup⟩ := t
  simp only [sum, count]
  clear nodup
  induction rows with
  | nil => rfl
  | cons q rows ih =>
    rw [List.map_cons, List.sum_cons, ih, List.countP_cons]
    by_cases hq : p q.2
    · simp [hq, add_comm]
    · simp [hq]

variable [DecidableEq κ]

/-- A sum over non-negative values is non-negative. -/
theorem sum_nonneg (t : Table κ ρ) (f : ρ → ℤ) (h : ∀ k v, t.find? k = some v → 0 ≤ f v) :
    0 ≤ t.sum f := by
  apply List.sum_nonneg
  intro x hx
  obtain ⟨⟨k, v⟩, hm, rfl⟩ := List.mem_map.mp hx
  exact h k v ((t.find?_eq_some_iff_mem k v).mpr hm)

/-- Erasing does not see what an update of the same key wrote. -/
theorem erase_modify (t : Table κ ρ) (k : κ) (g : ρ → ρ) : (t.modify k g).erase k = t.erase k := by
  obtain ⟨rows, nodup⟩ := t
  ext1
  simp only [erase, modify, mapRows]
  clear nodup
  induction rows with
  | nil => rfl
  | cons p rows ih =>
    by_cases hk : p.1 = k
    · rw [List.map_cons, List.filter_cons_of_neg (by simpa using hk),
        List.filter_cons_of_neg (by simpa using hk), ih]
    · rw [List.map_cons, List.filter_cons_of_pos (by simpa using hk),
        List.filter_cons_of_pos (by simpa using hk), ih]
      simp [hk]

/-- The sum splits into one row and the others. -/
theorem sum_eq_sum_erase_add (t : Table κ ρ) {k : κ} {v : ρ} (h : t.find? k = some v) (f : ρ → ℤ) :
    t.sum f = (t.erase k).sum f + f v := by
  obtain ⟨rows, nodup⟩ := t
  simp only [sum, erase, find?] at h ⊢
  induction rows with
  | nil => simp at h
  | cons p rows ih =>
    obtain ⟨k', v'⟩ := p
    rw [List.map_cons, List.nodup_cons] at nodup
    rw [lookup_cons_ite] at h
    by_cases hk : k = k'
    · subst hk
      rw [if_pos rfl] at h
      obtain rfl := Option.some.inj h
      -- The other rows have other keys, so the filter keeps all of them.
      have hkeep : rows.filter (fun p => decide (p.1 ≠ k)) = rows := by
        apply List.filter_eq_self.mpr
        intro p hp
        have : p.1 ≠ k := fun he => nodup.1 (List.mem_map.mpr ⟨p, hp, he⟩)
        simpa using this
      rw [List.map_cons, List.sum_cons, List.filter_cons_of_neg (by simp), hkeep, add_comm]
    · rw [if_neg hk] at h
      rw [List.map_cons, List.sum_cons, List.filter_cons_of_pos (by simpa using Ne.symm hk),
        List.map_cons, List.sum_cons, ih nodup.2 h, add_assoc]

/-- The sum after the update of one row. -/
theorem sum_modify (t : Table κ ρ) {k : κ} {v : ρ} (h : t.find? k = some v) (g : ρ → ρ)
    (f : ρ → ℤ) : (t.modify k g).sum f = (t.erase k).sum f + f (g v) := by
  have hfind : (t.modify k g).find? k = some (g v) := by simp [h]
  rw [sum_eq_sum_erase_add _ hfind, erase_modify]

/-- An update that lowers the column of the row it rewrites lowers the sum. -/
theorem sum_modify_le (t : Table κ ρ) (k : κ) (g : ρ → ρ) (f : ρ → ℤ)
    (h : ∀ v, t.find? k = some v → f (g v) ≤ f v) : (t.modify k g).sum f ≤ t.sum f := by
  cases hfind : t.find? k with
  | none => rw [modify_of_find?_eq_none t hfind]
  | some v =>
    rw [sum_modify t hfind, sum_eq_sum_erase_add t hfind]
    have := h v hfind
    omega

theorem sum_insert? {t t' : Table κ ρ} {k : κ} {v : ρ} (h : t.insert? k v = some t')
    (f : ρ → ℤ) : t'.sum f = t.sum f + f v := by
  unfold insert? at h
  split_ifs at h
  obtain rfl := Option.some.inj h
  simp [sum]

/-- **Comparison row by row.**  When every row of `t` has a row of `t'` under the same key
whose value is at least as large, and `t'` has no negative value, the sum over `t` is at most
the sum over `t'`. -/
theorem sum_le_sum (t : Table κ ρ) (t' : Table κ ρ') (f : ρ → ℤ) (g : ρ' → ℤ)
    (hle : ∀ k v, t.find? k = some v → ∃ u, t'.find? k = some u ∧ f v ≤ g u)
    (hpos : ∀ k u, t'.find? k = some u → 0 ≤ g u) : t.sum f ≤ t'.sum g := by
  obtain ⟨rows, nodup⟩ := t
  -- Induction on the rows of `t`, removing the matching row from `t'` each time.
  induction rows generalizing t' with
  | nil => simpa [sum] using t'.sum_nonneg g hpos
  | cons p rows ih =>
    obtain ⟨k, v⟩ := p
    have nodup' := nodup
    rw [List.map_cons, List.nodup_cons] at nodup'
    obtain ⟨u, hu, hvu⟩ := hle k v (by simp [find?])
    have hrest : (⟨rows, nodup'.2⟩ : Table κ ρ).sum f ≤ (t'.erase k).sum g := by
      refine ih (t'.erase k) ?_ nodup'.2 ?_
      · intro k₁ u₁ h₁
        rw [find?_erase] at h₁
        split_ifs at h₁
        exact hpos k₁ u₁ h₁
      · intro k₁ v₁ h₁
        have hne : k₁ ≠ k := by
          rintro rfl
          exact nodup'.1 (((⟨rows, nodup'.2⟩ : Table κ ρ).mem_keys_iff k₁).mpr ⟨v₁, h₁⟩)
        obtain ⟨u₁, hu₁, hle₁⟩ := hle k₁ v₁ (by
          simp only [find?] at h₁ ⊢
          rw [lookup_cons_ite, if_neg hne, h₁])
        exact ⟨u₁, by rw [find?_erase_of_ne _ hne, hu₁], hle₁⟩
    rw [sum_eq_sum_erase_add t' hu]
    simp only [sum, List.map_cons, List.sum_cons] at hrest ⊢
    omega

end Table
