import Mathlib

/-!
# Keyed tables

Keyed tables: finite lists of rows whose keys are pairwise distinct.

A `Table κ ρ` is what a database calls a table with a primary key of type `κ`.
The distinctness of the keys is a field, so a table with a duplicated key cannot
be built and no caller carries that fact around.  The operations are the statements
that programs issue against such a table: look a key up, insert a new key (refused
when the key is taken), update the rows of one key or of every key, delete a key,
and select the keys of the rows that satisfy a condition.

Each operation comes with one lemma that says what `find?` returns afterwards.
-/

/-- A list of rows with pairwise distinct keys. -/
structure Table (κ ρ : Type) where
  rows : List (κ × ρ)
  /-- The primary key: no two rows share it. -/
  nodup : (rows.map Prod.fst).Nodup

namespace Table

variable {κ ρ : Type}
variable {t t' : Table κ ρ} {k k' : κ} {v : ρ}

@[ext]
theorem ext (h : t.rows = t'.rows) : t = t' := by
  cases t; cases t'; congr

instance [DecidableEq κ] [DecidableEq ρ] : DecidableEq (Table κ ρ) := fun _ _ =>
  decidable_of_iff _ Table.ext_iff.symm

/-- The table without rows. -/
def empty : Table κ ρ := ⟨[], List.nodup_nil⟩

/-- The keys, in row order. -/
def keys (t : Table κ ρ) : List κ := t.rows.map Prod.fst

theorem nodup_keys (t : Table κ ρ) : t.keys.Nodup := t.nodup

/-- `UPDATE`: rewrite every row by a function of its key and content.  A statement with a
`WHERE` clause leaves the other rows as they are inside `f`. -/
def mapRows (t : Table κ ρ) (f : κ → ρ → ρ) : Table κ ρ where
  rows := t.rows.map fun p => (p.1, f p.1 p.2)
  nodup := by simpa [Function.comp_def] using t.nodup

/-- `SELECT key … WHERE p`. -/
def keysWhere (t : Table κ ρ) (p : κ → ρ → Bool) : List κ :=
  (t.rows.filter fun q => p q.1 q.2).map Prod.fst

variable [DecidableEq κ]

/-- `SELECT … WHERE key = k`. -/
def find? (t : Table κ ρ) (k : κ) : Option ρ := t.rows.lookup k

/-- `UPDATE … WHERE key = k`. -/
def modify (t : Table κ ρ) (k : κ) (f : ρ → ρ) : Table κ ρ :=
  t.mapRows fun k' v => if k' = k then f v else v

/-- `INSERT`, refused when the key is taken. -/
def insert? (t : Table κ ρ) (k : κ) (v : ρ) : Option (Table κ ρ) :=
  if h : k ∈ t.keys then none
  else some ⟨t.rows ++ [(k, v)], by
    rw [List.map_append, List.map_singleton]
    exact t.nodup.append (List.nodup_singleton k) (List.disjoint_singleton.mpr h)⟩

/-- `DELETE … WHERE key = k`. -/
def erase (t : Table κ ρ) (k : κ) : Table κ ρ where
  rows := t.rows.filter fun p => p.1 ≠ k
  nodup := t.nodup.sublist (List.filter_sublist.map _)

/-- `INSERT OR REPLACE`. -/
def put (t : Table κ ρ) (k : κ) (v : ρ) : Table κ ρ :=
  (t.insert? k v).getD (t.modify k fun _ => v)

/-- `DELETE … WHERE p`, for a condition on the key. -/
def eraseWhere (t : Table κ ρ) (p : κ → Bool) : Table κ ρ where
  rows := t.rows.filter fun q => !p q.1
  nodup := t.nodup.sublist (List.filter_sublist.map _)

/-! ### Lookup and membership -/

@[simp] theorem find?_empty (k : κ) : (empty : Table κ ρ).find? k = none := rfl

theorem lookup_cons_ite (k k' : κ) (v : ρ) (l : List (κ × ρ)) :
    ((k', v) :: l).lookup k = if k = k' then some v else l.lookup k := by
  rw [List.lookup_cons]
  by_cases hk : k = k'
  · simp [hk]
  · rw [if_neg hk, beq_eq_false_iff_ne.mpr hk]

/-- Lookup in a list of rows with distinct keys finds exactly the rows of the list. -/
theorem lookup_eq_some_iff_mem {l : List (κ × ρ)} (h : (l.map Prod.fst).Nodup) (k : κ) (v : ρ) :
    l.lookup k = some v ↔ (k, v) ∈ l := by
  induction l with
  | nil => simp
  | cons p l ih =>
    obtain ⟨k', v'⟩ := p
    rw [List.map_cons, List.nodup_cons] at h
    rw [lookup_cons_ite, List.mem_cons, Prod.mk.injEq]
    by_cases hk : k = k'
    · subst hk
      have hnot : (k, v) ∉ l := fun hm => h.1 (List.mem_map.mpr ⟨(k, v), hm, rfl⟩)
      simp [hnot, eq_comm]
    · simp [hk, ih h.2]

theorem find?_eq_some_iff_mem (t : Table κ ρ) (k : κ) (v : ρ) :
    t.find? k = some v ↔ (k, v) ∈ t.rows :=
  lookup_eq_some_iff_mem t.nodup k v

theorem mem_keys_iff (t : Table κ ρ) (k : κ) : k ∈ t.keys ↔ ∃ v, t.find? k = some v := by
  simp only [keys, List.mem_map, Prod.exists, exists_and_right, exists_eq_right,
    find?_eq_some_iff_mem]

theorem find?_eq_none_iff (t : Table κ ρ) (k : κ) : t.find? k = none ↔ k ∉ t.keys := by
  rw [mem_keys_iff, Option.eq_none_iff_forall_ne_some]
  exact not_exists.symm

/-! ### What `find?` returns after each operation -/

@[simp] theorem find?_mapRows (t : Table κ ρ) (f : κ → ρ → ρ) (k : κ) :
    (t.mapRows f).find? k = (t.find? k).map (f k) := by
  obtain ⟨rows, nodup⟩ := t
  simp only [mapRows, find?]
  clear nodup
  induction rows with
  | nil => rfl
  | cons p rows ih =>
    obtain ⟨k', v⟩ := p
    rw [List.map_cons, lookup_cons_ite, lookup_cons_ite, ih]
    by_cases hk : k = k'
    · simp [hk]
    · simp [hk]

theorem find?_modify (t : Table κ ρ) (k : κ) (f : ρ → ρ) (k' : κ) :
    (t.modify k f).find? k' = if k' = k then (t.find? k').map f else t.find? k' := by
  rw [modify, find?_mapRows]
  by_cases hk : k' = k
  · simp [hk]
  · simp [hk]

@[simp] theorem find?_modify_self (t : Table κ ρ) (k : κ) (f : ρ → ρ) :
    (t.modify k f).find? k = (t.find? k).map f := by
  rw [find?_modify, if_pos rfl]

theorem find?_modify_of_ne (t : Table κ ρ) (h : k' ≠ k) (f : ρ → ρ) :
    (t.modify k f).find? k' = t.find? k' := by
  rw [find?_modify, if_neg h]

/-- Updating a key that has no row changes nothing. -/
theorem modify_of_find?_eq_none (t : Table κ ρ) (h : t.find? k = none) (f : ρ → ρ) :
    t.modify k f = t := by
  ext1
  have hk := (t.find?_eq_none_iff k).mp h
  refine List.map_congr_left (g := id) ?_ |>.trans (List.map_id _)
  rintro ⟨k', v⟩ hm
  have : k' ≠ k := fun he => hk (he ▸ List.mem_map_of_mem (f := Prod.fst) hm)
  simp [this]

/-- An update of one key depends only on what it does to the row found there. -/
theorem modify_congr (t : Table κ ρ) (h : t.find? k = some v) {f g : ρ → ρ} (hfg : f v = g v) :
    t.modify k f = t.modify k g := by
  ext1
  refine List.map_congr_left ?_
  rintro ⟨k', v'⟩ hm
  by_cases hk : k' = k
  · subst hk
    have : v' = v := Option.some.inj (((t.find?_eq_some_iff_mem k' v').mpr hm).symm.trans h)
    simp [this, hfg]
  · simp [hk]

/-- Two updates of the same row are one. -/
@[simp] theorem modify_modify (t : Table κ ρ) (k : κ) (f g : ρ → ρ) :
    (t.modify k f).modify k g = t.modify k (g ∘ f) := by
  ext1
  simp only [modify, mapRows, List.map_map]
  refine List.map_congr_left fun p _ => ?_
  by_cases h : p.1 = k <;> simp [h]

theorem find?_erase (t : Table κ ρ) (k k' : κ) :
    (t.erase k).find? k' = if k' = k then none else t.find? k' := by
  obtain ⟨rows, nodup⟩ := t
  simp only [erase, find?]
  clear nodup
  induction rows with
  | nil => simp
  | cons p rows ih =>
    obtain ⟨k₁, v⟩ := p
    by_cases hk₁ : k₁ = k
    · subst hk₁
      rw [List.filter_cons_of_neg (by simp), ih, lookup_cons_ite]
      by_cases hk : k' = k₁ <;> simp [hk]
    · rw [List.filter_cons_of_pos (by simpa using hk₁), lookup_cons_ite, lookup_cons_ite, ih]
      by_cases hk : k' = k₁
      · simp [hk, hk₁]
      · simp [hk]

@[simp] theorem find?_erase_self (t : Table κ ρ) (k : κ) : (t.erase k).find? k = none := by
  rw [find?_erase, if_pos rfl]

theorem find?_erase_of_ne (t : Table κ ρ) (h : k' ≠ k) : (t.erase k).find? k' = t.find? k' := by
  rw [find?_erase, if_neg h]

/-- Erasing a key that has no row changes nothing. -/
theorem erase_of_find?_eq_none (t : Table κ ρ) (h : t.find? k = none) : t.erase k = t := by
  ext1
  apply List.filter_eq_self.mpr
  intro p hp
  have : p.1 ≠ k := fun he => (t.find?_eq_none_iff k).mp h (List.mem_map.mpr ⟨p, hp, he⟩)
  simpa using this

/-- An accepted `INSERT` found its key free. -/
theorem find?_of_insert?_eq_some (h : t.insert? k v = some t') : t.find? k = none := by
  unfold insert? at h
  split_ifs at h with hk
  exact (t.find?_eq_none_iff k).mpr hk

/-- After an accepted `INSERT` the new key has its row and the others have theirs. -/
theorem find?_insert? (h : t.insert? k v = some t') (k' : κ) :
    t'.find? k' = if k' = k then some v else t.find? k' := by
  have hfree := find?_of_insert?_eq_some h
  unfold insert? at h
  split_ifs at h with hk
  obtain rfl := Option.some.inj h
  by_cases hk' : k' = k
  · subst hk'
    rw [if_pos rfl, find?_eq_some_iff_mem]
    simp
  · rw [if_neg hk']
    apply Option.ext
    intro u
    rw [find?_eq_some_iff_mem, find?_eq_some_iff_mem, List.mem_append, List.mem_singleton]
    simp [hk']

/-- Inserting a row and then updating it is inserting the updated row. -/
theorem insert?_modify (h : t.insert? k v = some t') (f : ρ → ρ) :
    t.insert? k (f v) = some (t'.modify k f) := by
  unfold insert? at h ⊢
  split_ifs at h ⊢ with hk
  obtain rfl := Option.some.inj h
  congr 1
  ext1
  simp only [modify, mapRows, List.map_append, List.map_singleton, if_true]
  congr 1
  refine (List.map_congr_left (g := id) ?_ |>.trans (List.map_id _)).symm
  intro p hp
  have : p.1 ≠ k := fun he => hk (List.mem_map.mpr ⟨p, hp, he⟩)
  simp [this]

/-- Erasing the key just inserted gives the table back. -/
theorem erase_insert? (h : t.insert? k v = some t') : t'.erase k = t := by
  have hkeep := congrArg rows (t.erase_of_find?_eq_none (find?_of_insert?_eq_some h))
  unfold insert? at h
  split_ifs at h
  obtain rfl := Option.some.inj h
  ext1
  simp only [erase] at hkeep ⊢
  rw [List.filter_append, hkeep]
  simp

theorem insert?_eq_none_iff (t : Table κ ρ) (k : κ) (v : ρ) :
    t.insert? k v = none ↔ k ∈ t.keys := by
  unfold insert?
  split_ifs with h <;> simp [h]

/-- A key that is free can be inserted. -/
theorem exists_insert? (h : t.find? k = none) (v : ρ) : ∃ t', t.insert? k v = some t' := by
  cases hins : t.insert? k v with
  | some t' => exact ⟨t', rfl⟩
  | none => exact absurd ((t.insert?_eq_none_iff k v).mp hins) ((t.find?_eq_none_iff k).mp h)

/-- Tables with the same content have the same rows, in some order. -/
theorem rows_perm_of_find?_eq (h : ∀ k, t.find? k = t'.find? k) : t.rows.Perm t'.rows := by
  refine (List.perm_ext_iff_of_nodup t.nodup.of_map t'.nodup.of_map).mpr fun p => ?_
  rw [← t.find?_eq_some_iff_mem p.1 p.2, ← t'.find?_eq_some_iff_mem p.1 p.2, h]

/-! ### Selected keys -/

theorem find?_put (t : Table κ ρ) (k : κ) (v : ρ) (k' : κ) :
    (t.put k v).find? k' = if k' = k then some v else t.find? k' := by
  unfold put
  cases hins : t.insert? k v with
  | some t' => rw [Option.getD_some, find?_insert? hins]
  | none =>
    have htaken := (t.insert?_eq_none_iff k v).mp hins
    obtain ⟨v₀, hv₀⟩ := (t.mem_keys_iff k).mp htaken
    rw [Option.getD_none, find?_modify]
    split_ifs with h
    · rw [h, hv₀, Option.map_some]
    · rfl

/-- A new key goes to the end. -/
theorem rows_put_of_not_mem (t : Table κ ρ) (h : k ∉ t.keys) (v : ρ) :
    (t.put k v).rows = t.rows ++ [(k, v)] := by
  rw [put, insert?, dif_neg h, Option.getD_some]

@[simp] theorem find?_put_self (t : Table κ ρ) (k : κ) (v : ρ) : (t.put k v).find? k = some v := by
  rw [find?_put, if_pos rfl]

theorem find?_put_of_ne (t : Table κ ρ) (h : k' ≠ k) (v : ρ) :
    (t.put k v).find? k' = t.find? k' := by
  rw [find?_put, if_neg h]

/-- What is in a table stays in it when a row is put. -/
theorem isSome_find?_put (t : Table κ ρ) (k : κ) (v : ρ) (h : (t.find? k').isSome) :
    ((t.put k v).find? k').isSome := by
  rw [find?_put]
  split_ifs
  · rfl
  · exact h

/-- What is left after an erasure was there before. -/
theorem find?_of_find?_erase (h : (t.erase k).find? k' = some v) : t.find? k' = some v := by
  rw [find?_erase] at h
  split_ifs at h
  exact h

@[simp] theorem find?_eraseWhere (t : Table κ ρ) (p : κ → Bool) (k : κ) :
    (t.eraseWhere p).find? k = if p k then none else t.find? k := by
  change (t.rows.filter fun q => !p q.1).lookup k = if p k then none else t.rows.lookup k
  induction t.rows with
  | nil => simp
  | cons q rows ih =>
    obtain ⟨k', v⟩ := q
    rw [List.filter_cons, lookup_cons_ite]
    cases hq : p k' with
    | true =>
      rw [Bool.not_true, if_neg Bool.false_ne_true, ih]
      by_cases hk : k = k'
      · rw [hk, hq, if_pos rfl, if_pos rfl]
      · rw [if_neg hk]
    | false =>
      rw [Bool.not_false, if_pos rfl, lookup_cons_ite, ih]
      by_cases hk : k = k'
      · rw [hk, hq, if_pos rfl, if_neg Bool.false_ne_true, if_pos rfl]
      · rw [if_neg hk, if_neg hk]

/-- A row that is put in the place of another changes nothing for a selection that has neither. -/
theorem filter_rows_put (t : Table κ ρ) (k : κ) (v : ρ) {m : ρ → Bool} (hv : m v = false)
    (hold : ∀ v₀, t.find? k = some v₀ → m v₀ = false) :
    ((t.put k v).rows.map Prod.snd).filter m = (t.rows.map Prod.snd).filter m := by
  unfold put
  cases hins : t.insert? k v with
  | some t' =>
    unfold insert? at hins
    split_ifs at hins
    rw [← Option.some.inj hins, Option.getD_some, List.map_append, List.filter_append,
      List.map_singleton, List.filter_singleton, hv]
    exact List.append_nil _
  | none =>
    have hrows : ∀ l : List (κ × ρ), (∀ row ∈ l, row.1 = k → m row.2 = false) →
        ((l.map fun row => (row.1, if row.1 = k then v else row.2)).map Prod.snd).filter m =
          (l.map Prod.snd).filter m := by
      intro l hl
      induction l with
      | nil => rfl
      | cons row l ih =>
        obtain ⟨hrow, hl⟩ := List.forall_mem_cons.mp hl
        simp only [List.map_cons, List.filter_cons]
        rw [ih hl]
        by_cases hk : row.1 = k
        · rw [if_pos hk, hv, hrow hk, if_neg Bool.false_ne_true, if_neg Bool.false_ne_true]
        · rw [if_neg hk]
    refine hrows t.rows fun row hrow hk => hold row.2 ?_
    rw [← hk]
    exact (t.find?_eq_some_iff_mem row.1 row.2).mpr hrow

/-- An erasure changes nothing for a selection that has none of its rows. -/
theorem filter_rows_eraseWhere (t : Table κ ρ) {p : κ → Bool} {m : ρ → Bool}
    (h : ∀ k v, t.find? k = some v → m v = true → p k = false) :
    ((t.eraseWhere p).rows.map Prod.snd).filter m = (t.rows.map Prod.snd).filter m := by
  unfold eraseWhere
  rw [List.filter_map, List.filter_map, List.filter_filter]
  congr 1
  refine List.filter_congr fun row hrow => ?_
  rw [Function.comp_apply]
  cases hm : m row.2 with
  | false => rfl
  | true => rw [h row.1 row.2 ((t.find?_eq_some_iff_mem row.1 row.2).mpr hrow) hm]; rfl

theorem mem_keysWhere_iff (t : Table κ ρ) (p : κ → ρ → Bool) (k : κ) :
    k ∈ t.keysWhere p ↔ ∃ v, t.find? k = some v ∧ p k v = true := by
  simp only [keysWhere, List.mem_map, List.mem_filter, Prod.exists, exists_and_right,
    exists_eq_right, find?_eq_some_iff_mem]

omit [DecidableEq κ] in
theorem nodup_keysWhere (t : Table κ ρ) (p : κ → ρ → Bool) : (t.keysWhere p).Nodup :=
  t.nodup.sublist (List.filter_sublist.map _)

/-! ### Tables with fewer rows -/

/-- Every row of `t` is a row of `t'`. -/
def Sub (t t' : Table κ ρ) : Prop := ∀ k v, t.find? k = some v → t'.find? k = some v

theorem Sub.refl (t : Table κ ρ) : t.Sub t := fun _ _ h => h

theorem Sub.of_eq (h : t = t') : t.Sub t' := h ▸ .refl t

theorem sub_erase (t : Table κ ρ) (k : κ) : (t.erase k).Sub t := fun _ _ => find?_of_find?_erase

theorem Sub.find?_eq_none (h : t.Sub t') (hk : t'.find? k = none) : t.find? k = none := by
  rw [Option.eq_none_iff_forall_ne_some]
  intro v hv
  rw [h k v hv] at hk
  cases hk

/-! ### Several rows at once -/

/-- The rows are stored in turn. -/
def putAll (t : Table κ ρ) (rows : List (κ × ρ)) : Table κ ρ :=
  rows.foldl (fun t row => t.put row.1 row.2) t

/-- The last row of a key counts. -/
theorem find?_putAll (t : Table κ ρ) (rows : List (κ × ρ)) (k : κ) :
    (t.putAll rows).find? k =
      (((rows.filter fun row => row.1 = k).getLast?).map Prod.snd).or (t.find? k) := by
  induction rows generalizing t with
  | nil => rfl
  | cons row rows ih =>
    rw [putAll, List.foldl_cons, ← putAll, ih, find?_put, List.filter_cons]
    by_cases hk : row.1 = k
    · rw [if_pos hk.symm, if_pos (decide_eq_true hk), List.getLast?_cons]
      cases (rows.filter fun row => row.1 = k).getLast? with
      | none | some last => rfl
    · rw [if_neg (Ne.symm hk), if_neg (by simpa using hk)]

/-- All rows of another table: they come first. -/
theorem find?_putAll_rows (t t' : Table κ ρ) (k : κ) :
    (t.putAll t'.rows).find? k = (t'.find? k).or (t.find? k) := by
  have hlast : ((t'.rows.filter fun row => row.1 = k).getLast?).map Prod.snd = t'.find? k := by
    ext v
    rw [Option.map_eq_some_iff, find?_eq_some_iff_mem]
    constructor
    · rintro ⟨row, hrow, rfl⟩
      have hmem := List.mem_filter.mp (List.mem_of_getLast? hrow)
      have hk : row.1 = k := by simpa using hmem.2
      rw [← hk]
      exact hmem.1
    · intro hmem
      have hin : (k, v) ∈ t'.rows.filter fun row => row.1 = k := by simp [hmem]
      have hrow := List.getLast?_eq_some_getLast (List.ne_nil_of_mem hin)
      set row := (t'.rows.filter fun row => row.1 = k).getLast (List.ne_nil_of_mem hin)
      have hrowmem := List.mem_filter.mp (List.mem_of_getLast? hrow)
      have hk : row.1 = k := by simpa using hrowmem.2
      -- the keys are distinct, so the last row of the key is the only one
      have hrowv : t'.find? k = some row.2 := by
        rw [find?_eq_some_iff_mem, ← hk]
        exact hrowmem.1
      rw [(find?_eq_some_iff_mem t' k v).mpr hmem, Option.some_inj] at hrowv
      exact ⟨row, hrow, hrowv.symm⟩
  rw [find?_putAll, hlast]

/-! ### A row that is put and erased -/

/-- A new key that is erased again leaves no trace. -/
theorem erase_put (h : t.find? k = none) (v : ρ) : (t.put k v).erase k = t := by
  have hmem : k ∉ t.keys := (find?_eq_none_iff _ _).mp h
  cases hins : t.insert? k v with
  | none => exact absurd ((insert?_eq_none_iff _ _ _).mp hins) hmem
  | some t' =>
    rw [put, hins, Option.getD_some]
    exact erase_insert? hins

theorem erase_modify_comm (t : Table κ ρ) (k k' : κ) (f : ρ → ρ) :
    (t.modify k f).erase k' = (t.erase k').modify k f := by
  ext1
  simp only [erase, modify, mapRows, List.filter_map]
  rfl

theorem modify_id (t : Table κ ρ) (k : κ) : t.modify k id = t := by
  ext1
  simp [modify, mapRows]

/-- A new row that is changed might have been put so. -/
theorem modify_put (h : k ∉ t.keys) (v : ρ) (f : ρ → ρ) :
    (t.put k v).modify k f = t.put k (f v) := by
  ext1
  have hold : t.rows.map (fun p => (p.1, if p.1 = k then f p.2 else p.2)) = t.rows := by
    refine (List.map_congr_left fun p hp => ?_).trans (List.map_id _)
    have hpk : p.1 ≠ k := fun he => h (he ▸ List.mem_map_of_mem hp)
    rw [if_neg hpk]
    rfl
  rw [modify, mapRows]
  dsimp only
  rw [rows_put_of_not_mem t h, rows_put_of_not_mem t h, List.map_append, hold, List.map_singleton,
    if_pos rfl]

end Table
