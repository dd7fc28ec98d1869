import Mathlib

/-!
# Components of slash-separated paths

A path is a list of symbols with a separator `slash`.  Its components are what stands between the
separators; the empty component and the component `dot` say "stay here", and what is left without
them is the normal form of the path.  A normal form joined by single separators has itself as its
normal form (`normal_join`).
-/

namespace Sandcube.Path

section Components

variable {α : Type*} [DecidableEq α] (slash dot : α)
variable {part p : List α}

/-- The components of a path, the empty ones included. -/
def parts (p : List α) : List (List α) :=
  p.splitOn slash

/-- A component that names an entry of the directory it is resolved in. -/
def plain (part : List α) : Bool :=
  part ≠ [] ∧ part ≠ [dot]

/-- The components of a path without the empty ones and `dot`. -/
def normal (p : List α) : List (List α) :=
  (parts slash p).filter (plain dot)

/-- Components joined by single separators. -/
def join (parts : List (List α)) : List α :=
  [slash].intercalate parts

variable {slash dot}

theorem plain_iff : plain dot part = true ↔ part ≠ [] ∧ part ≠ [dot] := by
  simp [plain]

/-! ### Splitting -/

theorem parts_of_not_mem (h : slash ∉ p) : parts slash p = [p] := by
  apply List.splitOnP_eq_singleton
  intro c hc
  exact beq_false_of_ne fun he => h (he ▸ hc)

theorem parts_append {q : List α} :
    parts slash (p ++ slash :: q) = parts slash p ++ parts slash q := by
  induction p with
  | nil => simp [parts, List.splitOn, List.splitOnP_cons_eq_if_modifyHead]
  | cons c p ih =>
    simp only [parts, List.splitOn, List.cons_append, List.splitOnP_cons_eq_if_modifyHead] at ih ⊢
    rw [ih]
    by_cases hc : (c == slash) = true
    · rw [if_pos hc, if_pos hc, List.cons_append]
    · rw [if_neg hc, if_neg hc]
      cases hp : List.splitOnP (· == slash) p with
      | nil => exact absurd hp (List.splitOnP_ne_nil _ _)
      | cons part rest => rfl

theorem slash_not_mem_of_mem_parts (h : part ∈ parts slash p) : slash ∉ part := by
  induction p generalizing part with
  | nil =>
    have : part = [] := by simpa [parts] using h
    simp [this]
  | cons c p ih =>
    simp only [parts, List.splitOn, List.splitOnP_cons_eq_if_modifyHead] at h ih
    by_cases hc : (c == slash) = true
    · rw [if_pos hc, List.mem_cons] at h
      rcases h with rfl | h
      · simp
      · exact ih h
    · rw [if_neg hc] at h
      -- only the first component grows, by a symbol that is no separator
      cases hp : List.splitOnP (· == slash) p with
      | nil => exact absurd hp (List.splitOnP_ne_nil _ _)
      | cons first rest =>
        rw [hp] at h ih
        rw [List.modifyHead_cons, List.mem_cons] at h
        rcases h with rfl | h
        · have hne : c ≠ slash := by simpa using hc
          have := ih List.mem_cons_self
          rw [List.mem_cons]
          rintro (he | hmem)
          · exact hne he.symm
          · exact this hmem
        · exact ih (List.mem_cons_of_mem _ h)

/-- A component consists of symbols of the path. -/
theorem mem_of_mem_parts {c : α} (h : part ∈ parts slash p) (hc : c ∈ part) : c ∈ p := by
  induction p generalizing part with
  | nil =>
    have : part = [] := by simpa [parts] using h
    simp [this] at hc
  | cons d p ih =>
    simp only [parts, List.splitOn, List.splitOnP_cons_eq_if_modifyHead] at h ih
    by_cases hd : (d == slash) = true
    · rw [if_pos hd, List.mem_cons] at h
      rcases h with rfl | h
      · exact absurd hc List.not_mem_nil
      · exact List.mem_cons_of_mem _ (ih h hc)
    · rw [if_neg hd] at h
      cases hp : List.splitOnP (· == slash) p with
      | nil => exact absurd hp (List.splitOnP_ne_nil _ _)
      | cons first rest =>
        rw [hp] at h ih
        rw [List.modifyHead_cons, List.mem_cons] at h
        rcases h with rfl | h
        · rcases List.mem_cons.1 hc with rfl | hc
          · exact List.mem_cons_self
          · exact List.mem_cons_of_mem _ (ih List.mem_cons_self hc)
        · exact List.mem_cons_of_mem _ (ih (List.mem_cons_of_mem _ h) hc)

/-! ### Normal forms -/

@[simp]
theorem normal_nil : normal slash dot ([] : List α) = [] := by
  simp [normal, parts, plain]

@[simp]
theorem normal_cons_slash (p : List α) : normal slash dot (slash :: p) = normal slash dot p := by
  have hsplit : parts slash (slash :: p) = [] :: parts slash p := parts_append (p := [])
  rw [normal, hsplit, List.filter_cons_of_neg (by simp [plain]), normal]

theorem normal_append (p q : List α) :
    normal slash dot (p ++ slash :: q) = normal slash dot p ++ normal slash dot q := by
  rw [normal, parts_append, List.filter_append, normal, normal]

theorem normal_of_not_mem (h : slash ∉ p) :
    normal slash dot p = if plain dot p then [p] else [] := by
  rw [normal, parts_of_not_mem h]
  by_cases hp : plain dot p = true <;> simp [hp]

/-- The normal form of a path is read off component by component. -/
theorem normal_eq (p : List α) :
    normal slash dot p =
      (if plain dot (p.takeWhile (· != slash)) then [p.takeWhile (· != slash)] else []) ++
        normal slash dot (p.dropWhile (· != slash)) := by
  have hfirst : slash ∉ p.takeWhile (· != slash) := by
    intro hmem
    have := List.all_takeWhile (l := p) (p := (· != slash))
    rw [List.all_eq_true] at this
    simpa using this slash hmem
  have hsplit := List.takeWhile_append_dropWhile (p := (· != slash)) (l := p)
  cases hrest : p.dropWhile (· != slash) with
  | nil =>
    rw [hrest, List.append_nil] at hsplit
    rw [normal_nil, List.append_nil, ← normal_of_not_mem hfirst, hsplit]
  | cons c rest =>
    have hc : c = slash := by
      have := List.head?_dropWhile_not (· != slash) p
      simpa [hrest] using this
    subst hc
    rw [hrest] at hsplit
    rw [normal_cons_slash, ← normal_of_not_mem hfirst, ← normal_append, hsplit]

theorem mem_normal :
    part ∈ normal slash dot p ↔ part ∈ parts slash p ∧ part ≠ [] ∧ part ≠ [dot] := by
  rw [normal, List.mem_filter, plain_iff]

/-- Components without separators come back out of their join. -/
theorem normal_join {ps : List (List α)} (hslash : ∀ part ∈ ps, slash ∉ part)
    (hplain : ∀ part ∈ ps, plain dot part = true) : normal slash dot (join slash ps) = ps := by
  induction ps with
  | nil => simp [join]
  | cons part ps ih =>
    have hrest := ih (fun q hq => hslash q (List.mem_cons_of_mem _ hq))
      fun q hq => hplain q (List.mem_cons_of_mem _ hq)
    have hpart : normal slash dot part = [part] := by
      rw [normal_of_not_mem (hslash part List.mem_cons_self),
        if_pos (hplain part List.mem_cons_self)]
    cases ps with
    | nil => rw [join, List.intercalate_singleton, hpart]
    | cons next ps =>
      rw [join, List.intercalate_cons_cons, List.append_assoc, List.singleton_append,
        normal_append, hpart]
      rw [join] at hrest
      rw [hrest, List.singleton_append]

end Components

/-! ### Paths of bytes -/

abbrev Bytes := List UInt8

instance : LawfulBEq Bytes := List.instLawfulBEq

/-- `/` -/
def slash : UInt8 := 47

/-- `.` -/
def dot : UInt8 := 46

end Sandcube.Path
