import Sandcube.Path.Resolve

/-!
# Comparing rooted paths

The way from one rooted path to another leaves the components they share, goes up by `..` for each
component left of the first and down by those left of the second.  Its spelling starts with `../`
exactly when the second path neither lies below the first nor is the directory that holds it
(`up_isPrefix_relative_iff`).
-/

namespace Sandcube.Path

section Components

variable {α : Type*} [DecidableEq α] (slash dot : α)
variable {ps qs bs ts rest : List (List α)} {name : List α}

/-- What is left of two lists without the front they share. -/
def apart {γ : Type*} [DecidableEq γ] : List γ → List γ → List γ × List γ
  | b :: bs, t :: ts => if b = t then apart bs ts else (b :: bs, t :: ts)
  | bs, ts => (bs, ts)

/-- The components of the way from one directory to another. -/
def way (base target : List (List α)) : List (List α) :=
  List.replicate (apart base target).1.length [dot, dot] ++ (apart base target).2

/-- The way from one rooted path to another, as it is spelled. -/
def relative (base target : List α) : List α :=
  if way dot (resolved slash dot base) (resolved slash dot target) = [] then [dot]
  else join slash (way dot (resolved slash dot base) (resolved slash dot target))

/-- The last component of a path: `dot` of the empty path and `slash` of the root. -/
def base (p : List α) : List α :=
  if p = [] then [dot]
  else if (p.rdropWhile (· = slash)).rtakeWhile (· ≠ slash) = [] then [slash]
  else (p.rdropWhile (· = slash)).rtakeWhile (· ≠ slash)

variable {slash dot}

/-! ### Clean components -/

theorem Clean.of_append (h : Clean slash dot (ps ++ qs)) :
    Clean slash dot ps ∧ Clean slash dot qs :=
  ⟨fun part hpart => h part (List.mem_append_left _ hpart),
    fun part hpart => h part (List.mem_append_right _ hpart)⟩

theorem normal_join_of_clean (h : Clean slash dot ps) : normal slash dot (join slash ps) = ps :=
  normal_join (fun part hpart => (h part hpart).1) fun part hpart => (h part hpart).2.1

/-- The spelling grows with the components. -/
theorem length_rooted_lt (hqs : Clean slash dot qs) (h : ps <+: qs) (hne : ps ≠ qs) :
    (rooted slash ps).length < (rooted slash qs).length := by
  obtain ⟨rest, rfl⟩ := h
  have hps := hqs.of_append.1
  by_cases hnil : ps = []
  · subst hnil
    rw [List.nil_append] at hne hqs ⊢
    -- A spelling of length one would be that of the root.
    have hjoin : join slash rest ≠ [] := by
      intro hjoin
      have hnormal := normal_join_of_clean hqs
      rw [hjoin, normal_nil] at hnormal
      exact hne hnormal
    have hpos := List.length_pos_iff.mpr hjoin
    rw [rooted, rooted, List.length_cons, List.length_cons]
    simp only [join, List.intercalate_nil, List.length_nil]
    exact Nat.succ_lt_succ hpos
  · have hlonger := ((rooted_append_isPrefix_iff hps hqs hnil).mpr
      ⟨List.prefix_append _ _, hne⟩).length_le
    rw [List.length_append, List.length_singleton] at hlonger
    omega

omit [DecidableEq α] in
/-- The last component stands after a separator. -/
theorem rooted_concat (ps : List (List α)) (name : List α) :
    ∃ front, rooted slash (ps ++ [name]) = front ++ slash :: name := by
  cases ps with
  | nil => exact ⟨[], by simp [rooted, join]⟩
  | cons part ps =>
    refine ⟨slash :: join slash (part :: ps), ?_⟩
    rw [rooted, join_append (List.cons_ne_nil _ _) (List.cons_ne_nil _ _)]
    simp [join]

theorem base_rooted (hslash : slash ∉ name) (hne : name ≠ []) :
    base slash dot (rooted slash (ps ++ [name])) = name := by
  obtain ⟨front, hfront⟩ : ∃ front, rooted slash (ps ++ [name]) = front ++ slash :: name :=
    rooted_concat ps name
  have hdrop : (front ++ slash :: name).rdropWhile (· = slash) = front ++ slash :: name := by
    rw [List.rdropWhile_eq_self_iff]
    intro hnil hlast
    have hmem : (front ++ slash :: name).getLast hnil ∈ name := by
      rw [List.getLast_append_of_ne_nil _ (List.cons_ne_nil _ _), List.getLast_cons hne]
      exact List.getLast_mem hne
    rw [decide_eq_true_eq] at hlast
    exact hslash (hlast ▸ hmem)
  have htake : (front ++ slash :: name).rtakeWhile (· ≠ slash) = name := by
    have hall : ∀ c ∈ name.reverse, decide (c ≠ slash) = true := by
      intro c hc
      rw [decide_eq_true_eq]
      rintro rfl
      exact hslash (List.mem_reverse.mp hc)
    rw [List.rtakeWhile, List.reverse_append, List.reverse_cons, List.append_assoc,
      List.takeWhile_append_of_pos hall]
    simp
  rw [hfront, base, if_neg (by simp), hdrop, htake, if_neg hne]

theorem base_root : base slash dot (rooted slash []) = [slash] := by
  simp [base, rooted, join, List.rdropWhile, List.rtakeWhile]

/-! ### The way between two directories -/

theorem apart_spec {γ : Type*} [DecidableEq γ] (bs ts : List γ) :
    ∃ front, bs = front ++ (apart bs ts).1 ∧ ts = front ++ (apart bs ts).2 := by
  fun_induction apart bs ts with
  | case1 bs t ts ih =>
    obtain ⟨front, hbs, hts⟩ := ih
    exact ⟨t :: front, congrArg (t :: ·) hbs, congrArg (t :: ·) hts⟩
  | case2 | case3 => exact ⟨[], rfl, rfl⟩

theorem apart_append {γ : Type*} [DecidableEq γ] (bs rest : List γ) :
    apart bs (bs ++ rest) = ([], rest) := by
  induction bs with
  | nil => cases rest <;> rfl
  | cons b bs ih => rw [List.cons_append, apart, if_pos rfl, ih]

theorem relative_rooted (hbs : Clean slash dot bs) (hts : Clean slash dot ts) :
    relative slash dot (rooted slash bs) (rooted slash ts) =
      if way dot bs ts = [] then [dot] else join slash (way dot bs ts) := by
  rw [relative, resolved_rooted hbs, resolved_rooted hts]

theorem way_append (bs rest : List (List α)) : way dot bs (bs ++ rest) = rest := by
  rw [way, apart_append]
  rfl

/-- Down below a directory the way does not start by going up. -/
theorem not_up_isPrefix_relative (hne : slash ≠ dot) (h : Clean slash dot (bs ++ rest)) :
    ¬ [dot, dot, slash] <+: relative slash dot (rooted slash bs) (rooted slash (bs ++ rest)) := by
  rw [relative_rooted h.of_append.1 h, way_append]
  split_ifs with hnil
  · intro hup
    have := hup.length_le
    simp at this
  · rintro ⟨more, hmore⟩
    -- The spelling would have `..` as its first component.
    have hnormal := normal_join_of_clean h.of_append.2
    have hmore : join slash rest = [dot, dot] ++ slash :: more := by rw [← hmore]; rfl
    have hdots : normal slash dot [dot, dot] = [[dot, dot]] := by
      rw [normal_of_not_mem (by simp [hne]), if_pos (plain_iff.mpr (by simp))]
    rw [hmore, normal_append, hdots] at hnormal
    have hmem : [dot, dot] ∈ rest := by
      rw [← hnormal]
      exact List.mem_append_left _ (List.mem_singleton_self _)
    exact (h.of_append.2 _ hmem).2.2 rfl

/-- **The way starts with `../`** exactly when the target neither lies below the base nor is the
directory that holds it. -/
theorem up_isPrefix_relative_iff (hne : slash ≠ dot) (hbs : Clean slash dot bs)
    (hts : Clean slash dot ts) :
    [dot, dot, slash] <+: relative slash dot (rooted slash bs) (rooted slash ts) ↔
      ¬ bs <+: ts ∧ ∀ b, bs ≠ ts ++ [b] := by
  obtain ⟨front, hfront, hfront'⟩ := apart_spec bs ts
  constructor
  · intro hup
    refine ⟨?_, ?_⟩
    · rintro ⟨rest, rfl⟩
      exact not_up_isPrefix_relative hne hts hup
    · rintro b rfl
      have hway : way dot (ts ++ [b]) ts = [[dot, dot]] := by
        have hapart : apart (ts ++ [b]) ts = ([b], []) := by
          clear * -
          induction ts with
          | nil => rfl
          | cons t ts ih => rw [List.cons_append, apart, if_pos rfl, ih]
        rw [way, hapart]
        rfl
      rw [relative_rooted hbs hts, hway, if_neg (List.cons_ne_nil _ _)] at hup
      have := hup.length_le
      simp [join] at this
  · rintro ⟨houtside, hholds⟩
    have hleft : (apart bs ts).1 ≠ [] := by
      intro hnil
      rw [hnil, List.append_nil] at hfront
      exact houtside ⟨(apart bs ts).2, hfront ▸ hfront'.symm⟩
    -- There is another component after the first `..`.
    have hway : ∃ next more, way dot bs ts = [dot, dot] :: next :: more := by
      rw [way]
      generalize apart bs ts = left at hfront hfront' hleft ⊢
      obtain ⟨up, down⟩ := left
      obtain ⟨b, up, rfl⟩ := List.exists_cons_of_ne_nil hleft
      cases up with
      | cons _ up => exact ⟨[dot, dot], List.replicate up.length [dot, dot] ++ down, rfl⟩
      | nil =>
        cases down with
        | cons t down => exact ⟨t, down, rfl⟩
        | nil =>
          rw [List.append_nil] at hfront'
          exact absurd (hfront'.symm ▸ hfront) (hholds b)
    obtain ⟨next, more, hway⟩ := hway
    rw [relative_rooted hbs hts, hway, if_neg (List.cons_ne_nil _ _)]
    exact ⟨join slash (next :: more), by simp [join]⟩

/-- The way spelled as one name leads to an entry of the directory. -/
theorem relative_eq_name_iff (h : Clean slash dot (bs ++ rest)) (hname : Clean slash dot [name]) :
    relative slash dot (rooted slash bs) (rooted slash (bs ++ rest)) = name ↔ rest = [name] := by
  have hplain := (hname name (List.mem_singleton_self _)).2.1
  have hjoin : join slash [name] = name := by simp [join]
  rw [relative_rooted h.of_append.1 h, way_append]
  constructor
  · split_ifs with hnil
    · rintro rfl
      exact absurd rfl (plain_iff.mp hplain).2
    · intro he
      rw [← normal_join_of_clean h.of_append.2, he, ← hjoin, normal_join_of_clean hname, hjoin]
  · rintro rfl
    rw [if_neg (List.cons_ne_nil _ _), hjoin]

end Components

/-! ### Paths of bytes -/

/-- The bytes of a text. -/
def text (s : String) : Bytes := s.toList.flatMap String.utf8EncodeChar

/-- The directories on the way from the root. -/
def dirs (p : Bytes) : List Bytes := resolved slash dot p

/-- A path from the root without `.`, `..`, repeated or final separators. -/
def CleanPath (p : Bytes) : Prop := rooted slash (dirs p) = p

instance (p : Bytes) : Decidable (CleanPath p) := inferInstanceAs (Decidable (rooted slash (dirs p) = p))

theorem clean_dirs (p : Bytes) : Clean slash dot (dirs p) := clean_resolved p

theorem dirs_rooted {ps : List Bytes} (h : Clean slash dot ps) : dirs (rooted slash ps) = ps :=
  resolved_rooted h

theorem slash_ne_dot : slash ≠ dot := by decide

end Sandcube.Path
