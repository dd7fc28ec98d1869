import Sandcube.Path.Basic

/-!
# Rooted paths with `..`

Resolving a rooted path lexically leaves its components, each `..` with the component before it
taken out.  Such components have one spelling (`rooted`), from which they can be read off
(`resolved_rooted`), so that lying below a directory is a matter of the spelling as well
(`rooted_append_isPrefix_iff`).
-/

namespace Sandcube.Path

variable {α : Type*} [DecidableEq α] (slash dot : α)
variable {ps qs : List (List α)}

/-- A component on the stack of those before it, or `..`, which takes one off. -/
def push (stack : List (List α)) (part : List α) : List (List α) :=
  if part = [dot, dot] then stack.tail else part :: stack

/-- The components that are left when each `..` has taken out the one before it. -/
def resolve (ps : List (List α)) : List (List α) :=
  (ps.foldl (push dot) []).reverse

/-- The directories on the way from the root to a rooted path. -/
def resolved (p : List α) : List (List α) :=
  resolve dot (normal slash dot p)

/-- The path from the root. -/
def rooted (ps : List (List α)) : List α :=
  slash :: join slash ps

/-- Components that resolving leaves as they are. -/
def Clean (ps : List (List α)) : Prop :=
  ∀ part ∈ ps, slash ∉ part ∧ plain dot part = true ∧ part ≠ [dot, dot]

variable {slash dot}

theorem mem_foldl_push {stack : List (List α)} {part : List α}
    (h : part ∈ ps.foldl (push dot) stack) : part ∈ stack ∨ part ∈ ps ∧ part ≠ [dot, dot] := by
  induction ps generalizing stack with
  | nil => exact .inl h
  | cons next ps ih =>
    rw [List.foldl_cons] at h
    rcases ih h with hstack | ⟨hmem, hne⟩
    · unfold push at hstack
      split_ifs at hstack with hnext
      · exact .inl (List.mem_of_mem_tail hstack)
      · rcases List.mem_cons.mp hstack with rfl | hstack
        · exact .inr ⟨List.mem_cons_self, hnext⟩
        · exact .inl hstack
    · exact .inr ⟨List.mem_cons_of_mem _ hmem, hne⟩

theorem foldl_push_of_clean {stack : List (List α)} (h : [dot, dot] ∉ ps) :
    ps.foldl (push dot) stack = ps.reverse ++ stack := by
  induction ps generalizing stack with
  | nil => rfl
  | cons part ps ih =>
    rw [List.mem_cons, not_or] at h
    have hpart : push dot stack part = part :: stack := if_neg fun he => h.1 he.symm
    rw [List.foldl_cons, hpart, ih h.2, List.reverse_cons, List.append_assoc,
      List.singleton_append]

theorem resolve_of_clean (h : [dot, dot] ∉ ps) : resolve dot ps = ps := by
  rw [resolve, foldl_push_of_clean h, List.append_nil, List.reverse_reverse]

/-- Resolving keeps symbols of the path only. -/
theorem mem_of_mem_resolved {p part : List α} {c : α} (h : part ∈ resolved slash dot p)
    (hc : c ∈ part) : c ∈ p := by
  rcases mem_foldl_push (List.mem_reverse.mp h) with hnone | ⟨hmem, -⟩
  · exact absurd hnone List.not_mem_nil
  · exact mem_of_mem_parts (mem_normal.mp hmem).1 hc

theorem clean_resolved (p : List α) : Clean slash dot (resolved slash dot p) := by
  intro part hpart
  have hmem := mem_foldl_push (List.mem_reverse.mp hpart)
  rcases hmem with hnone | ⟨hmem, hne⟩
  · exact absurd hnone List.not_mem_nil
  · obtain ⟨hparts, hplain⟩ := mem_normal.mp hmem
    exact ⟨slash_not_mem_of_mem_parts hparts, plain_iff.mpr hplain, hne⟩

theorem normal_rooted (h : Clean slash dot ps) : normal slash dot (rooted slash ps) = ps := by
  rw [rooted, normal_cons_slash]
  exact normal_join (fun part hpart => (h part hpart).1) fun part hpart => (h part hpart).2.1

/-- Clean components are read off their spelling. -/
theorem resolved_rooted (h : Clean slash dot ps) : resolved slash dot (rooted slash ps) = ps := by
  rw [resolved, normal_rooted h]
  exact resolve_of_clean fun hmem => (h _ hmem).2.2 rfl

theorem rooted_inj (hps : Clean slash dot ps) (hqs : Clean slash dot qs)
    (h : rooted slash ps = rooted slash qs) : ps = qs := by
  rw [← resolved_rooted hps, h, resolved_rooted hqs]

omit [DecidableEq α] in
theorem mem_join {c : α} (h : c ∈ join slash ps) : c = slash ∨ ∃ part ∈ ps, c ∈ part := by
  induction ps with
  | nil => exact absurd h List.not_mem_nil
  | cons part ps ih =>
    cases ps with
    | nil =>
      rw [join, List.intercalate_singleton] at h
      exact .inr ⟨part, List.mem_cons_self, h⟩
    | cons next ps =>
      rw [join, List.intercalate_cons_cons, List.mem_append, List.mem_append,
        List.mem_singleton] at h
      rcases h with (hpart | hslash) | hrest
      · exact .inr ⟨part, List.mem_cons_self, hpart⟩
      · exact .inl hslash
      · rcases ih hrest with hslash | ⟨found, hmem, hc⟩
        · exact .inl hslash
        · exact .inr ⟨found, List.mem_cons_of_mem _ hmem, hc⟩

omit [DecidableEq α] in
theorem join_append (hps : ps ≠ []) (hqs : qs ≠ []) :
    join slash (ps ++ qs) = join slash ps ++ slash :: join slash qs := by
  induction ps with
  | nil => exact absurd rfl hps
  | cons part ps ih =>
    cases ps with
    | nil =>
      obtain ⟨next, qs, rfl⟩ := List.exists_cons_of_ne_nil hqs
      simp [join]
    | cons next ps =>
      have hrest := ih (List.cons_ne_nil _ _)
      rw [List.cons_append] at hrest
      rw [List.cons_append, List.cons_append, join, List.intercalate_cons_cons]
      rw [join] at hrest
      rw [hrest]
      simp [join]

/-- Below the root a spelling does not end in a separator. -/
theorem getLast?_rooted (h : Clean slash dot ps) (hne : ps ≠ []) :
    (rooted slash ps).getLast? ≠ some slash := by
  obtain ⟨init, last, rfl⟩ := List.eq_nil_or_concat' ps |>.resolve_left hne
  obtain ⟨hslash, hplain, -⟩ := h last (by simp)
  have hlast : last ≠ [] := (plain_iff.mp hplain).1
  have hends : ∃ front, rooted slash (init ++ [last]) = front ++ last := by
    cases init with
    | nil => exact ⟨[slash], by simp [rooted, join]⟩
    | cons part init =>
      refine ⟨slash :: (join slash (part :: init) ++ [slash]), ?_⟩
      rw [rooted, join_append (List.cons_ne_nil _ _) (List.cons_ne_nil _ _)]
      simp [join]
  obtain ⟨front, hfront⟩ := hends
  rw [hfront, List.getLast?_append_of_ne_nil _ hlast]
  exact fun hmem => hslash (List.mem_of_getLast? hmem)

/-- What lies strictly below a directory is spelled with its spelling and a separator in front. -/
theorem rooted_append_isPrefix_iff (hps : Clean slash dot ps) (hqs : Clean slash dot qs)
    (hne : ps ≠ []) : rooted slash ps ++ [slash] <+: rooted slash qs ↔ ps <+: qs ∧ ps ≠ qs := by
  constructor
  · rintro ⟨rest, hrest⟩
    rw [List.append_assoc, List.singleton_append] at hrest
    have hlength : (rooted slash ps).length < (rooted slash qs).length := by
      rw [← hrest, List.length_append, List.length_cons]
      omega
    refine ⟨⟨normal slash dot rest, ?_⟩, fun he => ?_⟩
    · rw [← normal_rooted hqs, ← hrest, normal_append, normal_rooted hps]
    · rw [he] at hlength
      omega
  · rintro ⟨⟨rest, rfl⟩, hproper⟩
    have hrest : rest ≠ [] := by
      rintro rfl
      exact hproper (List.append_nil ps).symm
    refine ⟨join slash rest, ?_⟩
    rw [rooted, rooted, join_append hne hrest, List.append_assoc, List.singleton_append,
      List.cons_append]

end Sandcube.Path
