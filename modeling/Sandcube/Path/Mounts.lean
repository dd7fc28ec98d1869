import Sandcube.Path.Resolve

/-!
# Mount namespaces

A mount hangs on the place that its mountpoint led to when it was mounted, and a path is looked up
component by component, crossing onto a mount wherever one hangs.  A lookup therefore ends in the
latest mount whose mountpoint is the path or lies above it (`ends_resolve`).

Mounts are numbered in mount order.  The tree they hang in before any is mounted has no number.
-/

namespace Sandcube.Path

variable {γ : Type*} [DecidableEq γ]

/-- A mount, and the components from its root. -/
structure Place (γ : Type*) where
  mount : Option ℕ
  inside : List γ
  deriving DecidableEq

/-- Cross onto a mount that hangs here. -/
def crossOne (here : Place γ) (hung : Place γ × ℕ) : Place γ :=
  if hung.1 = here then ⟨some hung.2, []⟩ else here

/-- Cross onto the mounts that hang here.  A mount hangs on an earlier one, so that one pass in mount
order reaches the top of a stack. -/
def cross (hung : List (Place γ)) (here : Place γ) : Place γ :=
  hung.zipIdx.foldl crossOne here

/-- Go down to an entry of this directory. -/
def descend (hung : List (Place γ)) (here : Place γ) (name : γ) : Place γ :=
  cross hung ⟨here.mount, here.inside ++ [name]⟩

/-- Path lookup. -/
def lookup (hung : List (Place γ)) (path : List γ) : Place γ :=
  path.foldl (descend hung) (cross hung ⟨none, []⟩)

/-- Where the mounts hang that were mounted at these mountpoints, one after the other. -/
def hang (mountpoints : List (List γ)) : List (Place γ) :=
  mountpoints.foldl (fun hung mountpoint => hung ++ [lookup hung mountpoint]) []

/-- Where a path leads. -/
def resolveMounts (mountpoints : List (List γ)) (path : List γ) : Place γ :=
  lookup (hang mountpoints) path

/-- The place of a path: on the latest mount that covers it. -/
inductive Ends (mountpoints : List (List γ)) (path : List γ) : Place γ → Prop
  | below (uncovered : ∀ m ∈ mountpoints, ¬ m <+: path) : Ends mountpoints path ⟨none, path⟩
  | on {i : ℕ} {m inside : List γ} (mounted : mountpoints[i]? = some m) (covers : m ++ inside = path)
      (latest : ∀ j m', i < j → mountpoints[j]? = some m' → ¬ m' <+: path) :
      Ends mountpoints path ⟨some i, inside⟩

namespace Ends

variable {ms : List (List γ)} {q path path' : List γ} {p : Place γ}

omit [DecidableEq γ] in
theorem lt {i : ℕ} (h : Ends ms path p) (hi : p.mount = some i) : i < ms.length := by
  cases h with
  | below _ => cases hi
  | on mounted _ _ =>
    cases hi
    exact (List.getElem?_eq_some_iff.mp mounted).1

omit [DecidableEq γ] in
/-- Different paths lead to different places. -/
theorem path_eq (h : Ends ms path p) (h' : Ends ms path' p) : path = path' := by
  cases h with
  | below _ =>
    cases h'
    rfl
  | on mounted covers _ =>
    cases h' with
    | on mounted' covers' _ =>
      obtain rfl := Option.some.inj (mounted.symm.trans mounted')
      exact covers.symm.trans covers'

omit [DecidableEq γ] in
/-- A mount that covers the path is where it leads from now on. -/
theorem of_covers (inside : List γ) (h : q ++ inside = path) :
    Ends (ms ++ [q]) path ⟨some ms.length, inside⟩ := by
  refine .on (by simp) h fun j m' hj hm' => ?_
  have hlt := (List.getElem?_eq_some_iff.mp hm').1
  simp only [List.length_append, List.length_singleton] at hlt
  omega

omit [DecidableEq γ] in
/-- A mount that does not cover the path changes nothing. -/
theorem append (h : Ends ms path p) (hq : ¬ q <+: path) : Ends (ms ++ [q]) path p := by
  cases h with
  | below uncovered =>
    refine .below fun m hm => ?_
    rcases List.mem_append.mp hm with hm | hm
    · exact uncovered m hm
    · rwa [List.mem_singleton.mp hm]
  | @on i m inside mounted covers latest =>
    have hi := (List.getElem?_eq_some_iff.mp mounted).1
    refine .on (by rwa [List.getElem?_append_left hi]) covers fun j m' hj hm' => ?_
    by_cases hlt : j < ms.length
    · rw [List.getElem?_append_left hlt] at hm'
      exact latest j m' hj hm'
    · rw [List.getElem?_append_right (by omega)] at hm'
      have hm' := List.mem_of_getElem? hm'
      rwa [List.mem_singleton.mp hm']

end Ends

/-! ### One more mount -/

theorem cross_append (hung : List (Place γ)) (place here : Place γ) :
    cross (hung ++ [place]) here = crossOne (cross hung here) (place, hung.length) := by
  simp only [cross, List.zipIdx_append, List.foldl_append, List.zipIdx_singleton, List.foldl_cons,
    List.foldl_nil, Nat.zero_add]

/-- Nothing hangs on a mount that comes after all others. -/
theorem cross_of_le {hung : List (Place γ)} {here : Place γ} {i : ℕ} (hi : here.mount = some i)
    (h : ∀ place ∈ hung, ∀ j, place.mount = some j → j < i) : cross hung here = here := by
  induction hung using List.reverseRecOn with
  | nil => rfl
  | append_singleton hung place ih =>
    rw [cross_append, ih fun place' hp => h place' (List.mem_append_left _ hp), crossOne, if_neg]
    rintro rfl
    have := h place (by simp) i hi
    omega

theorem lookup_append (hung : List (Place γ)) (path : List γ) (name : γ) :
    lookup hung (path ++ [name]) = descend hung (lookup hung path) name := by
  simp [lookup]

/-- A new mount covers the paths below its mountpoint and leaves the others. -/
theorem lookup_hang_append {ms : List (List γ)} (h : ∀ path, Ends ms path (lookup (hang ms) path))
    (hlength : (hang ms).length = ms.length)
    (hbelow : ∀ place ∈ hang ms, ∀ j, place.mount = some j → j < ms.length) (q path : List γ) :
    (¬ q <+: path → lookup (hang ms ++ [lookup (hang ms) q]) path = lookup (hang ms) path) ∧
      ∀ inside, q ++ inside = path →
        lookup (hang ms ++ [lookup (hang ms) q]) path = ⟨some ms.length, inside⟩ := by
  set hung := hang ms with hhung
  set place := lookup hung q with hplace
  -- What hangs at the place of a path that was looked up before the mount.
  have hstep : ∀ path, crossOne (lookup hung path) (place, hung.length) =
      if path = q then ⟨some ms.length, []⟩ else lookup hung path := by
    intro path
    by_cases hq : path = q
    · rw [if_pos hq, crossOne, if_pos (by rw [hplace, hq]), hlength]
    · rw [if_neg hq, crossOne, if_neg]
      intro he
      exact hq ((h path).path_eq (he ▸ h q))
  have hnew : ∀ inside, cross (hung ++ [place]) ⟨some ms.length, inside⟩ =
      ⟨some ms.length, inside⟩ := by
    intro inside
    refine cross_of_le rfl fun place' hp j hj => ?_
    rcases List.mem_append.mp hp with hp | hp
    · exact hbelow place' hp j hj
    · rw [List.mem_singleton.mp hp] at hj
      exact (h q).lt hj
  induction path using List.reverseRecOn with
  | nil =>
    have hroot : lookup (hung ++ [place]) [] = crossOne (lookup hung []) (place, hung.length) :=
      cross_append hung place _
    rw [hroot, hstep]
    refine ⟨fun hq => if_neg ?_, fun inside hinside => ?_⟩
    · rintro rfl
      exact hq List.prefix_rfl
    obtain ⟨rfl, rfl⟩ := List.append_eq_nil_iff.mp hinside
    exact if_pos rfl
  | append_singleton path name ih =>
    rw [lookup_append]
    by_cases hq : q <+: path
    · obtain ⟨inside, hinside⟩ := hq
      refine ⟨fun hnot => absurd ⟨inside ++ [name], by rw [← hinside, List.append_assoc]⟩ hnot,
        fun inside' hinside' => ?_⟩
      rw [ih.2 inside hinside, descend, hnew]
      rw [← hinside, List.append_assoc, List.append_cancel_left_eq] at hinside'
      rw [hinside']
    · have hdescend : descend (hung ++ [place]) (lookup hung path) name =
          crossOne (lookup hung (path ++ [name])) (place, hung.length) := by
        rw [lookup_append, descend, cross_append]
        rfl
      rw [ih.1 hq, hdescend, hstep]
      refine ⟨fun hnot => if_neg ?_, fun inside hinside => ?_⟩
      · rintro rfl
        exact hnot List.prefix_rfl
      -- The mountpoint covers the path and not the directory it is in, so it is the path.
      have hnil : inside = [] := by
        rcases List.eq_nil_or_concat' inside with hnil | ⟨front, last, rfl⟩
        · exact hnil
        · rw [← List.append_assoc] at hinside
          exact absurd ⟨front, (List.append_inj' hinside rfl).1⟩ hq
      subst hnil
      rw [List.append_nil] at hinside
      exact if_pos hinside.symm

theorem hang_append (ms : List (List γ)) (q : List γ) :
    hang (ms ++ [q]) = hang ms ++ [lookup (hang ms) q] := by
  simp [hang]

/-- **A path leads to the latest mount that covers it.** -/
theorem ends_resolve (ms : List (List γ)) (path : List γ) : Ends ms path (resolveMounts ms path) := by
  have hall : (∀ path, Ends ms path (lookup (hang ms) path)) ∧ (hang ms).length = ms.length ∧
      ∀ place ∈ hang ms, ∀ j, place.mount = some j → j < ms.length := by
    clear path
    induction ms using List.reverseRecOn with
    | nil =>
      refine ⟨fun path => ?_, rfl, by simp [hang]⟩
      have hroot : lookup (hang []) path = ⟨none, path⟩ := by
        induction path using List.reverseRecOn with
        | nil => rfl
        | append_singleton path name ih =>
          rw [lookup_append, ih]
          rfl
      rw [hroot]
      exact .below (by simp)
    | append_singleton ms q ih =>
      obtain ⟨hends, hlength, hbelow⟩ := ih
      refine ⟨fun path => ?_, ?_, fun place hp j hj => ?_⟩
      · rw [hang_append]
        have hlookup := lookup_hang_append hends hlength hbelow q path
        by_cases hq : q <+: path
        · obtain ⟨inside, hinside⟩ := hq
          rw [hlookup.2 inside hinside]
          exact .of_covers inside hinside
        · rw [hlookup.1 hq]
          exact (hends path).append hq
      · rw [hang_append, List.length_append, List.length_append, hlength]
        rfl
      · rw [hang_append] at hp
        rw [List.length_append, List.length_singleton]
        rcases List.mem_append.mp hp with hp | hp
        · have := hbelow place hp j hj
          omega
        · rw [List.mem_singleton.mp hp] at hj
          have := (hends q).lt hj
          omega
  exact hall.1 path

end Sandcube.Path
