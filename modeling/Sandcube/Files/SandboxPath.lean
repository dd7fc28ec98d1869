import Sandcube.Path.Basic

/-!
# Paths of the files API

`sandboxPath` of the adapter with Go's `path.Clean` as it is written, and `fileAt` up to the
confined open that each operation starts with.  Strings are byte strings, as in Go.

`path.Clean` is a loop over a read position and an output buffer.  On a path without `..` its
output is the buffer with the components of the rest put behind it (`Clean.loop_eq`), so a
relative path is cleaned to its normal form (`clean_relative`).
-/

namespace Sandcube.Files

variable {rest p part : Bytes} {ps : List Bytes}

open Sandcube.Path (Bytes slash dot parts normal join plain)

/-! ### Go's `path` package -/

namespace Clean

/-- `r == n || path[r] == '/'`: a component ends here. -/
def ends (rest : Bytes) : Bool :=
  rest = [] ∨ rest.head? = some slash

/-- `for out.w > dotdot && out.index(out.w) != '/' { out.w-- }` -/
def retreat (out : Bytes) (dotdot : Nat) : Nat → Nat
  | 0 => 0
  | w + 1 => if dotdot < w + 1 ∧ out[w + 1]? ≠ some slash then retreat out dotdot w else w + 1

/-- What a component `..` does to the buffer and to the mark behind which it may not go. -/
def backtrack (rooted : Bool) (out : Bytes) (dotdot : Nat) : Bytes × Nat :=
  if dotdot < out.length then (out.take (retreat out dotdot (out.length - 1)), dotdot)
  else if rooted = false then
    let out := (if 0 < out.length then out ++ [slash] else out) ++ [dot, dot]
    (out, out.length)
  else (out, dotdot)

/-- A real component goes to the end of the buffer, behind a separator unless it is the first. -/
def put (rooted : Bool) (out part : Bytes) : Bytes :=
  (if rooted ∧ out.length ≠ 1 ∨ ¬ rooted ∧ out.length ≠ 0 then out ++ [slash] else out) ++ part

/-- The loop of `path.Clean`, `rest` being the path from the read position on. -/
def loop (rooted : Bool) (rest out : Bytes) (dotdot : Nat) : Bytes :=
  match rest with
  | [] => out
  | c :: r =>
    if c = slash then loop rooted r out dotdot
    else if c = dot ∧ ends r then loop rooted r out dotdot
    else if c = dot ∧ r.head? = some dot ∧ ends r.tail then
      loop rooted r.tail (backtrack rooted out dotdot).1 (backtrack rooted out dotdot).2
    else
      loop rooted (r.dropWhile (· != slash)) (put rooted out (c :: r.takeWhile (· != slash))) dotdot
termination_by rest.length
decreasing_by
  · simp
  · simp
  · simp only [List.length_tail, List.length_cons]
    omega
  · have := (List.dropWhile_suffix (l := r) (· != slash)).length_le
    simp only [List.length_cons]
    omega

end Clean

/-- `path.Clean` -/
def clean (path : Bytes) : Bytes :=
  if path = [] then [dot]
  else
    let rooted : Bool := path.head? = some slash
    let out := if rooted then Clean.loop rooted path.tail [slash] 1
      else Clean.loop rooted path [] 0
    if out = [] then [dot] else out

/-- `path.Dir`: what stands before the last separator, cleaned. -/
def dir (path : Bytes) : Bytes :=
  clean (path.rdropWhile (· != slash))

/-- `path.Base`: the last component, trailing separators left out. -/
def base (path : Bytes) : Bytes :=
  if path = [] then [dot]
  else
    let stripped := path.rdropWhile (· == slash)
    let last := stripped.rtakeWhile (· != slash)
    if last = [] then [slash] else last

/-! ### The adapter -/

inductive FileError
  /-- `errInvalidPath` -/
  | invalidPath
  deriving DecidableEq, Repr

/-- `sandboxPath` -/
def sandboxPath (p : Bytes) : Except FileError Bytes :=
  if p = [] ∨ 4096 < p.length ∨ 0 ∈ p then .error .invalidPath
  else if [dot, dot] ∈ parts slash p then .error .invalidPath
  else .ok (clean (p.dropWhile (· == slash) ++ [slash, dot]))

inductive Operation
  | read
  | list
  | write
  | mkdir
  | delete
  | other
  deriving DecidableEq, Repr

structure FileRequest where
  operation : Operation
  path : Bytes
  mode : Option UInt32 := none
  deriving Repr

/-- The descriptors an operation goes on with: the named object, or its parent and the leaf. -/
inductive Opened
  | object (name : Bytes)
  | parent (name leaf : Bytes)
  deriving DecidableEq, Repr

/-- `confinedOpen`, as far as the name decides: `openat2` with `RESOLVE_BENEATH` fails on an
absolute name with `EXDEV`, which is reported as `errInvalidPath`. -/
def confinedOpen (name : Bytes) : Except FileError Bytes :=
  if name.head? = some slash then .error .invalidPath else .ok name

/-- The guard of `fileAt`: the root may only be listed. -/
def onRoot (name : Bytes) (operation : Operation) : Bool :=
  name = [dot] ∧ operation ≠ .list

/-- `fileAt` up to its confined open. -/
def fileAt (req : FileRequest) : Except FileError Opened := do
  if req.mode.any (· > 0o777) then throw .invalidPath
  let name ← sandboxPath req.path
  if onRoot name req.operation then throw .invalidPath
  match req.operation with
  | .read | .list => return .object (← confinedOpen name)
  | .write | .mkdir | .delete => return .parent (← confinedOpen (dir name)) (base name)
  | .other => throw .invalidPath

/-! ### The loop of `path.Clean` -/

namespace Clean

theorem ends_iff : ends rest = true ↔ rest = [] ∨ rest.head? = some slash := by
  simp [ends]

/-- Up to the end of a component there is nothing left to take. -/
theorem takeWhile_of_ends (h : ends rest = true) : rest.takeWhile (· != slash) = [] := by
  cases rest with
  | nil => rfl
  | cons c r =>
    have hc : c = slash := by simpa [ends_iff] using h
    simp [hc]

theorem dropWhile_of_ends (h : ends rest = true) : rest.dropWhile (· != slash) = rest := by
  have := List.takeWhile_append_dropWhile (p := (· != slash)) (l := rest)
  rwa [takeWhile_of_ends h, List.nil_append] at this

/-- The normal form of a path whose first symbol is no separator. -/
theorem normal_cons {c : UInt8} {r : Bytes} (hc : c ≠ slash) :
    normal slash dot (c :: r) =
      (if plain dot (c :: r.takeWhile (· != slash)) then [c :: r.takeWhile (· != slash)]
        else []) ++ normal slash dot (r.dropWhile (· != slash)) := by
  have hpos : (c != slash) = true := by simpa using hc
  rw [Path.normal_eq, List.takeWhile_cons_of_pos (by exact hpos),
    List.dropWhile_cons_of_pos (by exact hpos)]

/-- Without `..` the loop puts the components of the rest behind the buffer. -/
theorem loop_eq (rooted : Bool) (rest out : Bytes) (dotdot : Nat)
    (h : [dot, dot] ∉ normal slash dot rest) :
    loop rooted rest out dotdot = (normal slash dot rest).foldl (put rooted) out := by
  fun_induction loop rooted rest out dotdot with
  | case1 => simp
  | case2 out dotdot r ih =>
    rw [Path.normal_cons_slash] at h ⊢
    exact ih h
  | case3 out dotdot c r hne hdot ih =>
    have hnormal : normal slash dot (c :: r) = normal slash dot r := by
      rw [normal_cons hne, takeWhile_of_ends hdot.2, dropWhile_of_ends hdot.2, hdot.1]
      rfl
    rw [hnormal] at h ⊢
    exact ih h
  | case4 out dotdot c r hne hnot hdots ih =>
    -- the component is `..`, which the path does not have
    obtain ⟨rfl, hhead, hends⟩ := hdots
    obtain ⟨tail, rfl⟩ : ∃ tail, r = dot :: tail := by
      cases r with
      | nil => simp at hhead
      | cons d tail => exact ⟨tail, by simpa using hhead⟩
    refine absurd ?_ h
    have htake : (dot :: tail).takeWhile (· != slash) = [dot] := by
      rw [List.takeWhile_cons_of_pos (by decide), takeWhile_of_ends (by exact hends)]
    rw [normal_cons hne, htake]
    simp [plain]
  | case5 out dotdot c r hne hnot hdots ih =>
    have hplain : plain dot (c :: r.takeWhile (· != slash)) = true := by
      rw [Path.plain_iff]
      refine ⟨by simp, fun he => hnot ?_⟩
      obtain ⟨hc, htake⟩ := List.cons.inj he
      refine ⟨hc, ends_iff.2 ?_⟩
      cases r with
      | nil => exact .inl rfl
      | cons d r =>
        by_cases hd : d = slash
        · exact .inr (by rw [hd, List.head?_cons])
        · rw [List.takeWhile_cons_of_pos (by simpa using hd)] at htake
          exact absurd htake (by simp)
    rw [normal_cons hne, if_pos hplain] at h ⊢
    rw [ih fun hmem => h (List.mem_append_right _ hmem), List.singleton_append, List.foldl_cons]

/-- Components put behind a non-empty relative buffer. -/
theorem foldl_put (ps : List Bytes) {out : Bytes} (hout : out ≠ []) :
    ps.foldl (put false) out = join slash (out :: ps) := by
  induction ps generalizing out with
  | nil => simp [join]
  | cons part ps ih =>
    have hput : put false out part = out ++ slash :: part := by simp [put, hout]
    rw [List.foldl_cons, hput, ih (by simp)]
    cases ps with
    | nil | cons next ps => simp [join]

end Clean

/-- The relative name of a normal form: `.` for the directory itself. -/
def relativeName (ps : List Bytes) : Bytes :=
  if ps = [] then [dot] else join slash ps

/-- A relative path without `..` is cleaned to its normal form. -/
theorem clean_relative {q : Bytes} (hrel : q.head? ≠ some slash)
    (h : [dot, dot] ∉ normal slash dot q) :
    clean q = relativeName (normal slash dot q) := by
  by_cases hq : q = []
  · subst hq
    simp [clean, relativeName]
  · rw [clean, if_neg hq]
    have hrooted : (decide (q.head? = some slash)) = false := by simpa using hrel
    simp only [hrooted, Bool.false_eq_true, if_false, Clean.loop_eq false q [] 0 h]
    cases hn : normal slash dot q with
    | nil => simp [relativeName]
    | cons part ps =>
      have hpart : part ≠ [] := by
        have : part ∈ normal slash dot q := hn ▸ List.mem_cons_self
        exact (Path.mem_normal.1 this).2.1
      have hput : Clean.put false [] part = part := by simp [Clean.put]
      have hne : join slash (part :: ps) ≠ [] := by
        cases ps <;> simp [join, hpart]
      rw [List.foldl_cons, hput, Clean.foldl_put ps hpart, if_neg hne, relativeName,
        if_neg (List.cons_ne_nil _ _)]

/-! ### Accepted paths -/

/-- What `sandboxPath` turns down. -/
def Rejected (p : Bytes) : Prop :=
  p = [] ∨ 4096 < p.length ∨ 0 ∈ p ∨ [dot, dot] ∈ parts slash p

theorem sandboxPath_of_rejected (h : Rejected p) : sandboxPath p = .error .invalidPath := by
  unfold sandboxPath
  by_cases hform : p = [] ∨ 4096 < p.length ∨ 0 ∈ p
  · rw [if_pos hform]
  · have hdots : [dot, dot] ∈ parts slash p := by
      unfold Rejected at h
      tauto
    rw [if_neg hform, if_pos hdots]

theorem sandboxPath_of_not_rejected (h : ¬ Rejected p) :
    sandboxPath p = .ok (clean (p.dropWhile (· == slash) ++ [slash, dot])) := by
  unfold Rejected at h
  rw [sandboxPath, if_neg (by tauto), if_neg (by tauto)]

theorem sandboxPath_isError_iff (p : Bytes) : (∃ e, sandboxPath p = .error e) ↔ Rejected p := by
  constructor
  · rintro ⟨e, he⟩
    by_contra h
    rw [sandboxPath_of_not_rejected h] at he
    cases he
  · exact fun h => ⟨_, sandboxPath_of_rejected h⟩

theorem normal_dropWhile_slash (p : Bytes) :
    normal slash dot (p.dropWhile (· == slash)) = normal slash dot p := by
  induction p with
  | nil => rfl
  | cons c p ih =>
    by_cases hc : c = slash
    · subst hc
      rw [List.dropWhile_cons_of_pos (by simp), ih, Path.normal_cons_slash]
    · rw [List.dropWhile_cons_of_neg (by simpa using hc)]

/-- Trimming and the appended `/.` leave the components as they are. -/
theorem normal_trimmed (p : Bytes) :
    normal slash dot (p.dropWhile (· == slash) ++ [slash, dot]) = normal slash dot p := by
  have hdot : normal slash dot [dot] = [] := by decide
  rw [Path.normal_append, normal_dropWhile_slash, hdot, List.append_nil]

theorem dropWhile_slash_eq_nil : p.dropWhile (· == slash) = [] ↔ ∀ c ∈ p, c = slash := by
  simp [List.dropWhile_eq_nil_iff]

/-- Nothing but separators: the trimmed path is empty, and `/.` is absolute. -/
theorem sandboxPath_slashes (h : ¬ Rejected p) (hall : ∀ c ∈ p, c = slash) :
    sandboxPath p = .ok [slash] := by
  rw [sandboxPath_of_not_rejected h, dropWhile_slash_eq_nil.2 hall]
  have hloop : Clean.loop true [dot] [slash] 1 = [slash] := by
    rw [Clean.loop_eq true [dot] [slash] 1 (by decide)]
    rfl
  simp [clean, hloop]

/-- Any other accepted path comes out as its normal form. -/
theorem sandboxPath_normal (h : ¬ Rejected p) (hsome : ∃ c ∈ p, c ≠ slash) :
    sandboxPath p = .ok (relativeName (normal slash dot p)) := by
  have hne : p.dropWhile (· == slash) ≠ [] := by
    rw [Ne, dropWhile_slash_eq_nil]
    push Not
    exact hsome
  have hrel : (p.dropWhile (· == slash) ++ [slash, dot]).head? ≠ some slash := by
    have hnot := List.head?_dropWhile_not (· == slash) p
    rw [List.head?_append_of_ne_nil _ hne]
    intro he
    simp [he] at hnot
  have hdots : [dot, dot] ∉ normal slash dot p := by
    rw [Path.mem_normal]
    exact fun hmem => h (.inr (.inr (.inr hmem.1)))
  rw [sandboxPath_of_not_rejected h, clean_relative hrel (by rwa [normal_trimmed]), normal_trimmed]

theorem slash_not_mem_normal (h : part ∈ normal slash dot p) : slash ∉ part :=
  Path.slash_not_mem_of_mem_parts (Path.mem_normal.1 h).1

/-- A name built from components starts with the first symbol of a component. -/
theorem head?_join (hne : part ≠ []) (hslash : slash ∉ part) (ps : List Bytes) :
    (join slash (part :: ps)).head? ≠ some slash := by
  have hhead : (join slash (part :: ps)).head? = part.head? := by
    cases ps with
    | nil => rw [join, List.intercalate_singleton]
    | cons next ps =>
      rw [join, List.intercalate_cons_cons, List.append_assoc, List.head?_append_of_ne_nil _ hne]
  rw [hhead]
  exact fun he => hslash (List.mem_of_head? he)

theorem head?_relativeName (hne : ∀ part ∈ ps, part ≠ []) (hslash : ∀ part ∈ ps, slash ∉ part) :
    (relativeName ps).head? ≠ some slash := by
  cases ps with
  | nil => decide
  | cons part ps =>
    rw [relativeName, if_neg (List.cons_ne_nil _ _)]
    exact head?_join (hne part List.mem_cons_self) (hslash part List.mem_cons_self) ps

theorem head?_relativeName_normal (p : Bytes) :
    (relativeName (normal slash dot p)).head? ≠ some slash :=
  head?_relativeName (fun _ hpart => (Path.mem_normal.1 hpart).2.1)
    fun _ hpart => slash_not_mem_normal hpart

/-! ### Parents and leaves -/

section Leaf

variable {ps : List Bytes} {leaf : Bytes}

theorem join_concat (hps : ps ≠ []) : join slash (ps ++ [leaf]) = join slash ps ++ slash :: leaf := by
  induction ps with
  | nil => exact absurd rfl hps
  | cons part ps ih =>
    cases ps with
    | nil => simp [join]
    | cons next ps =>
      have := ih (List.cons_ne_nil _ _)
      simp only [join, List.cons_append, List.intercalate_cons_cons] at this ⊢
      rw [this]
      simp

theorem rdropWhile_leaf (hleaf : slash ∉ leaf) (q : Bytes) :
    (q ++ slash :: leaf).rdropWhile (· != slash) = q ++ [slash] := by
  have hall : ∀ c ∈ leaf.reverse, (c != slash) = true := by
    intro c hc
    simpa using fun he : c = slash => hleaf (he ▸ List.mem_reverse.1 hc)
  simp [List.rdropWhile, List.dropWhile_append_of_pos hall]

theorem rtakeWhile_leaf (hleaf : slash ∉ leaf) (q : Bytes) :
    (q ++ slash :: leaf).rtakeWhile (· != slash) = leaf := by
  have hall : ∀ c ∈ leaf.reverse, (c != slash) = true := by
    intro c hc
    simpa using fun he : c = slash => hleaf (he ▸ List.mem_reverse.1 hc)
  simp [List.rtakeWhile, List.takeWhile_append_of_pos hall]

/-- The last symbol of a component is no separator. -/
theorem rdropWhile_slash_leaf (hne : leaf ≠ []) (hleaf : slash ∉ leaf) (q : Bytes) :
    (q ++ leaf).rdropWhile (· == slash) = q ++ leaf := by
  rw [List.rdropWhile_eq_self_iff]
  intro hl
  rw [List.getLast_append_of_ne_nil _ hne]
  simpa using fun he : leaf.getLast hne = slash => hleaf (he ▸ List.getLast_mem hne)

variable (hplain : ∀ part ∈ ps ++ [leaf], plain dot part = true)
  (hslash : ∀ part ∈ ps ++ [leaf], slash ∉ part) (hdots : [dot, dot] ∉ ps)

include hplain hslash

theorem base_join : base (join slash (ps ++ [leaf])) = leaf := by
  have hleaf : slash ∉ leaf := hslash leaf (by simp)
  have hne : leaf ≠ [] := (Path.plain_iff.1 (hplain leaf (by simp))).1
  by_cases hps : ps = []
  · subst hps
    have hall : ∀ c ∈ leaf.reverse, (c != slash) = true := by
      intro c hc
      simpa using fun he : c = slash => hleaf (he ▸ List.mem_reverse.1 hc)
    have htake : leaf.rtakeWhile (· != slash) = leaf := by
      rw [List.rtakeWhile, List.takeWhile_eq_self_iff.2 hall, List.reverse_reverse]
    have hstrip := rdropWhile_slash_leaf hne hleaf []
    rw [List.nil_append] at hstrip
    simp only [base, join, List.nil_append, List.intercalate_singleton, hstrip, htake, if_neg hne]
  · rw [join_concat hps]
    have hstrip := rdropWhile_slash_leaf hne hleaf (join slash ps ++ [slash])
    rw [List.append_assoc, List.singleton_append] at hstrip
    simp only [base, hstrip, rtakeWhile_leaf hleaf, if_neg hne]
    simp

include hdots

theorem dir_join : dir (join slash (ps ++ [leaf])) = relativeName ps := by
  have hleaf : slash ∉ leaf := hslash leaf (by simp)
  by_cases hps : ps = []
  · subst hps
    have hdrop : leaf.rdropWhile (· != slash) = [] := by
      rw [List.rdropWhile_eq_nil_iff]
      intro c hc
      simpa using fun he : c = slash => hleaf (he ▸ hc)
    simp [dir, join, hdrop, clean, relativeName]
  · have hnormal : normal slash dot (join slash ps ++ [slash]) = ps := by
      have hjoin := Path.normal_join (fun part hpart => hslash part (List.mem_append_left _ hpart))
        fun part hpart => hplain part (List.mem_append_left _ hpart)
      rw [Path.normal_append, hjoin, Path.normal_nil, List.append_nil]
    have hrel : (join slash ps ++ [slash]).head? ≠ some slash := by
      cases ps with
      | nil => exact absurd rfl hps
      | cons part ps =>
        have hne : part ≠ [] := (Path.plain_iff.1 (hplain part (by simp))).1
        have hhead := head?_join hne (hslash part (by simp)) ps
        rwa [List.head?_append_of_ne_nil]
        intro hnil
        simp [hnil] at hnormal
    rw [dir, join_concat hps, rdropWhile_leaf hleaf, clean_relative hrel (by rwa [hnormal]), hnormal]

end Leaf

/-- The operations that change a directory open the parent by its normal form and act on the last
component. -/
theorem fileAt_parent {leaf : Bytes} (h : ¬ Rejected p)
    (hnormal : normal slash dot p = ps ++ [leaf]) {operation : Operation}
    (hop : operation = .write ∨ operation = .mkdir ∨ operation = .delete) :
    fileAt { operation := operation, path := p } = .ok (.parent (relativeName ps) leaf) := by
  have hmem : ∀ part ∈ ps ++ [leaf], part ∈ normal slash dot p := fun part hpart => hnormal ▸ hpart
  have hplain : ∀ part ∈ ps ++ [leaf], plain dot part = true := fun part hpart =>
    Path.plain_iff.2 (Path.mem_normal.1 (hmem part hpart)).2
  have hslash : ∀ part ∈ ps ++ [leaf], slash ∉ part := fun part hpart =>
    slash_not_mem_normal (hmem part hpart)
  have hdots : [dot, dot] ∉ ps := fun hin =>
    h (.inr (.inr (.inr (Path.mem_normal.1 (hmem _ (List.mem_append_left _ hin))).1)))
  have hsome : ∃ c ∈ p, c ≠ slash := by
    by_contra hall
    push Not at hall
    rw [← normal_dropWhile_slash, dropWhile_slash_eq_nil.2 hall, Path.normal_nil] at hnormal
    simp at hnormal
  have hname : sandboxPath p = .ok (join slash (ps ++ [leaf])) := by
    rw [sandboxPath_normal h hsome, hnormal, relativeName, if_neg (by simp)]
  -- a name with a component is not `.`
  have hroot : onRoot (join slash (ps ++ [leaf])) operation = false := by
    have hne : join slash (ps ++ [leaf]) ≠ [dot] := by
      intro he
      have hjoin := Path.normal_join hslash hplain
      rw [he] at hjoin
      exact absurd hjoin.symm (by simp [show normal slash dot [dot] = [] by decide])
    simp [onRoot, hne]
  have hopen : confinedOpen (relativeName ps) = .ok (relativeName ps) := by
    refine if_neg (head?_relativeName (fun part hpart => ?_) fun part hpart => ?_)
    · exact (Path.plain_iff.1 (hplain part (List.mem_append_left _ hpart))).1
    · exact hslash part (List.mem_append_left _ hpart)
  have hdir := dir_join hplain hslash hdots
  have hbase := base_join hplain hslash
  rcases hop with rfl | rfl | rfl <;>
    · simp only [fileAt, hname]
      simp [hroot, hdir, hbase, hopen, bind, Except.bind, pure, Except.pure]

/-- What the files API promises of the path `p`: it is turned down exactly when it is empty, too
long, has a NUL or a component `..`; an accepted one is confined to its components, the root is
`.`, can be listed, and is guarded against every other operation. -/
structure Conforms (p : Bytes) : Prop where
  rejected : (∃ e, sandboxPath p = .error e) ↔
    p = [] ∨ 4096 < p.length ∨ 0 ∈ p ∨ [dot, dot] ∈ parts slash p
  relative : ∀ name, sandboxPath p = .ok name → name.head? ≠ some slash
  root : ∀ name, sandboxPath p = .ok name → normal slash dot p = [] → name = [dot]
  components : ∀ name, sandboxPath p = .ok name → normal slash dot p ≠ [] →
    name = join slash (normal slash dot p)
  listable : ¬ Rejected p → normal slash dot p = [] →
    fileAt { operation := .list, path := p } = .ok (.object [dot])
  guarded : ∀ name, sandboxPath p = .ok name → normal slash dot p = [] →
    ∀ operation, operation ≠ .list → onRoot name operation = true

/-- Separators alone are turned down only for their number. -/
theorem not_rejected_slashes (hne : p ≠ []) (hlen : p.length ≤ 4096) (hall : ∀ c ∈ p, c = slash) :
    ¬ Rejected p := by
  rintro (hnil | hlong | hnul | hdots)
  · exact hne hnil
  · omega
  · exact absurd (hall 0 hnul) (by decide)
  · have hpart : [dot, dot] ∈ normal slash dot p := Path.mem_normal.2 ⟨hdots, by decide, by decide⟩
    rw [← normal_dropWhile_slash, dropWhile_slash_eq_nil.2 hall] at hpart
    exact absurd hpart (by decide)

theorem Conforms.of_rejected (h : Rejected p) : Conforms p := by
  have herr := sandboxPath_of_rejected h
  refine ⟨sandboxPath_isError_iff p, ?_, ?_, ?_, fun hacc => absurd h hacc, ?_⟩ <;>
    · intro name hname
      rw [herr] at hname
      cases hname

theorem Conforms.of_accepted (h : ¬ Rejected p) (hsome : ∃ c ∈ p, c ≠ slash) : Conforms p := by
  have hname := sandboxPath_normal h hsome
  have hroot : normal slash dot p = [] → sandboxPath p = .ok [dot] := by
    intro hnil
    rw [hname, hnil]
    rfl
  refine ⟨sandboxPath_isError_iff p, ?_, ?_, ?_, ?_, ?_⟩
  · intro name hok
    rw [hname] at hok
    cases hok
    exact head?_relativeName_normal p
  · intro name hok hnil
    rw [hroot hnil] at hok
    cases hok
    rfl
  · intro name hok hne
    rw [hname] at hok
    cases hok
    rw [relativeName, if_neg hne]
  · intro _ hnil
    simp only [fileAt, hroot hnil]
    rfl
  · intro name hok hnil operation hop
    rw [hroot hnil] at hok
    cases hok
    simp [onRoot, hop]

/-- `sandboxPath` keeps its promises for every path but a run of separators: that one it turns
into the absolute name `/`. -/
theorem sandboxPath_conforms_iff (p : Bytes) :
    Conforms p ↔ ¬ (p ≠ [] ∧ p.length ≤ 4096 ∧ ∀ c ∈ p, c = slash) := by
  constructor
  · rintro h ⟨hne, hlen, hall⟩
    have hok := sandboxPath_slashes (not_rejected_slashes hne hlen hall) hall
    exact h.relative _ hok rfl
  · intro hnot
    by_cases hrej : Rejected p
    · exact .of_rejected hrej
    · refine .of_accepted hrej ?_
      by_contra hall
      push Not at hall
      refine hnot ⟨fun hnil => hrej (.inl hnil), ?_, hall⟩
      by_contra hlen
      exact hrej (.inr (.inl (by omega)))

/-- The path that `Files.call` asks for when the client names none: it is no spelling of `.`, so
the confined open fails and the root cannot be listed. -/
theorem root_not_listable :
    sandboxPath [slash] = .ok [slash] ∧
      fileAt { operation := .list, path := [slash] } = .error .invalidPath ∧
      (∀ operation, onRoot [slash] operation = false) ∧ ¬ Conforms [slash] := by
  have hname : sandboxPath [slash] = .ok [slash] :=
    sandboxPath_slashes (not_rejected_slashes (by simp) (by simp) (by simp)) (by simp)
  refine ⟨hname, ?_, ?_, fun h => ?_⟩
  · simp only [fileAt, hname]
    rfl
  · intro operation
    cases operation <;> rfl
  · exact h.relative _ hname rfl

end Sandcube.Files
