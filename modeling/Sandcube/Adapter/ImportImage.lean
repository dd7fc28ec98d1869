import Sandcube.Adapter.World
import Sandcube.Path.Relative

/-!
# Image imports

`ImportImage` of `images.go` takes an archive that a build left below the build root.  Whether it is
there is read off the text of the way from the root to the archive: it must not start with `../`, and
must not be the name of the archive alone.  The ways `..` and `.` pass this test, and lead to
directories, so that the archive is refused because it is not a regular file
(`openArchive_iff`).

The tree is the one without symbolic links, which `EvalSymlinks` leads to.
-/

namespace Sandcube.Adapter

open Sandcube.Path (slash dot text rooted Clean relative base)

/-! ### Files -/

inductive FileKind
  | directory
  | regular
  | other
  deriving DecidableEq

/-- What there is at the real paths.  Whatever has an entry is a directory. -/
structure RealTree where
  kind : List Bytes → Option FileKind
  clean : ∀ ps, kind ps ≠ none → Clean slash dot ps
  closed : ∀ ps name, kind (ps ++ [name]) ≠ none → kind ps = some .directory

structure ImageRequest where
  reference : String
  path : Bytes

structure ImageInfo where
  reference : String
  digest : String
  deriving DecidableEq

def imageTar : Bytes := text "image.tar"

/-- `os.Open` and `Stat` of a real path. -/
def RealTree.stat (tree : RealTree) (path : Bytes) : Except Err FileKind :=
  match tree.kind (Path.dirs path) with
  | none => .error .notFound
  | some kind => .ok kind

/-- `ImportImage` up to the open archive. -/
def openArchive (tree : RealTree) (evalSymlinks : Bytes → Except Err Bytes) (buildRoot : Bytes)
    (req : ImageRequest) : Except Err Bytes :=
  (evalSymlinks buildRoot).bind fun root =>
    (evalSymlinks req.path).bind fun path =>
      if [dot, dot, slash] <+: relative slash dot root path ∨ base slash dot path ≠ imageTar ∨
          relative slash dot root path = imageTar then
        .error (.other "image archive must be inside build root")
      else (tree.stat path).bind fun kind =>
        if kind ≠ .regular then .error (.other "image archive must be a regular file")
        else .ok path

/-! ### The calls of containerd -/

inductive ImageCall
  | getImage (reference : String)
  | withLease
  | importArchive (path : Bytes) (reference : String)
  | unpack
  | deleteImage (reference : String)
  | done
  deriving DecidableEq

/-- The answers of containerd. -/
structure ImageAnswers where
  existing : Except Err Unit
  lease : Except Err Unit
  imported : Except Err Unit
  found : Except Err ImageInfo
  unpacked : Except Err Unit

/-- `ImportImage` under the lease. -/
def importLeased (answers : ImageAnswers) (path : Bytes) (reference : String) :
    List ImageCall × Except Err ImageInfo :=
  match answers.imported with
  | .error err => ([.importArchive path reference], .error err)
  | .ok () =>
    match answers.found with
    | .error err => ([.importArchive path reference, .getImage reference], .error err)
    | .ok info =>
      ([.importArchive path reference, .getImage reference, .unpack],
        answers.unpacked.map fun _ => info)

/-- What is deferred under the lease. -/
def releaseLease (reference : String) (result : Except Err ImageInfo) : List ImageCall :=
  match result with
  | .error _ => [.deleteImage reference, .done]
  | .ok _ => [.done]

/-- `ImportImage`: the calls it makes, and its result. -/
def importImage (tree : RealTree) (evalSymlinks : Bytes → Except Err Bytes)
    (answers : ImageAnswers) (buildRoot : Bytes) (req : ImageRequest) :
    List ImageCall × Except Err ImageInfo :=
  match openArchive tree evalSymlinks buildRoot req with
  | .error err => ([], .error err)
  | .ok path =>
    match answers.existing with
    | .ok () => ([.getImage req.reference], .error .alreadyExists)
    | .error .notFound =>
      match answers.lease with
      | .error err => ([.getImage req.reference, .withLease], .error err)
      | .ok () =>
        let leased := importLeased answers path req.reference
        ([.getImage req.reference, .withLease] ++ leased.1 ++ releaseLease req.reference leased.2,
          leased.2)
    | .error err => ([.getImage req.reference], .error err)

/-! ### The path of the archive -/

/-- A regular file named `image.tar` in a proper subdirectory of the build root. -/
def InBuildRoot (tree : RealTree) (root path : List Bytes) : Prop :=
  tree.kind path = some .regular ∧ ∃ between, between ≠ [] ∧ path = root ++ between ++ [imageTar]

theorem clean_imageTar : Clean slash dot [imageTar] := by
  intro part hpart
  rw [List.mem_singleton.mp hpart]
  decide +kernel

section

variable {tree : RealTree} {evalSymlinks : Bytes → Except Err Bytes} {buildRoot : Bytes}
  {req : ImageRequest} {root path : List Bytes}
variable {answers : ImageAnswers} {file : Bytes} {reference : String}

/-- The name of the archive is its last component. -/
theorem base_eq_imageTar_iff (h : Clean slash dot path) :
    base slash dot (rooted slash path) = imageTar ↔ ∃ front, path = front ++ [imageTar] := by
  constructor
  · rcases List.eq_nil_or_concat' path with rfl | ⟨front, name, rfl⟩
    · rw [Path.base_root]
      intro he
      exact absurd he (by decide +kernel)
    · obtain ⟨hslash, hplain, -⟩ := h name (by simp)
      rw [Path.base_rooted hslash (Path.plain_iff.mp hplain).1]
      rintro rfl
      exact ⟨front, rfl⟩
  · rintro ⟨front, rfl⟩
    obtain ⟨hslash, hplain, -⟩ := clean_imageTar imageTar (List.mem_singleton_self _)
    exact Path.base_rooted hslash (Path.plain_iff.mp hplain).1

/-- The tests on the texts and the test of the file together say where the archive is. -/
theorem accepted_iff (hroot : tree.kind root = some .directory) (hpath : tree.kind path ≠ none) :
    (¬ ([dot, dot, slash] <+: relative slash dot (rooted slash root) (rooted slash path) ∨
        base slash dot (rooted slash path) ≠ imageTar ∨
        relative slash dot (rooted slash root) (rooted slash path) = imageTar) ∧
      tree.kind path = some .regular) ↔ InBuildRoot tree root path := by
  have hcroot := tree.clean root (by rw [hroot]; exact Option.some_ne_none _)
  have hcpath := tree.clean path hpath
  rw [not_or, not_or, not_not, base_eq_imageTar_iff hcpath,
    Path.up_isPrefix_relative_iff Path.slash_ne_dot hcroot hcpath]
  constructor
  · rintro ⟨⟨hup, ⟨front, hfront⟩, hdirect⟩, hregular⟩
    refine ⟨hregular, ?_⟩
    -- The directory that holds the root passes the test on the text, and is a directory.
    have hbelow : root <+: path := by
      by_contra hnot
      refine hup ⟨hnot, fun name hname => ?_⟩
      have hdirectory := tree.closed path name (by rw [← hname, hroot]; exact Option.some_ne_none _)
      rw [hregular] at hdirectory
      cases hdirectory
    obtain ⟨rest, rfl⟩ := hbelow
    rw [Path.relative_eq_name_iff hcpath clean_imageTar] at hdirect
    rcases List.eq_nil_or_concat' rest with rfl | ⟨between, name, rfl⟩
    · -- So is the root itself.
      rw [List.append_nil, hroot] at hregular
      cases hregular
    · rw [← List.append_assoc] at hfront
      obtain ⟨-, hname⟩ := List.append_inj' hfront rfl
      rw [hname] at hdirect ⊢
      refine ⟨between, ?_, (List.append_assoc _ _ _).symm⟩
      rintro rfl
      exact hdirect rfl
  · rintro ⟨hregular, between, hne, rfl⟩
    refine ⟨⟨fun hup => ?_, ⟨_, rfl⟩, ?_⟩, hregular⟩
    · exact hup.1 ⟨between ++ [imageTar], (List.append_assoc _ _ _).symm⟩
    · rw [List.append_assoc] at hcpath ⊢
      rw [Path.relative_eq_name_iff hcpath clean_imageTar]
      intro he
      exact hne (List.append_left_eq_self.mp he)

theorem openArchive_iff (hroot : evalSymlinks buildRoot = .ok (rooted slash root))
    (hdirectory : tree.kind root = some .directory)
    (hreq : evalSymlinks req.path = .ok (rooted slash path)) (hpath : tree.kind path ≠ none)
    (file : Bytes) :
    openArchive tree evalSymlinks buildRoot req = .ok file ↔
      InBuildRoot tree root path ∧ file = rooted slash path := by
  obtain ⟨kind, hkind⟩ := Option.ne_none_iff_exists'.mp hpath
  have hstat : tree.stat (rooted slash path) = .ok kind := by
    rw [RealTree.stat, Path.dirs_rooted (tree.clean path hpath), hkind]
  rw [← accepted_iff hdirectory hpath, openArchive, hroot, hreq]
  simp only [Except.bind, hstat, hkind, Option.some.injEq]
  split_ifs with htext hregular
  · simp [htext]
  · simp [hregular]
  · rw [ne_eq, not_not] at hregular
    simp only [Except.ok.injEq, htext, hregular, not_false_eq_true, and_self, true_and]
    exact eq_comm

/-! ### The import -/

theorem mem_importLeased {archive : Bytes} {reference' : String} :
    .importArchive file reference' ∈ (importLeased answers archive reference).1 ↔
      file = archive ∧ reference' = reference := by
  unfold importLeased
  split
  · simp
  · split <;> simp

theorem importArchive_notMem_releaseLease {reference' : String} {result : Except Err ImageInfo} :
    .importArchive file reference' ∉ releaseLease reference result := by
  unfold releaseLease
  split <;> simp

/-- Containerd is given an open archive when the reference is not taken and there is a lease. -/
theorem mem_importImage :
    .importArchive file reference ∈
        (importImage tree evalSymlinks answers buildRoot req).1 ↔
      openArchive tree evalSymlinks buildRoot req = .ok file ∧ reference = req.reference ∧
        answers.existing = .error .notFound ∧ answers.lease = .ok () := by
  unfold importImage
  cases hopen : openArchive tree evalSymlinks buildRoot req with
  | error err => simp
  | ok archive =>
    rcases hexisting : answers.existing with err | -
    · cases err with
      | notFound =>
        rcases hlease : answers.lease with err | -
        · simp
        · simp [mem_importLeased, importArchive_notMem_releaseLease, eq_comm]
      | _ => simp
    · simp

/-- **A lease is given back on every outcome**, and the reference is deleted when the import
failed. -/
theorem importImage_releases
    (h : .importArchive file reference ∈ (importImage tree evalSymlinks answers buildRoot req).1) :
    (importImage tree evalSymlinks answers buildRoot req).1.getLast? = some .done ∧
      ∀ err, (importImage tree evalSymlinks answers buildRoot req).2 = .error err →
        .deleteImage req.reference ∈ (importImage tree evalSymlinks answers buildRoot req).1 := by
  obtain ⟨hopen, -, hexisting, hlease⟩ := mem_importImage.mp h
  have hrun : importImage tree evalSymlinks answers buildRoot req =
      ([.getImage req.reference, .withLease] ++ (importLeased answers file req.reference).1 ++
          releaseLease req.reference (importLeased answers file req.reference).2,
        (importLeased answers file req.reference).2) := by
    simp only [importImage, hopen, hexisting, hlease]
  rw [hrun]
  dsimp only
  cases (importLeased answers file req.reference).2 with
  | error err =>
    refine ⟨?_, fun _ _ => List.mem_append_right _ List.mem_cons_self⟩
    rw [releaseLease, List.getLast?_append_of_ne_nil _ (List.cons_ne_nil _ _)]
    rfl
  | ok info =>
    constructor
    · rw [releaseLease, List.getLast?_append_of_ne_nil _ (List.cons_ne_nil _ _)]
      rfl
    · intro err herr
      cases herr

/-- **Imports stay inside the build root.**  The archive is opened exactly when it is a regular file
named `image.tar` in a proper subdirectory of the build root, and this file is the only one that is
imported; it is imported exactly when besides the reference is not taken and there is a lease. -/
theorem importImage_inside_iff (answers : ImageAnswers)
    (hroot : evalSymlinks buildRoot = .ok (rooted slash root))
    (hdirectory : tree.kind root = some .directory)
    (hreq : evalSymlinks req.path = .ok (rooted slash path)) (hpath : tree.kind path ≠ none) :
    ((∃ file, openArchive tree evalSymlinks buildRoot req = .ok file) ↔
        InBuildRoot tree root path) ∧
      ∀ file reference,
        .importArchive file reference ∈
            (importImage tree evalSymlinks answers buildRoot req).1 ↔
          InBuildRoot tree root path ∧ file = rooted slash path ∧ reference = req.reference ∧
            answers.existing = .error .notFound ∧ answers.lease = .ok () := by
  have hopen := openArchive_iff hroot hdirectory hreq hpath
  constructor
  · constructor
    · rintro ⟨file, hfile⟩
      exact ((hopen file).mp hfile).1
    · intro hinside
      exact ⟨rooted slash path, (hopen _).mpr ⟨hinside, rfl⟩⟩
  · intro file reference
    rw [mem_importImage, hopen, and_assoc]

end

/-- The tree of one file. -/
def fileKind (file ps : List Bytes) : Option FileKind :=
  if ps = file then some .regular else if ps <+: file then some .directory else none

theorem isPrefix_of_fileKind {file ps : List Bytes} (h : fileKind file ps ≠ none) :
    ps <+: file := by
  unfold fileKind at h
  split_ifs at h with heq hinit
  · rw [heq]
  · exact hinit
  · exact absurd rfl h

theorem fileKind_closed (file ps : List Bytes) (name : Bytes)
    (h : fileKind file (ps ++ [name]) ≠ none) : fileKind file ps = some .directory := by
  have hlonger := isPrefix_of_fileKind h
  have hne : ps ≠ file := by
    rintro rfl
    have := hlonger.length_le
    simp at this
  rw [fileKind, if_neg hne, if_pos ((List.prefix_append _ _).trans hlonger)]

theorem fileKind_clean {file : List Bytes} (hfile : Clean slash dot file) (ps : List Bytes)
    (h : fileKind file ps ≠ none) : Clean slash dot ps :=
  fun part hpart => hfile part ((isPrefix_of_fileKind h).subset hpart)

def fileTree (file : List Bytes) (hfile : Clean slash dot file) : RealTree :=
  ⟨fileKind file, fileKind_clean hfile, fileKind_closed file⟩

theorem clean_built : Clean slash dot [text "builds", text "..1", imageTar] := by
  intro part hpart
  have hall : [text "builds", text "..1", imageTar].all fun part =>
      decide (slash ∉ part ∧ Path.plain dot part = true ∧ part ≠ [dot, dot]) := by decide +kernel
  exact of_decide_eq_true (List.all_eq_true.mp hall part hpart)

/-- An archive in a directory whose name starts with dots. -/
theorem importImage_inside_dots :
    .importArchive (text "/builds/..1/image.tar") "sandcube.local/images/img_1:latest" ∈
      (importImage (fileTree _ clean_built) .ok
        ⟨.error .notFound, .ok (), .ok (), .error .notFound, .ok ()⟩ (text "/builds")
        ⟨"sandcube.local/images/img_1:latest", text "/builds/..1/image.tar"⟩).1 := by
  have hroot : (Except.ok (text "/builds") : Except Err Bytes) =
      .ok (rooted slash [text "builds"]) := by decide +kernel
  have hreq : (Except.ok (text "/builds/..1/image.tar") : Except Err Bytes) =
      .ok (rooted slash [text "builds", text "..1", imageTar]) := by decide +kernel
  have hdirectory : (fileTree _ clean_built).kind [text "builds"] = some .directory := by
    decide +kernel
  have hkind : (fileTree _ clean_built).kind [text "builds", text "..1", imageTar] =
      some .regular := by decide +kernel
  have hexists : (fileTree _ clean_built).kind [text "builds", text "..1", imageTar] ≠ none := by
    rw [hkind]
    exact Option.some_ne_none _
  have hinside : InBuildRoot (fileTree _ clean_built) [text "builds"]
      [text "builds", text "..1", imageTar] :=
    ⟨hkind, [text "..1"], List.cons_ne_nil _ _, rfl⟩
  exact ((importImage_inside_iff _ hroot hdirectory hreq hexists).2 _ _).mpr
    ⟨hinside, Except.ok.inj hreq, rfl, rfl, rfl⟩

end Sandcube.Adapter
