import Sandcube.Files.Tree

/-!
# Uploads are all or nothing

An upload that fails leaves the tree as it was, whichever call has failed.  One that succeeds
changes one name: it stands for a new file with the decoded bytes and the chosen mode, and what has
another name, a second name of the replaced file included, shows what it did
(`FileTree.Replaced`).  The way to the leaf is still open afterwards, so a read of the path finds
the new bytes (`readOn_replaced`).
-/

namespace Sandcube.Files

open Sandcube.Path (Bytes slash dot normal join plain)

variable {k : Kernel} {draw data : Bytes} {mode d i root : ℕ} {leaf : Bytes} {t t' : Tree}
variable {tmp name leaf p content : Bytes} {x : Inode Bytes UInt8} {ps : List Bytes}

/-! ### The new file -/

/-- The new file as it is meant to be. -/
def uploaded (t : Tree) (d : ℕ) (data : Bytes) (mode : ℕ) : Inode Bytes UInt8 :=
  ⟨.file data, mode, ((t.face? d).map Inode.device).getD 0⟩

/-- Up to its close the new file has some content and mode, and without an error those that it is
meant to have. -/
theorem fill_spec (k : Kernel) (t : Tree) (d : ℕ) (tmp data : Bytes) (mode : ℕ) :
    ∃ x, x.entries? = none ∧
      (fill k t.fresh data mode (t.create d tmp (blank t d))).1 = t.create d tmp x ∧
      ((fill k t.fresh data mode (t.create d tmp (blank t d))).2 = none →
        x = uploaded t d data mode) := by
  unfold fill
  cases hwrite : k.error .write with
  | some e =>
    refine ⟨setContent (data.take k.short) (blank t d), rfl, ?_, fun h => by cases h⟩
    exact FileTree.update_create t d tmp _ _
  | none =>
    cases hchmod : k.error .chmod with
    | some e =>
      refine ⟨setContent data (blank t d), rfl, ?_, fun h => by cases h⟩
      exact FileTree.update_create t d tmp _ _
    | none =>
      refine ⟨uploaded t d data mode, rfl, ?_, fun _ => rfl⟩
      dsimp only
      rw [FileTree.update_create, FileTree.update_create]
      rfl

theorem renameOn_eq_ok (h : renameOn k d tmp leaf t = .ok t') : t' = t.rename d tmp leaf := by
  unfold renameOn Kernel.try at h
  split at h
  · cases h
  · split at h
    · cases h
      rfl
    · split_ifs at h
      cases h
      rfl

/-- An upload leaves the tree as it was or puts the new file in its place. -/
theorem uploadOn_cases (k : Kernel) (draw data : Bytes) (mode : ℕ) (leaf : Bytes)
    (hdir : (t.entries? d).isSome) :
    (∃ e, uploadOn k draw data mode d leaf t = (t, .error e)) ∨
      t.lookup d (temporary draw) = none ∧
        uploadOn k draw data mode d leaf t =
          (((t.create d (temporary draw) (uploaded t d data mode)).rename d (temporary draw)
            leaf).unlink d (temporary draw), .ok .ok) := by
  obtain ⟨x, hx, hfilled, hdone⟩ := fill_spec k t d (temporary draw) data mode
  unfold uploadOn
  dsimp only
  cases hcreate : k.try .create
      (if (t.lookup d (temporary draw)).isSome then .error .exist else .ok ()) with
  | error e => exact .inl ⟨_, rfl⟩
  | ok _ =>
    have hnone : t.lookup d (temporary draw) = none := by
      unfold Kernel.try at hcreate
      split at hcreate
      · cases hcreate
      · split_ifs at hcreate with hsome
        exact Option.not_isSome_iff_eq_none.mp hsome
    have hback := FileTree.unlink_create hdir hx hnone
    obtain ⟨filled, e, hfill⟩ : ∃ filled e,
        fill k t.fresh data mode (t.create d (temporary draw) (blank t d)) = (filled, e) :=
      ⟨_, _, rfl⟩
    rw [hfill] at hfilled hdone
    dsimp only at hfilled hdone ⊢
    rw [hfill]
    subst hfilled
    cases e with
    | some e => exact .inl ⟨.errno e, by dsimp only; rw [hback]⟩
    | none =>
      dsimp only
      cases hrename : renameOn k d (temporary draw) leaf (t.create d (temporary draw) x) with
      | error e => exact .inl ⟨.errno e, by dsimp only; rw [hback]⟩
      | ok renamed =>
        refine .inr ⟨hnone, ?_⟩
        rw [renameOn_eq_ok hrename, hdone rfl]

/-- An upload whose temporary name is not the leaf replaces the leaf, or fails. -/
theorem uploadOn_spec (k : Kernel) (data : Bytes) (mode : ℕ) (hdir : (t.entries? d).isSome)
    (hdraw : leaf ≠ temporary draw) (hfile : ∀ j, t.lookup d leaf = some j → t.entries? j = none) :
    (∃ e, uploadOn k draw data mode d leaf t = (t, .error e)) ∨
      (uploadOn k draw data mode d leaf t).2 = .ok .ok ∧
        t.Replaced (uploadOn k draw data mode d leaf t).1 d leaf (uploaded t d data mode) := by
  rcases uploadOn_cases k draw data mode leaf hdir with herror | ⟨hnone, heq⟩
  · exact .inl herror
  · right
    rw [heq]
    refine ⟨rfl, ?_⟩
    have hreplaced := FileTree.replaced_rename (x := uploaded t d data mode) hdir rfl hnone
      (Ne.symm hdraw) hfile
    -- the temporary name is gone, so the deferred unlink finds nothing
    have hgone : ((t.create d (temporary draw) (uploaded t d data mode)).rename d (temporary draw)
        leaf).lookup d (temporary draw) = none := by
      rw [hreplaced.others d _ fun h => hdraw h.2.symm]
      exact hnone
    dsimp only
    rw [FileTree.unlink, hgone]
    exact hreplaced

/-! ### The leaf -/

/-- The permission bits of what is behind the leaf. -/
def replacedMode (t : Tree) (d : ℕ) (leaf : Bytes) : Option ℕ :=
  ((t.lookup d leaf).bind t.face?).map fun x => x.mode % 0o1000

theorem entries?_eq_none_of_content? (h : x.content?.isSome) : x.entries? = none := by
  obtain ⟨kind, mode, device⟩ := x
  cases kind with
  | file _ => rfl
  | directory _ | symlink _ | special => cases h

theorem entries?_isSome_iff_face? (t : Tree) (i : ℕ) :
    (t.entries? i).isSome ↔ ∃ x, t.face? i = some x ∧ x.entries?.isSome := by
  unfold FileTree.entries? FileTree.face?
  cases t.inode? i with
  | none | some x => simp

/-- Where the code goes on after `Fstatat`, there is a file or nothing. -/
theorem statLeaf_eq_ok {replaced : Option ℕ} (h : statLeaf k d leaf t = .ok replaced) :
    replaced = replacedMode t d leaf ∧ ∀ j, t.lookup d leaf = some j → t.entries? j = none := by
  unfold statLeaf at h
  split at h
  · cases h
  · unfold replacedMode
    cases hleaf : t.lookup d leaf with
    | none =>
      rw [hleaf] at h
      cases h
      exact ⟨rfl, fun j hj => by cases hj⟩
    | some i =>
      rw [hleaf, Option.bind_some] at h
      rw [Option.bind_some]
      cases hface : t.face? i with
      | none =>
        rw [hface] at h
        cases h
        refine ⟨rfl, fun j hj => ?_⟩
        cases hj
        rw [← Option.not_isSome_iff_eq_none, entries?_isSome_iff_face?, hface]
        rintro ⟨x, hx, -⟩
        cases hx
      | some x =>
        rw [hface] at h
        dsimp only at h
        split_ifs at h with hcontent
        cases h
        refine ⟨rfl, fun j hj => ?_⟩
        cases hj
        rw [← Option.not_isSome_iff_eq_none, entries?_isSome_iff_face?, hface]
        rintro ⟨y, hy, hentries⟩
        cases hy
        rw [entries?_eq_none_of_content? hcontent] at hentries
        cases hentries

/-! ### The way to the leaf -/

theorem enter_eq_ok {part : Bytes} {j : ℕ} :
    enter t i part = .ok j ↔ ∃ here there, t.face? i = some here ∧ here.entries?.isSome ∧
      t.lookup i part = some j ∧ t.face? j = some there ∧ there.device = here.device ∧
      there.isSymlink = false := by
  unfold enter
  constructor
  · intro h
    split at h
    · cases h
    · next here hhere =>
      split_ifs at h with hdir
      split at h
      · cases h
      · next j' hj' =>
        split at h
        · cases h
        · next there hthere =>
          split_ifs at h with hdev hlink
          cases h
          exact ⟨here, there, hhere, hdir, hj', hthere, not_not.mp hdev, by simpa using hlink⟩
  · rintro ⟨here, there, hhere, hdir, hj, hthere, hdev, hlink⟩
    rw [hhere]
    dsimp only
    rw [if_pos hdir, hj]
    dsimp only
    rw [hthere]
    dsimp only
    rw [if_neg (not_not.mpr hdev), hlink]
    rfl

theorem walk_append (t : Tree) (i : ℕ) (ps qs : List Bytes) :
    walk t i (ps ++ qs) = (walk t i ps).bind fun j => walk t j qs := by
  induction ps generalizing i with
  | nil => rfl
  | cons part ps ih =>
    rw [List.cons_append, walk, walk]
    cases enter t i part with
    | error e => rfl
    | ok j => exact ih j

/-- A directory on the way is no replaced file, so the way stays open. -/
theorem walk_replaced (h : t.Replaced t' d leaf x)
    (hfile : ∀ j, t.lookup d leaf = some j → t.entries? j = none) (hdir : (t.entries? d).isSome)
    (hwalk : walk t i ps = .ok d) : walk t' i ps = .ok d := by
  have hkept : ∀ {j y}, t.face? j = some y → y.entries?.isSome → t'.face? j = some y := by
    intro j y hy hentries
    have hnot : t.lookup d leaf ≠ some j := fun hj => by
      have hsome := (entries?_isSome_iff_face? t j).mpr ⟨y, hy, hentries⟩
      rw [hfile j hj] at hsome
      cases hsome
    have hinode : (t.inode? j).isSome := by
      unfold FileTree.face? at hy
      obtain ⟨z, hz, -⟩ := Option.map_eq_some_iff.mp hy
      exact Option.isSome_of_eq_some hz
    rw [h.rest j hinode hnot, hy]
  induction ps generalizing i with
  | nil => exact hwalk
  | cons part ps ih =>
    rw [walk] at hwalk ⊢
    cases henter : enter t i part with
    | error e => rw [henter] at hwalk; cases hwalk
    | ok j =>
      rw [henter] at hwalk
      have hrest : walk t' j ps = .ok d := ih hwalk
      obtain ⟨here, there, hhere, hentries, hj, hthere, hdev, hlink⟩ := enter_eq_ok.mp henter
      -- what comes next is a directory: the end of the way, or one that is entered
      have hnext : (t.entries? j).isSome := by
        cases ps with
        | nil =>
          cases hwalk
          exact hdir
        | cons part' ps =>
          cases henter' : enter t j part' with
          | error e =>
            have hfail : Except.bind (enter t j part') (fun j => walk t j ps) = .ok d := hwalk
            rw [henter'] at hfail
            cases hfail
          | ok j' =>
            obtain ⟨here', -, hhere', hentries', -⟩ := enter_eq_ok.mp henter'
            exact (entries?_isSome_iff_face? t j).mpr ⟨here', hhere', hentries'⟩
      obtain ⟨y, hy, hyentries⟩ := (entries?_isSome_iff_face? t j).mp hnext
      have hthere' : there = y := Option.some.inj (hthere.symm.trans hy)
      have hother : ¬ (i = d ∧ part = leaf) := by
        rintro ⟨rfl, rfl⟩
        rw [hfile j hj] at hnext
        cases hnext
      have henter' : enter t' i part = .ok j := by
        refine enter_eq_ok.mpr ⟨here, there, hkept hhere hentries, hentries, ?_, ?_, hdev, hlink⟩
        · rw [h.others i part hother, hj]
        · rw [hthere']
          exact hkept hy hyentries
      rw [henter']
      exact hrest

/-- The new file can be entered from its directory. -/
theorem enter_replaced (hdir : (t.entries? d).isSome)
    (hfile : ∀ j, t.lookup d leaf = some j → t.entries? j = none)
    (h : t.Replaced t' d leaf (uploaded t d data mode)) :
    ∃ j, enter t' d leaf = .ok j ∧ t'.face? j = some (uploaded t d data mode) := by
  obtain ⟨j, hj, -, hface⟩ := h.target
  obtain ⟨here, hhere, hentries⟩ := (entries?_isSome_iff_face? t d).mp hdir
  have hkept : t'.face? d = some here := by
    have hinode : (t.inode? d).isSome := by
      unfold FileTree.face? at hhere
      obtain ⟨z, hz, -⟩ := Option.map_eq_some_iff.mp hhere
      exact Option.isSome_of_eq_some hz
    have hnot : t.lookup d leaf ≠ some d := fun hd => by
      rw [hfile d hd] at hdir
      cases hdir
    rw [h.rest d hinode hnot, hhere]
  refine ⟨j, enter_eq_ok.mpr ⟨here, _, hkept, hentries, hj, hface, ?_, rfl⟩, hface⟩
  show ((t.face? d).map Inode.device).getD 0 = here.device
  rw [hhere]
  rfl

/-! ### Paths -/

/-- The mode only has to be small enough. -/
theorem fileAt_of_mode {req : FileRequest} (h : req.mode.any (· > 0o777) = false) :
    fileAt req = fileAt { operation := req.operation, path := req.path } := by
  unfold fileAt
  simp [h]

theorem mode_of_fileAt {req : FileRequest} {opened : Opened} (h : fileAt req = .ok opened) :
    req.mode.any (· > 0o777) = false := by
  by_contra hmode
  have hlarge : req.mode.any (· > 0o777) = true := by simpa using hmode
  unfold fileAt at h
  rw [hlarge] at h
  cases h

/-- A write acts on a component of a directory. -/
theorem fileAt_ne_object {req : FileRequest} (hop : req.operation = .write) (name : Bytes) :
    fileAt req ≠ .ok (.object name) := by
  intro h
  rw [fileAt_of_mode (mode_of_fileAt h), hop] at h
  unfold fileAt at h
  cases hname : sandboxPath req.path with
  | error e =>
    rw [hname] at h
    cases h
  | ok found =>
    rw [hname] at h
    by_cases hroot : onRoot found .write = true
    · simp [bind, Except.bind, hroot] at h
    · have hrest : (confinedOpen (dir found)).bind (fun parent =>
          Except.ok (Opened.parent parent (base found))) = .ok (.object name) := by
        simpa [bind, Except.bind, pure, Except.pure, hroot] using h
      cases hopen : confinedOpen (dir found) with
      | error e | ok parent =>
        rw [hopen] at hrest
        cases hrest

/-- A name with a component to act on comes from a path that ends in that component. -/
theorem fileAt_eq_parent {req : FileRequest} (hop : req.operation = .write)
    (h : fileAt req = .ok (.parent name leaf)) :
    ¬ Rejected req.path ∧ ∃ ps, normal slash dot req.path = ps ++ [leaf] ∧ name = relativeName ps := by
  rw [fileAt_of_mode (mode_of_fileAt h), hop] at h
  have hrejected : ¬ Rejected req.path := by
    intro hrej
    unfold fileAt at h
    rw [sandboxPath_of_rejected hrej] at h
    cases h
  refine ⟨hrejected, ?_⟩
  rcases List.eq_nil_or_concat (normal slash dot req.path) with hnil | ⟨ps, last, hconcat⟩
  · -- the root: `.`, which may only be listed, or `/`, which cannot be opened
    exfalso
    by_cases hsome : ∃ c ∈ req.path, c ≠ slash
    · have hname := sandboxPath_normal hrejected hsome
      rw [hnil] at hname
      unfold fileAt at h
      rw [hname] at h
      cases h
    · have hall : ∀ c ∈ req.path, c = slash := by
        push Not at hsome
        exact hsome
      have hdir : dir [slash] = [slash] := by
        have hloop : Clean.loop true [] [slash] 1 = [slash] := by
          rw [Clean.loop_eq true [] [slash] 1 (by decide)]
          rfl
        simp [dir, clean, List.rdropWhile, hloop]
      have hopen : confinedOpen (dir [slash]) = .error .invalidPath := by
        rw [hdir]
        rfl
      unfold fileAt at h
      rw [sandboxPath_slashes hrejected hall] at h
      have hfail : (confinedOpen (dir [slash])).bind (fun parent =>
          Except.ok (Opened.parent parent (base [slash]))) = .ok (.parent name leaf) := h
      rw [hopen] at hfail
      cases hfail
  · rw [List.concat_eq_append] at hconcat
    rw [fileAt_parent hrejected hconcat (.inl rfl)] at h
    cases h
    exact ⟨ps, hconcat, rfl⟩

/-- The components of a path that is accepted are plain. -/
theorem normal_relativeName_normal (p : Bytes) (h : ∀ part ∈ ps, part ∈ normal slash dot p) :
    normal slash dot (relativeName ps) = ps := by
  unfold relativeName
  by_cases hps : ps = []
  · rw [if_pos hps, hps]
    decide
  · rw [if_neg hps]
    exact Path.normal_join (fun part hpart => slash_not_mem_normal (h part hpart)) fun part hpart =>
      Path.plain_iff.2 (Path.mem_normal.1 (h part hpart)).2

/-- A read opens the name that a write has replaced. -/
theorem fileAt_read {req : FileRequest} (h : ¬ Rejected p)
    (hnormal : normal slash dot p = ps ++ [leaf]) (hop : req.operation = .read)
    (hpath : req.path = p) (hmode : req.mode.any (· > 0o777) = false) :
    fileAt req = .ok (.object (relativeName (ps ++ [leaf]))) := by
  rw [fileAt_of_mode hmode, hop, hpath]
  have hsome : ∃ c ∈ p, c ≠ slash := by
    by_contra hall
    push Not at hall
    rw [← normal_dropWhile_slash, dropWhile_slash_eq_nil.2 hall, Path.normal_nil] at hnormal
    simp at hnormal
  have hname := sandboxPath_normal h hsome
  have hback := normal_relativeName_normal p fun part (hpart : part ∈ ps ++ [leaf]) => hnormal ▸ hpart
  have hroot : onRoot (relativeName (ps ++ [leaf])) .read = false := by
    have hne : relativeName (ps ++ [leaf]) ≠ [dot] := by
      intro he
      rw [he] at hback
      exact absurd hback.symm (by simp [show normal slash dot [dot] = [] by decide])
    simp [onRoot, hne]
  have hopen : confinedOpen (relativeName (ps ++ [leaf])) = .ok (relativeName (ps ++ [leaf])) := by
    rw [confinedOpen, if_neg]
    rw [← hnormal]
    exact head?_relativeName_normal p
  rw [hnormal] at hname
  unfold fileAt
  rw [hname]
  simp [hroot, hopen, bind, Except.bind, pure, Except.pure]

/-! ### Requests -/

/-- No call of a read fails. -/
def Kernel.Reads (k : Kernel) : Prop :=
  ∀ call ∈ [Call.resolve, .fstat, .reopen, .read], k.fails call = none

theorem Kernel.Reads.error (h : k.Reads) {call : Call}
    (hcall : call ∈ [Call.resolve, .fstat, .reopen, .read]) : k.error call = none := by
  rw [Kernel.error, h call hcall]
  rfl

theorem openBeneath_eq_ok (h : openBeneath k t root name = .ok i) :
    walk t root (normal slash dot name) = .ok i := by
  unfold openBeneath Kernel.try at h
  cases hfail : k.error .resolve with
  | some e =>
    rw [hfail] at h
    cases e <;> cases h
  | none =>
    rw [hfail] at h
    dsimp only at h
    cases hwalk : walk t root (normal slash dot name) with
    | ok j =>
      rw [hwalk] at h
      cases h
      rfl
    | error e =>
      rw [hwalk] at h
      cases e <;> cases h

theorem openBeneath_of_reads (hk : k.Reads) (h : walk t root (normal slash dot name) = .ok i) :
    openBeneath k t root name = .ok i := by
  rw [openBeneath, Kernel.try, hk.error (by simp), h]

theorem openDirectory_eq_ok (h : openDirectory k t root name = .ok d) :
    walk t root (normal slash dot name) = .ok d ∧ (t.entries? d).isSome := by
  unfold openDirectory at h
  cases hopen : openBeneath k t root name with
  | error e =>
    rw [hopen] at h
    cases h
  | ok i =>
    rw [hopen, Except.bind] at h
    split_ifs at h with hdir
    cases h
    exact ⟨openBeneath_eq_ok hopen, hdir⟩

/-- A file of admissible size is read whole. -/
theorem readOn_of_reads (hk : k.Reads) (hx : t.face? i = some x)
    (hcontent : x.content? = some content) (hsize : content.length ≤ maxFileSize) :
    readOn k t i = .ok (.content (Base64.encode content)) := by
  have hwhole : content.take (maxFileSize + 1) = content := List.take_of_length_le (by omega)
  unfold readOn
  rw [hk.error (by simp), hk.error (by simp), hk.error (by simp), hx, Option.bind_some, hcontent]
  dsimp only
  rw [if_neg (by omega), Option.or_none, hwhole]
  dsimp only
  rw [if_neg (by omega)]

/-- The case `"write"` leaves the tree as it was, or puts the decoded bytes in the place of the
leaf. -/
theorem writeOn_cases (k : Kernel) (draw : Bytes) (req : Request) (d : ℕ) (leaf : Bytes)
    (t : Tree) :
    (∃ e, writeOn k draw req d leaf t = (t, .error e)) ∨
      ∃ data, Base64.decode req.content = some data ∧ data.length ≤ maxFileSize ∧
        (∀ j, t.lookup d leaf = some j → t.entries? j = none) ∧
        writeOn k draw req d leaf t =
          uploadOn k draw data (chosenMode req.mode (replacedMode t d leaf)) d leaf t := by
  unfold writeOn
  cases hdecode : Base64.decode req.content with
  | none => exact .inl ⟨_, rfl⟩
  | some data =>
    dsimp only
    by_cases hsize : maxFileSize < data.length
    · rw [if_pos hsize]
      exact .inl ⟨_, rfl⟩
    · rw [if_neg hsize]
      cases hstat : statLeaf k d leaf t with
      | error e => exact .inl ⟨_, rfl⟩
      | ok replaced =>
        obtain ⟨rfl, hfile⟩ := statLeaf_eq_ok hstat
        exact .inr ⟨data, rfl, by omega, hfile, rfl⟩

theorem changed_error {result : Except Errno Tree} {e : Failure} (h : (changed t result).2 = .error e) :
    (changed t result).1 = t := by
  cases result with
  | error _ => rfl
  | ok _ => cases h

/-- **A request that fails changes nothing**, whichever operation it asks for. -/
theorem fileOn_error {req : Request} {e : Failure} (h : (fileOn k draw root req t).2 = .error e) :
    (fileOn k draw root req t).1 = t := by
  unfold fileOn at h ⊢
  cases hopen : fileAt req.toFileRequest with
  | error _ => rfl
  | ok opened =>
    rw [hopen] at h
    cases opened with
    | object name =>
      dsimp only
      split_ifs <;> rfl
    | parent name leaf =>
      dsimp only at h ⊢
      cases hdirectory : openDirectory k t root name with
      | error _ => rfl
      | ok d =>
        rw [hdirectory] at h
        dsimp only at h ⊢
        have hdir := (openDirectory_eq_ok hdirectory).2
        split_ifs at h ⊢ with hmkdir hdelete
        · exact changed_error h
        · exact changed_error h
        · rcases writeOn_cases k draw req d leaf t with ⟨e', he'⟩ | ⟨data, -, -, -, heq⟩
          · rw [he']
          · rw [heq] at h ⊢
            rcases uploadOn_cases k draw data _ leaf hdir with ⟨e', he'⟩ | ⟨-, hok⟩
            · rw [he']
            · rw [hok] at h
              cases h

/-- The directory is reached as before, and the leaf in it is the new file. -/
theorem fileOn_read_replaced {req : Request} {p : Bytes} {ps : List Bytes} (hk : k.Reads)
    (hrejected : ¬ Rejected p) (hnormal : normal slash dot p = ps ++ [leaf])
    (hwalk : walk t root ps = .ok d) (hdir : (t.entries? d).isSome)
    (hfile : ∀ j, t.lookup d leaf = some j → t.entries? j = none)
    (hreplaced : t.Replaced t' d leaf (uploaded t d data mode)) (hsize : data.length ≤ maxFileSize)
    (hop : req.operation = .read) (hpath : req.path = p)
    (hmode : req.mode.any (· > 0o777) = false) :
    fileOn k draw root req t' = (t', .ok (.content (Base64.encode data))) := by
  obtain ⟨j, henter, hface⟩ := enter_replaced hdir hfile hreplaced
  have hthere : walk t' root (normal slash dot (relativeName (ps ++ [leaf]))) = .ok j := by
    rw [normal_relativeName_normal p fun part hpart => hnormal ▸ hpart, walk_append,
      walk_replaced hreplaced hfile hdir hwalk]
    show (enter t' d leaf).bind (fun j => walk t' j []) = .ok j
    rw [henter]
    rfl
  rw [fileOn, fileAt_read hrejected hnormal hop hpath hmode]
  dsimp only
  rw [hop, if_neg (by decide), openBeneath_of_reads hk hthere]
  exact congrArg (Prod.mk t') (readOn_of_reads hk hface rfl hsize)

/-- A write to a leaf opens the directory of the leaf first. -/
theorem fileOn_write (k : Kernel) {draw : Bytes} (root : ℕ) {req : Request} (t : Tree)
    (hop : req.operation = .write) (hopen : fileAt req.toFileRequest = .ok (.parent name leaf)) :
    fileOn k draw root req t =
      match openDirectory k t root name with
      | .error e => (t, .error e)
      | .ok d => writeOn k draw req d leaf t := by
  rw [fileOn, hopen]
  dsimp only
  rw [hop]
  rfl

/-- What a write that succeeds has done, and what a read of its path returns afterwards. -/
structure Written (t t' : Tree) (root : ℕ) (req : Request) (data : Bytes) : Prop where
  decoded : Base64.decode req.content = some data
  replaced : ∃ name leaf d, fileAt req.toFileRequest = .ok (.parent name leaf) ∧
    walk t root (normal slash dot name) = .ok d ∧
    t.Replaced t' d leaf (uploaded t d data (chosenMode req.mode (replacedMode t d leaf)))
  read : ∀ (k : Kernel) (draw : Bytes) (req' : Request), k.Reads → req'.operation = .read →
    req'.path = req.path → req'.mode.any (· > 0o777) = false →
    fileOn k draw root req' t' = (t', .ok (.content (Base64.encode data)))

/-- **Uploads are all or nothing.**  Whichever call fails, an upload that returns an error has
changed nothing.  One that succeeds has replaced the leaf by a new file with the decoded bytes and
changed nothing else, and the path can be read back.  The temporary name is random and not that of
the leaf. -/
theorem write_all_or_nothing (k : Kernel) {draw : Bytes} (root : ℕ) {req : Request} (t : Tree)
    (hop : req.operation = .write)
    (hdraw : ∀ name leaf, fileAt req.toFileRequest = .ok (.parent name leaf) →
      leaf ≠ temporary draw) :
    (∀ e, (fileOn k draw root req t).2 = .error e → (fileOn k draw root req t).1 = t) ∧
      ∀ answer, (fileOn k draw root req t).2 = .ok answer →
        answer = .ok ∧ ∃ data, Written t (fileOn k draw root req t).1 root req data := by
  refine ⟨fun e => fileOn_error, fun answer hanswer => ?_⟩
  cases hopen : fileAt req.toFileRequest with
  | error e =>
    rw [fileOn, hopen] at hanswer
    cases hanswer
  | ok opened =>
    cases opened with
    | object name => exact absurd hopen (fileAt_ne_object hop name)
    | parent name leaf =>
      obtain ⟨hrejected, ps, hnormal, rfl⟩ := fileAt_eq_parent hop hopen
      have hparts : ∀ part ∈ ps, part ∈ normal slash dot req.path := fun part hpart =>
        hnormal ▸ List.mem_append_left _ hpart
      have hname := normal_relativeName_normal req.path hparts
      rw [fileOn_write k root t hop hopen] at hanswer ⊢
      cases hdirectory : openDirectory k t root (relativeName ps) with
      | error e =>
        rw [hdirectory] at hanswer
        cases hanswer
      | ok d =>
        rw [hdirectory] at hanswer
        dsimp only at hanswer ⊢
        obtain ⟨hwalk, hdir⟩ := openDirectory_eq_ok hdirectory
        rcases writeOn_cases k draw req d leaf t with ⟨e, he⟩ | ⟨data, hdata, hsize, hfile, hwrite⟩
        · rw [he] at hanswer
          cases hanswer
        rw [hwrite] at hanswer ⊢
        rcases uploadOn_spec k data (chosenMode req.mode (replacedMode t d leaf)) hdir
          (hdraw _ leaf hopen) hfile with ⟨e, he⟩ | ⟨hok, hreplaced⟩
        · rw [he] at hanswer
          cases hanswer
        rw [hok] at hanswer
        cases hanswer
        refine ⟨rfl, data, hdata, ⟨_, leaf, d, hopen, hwalk, hreplaced⟩, ?_⟩
        rw [hname] at hwalk
        intro k' draw' req' hk' hop' hpath' hmode'
        exact fileOn_read_replaced hk' hrejected hnormal hwalk hdir hfile hreplaced hsize hop' hpath'
          hmode'

/-- `linked` -/
def linkedName : Bytes := [108, 105, 110, 107, 101, 100]

/-- A directory with one executable file that has two names, `linked` and `old`. -/
def linkedTree : Tree where
  inodes := ⟨[(0, ⟨.directory ⟨[(linkedName, 1), ([111, 108, 100], 1)], by decide⟩, 0o755, 0⟩),
    (1, ⟨.file [1, 2, 3], 0o755, 0⟩)], by decide⟩

/-- An upload of four bytes to `linked`. -/
def linkedRequest : Request where
  operation := .write
  path := linkedName
  content := Base64.encode [0, 255, 128, 10]

theorem write_all_or_nothing_linked :
    (fileOn {} [1] 0 linkedRequest linkedTree).2 = .ok .ok ∧
      ∃ data, Written linkedTree (fileOn {} [1] 0 linkedRequest linkedTree).1 0 linkedRequest
        data := by
  have hopen : fileAt linkedRequest.toFileRequest = .ok (.parent (relativeName []) linkedName) :=
    fileAt_parent (by unfold Rejected; decide +kernel) (by decide +kernel) (.inl rfl)
  have hok : (fileOn {} [1] 0 linkedRequest linkedTree).2 = .ok .ok := by
    rw [fileOn, hopen]
    decide +kernel
  refine ⟨hok, ((write_all_or_nothing {} 0 linkedTree rfl ?_).2 _ hok).2⟩
  intro name leaf hparent
  rw [hopen] at hparent
  cases hparent
  decide +kernel

end Sandcube.Files
