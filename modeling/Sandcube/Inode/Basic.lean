import Sandcube.Table.Sum

/-!
# Trees of inodes

Directories map names to inodes; several names may stand for one inode.  An inode without a name is
given back.  Inode numbers are natural numbers, and a new inode gets one that nothing refers to.

A tree is read through `lookup`, the inode behind a name of a directory, and `face?`, what the inode
shows without the names in it; each operation comes with a lemma for either.  A name that is
created and unlinked again leaves no trace (`unlink_create`).
-/

/-- What an inode is: names are of type `ν`, contents are lists over `β`. -/
inductive Inode.Kind (ν β : Type)
  | file (content : List β)
  | directory (entries : Table ν ℕ)
  | symlink (target : List β)
  | special

structure Inode (ν β : Type) where
  kind : Inode.Kind ν β
  /-- The permission bits. -/
  mode : ℕ
  /-- The file system that the inode is on. -/
  device : ℕ

structure FileTree (ν β : Type) where
  inodes : Table ℕ (Inode ν β)

namespace Inode

variable {ν β : Type}

def entries? (x : Inode ν β) : Option (Table ν ℕ) :=
  match x.kind with
  | .directory entries => some entries
  | _ => none

/-- The inodes that it has names for. -/
def refs (x : Inode ν β) : List ℕ :=
  match x.kind with
  | .directory entries => entries.rows.map Prod.snd
  | _ => []

def editEntries (f : Table ν ℕ → Table ν ℕ) (x : Inode ν β) : Inode ν β :=
  match x.kind with
  | .directory entries => { x with kind := .directory (f entries) }
  | _ => x

/-- What the inode shows without the names in it. -/
def face (x : Inode ν β) : Inode ν β := x.editEntries fun _ => .empty

/-- `st.Mode & S_IFMT == S_IFREG` -/
def content? (x : Inode ν β) : Option (List β) :=
  match x.kind with
  | .file content => some content
  | _ => none

def isSymlink (x : Inode ν β) : Bool :=
  match x.kind with
  | .symlink _ => true
  | _ => false

@[simp] theorem entries?_editEntries (f : Table ν ℕ → Table ν ℕ) (x : Inode ν β) :
    (x.editEntries f).entries? = x.entries?.map f := by
  obtain ⟨kind, mode, device⟩ := x
  cases kind <;> rfl

@[simp] theorem face_editEntries (f : Table ν ℕ → Table ν ℕ) (x : Inode ν β) :
    (x.editEntries f).face = x.face := by
  obtain ⟨kind, mode, device⟩ := x
  cases kind <;> rfl

@[simp] theorem isSome_entries?_face (x : Inode ν β) :
    x.face.entries?.isSome = x.entries?.isSome := by
  rw [face, entries?_editEntries, Option.isSome_map]

theorem editEntries_congr {f g : Table ν ℕ → Table ν ℕ} {x : Inode ν β}
    (h : ∀ entries, x.entries? = some entries → f entries = g entries) :
    x.editEntries f = x.editEntries g := by
  obtain ⟨kind, mode, device⟩ := x
  cases kind with
  | directory entries => simp only [editEntries, h entries rfl]
  | file _ | symlink _ | special => rfl

@[simp] theorem editEntries_id (x : Inode ν β) : x.editEntries id = x := by
  obtain ⟨kind, mode, device⟩ := x
  cases kind <;> rfl

theorem editEntries_comp (f g : Table ν ℕ → Table ν ℕ) (x : Inode ν β) :
    (x.editEntries f).editEntries g = x.editEntries (g ∘ f) := by
  obtain ⟨kind, mode, device⟩ := x
  cases kind <;> rfl

/-- A directory refers to what it has names for. -/
theorem mem_refs_iff [DecidableEq ν] {x : Inode ν β} {i : ℕ} :
    i ∈ x.refs ↔ ∃ entries name, x.entries? = some entries ∧ entries.find? name = some i := by
  obtain ⟨kind, mode, device⟩ := x
  cases kind with
  | directory entries =>
    simp only [refs, entries?, Option.some.injEq, exists_and_left, exists_eq_left', List.mem_map]
    constructor
    · rintro ⟨row, hrow, rfl⟩
      exact ⟨row.1, (entries.find?_eq_some_iff_mem _ _).mpr hrow⟩
    · rintro ⟨name, hname⟩
      exact ⟨(name, i), (entries.find?_eq_some_iff_mem _ _).mp hname, rfl⟩
  | file _ | symlink _ | special => simp [refs, entries?]

end Inode

namespace FileTree

variable {ν β : Type}

def inode? (t : FileTree ν β) (i : ℕ) : Option (Inode ν β) := t.inodes.find? i

/-- The names of a directory. -/
def entries? (t : FileTree ν β) (d : ℕ) : Option (Table ν ℕ) := (t.inode? d).bind Inode.entries?

def face? (t : FileTree ν β) (i : ℕ) : Option (Inode ν β) := (t.inode? i).map Inode.face

/-- The least number above the members of a list. -/
def bound (l : List ℕ) : ℕ := l.foldr (fun i b => max (i + 1) b) 0

theorem lt_bound {l : List ℕ} {i : ℕ} (h : i ∈ l) : i < bound l := by
  induction l with
  | nil => cases h
  | cons j l ih =>
    rw [bound, List.foldr_cons, ← bound]
    rcases List.mem_cons.mp h with rfl | hmem
    · omega
    · have := ih hmem
      omega

/-- All inodes that something refers to. -/
def refs (t : FileTree ν β) : List ℕ := t.inodes.rows.flatMap fun row => row.2.refs

/-- The number of a new inode. -/
def fresh (t : FileTree ν β) : ℕ := bound (t.inodes.keys ++ t.refs)

/-- The directory is changed. -/
def editDir (d : ℕ) (f : Table ν ℕ → Table ν ℕ) (t : FileTree ν β) : FileTree ν β :=
  ⟨t.inodes.modify d (Inode.editEntries f)⟩

/-- The inode is changed. -/
def update (i : ℕ) (f : Inode ν β → Inode ν β) (t : FileTree ν β) : FileTree ν β :=
  ⟨t.inodes.modify i f⟩

/-- An inode without a name is given back. -/
def release (i : ℕ) (t : FileTree ν β) : FileTree ν β :=
  if i ∈ t.refs then t else ⟨t.inodes.erase i⟩

variable [DecidableEq ν]
variable {x : Inode ν β} {i j : ℕ} {name : ν}

/-- The inode behind a name. -/
def lookup (t : FileTree ν β) (d : ℕ) (name : ν) : Option ℕ :=
  (t.entries? d).bind fun entries => entries.find? name

/-- A new inode with a name. -/
def create (d : ℕ) (name : ν) (x : Inode ν β) (t : FileTree ν β) : FileTree ν β :=
  ⟨(t.editDir d fun entries => entries.put name t.fresh).inodes.put t.fresh x⟩

/-- The name goes. -/
def unlink (d : ℕ) (name : ν) (t : FileTree ν β) : FileTree ν β :=
  match t.lookup d name with
  | none => t
  | some i => (t.editDir d fun entries => entries.erase name).release i

/-- The inode gets another name in the directory, and the inode that had it loses it.  When both
names stand for one inode, nothing happens. -/
def rename (d : ℕ) (old new : ν) (t : FileTree ν β) : FileTree ν β :=
  match t.lookup d old, t.lookup d new with
  | none, _ => t
  | some i, none => t.editDir d fun entries => (entries.erase old).put new i
  | some i, some j =>
    if i = j then t else (t.editDir d fun entries => (entries.erase old).put new i).release j

/-! ### New numbers -/

omit [DecidableEq ν] in
theorem inode?_fresh (t : FileTree ν β) : t.inode? t.fresh = none := by
  rw [inode?, Table.find?_eq_none_iff]
  intro hmem
  exact lt_irrefl _ (lt_bound (List.mem_append_left t.refs hmem))

/-- The numbers that are referred to are those behind names. -/
theorem mem_refs_iff {t : FileTree ν β} : i ∈ t.refs ↔ ∃ d name, t.lookup d name = some i := by
  rw [refs, List.mem_flatMap]
  constructor
  · rintro ⟨⟨d, x⟩, hrow, hi⟩
    obtain ⟨entries, name, hentries, hname⟩ := Inode.mem_refs_iff.mp hi
    have hinode : t.inode? d = some x := (t.inodes.find?_eq_some_iff_mem _ _).mpr hrow
    refine ⟨d, name, ?_⟩
    rw [lookup, entries?, hinode, Option.bind_some, hentries, Option.bind_some, hname]
  · rintro ⟨d, name, hlookup⟩
    obtain ⟨entries, hentries, hname⟩ := Option.bind_eq_some_iff.mp hlookup
    obtain ⟨x, hx, hxentries⟩ := Option.bind_eq_some_iff.mp hentries
    exact ⟨(d, x), (t.inodes.find?_eq_some_iff_mem _ _).mp hx,
      Inode.mem_refs_iff.mpr ⟨entries, name, hxentries, hname⟩⟩

theorem lookup_ne_fresh (t : FileTree ν β) (d : ℕ) (name : ν) : t.lookup d name ≠ some t.fresh := by
  intro h
  have hmem : t.fresh ∈ t.refs := mem_refs_iff.mpr ⟨d, name, h⟩
  exact lt_irrefl _ (lt_bound (List.mem_append_right t.inodes.keys hmem))

/-! ### What each operation changes -/

omit [DecidableEq ν] in
theorem entries?_editDir (t : FileTree ν β) (d i : ℕ) (f : Table ν ℕ → Table ν ℕ) :
    (t.editDir d f).entries? i = if i = d then (t.entries? d).map f else t.entries? i := by
  unfold entries? inode? editDir
  dsimp only
  rw [Table.find?_modify]
  split_ifs with h
  · rw [h]
    cases t.inodes.find? d with
    | none => rfl
    | some x => exact Inode.entries?_editEntries f x
  · rfl

omit [DecidableEq ν] in
@[simp] theorem face?_editDir (t : FileTree ν β) (d i : ℕ) (f : Table ν ℕ → Table ν ℕ) :
    (t.editDir d f).face? i = t.face? i := by
  unfold face? inode? editDir
  dsimp only
  rw [Table.find?_modify]
  split_ifs with h
  · rw [h]
    cases t.inodes.find? d with
    | none => rfl
    | some x => exact congrArg some (Inode.face_editEntries f x)
  · rfl

/-- Only the inode itself can go, and no name with it unless it is a directory. -/
theorem lookup_release (t : FileTree ν β) (h : t.entries? i = none) (d : ℕ) (name : ν) :
    (t.release i).lookup d name = t.lookup d name := by
  unfold release
  split_ifs with hmem
  · rfl
  · unfold lookup entries? inode?
    dsimp only
    rw [Table.find?_erase]
    split_ifs with hd
    · rw [hd]
      have hnone : (t.inodes.find? i).bind Inode.entries? = none := h
      rw [hnone]
      rfl
    · rfl

omit [DecidableEq ν] in
theorem face?_release_of_ne (t : FileTree ν β) (h : j ≠ i) : (t.release i).face? j = t.face? j := by
  unfold release
  split_ifs
  · rfl
  · unfold face? inode?
    rw [Table.find?_erase_of_ne _ h]

omit [DecidableEq ν] in
omit [DecidableEq ν] in
theorem ne_fresh_of_entries? {t : FileTree ν β} {d : ℕ} (h : (t.entries? d).isSome) :
    d ≠ t.fresh := by
  rintro rfl
  rw [entries?, inode?_fresh] at h
  cases h

section Create

variable {t : FileTree ν β} {d : ℕ} {name : ν} {x : Inode ν β}

theorem inode?_create (i : ℕ) :
    (t.create d name x).inode? i = if i = t.fresh then some x
      else (t.editDir d fun entries => entries.put name t.fresh).inode? i :=
  Table.find?_put _ _ _ _

theorem face?_create (i : ℕ) :
    (t.create d name x).face? i = if i = t.fresh then some x.face else t.face? i := by
  rw [face?, inode?_create]
  split_ifs with h
  · rfl
  · exact face?_editDir t d i _

/-- The new name stands for the new inode, all others for what they did. -/
theorem lookup_create (hdir : (t.entries? d).isSome) (hx : x.entries? = none) (d' : ℕ) (name' : ν) :
    (t.create d name x).lookup d' name' =
      if d' = d ∧ name' = name then some t.fresh else t.lookup d' name' := by
  obtain ⟨entries, hentries⟩ := Option.isSome_iff_exists.mp hdir
  have hne : d ≠ t.fresh := ne_fresh_of_entries? hdir
  have hcreated : (t.create d name x).entries? d' =
      if d' = t.fresh then none
      else (t.editDir d fun entries => entries.put name t.fresh).entries? d' := by
    rw [FileTree.entries?, inode?_create]
    split_ifs with h
    · exact hx
    · rfl
  rw [lookup, hcreated]
  by_cases hfresh : d' = t.fresh
  · have hnone : t.lookup d' name' = none := by
      rw [lookup, FileTree.entries?, hfresh, inode?_fresh]
      rfl
    rw [if_pos hfresh, if_neg fun h => hne (h.1.symm.trans hfresh), hnone]
    rfl
  · rw [if_neg hfresh, entries?_editDir]
    by_cases hd : d' = d
    · rw [if_pos hd, hentries, Option.map_some, Option.bind_some, Table.find?_put, hd]
      by_cases hname : name' = name
      · rw [if_pos hname, if_pos ⟨rfl, hname⟩]
      · rw [if_neg hname, if_neg fun h => hname h.2, lookup, hentries, Option.bind_some]
    · rw [if_neg hd, if_neg fun h => hd h.1, lookup]

end Create

/-! ### A name that is created and unlinked -/

/-- A new file that is changed might have been made so. -/
theorem update_create (t : FileTree ν β) (d : ℕ) (name : ν) (x : Inode ν β)
    (f : Inode ν β → Inode ν β) :
    (t.create d name x).update t.fresh f = t.create d name (f x) := by
  set before := (t.editDir d fun entries => entries.put name t.fresh).inodes with hbefore
  have hkeys : before.keys = t.inodes.keys := by
    simp [hbefore, editDir, Table.keys, Table.modify, Table.mapRows]
  have hfresh : t.fresh ∉ before.keys := by
    rw [hkeys]
    exact (Table.find?_eq_none_iff _ _).mp (inode?_fresh t)
  exact congrArg FileTree.mk (Table.modify_put hfresh x f)

/-- A file that was created and unlinked leaves no trace. -/
theorem unlink_create {t : FileTree ν β} {d : ℕ} (hdir : (t.entries? d).isSome)
    (hx : x.entries? = none) (hname : t.lookup d name = none) :
    (t.create d name x).unlink d name = t := by
  set made := t.create d name x with hmade
  have hlookup : ∀ d' name', made.lookup d' name' =
      if d' = d ∧ name' = name then some t.fresh else t.lookup d' name' := fun d' name' => by
    rw [hmade, lookup_create hdir hx]
  obtain ⟨entries, hentries⟩ := Option.isSome_iff_exists.mp hdir
  have hnone : entries.find? name = none := by
    rw [lookup, hentries, Option.bind_some] at hname
    exact hname
  -- the new inode loses its only name
  have hrefs : t.fresh ∉ (made.editDir d fun entries => entries.erase name).refs := by
    rw [mem_refs_iff]
    rintro ⟨d', name', hfound⟩
    have hbefore : made.lookup d' name' = some t.fresh ∧ ¬ (d' = d ∧ name' = name) := by
      rw [lookup, entries?_editDir] at hfound
      split_ifs at hfound with hd
      · obtain ⟨es, hes, hfind⟩ := Option.bind_eq_some_iff.mp hfound
        obtain ⟨es', hes', rfl⟩ := Option.map_eq_some_iff.mp hes
        rw [Table.find?_erase] at hfind
        split_ifs at hfind with hn
        refine ⟨?_, fun h => hn h.2⟩
        rw [hd, lookup, hes', Option.bind_some, hfind]
      · exact ⟨hfound, fun h => hd h.1⟩
    rw [hlookup, if_neg hbefore.2] at hbefore
    exact lookup_ne_fresh t d' name' hbefore.1
  have hself : made.lookup d name = some t.fresh := by rw [hlookup, if_pos ⟨rfl, rfl⟩]
  have hne : d ≠ t.fresh := ne_fresh_of_entries? hdir
  rw [unlink, hself]
  dsimp only
  rw [release, if_neg hrefs]
  have hrows : (((t.inodes.modify d (Inode.editEntries fun entries => entries.put name t.fresh)).put
      t.fresh x).modify d (Inode.editEntries fun entries => entries.erase name)).erase t.fresh =
        t.inodes := by
    have hfind : (t.inodes.modify d
        (Inode.editEntries fun entries => entries.put name t.fresh)).find? t.fresh = none := by
      rw [Table.find?_modify_of_ne _ (Ne.symm hne)]
      exact inode?_fresh t
    obtain ⟨y, hy, hyentries⟩ := Option.bind_eq_some_iff.mp hentries
    rw [Table.erase_modify_comm, Table.erase_put hfind, Table.modify_modify]
    have hback : (y.editEntries fun entries => entries.put name t.fresh).editEntries
        (fun entries => entries.erase name) = id y := by
      rw [Inode.editEntries_comp]
      have hid : ∀ es, y.entries? = some es → ((fun entries : Table ν ℕ => entries.erase name) ∘
          fun entries => entries.put name t.fresh) es = id es := by
        intro es hes
        rw [hyentries] at hes
        cases hes
        exact Table.erase_put hnone _
      rw [Inode.editEntries_congr hid, Inode.editEntries_id, id]
    rw [Table.modify_congr _ hy hback, Table.modify_id]
  exact congrArg FileTree.mk hrows

/-! ### Replacing a file by a new one -/

section Rename

variable {t : FileTree ν β} {d i : ℕ} {old new : ν}

/-- A name that is given to another inode, while the old name goes. -/
theorem lookup_moved (hold : t.lookup d old = some i) (d' : ℕ) (name : ν) :
    (t.editDir d fun entries => (entries.erase old).put new i).lookup d' name =
      if d' = d ∧ name = new then some i
      else if d' = d ∧ name = old then none else t.lookup d' name := by
  obtain ⟨entries, hentries, hfind⟩ := Option.bind_eq_some_iff.mp hold
  rw [lookup, entries?_editDir]
  by_cases hd : d' = d
  · rw [if_pos hd, hentries, Option.map_some, Option.bind_some, Table.find?_put, Table.find?_erase, hd]
    simp only [true_and]
    split_ifs with hnew hname
    · rfl
    · rfl
    · rw [lookup, hentries, Option.bind_some]
  · rw [if_neg hd, if_neg fun h => hd h.1, if_neg fun h => hd h.1, lookup]

/-- The file behind `old` takes the name `new`. -/
theorem lookup_rename (hold : t.lookup d old = some i) (hne : t.lookup d new ≠ some i)
    (hfile : ∀ j, t.lookup d new = some j → t.entries? j = none) (d' : ℕ) (name : ν) :
    (t.rename d old new).lookup d' name =
      if d' = d ∧ name = new then some i
      else if d' = d ∧ name = old then none else t.lookup d' name := by
  unfold rename
  rw [hold]
  cases hnew : t.lookup d new with
  | none => exact lookup_moved hold d' name
  | some j =>
    have hij : i ≠ j := fun h => hne (h ▸ hnew)
    have hnone : (t.editDir d fun entries => (entries.erase old).put new i).entries? j = none := by
      rw [entries?_editDir]
      split_ifs with hj
      · rw [← hj, hfile j hnew]; rfl
      · exact hfile j hnew
    dsimp only
    rw [if_neg hij, lookup_release _ hnone, lookup_moved hold]

/-- All inodes but the replaced one show what they did. -/
theorem face?_rename_of_ne (hj : t.lookup d new ≠ some j) :
    (t.rename d old new).face? j = t.face? j := by
  unfold rename
  cases hold : t.lookup d old with
  | none => rfl
  | some i =>
    cases hnew : t.lookup d new with
    | none => exact face?_editDir t d j _
    | some k =>
      have hjk : j ≠ k := fun h => hj (h ▸ hnew)
      dsimp only
      split_ifs
      · rfl
      · rw [face?_release_of_ne _ hjk, face?_editDir]

/-- What is behind a name afterwards shows what it did. -/
theorem face?_rename (hold : t.lookup d old = some i) (hne : t.lookup d new ≠ some i)
    (hfile : ∀ j, t.lookup d new = some j → t.entries? j = none)
    (hj : ∃ d' name, (t.rename d old new).lookup d' name = some j) :
    (t.rename d old new).face? j = t.face? j := by
  obtain ⟨d', name, hname⟩ := hj
  rw [lookup_rename hold hne hfile] at hname
  have hmoved : (t.editDir d fun entries => (entries.erase old).put new i).lookup d' name = some j :=
    (lookup_moved hold d' name).trans hname
  by_cases hnew : t.lookup d new = some j
  · have hij : i ≠ j := fun h => hne (h ▸ hnew)
    unfold rename
    rw [hold, hnew]
    dsimp only
    rw [if_neg hij, release, if_pos (mem_refs_iff.mpr ⟨d', name, hmoved⟩), face?_editDir]
  · exact face?_rename_of_ne hnew

end Rename

/-- The tree `t'` is `t` with one name changed: it stands for a new inode `x`.  Every other name
stands for the inode it did, and that shows what it did. -/
structure Replaced (t t' : FileTree ν β) (d : ℕ) (name : ν) (x : Inode ν β) : Prop where
  target : ∃ i, t'.lookup d name = some i ∧ t.inode? i = none ∧ t'.face? i = some x.face
  others : ∀ d' name', ¬ (d' = d ∧ name' = name) → t'.lookup d' name' = t.lookup d' name'
  /-- What has another name shows what it did, a second name of the replaced inode included. -/
  faces : ∀ d' name' j, ¬ (d' = d ∧ name' = name) → t.lookup d' name' = some j →
    t'.face? j = t.face? j
  rest : ∀ j, (t.inode? j).isSome → t.lookup d name ≠ some j → t'.face? j = t.face? j

/-- A new file that is created under one name and renamed to another. -/
theorem replaced_rename {t : FileTree ν β} {d : ℕ} {tmp : ν} (hdir : (t.entries? d).isSome)
    (hx : x.entries? = none) (htmp : t.lookup d tmp = none) (hne : tmp ≠ name)
    (hfile : ∀ j, t.lookup d name = some j → t.entries? j = none) :
    Replaced t ((t.create d tmp x).rename d tmp name) d name x := by
  set made := t.create d tmp x with hmade
  have hlookup : ∀ d' name', made.lookup d' name' =
      if d' = d ∧ name' = tmp then some t.fresh else t.lookup d' name' := fun d' name' => by
    rw [hmade, lookup_create hdir hx]
  have hold : made.lookup d tmp = some t.fresh := by rw [hlookup, if_pos ⟨rfl, rfl⟩]
  have hname : made.lookup d name = t.lookup d name := by
    rw [hlookup, if_neg fun h => hne h.2.symm]
  have hnew : made.lookup d name ≠ some t.fresh := by
    rw [hname]
    exact lookup_ne_fresh t d name
  have hmadefile : ∀ j, made.lookup d name = some j → made.entries? j = none := by
    intro j hj
    rw [hname] at hj
    have hjfresh : j ≠ t.fresh := fun h => lookup_ne_fresh t d name (h ▸ hj)
    rw [hmade, entries?, inode?_create, if_neg hjfresh]
    show (t.editDir d fun entries => entries.put tmp t.fresh).entries? j = none
    rw [entries?_editDir]
    split_ifs with hjd
    · rw [← hjd, hfile j hj]; rfl
    · exact hfile j hj
  have hface : ∀ j, made.face? j = if j = t.fresh then some x.face else t.face? j := fun j =>
    face?_create j
  have htarget : (made.rename d tmp name).lookup d name = some t.fresh := by
    rw [lookup_rename hold hnew hmadefile, if_pos ⟨rfl, rfl⟩]
  have hothers : ∀ d' name', ¬ (d' = d ∧ name' = name) →
      (made.rename d tmp name).lookup d' name' = t.lookup d' name' := by
    intro d' name' hnot
    rw [lookup_rename hold hnew hmadefile, if_neg hnot, hlookup]
    split_ifs with h
    · rw [h.1, h.2, htmp]
    · rfl
  refine ⟨⟨t.fresh, htarget, inode?_fresh t, ?_⟩, hothers, fun d' name' j hnot hj => ?_,
    fun j hj hnot => ?_⟩
  · rw [face?_rename hold hnew hmadefile ⟨d, name, htarget⟩, hface, if_pos rfl]
  · have hj' := (hothers d' name' hnot).trans hj
    have hjfresh : j ≠ t.fresh := fun h => lookup_ne_fresh t d' name' (h ▸ hj)
    rw [face?_rename hold hnew hmadefile ⟨d', name', hj'⟩, hface, if_neg hjfresh]
  · have hjfresh : j ≠ t.fresh := by
      rintro rfl
      rw [inode?_fresh] at hj
      cases hj
    rw [face?_rename_of_ne (by rw [hname]; exact hnot), hface, if_neg hjfresh]

end FileTree
