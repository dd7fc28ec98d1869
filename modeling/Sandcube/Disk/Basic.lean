import Sandcube.Table.Basic

/-!
# Files that survive crashes

Directories of named files.  A change of a name (make a directory, create, rename or unlink a file)
is atomic and lasting.  The content of a file lasts once it was synchronized: a crash leaves in
every other file whatever the environment likes.

Each operation comes with one lemma that says what `file?` returns afterwards.
-/

/-- A file: what it holds, and whether that is on stable storage. -/
structure File (β : Type) where
  content : β
  synced : Bool
  deriving DecidableEq

/-- Directories named by `δ`, with files named by `ν` that hold values of type `β`. -/
structure Disk (δ ν β : Type) where
  dirs : Table δ (Table ν (File β))

namespace Disk

variable {δ ν β : Type} [DecidableEq δ] [DecidableEq ν]
variable {dir dir' : δ} {name : ν} {d : Disk δ ν β}

/-- The file of this name in the directory. -/
def file? (d : Disk δ ν β) (dir : δ) (name : ν) : Option (File β) :=
  (d.dirs.find? dir).bind fun files => files.find? name

/-- The names in a directory. -/
def names (d : Disk δ ν β) (dir : δ) : List ν := ((d.dirs.find? dir).map Table.keys).getD []

/-- The directory is there. -/
def HasDir (d : Disk δ ν β) (dir : δ) : Prop := (d.dirs.find? dir).isSome

instance (d : Disk δ ν β) (dir : δ) : Decidable (d.HasDir dir) := by
  unfold HasDir; infer_instance

/-- A directory is made, unless it is there. -/
def mkdir (dir : δ) (d : Disk δ ν β) : Disk δ ν β :=
  match d.dirs.find? dir with
  | some _ => d
  | none => ⟨d.dirs.put dir .empty⟩

/-- The directory gets this file. -/
def put (dir : δ) (name : ν) (file : File β) (d : Disk δ ν β) : Disk δ ν β :=
  ⟨d.dirs.modify dir fun files => files.put name file⟩

/-- The name goes. -/
def unlink (dir : δ) (name : ν) (d : Disk δ ν β) : Disk δ ν β :=
  ⟨d.dirs.modify dir fun files => files.erase name⟩

/-- The file gets another name; a file that had it goes. -/
def rename (dir : δ) (old new : ν) (d : Disk δ ν β) : Disk δ ν β :=
  match d.file? dir old with
  | some file => (d.unlink dir old).put dir new file
  | none => d

/-- The directory goes. -/
def rmdir (dir : δ) (d : Disk δ ν β) : Disk δ ν β := ⟨d.dirs.erase dir⟩

/-- A crash: what was not synchronized is replaced by what the environment likes. -/
def crash (loss : δ → ν → β) (d : Disk δ ν β) : Disk δ ν β :=
  ⟨d.dirs.mapRows fun dir files => files.mapRows fun name file =>
    if file.synced then file else { file with content := loss dir name }⟩

/-- The disk without directories. -/
def empty : Disk δ ν β := ⟨.empty⟩

/-! ### What `file?` returns after each operation -/

@[simp] theorem file?_mkdir (d : Disk δ ν β) (dir dir' : δ) (name : ν) :
    (d.mkdir dir).file? dir' name = d.file? dir' name := by
  unfold mkdir
  cases hdir : d.dirs.find? dir with
  | some files => rfl
  | none =>
    unfold file?
    dsimp only
    rw [Table.find?_put]
    split_ifs with h
    · rw [h, hdir]; rfl
    · rfl

theorem file?_put (d : Disk δ ν β) (dir dir' : δ) (name name' : ν) (file : File β) :
    (d.put dir name file).file? dir' name' =
      if dir' = dir ∧ name' = name then (d.dirs.find? dir).map fun _ => file
      else d.file? dir' name' := by
  unfold put file?
  dsimp only
  rw [Table.find?_modify]
  by_cases hdir : dir' = dir
  · subst hdir
    rw [if_pos rfl]
    cases d.dirs.find? dir' with
    | none => split_ifs <;> rfl
    | some files =>
      rw [Option.map_some, Option.bind_some, Table.find?_put]
      by_cases hname : name' = name
      · rw [if_pos hname, if_pos ⟨rfl, hname⟩]; rfl
      · rw [if_neg hname, if_neg fun h => hname h.2]; rfl
  · rw [if_neg hdir, if_neg fun h => hdir h.1]

theorem file?_put_of_ne (d : Disk δ ν β) {name' : ν} (file : File β) (h : name' ≠ name) :
    (d.put dir name file).file? dir' name' = d.file? dir' name' := by
  rw [file?_put, if_neg fun h' => h h'.2]

theorem file?_unlink (d : Disk δ ν β) (dir dir' : δ) (name name' : ν) :
    (d.unlink dir name).file? dir' name' =
      if dir' = dir ∧ name' = name then none else d.file? dir' name' := by
  unfold unlink file?
  dsimp only
  rw [Table.find?_modify]
  by_cases hdir : dir' = dir
  · subst hdir
    rw [if_pos rfl]
    cases d.dirs.find? dir' with
    | none => split_ifs <;> rfl
    | some files =>
      rw [Option.map_some, Option.bind_some, Table.find?_erase]
      by_cases hname : name' = name
      · rw [if_pos hname, if_pos ⟨rfl, hname⟩]
      · rw [if_neg hname, if_neg fun h => hname h.2]; rfl
  · rw [if_neg hdir, if_neg fun h => hdir h.1]

theorem file?_unlink_of_ne (d : Disk δ ν β) {name' : ν} (h : name' ≠ name) :
    (d.unlink dir name).file? dir' name' = d.file? dir' name' := by
  rw [file?_unlink, if_neg fun h' => h h'.2]

theorem hasDir_of_file? {file : File β} (h : d.file? dir name = some file) : d.HasDir dir := by
  unfold file? at h
  obtain ⟨files, hfiles, -⟩ := Option.bind_eq_some_iff.mp h
  exact Option.isSome_of_eq_some hfiles

/-- The name that a file gets. -/
theorem file?_rename_self {old : ν} {file : File β} (new : ν) (h : d.file? dir old = some file) :
    (d.rename dir old new).file? dir new = some file := by
  unfold rename
  rw [h]
  dsimp only
  rw [file?_put, if_pos ⟨rfl, rfl⟩]
  obtain ⟨files, hfiles⟩ := Option.isSome_iff_exists.mp (hasDir_of_file? h)
  unfold unlink
  dsimp only
  rw [Table.find?_modify_self, hfiles]
  rfl

/-- Other names stay, except for the old one. -/
theorem file?_rename_of_ne (d : Disk δ ν β) {old new : ν} (hnew : ¬ (dir' = dir ∧ name = new))
    (hold : name ≠ old) : (d.rename dir old new).file? dir' name = d.file? dir' name := by
  unfold rename
  cases d.file? dir old with
  | none => rfl
  | some file => rw [file?_put, if_neg hnew, file?_unlink_of_ne _ hold]

theorem file?_rmdir (d : Disk δ ν β) (dir dir' : δ) (name : ν) :
    (d.rmdir dir).file? dir' name = if dir' = dir then none else d.file? dir' name := by
  unfold rmdir file?
  dsimp only
  rw [Table.find?_erase]
  by_cases hdir : dir' = dir
  · rw [if_pos hdir, if_pos hdir]; rfl
  · rw [if_neg hdir, if_neg hdir]

theorem file?_crash (d : Disk δ ν β) (loss : δ → ν → β) (dir : δ) (name : ν) :
    (d.crash loss).file? dir name = (d.file? dir name).map fun file =>
      if file.synced then file else { file with content := loss dir name } := by
  unfold crash file?
  dsimp only
  rw [Table.find?_mapRows]
  cases d.dirs.find? dir with
  | none => rfl
  | some files => rw [Option.map_some, Option.bind_some, Option.bind_some, Table.find?_mapRows]

/-- What was synchronized survives. -/
theorem file?_crash_of_synced (loss : δ → ν → β)
    (h : ∀ file, d.file? dir name = some file → file.synced = true) :
    (d.crash loss).file? dir name = d.file? dir name := by
  rw [file?_crash]
  cases hfile : d.file? dir name with
  | none => rfl
  | some file => rw [Option.map_some, if_pos (h file hfile)]

theorem mem_names : name ∈ d.names dir ↔ (d.file? dir name).isSome := by
  unfold names file?
  cases d.dirs.find? dir with
  | none => simp
  | some files =>
    rw [Option.map_some, Option.getD_some, Option.bind_some, Table.mem_keys_iff,
      Option.isSome_iff_exists]

end Disk
