import Sandcube.Base64.Basic
import Sandcube.Files.SandboxPath
import Sandcube.Inode.Basic

/-!
# The files API on a tree

`fileAt` of the adapter from its confined open on, over a tree of inodes.  Every system call may
fail, as the environment likes; a name is resolved beneath the root, without links and on one file
system.

An upload goes to a new file next to the leaf that takes its place in the end.  Whatever fails, the
tree is as it was before (`fileOn_error`).
-/

namespace Sandcube.Files

open Sandcube.Path (Bytes slash dot normal)

abbrev Tree := FileTree Bytes UInt8

/-! ### Errors -/

inductive Errno
  | noent
  | exist
  | notdir
  | isdir
  | notempty
  | busy
  | loop
  | xdev
  /-- Anything else: `EIO`, `ENOSPC`, `EDQUOT`, `ENAMETOOLONG`, … -/
  | other (code : ℕ)
  deriving DecidableEq, Repr

inductive Failure
  /-- `errInvalidPath` -/
  | invalidPath
  /-- `errFileTooLarge` -/
  | tooLarge
  | errno (e : Errno)
  deriving DecidableEq, Repr

/-- The calls that may fail. -/
inductive Call
  | resolve
  | fstat
  | reopen
  | read
  | readDir
  | stat
  | mkdir
  | unlink
  | rmdir
  | create
  | write
  | chmod
  | fsync
  | close
  | rename
  deriving DecidableEq, Repr

/-- What the environment decides: the calls that fail, the bytes that a failing write has written,
the sizes of what is no file, and the mask for new directories. -/
structure Kernel where
  fails : Call → Option ℕ := fun _ => none
  short : ℕ := 0
  size : ℕ → ℕ := fun _ => 0
  umask : ℕ := 0o022

def Kernel.error (k : Kernel) (call : Call) : Option Errno := (k.fails call).map Errno.other

/-- A call that does `act` unless it fails. -/
def Kernel.try (k : Kernel) (call : Call) {α : Type} (act : Except Errno α) : Except Errno α :=
  match k.error call with
  | some e => .error e
  | none => act

/-! ### Opening a name -/

/-- One component: no links, and no other file system. -/
def enter (t : Tree) (i : ℕ) (part : Bytes) : Except Errno ℕ :=
  match t.face? i with
  | none => .error .noent
  | some here =>
    if here.entries?.isSome then
      match t.lookup i part with
      | none => .error .noent
      | some j =>
        match t.face? j with
        | none => .error .noent
        | some there =>
          if there.device ≠ here.device then .error .xdev
          else if there.isSymlink then .error .loop
          else .ok j
    else .error .notdir

/-- The components in turn. -/
def walk (t : Tree) (i : ℕ) : List Bytes → Except Errno ℕ
  | [] => .ok i
  | part :: rest => (enter t i part).bind fun j => walk t j rest

/-- `confinedOpen` on a relative name. -/
def openBeneath (k : Kernel) (t : Tree) (root : ℕ) (name : Bytes) : Except Failure ℕ :=
  match k.try .resolve (walk t root (normal slash dot name)) with
  | .ok i => .ok i
  | .error .loop | .error .xdev => .error .invalidPath
  | .error e => .error (.errno e)

/-- `confinedOpen` with `O_DIRECTORY`. -/
def openDirectory (k : Kernel) (t : Tree) (root : ℕ) (name : Bytes) : Except Failure ℕ :=
  (openBeneath k t root name).bind fun i =>
    if (t.entries? i).isSome then .ok i else .error (.errno .notdir)

/-! ### The operations -/

/-- `FileRequest` with its content. -/
structure Request extends FileRequest where
  content : Bytes := []

structure FileEntry where
  name : Bytes
  type : String
  size : ℕ
  deriving DecidableEq, Repr

inductive Answer
  /-- `"content"`: the bytes in base64. -/
  | content (text : Bytes)
  /-- `"entries"` -/
  | entries (list : List FileEntry)
  /-- `"status": "ok"` -/
  | ok
  deriving DecidableEq, Repr

/-- `maxFileSize` -/
def maxFileSize : ℕ := 16 * 2 ^ 20

/-- The case `"read"`, once the object is open. -/
def readOn (k : Kernel) (t : Tree) (i : ℕ) : Except Failure Answer :=
  match k.error .fstat, (t.face? i).bind Inode.content? with
  | some e, _ => .error (.errno e)
  | none, none => .error .invalidPath
  | none, some content =>
    if maxFileSize < content.length then .error .tooLarge
    else
      match (k.error .reopen).or (k.error .read) with
      | some e => .error (.errno e)
      | none =>
        let data := content.take (maxFileSize + 1)
        if maxFileSize < data.length then .error .tooLarge else .ok (.content (Base64.encode data))

/-- `Fstatat` for an entry of a list; a name whose inode is gone is left out. -/
def entryOn (k : Kernel) (t : Tree) (name : Bytes) (i : ℕ) : Option FileEntry :=
  (t.face? i).map fun x =>
    match x.kind with
    | .file content => ⟨name, "file", content.length⟩
    | .directory _ => ⟨name, "directory", k.size i⟩
    | .symlink target => ⟨name, "symlink", target.length⟩
    | .special => ⟨name, "other", k.size i⟩

/-- The case `"list"`, once the directory is open. -/
def listOn (k : Kernel) (t : Tree) (d : ℕ) : Except Failure Answer :=
  match k.error .readDir, t.entries? d with
  | some e, _ => .error (.errno e)
  | none, none => .error (.errno .notdir)
  | none, some entries =>
    if 10000 < entries.rows.length then .error .tooLarge
    else
      match k.error .stat, entries.rows with
      | some e, _ :: _ => .error (.errno e)
      | _, rows => .ok (.entries (rows.filterMap fun row => entryOn k t row.1 row.2))

/-- `Mkdirat` -/
def mkdirOn (k : Kernel) (mode : Option UInt32) (d : ℕ) (leaf : Bytes) (t : Tree) :
    Except Errno Tree :=
  k.try .mkdir <|
    if (t.lookup d leaf).isSome then .error .exist
    else
      let mode := (mode.map UInt32.toNat).getD 0o755
      let device := ((t.face? d).map Inode.device).getD 0
      .ok (t.create d leaf ⟨.directory .empty, mode &&& (0o777 ^^^ k.umask), device⟩)

/-- `Unlinkat` without a flag: directories and mount points stay. -/
def unlinkOn (k : Kernel) (d : ℕ) (leaf : Bytes) (t : Tree) : Except Errno Tree :=
  k.try .unlink <|
    match (t.lookup d leaf).bind t.face? with
    | none => .error .noent
    | some x =>
      if x.entries?.isSome then .error .isdir
      else if (t.face? d).map Inode.device ≠ some x.device then .error .busy
      else .ok (t.unlink d leaf)

/-- `Unlinkat` with `AT_REMOVEDIR` on a directory. -/
def rmdirOn (k : Kernel) (d : ℕ) (leaf : Bytes) (t : Tree) : Except Errno Tree :=
  k.try .rmdir <|
    match t.lookup d leaf with
    | none => .error .noent
    | some i =>
      if (t.face? d).map Inode.device ≠ (t.face? i).map Inode.device then .error .busy
      else if (t.entries? i).any fun entries => entries.rows ≠ [] then .error .notempty
      else .ok (t.unlink d leaf)

/-- The case `"delete"`. -/
def deleteOn (k : Kernel) (d : ℕ) (leaf : Bytes) (t : Tree) : Except Errno Tree :=
  match unlinkOn k d leaf t with
  | .error .isdir => rmdirOn k d leaf t
  | result => result

/-! ### The case `"write"` -/

/-- `Fstatat` of the leaf: the mode that the replaced file has, if there is one. -/
def statLeaf (k : Kernel) (d : ℕ) (leaf : Bytes) (t : Tree) : Except Failure (Option ℕ) :=
  match k.error .stat with
  | some e => .error (.errno e)
  | none =>
    match (t.lookup d leaf).bind t.face? with
    | none => .ok none
    | some x => if x.content?.isSome then .ok (some (x.mode % 0o1000)) else .error .invalidPath

/-- The mode of the request, else that of the replaced file, else 0644. -/
def chosenMode (requested : Option UInt32) (replaced : Option ℕ) : ℕ :=
  (requested.map UInt32.toNat).getD (replaced.getD 0o644)

/-- `".sandcube-" + newProcessID()` -/
def temporary (draw : Bytes) : Bytes := ".sandcube-".toUTF8.toList ++ draw

/-- The new file, on the file system of its directory. -/
def blank (t : Tree) (d : ℕ) : Inode Bytes UInt8 :=
  ⟨.file [], 0o644, ((t.face? d).map Inode.device).getD 0⟩

/-- `f.Write` -/
def setContent (data : Bytes) (x : Inode Bytes UInt8) : Inode Bytes UInt8 :=
  { x with kind := .file data }

/-- `f.Chmod` -/
def setMode (mode : ℕ) (x : Inode Bytes UInt8) : Inode Bytes UInt8 := { x with mode := mode }

/-- The new file from its write to its close, which comes in any case; the first error counts. -/
def fill (k : Kernel) (i : ℕ) (data : Bytes) (mode : ℕ) (t : Tree) : Tree × Option Errno :=
  match k.error .write with
  | some e => (t.update i (setContent (data.take k.short)), some e)
  | none =>
    let t := t.update i (setContent data)
    match k.error .chmod with
    | some e => (t, some e)
    | none => (t.update i (setMode mode), (k.error .fsync).or (k.error .close))

/-- `Renameat`: a mount point is not replaced. -/
def renameOn (k : Kernel) (d : ℕ) (tmp leaf : Bytes) (t : Tree) : Except Errno Tree :=
  k.try .rename <|
    match (t.lookup d leaf).bind t.face? with
    | none => .ok (t.rename d tmp leaf)
    | some x =>
      if (t.face? d).map Inode.device ≠ some x.device then .error .busy
      else .ok (t.rename d tmp leaf)

/-- The upload of the decoded bytes: a new file, its content, its place; the deferred unlink comes
last, whatever has failed. -/
def uploadOn (k : Kernel) (draw data : Bytes) (mode d : ℕ) (leaf : Bytes) (t : Tree) :
    Tree × Except Failure Answer :=
  let tmp := temporary draw
  match k.try .create (if (t.lookup d tmp).isSome then .error .exist else .ok ()) with
  | .error e => (t, .error (.errno e))
  | .ok () =>
    match fill k t.fresh data mode (t.create d tmp (blank t d)) with
    | (filled, some e) => (filled.unlink d tmp, .error (.errno e))
    | (filled, none) =>
      match renameOn k d tmp leaf filled with
      | .error e => (filled.unlink d tmp, .error (.errno e))
      | .ok renamed => (renamed.unlink d tmp, .ok .ok)

/-- The case `"write"`, once the parent is open. -/
def writeOn (k : Kernel) (draw : Bytes) (req : Request) (d : ℕ) (leaf : Bytes) (t : Tree) :
    Tree × Except Failure Answer :=
  match Base64.decode req.content with
  | none => (t, .error .invalidPath)
  | some data =>
    if maxFileSize < data.length then (t, .error .tooLarge)
    else
      match statLeaf k d leaf t with
      | .error e => (t, .error e)
      | .ok replaced => uploadOn k draw data (chosenMode req.mode replaced) d leaf t

/-- A change of the tree that gives an error or a new tree. -/
def changed (t : Tree) (result : Except Errno Tree) : Tree × Except Failure Answer :=
  match result with
  | .error e => (t, .error (.errno e))
  | .ok t' => (t', .ok .ok)

/-- `fileAt` on the tree beneath `root`; `draw` is what `newProcessID` returns. -/
def fileOn (k : Kernel) (draw : Bytes) (root : ℕ) (req : Request) (t : Tree) :
    Tree × Except Failure Answer :=
  match fileAt req.toFileRequest with
  | .error .invalidPath => (t, .error .invalidPath)
  | .ok (.object name) =>
    if req.operation = .list then
      (t, (openDirectory k t root name).bind fun d => listOn k t d)
    else (t, (openBeneath k t root name).bind fun i => readOn k t i)
  | .ok (.parent name leaf) =>
    match openDirectory k t root name with
    | .error e => (t, .error e)
    | .ok d =>
      if req.operation = .mkdir then changed t (mkdirOn k req.mode d leaf t)
      else if req.operation = .delete then changed t (deleteOn k d leaf t)
      else writeOn k draw req d leaf t

end Sandcube.Files
