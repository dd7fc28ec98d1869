import Sandcube.Context.Header
import Sandcube.Prog.Does
import Sandcube.Table.Basic

/-!
# Extraction of build contexts

`BuildContext.extract` as a program over the destination directory and the stream that the gzip
reader delivers.  For every step the environment chooses whether it fails and how far it comes:
a read may return fewer bytes than asked for, the stream may break off with an error of the gzip
reader, and any file system call may fail, a copy after it has written a part.  The history lists
what has been done to the file system.

Places are lists of components below the destination, which exists and is a directory.
-/

namespace Sandcube.BuildContext

open Sandcube.Path (Bytes slash dot join)

/-- The components of a path below the destination. -/
abbrev Place := List Bytes

inductive Node
  | dir
  | file (content : Bytes) (mode : Nat)
  deriving DecidableEq, Repr

inductive Event
  /-- a header has been counted -/
  | header
  | mkdir (path : Place)
  /-- a file has been opened for writing -/
  | opened (path : Place)
  | wrote (count : Nat)
  deriving DecidableEq, Repr

structure Store where
  /-- what the gzip reader has still to deliver -/
  stream : Bytes
  tree : Table Place Node
  /-- latest event first -/
  history : List Event

/-- The destination is empty and nothing has been read. -/
def Store.start (stream : Bytes) : Store := ⟨stream, .empty, []⟩

/-- The environment's choices for one step. -/
structure Weather where
  fails : Bool := false
  /-- how many bytes a read delivers, at most -/
  count : Nat := 4096
  /-- how many bytes a failing copy has written -/
  wrote : Nat := 0
  deriving Inhabited

abbrev Job (α : Type) : Type := Prog Store Weather ContextError α

/-! ### The gzip reader -/

/-- `io.read_fully(Bytes.new(count))` -/
def readFully (count : Nat) : Job Bytes :=
  .atomic fun weather s =>
    if weather.fails then (.error .invalid, { s with stream := s.stream.drop (min weather.count count) })
    else if count ≤ s.stream.length then
      (.ok (s.stream.take count), { s with stream := s.stream.drop count })
    else (.error .invalid, { s with stream := [] })

/-- `io.read(Bytes.new(size))`: some bytes, and none only at the end of the stream. -/
def readSome (size : Nat) : Job Bytes :=
  .atomic fun weather s =>
    let count := max 1 (min weather.count size)
    if weather.fails then (.error .invalid, { s with stream := s.stream.drop count })
    else (.ok (s.stream.take count), { s with stream := s.stream.drop count })

/-! ### The file system -/

/-- `Dir.exists?` -/
def isDir (tree : Table Place Node) (path : Place) : Bool :=
  path = [] ∨ tree.find? path = some .dir

/-- `Dir.mkdir` -/
def mkdir (path : Place) : Job Unit :=
  .atomic fun weather s =>
    if weather.fails ∨ isDir s.tree path.dropLast = false ∨ (s.tree.find? path).isSome then
      (.error .invalid, s)
    else (.ok (), { s with tree := s.tree.put path .dir, history := .mkdir path :: s.history })

/-- `mkdir(path) unless Dir.exists?(path)` -/
def mkdirUnless (path : Place) : Job Unit := do
  let present ← Prog.read fun s => .ok (isDir s.tree path)
  Prog.when (present = false) (mkdir path)

/-- `Dir.mkdir_p`: the missing ones of the path's parents and the path itself, in this order. -/
def mkdirP (path : Place) : Job Unit := do
  let present ← Prog.read fun s => .ok (isDir s.tree path)
  Prog.when (present = false) (.forEach path.inits.tail mkdirUnless)

/-- The parents of a path and the path itself, the root apart. -/
theorem mem_tail_inits {α : Type} {l l' : List α} : l' ∈ l.inits.tail ↔ l' ≠ [] ∧ l' <+: l := by
  cases l with
  | nil => simp
  | cons a l =>
    rw [List.inits_cons, List.tail_cons, List.mem_map]
    constructor
    · rintro ⟨rest, hrest, rfl⟩
      exact ⟨List.cons_ne_nil _ _, List.prefix_cons_inj a |>.2 ((List.mem_inits _ _).1 hrest)⟩
    · rintro ⟨hne, hpre⟩
      cases l' with
      | nil => exact absurd rfl hne
      | cons b rest =>
        obtain ⟨rfl, hrest⟩ := List.cons_prefix_cons.1 hpre
        exact ⟨rest, (List.mem_inits _ _).2 hrest, rfl⟩

/-- `File.open(path, "w", perm: 0o600)` -/
def openFile (path : Place) : Job Unit :=
  .atomic fun weather s =>
    if weather.fails ∨ isDir s.tree path.dropLast = false ∨ path = [] then (.error .invalid, s)
    else
      match s.tree.find? path with
      | some .dir => (.error .invalid, s)
      | some (.file _ mode) =>
        (.ok (), { s with tree := s.tree.put path (.file [] mode), history := .opened path :: s.history })
      | none =>
        (.ok (), { s with tree := s.tree.put path (.file [] 0o600),
                          history := .opened path :: s.history })

/-- Append to a file. -/
def appendTo (path : Place) (bytes : Bytes) (s : Store) : Store :=
  { s with
    tree := s.tree.modify path fun
      | .file content mode => .file (content ++ bytes) mode
      | .dir => .dir
    history := .wrote bytes.length :: s.history }

/-- `IO.copy(io, file, size)` and the end of the `File.open` block. -/
def copy (path : Place) (size : Nat) : Job Nat :=
  .atomic fun weather s =>
    if weather.fails then
      let count := min weather.count size
      (.error .invalid,
        { appendTo path ((s.stream.take count).take weather.wrote) s with stream := s.stream.drop count })
    else
      (.ok (s.stream.take size).length,
        { appendTo path (s.stream.take size) s with stream := s.stream.drop size })

/-- `File.chmod` -/
def chmod (path : Place) (mode : Nat) : Job Unit :=
  .atomic fun weather s =>
    if weather.fails then (.error .invalid, s)
    else
      (.ok (), { s with
        tree := s.tree.modify path fun
          | .file content _ => .file content mode
          | .dir => .dir })

/-! ### The loop -/

/-- `total += count` on `Int64`. -/
def addTotal (total count : Nat) : Except ContextError Nat :=
  if maxInt64 < total + count then .error .overflow else .ok (total + count)

theorem addTotal_eq {total count : Nat} (h : total + count ≤ maxInt64) :
    addTotal total count = .ok (total + count) :=
  if_neg (Nat.not_lt.2 h)

/-- `(512 - size % 512) % 512` -/
def padding (size : Nat) : Nat := (512 - size % 512) % 512

def isZero (bytes : Bytes) : Bool := bytes.all (· == 0)

/-- The bytes behind the terminator.  Every round adds to the total, so the rounds end with it. -/
def drain : Nat → Nat → Job Unit
  | 0, _ => .raise .exhausted
  | rounds + 1, total => do
    let chunk ← readSome 4096
    if chunk = [] then pure ()
    else do
      let total ← Prog.ofExcept (addTotal total chunk.length)
      if isZero chunk ∧ total ≤ maxExpanded then drain rounds total else .raise .padding

/-- The second block of the terminator and what stands behind it. -/
def terminate (total : Nat) : Job Unit := do
  let header ← readFully 512
  if isZero header then drain (maxExpanded + 1 - total) total else .raise .terminator

/-- `entries += 1` -/
def count : Job Unit :=
  .atomic fun _ s => (.ok (), { s with history := .header :: s.history })

/-- Create what a header describes; `raw` is the header itself, which holds the mode. -/
def unpack (raw : Bytes) (header : Header) : Job Unit :=
  if isDirectory header.kind then mkdirP header.parts
  else do
    mkdirP header.parts.dropLast
    openFile header.parts
    let copied ← copy header.parts header.size
    if copied ≠ header.size then .raise .truncated
    else do
      let mode ← Prog.ofExcept (number (slice raw 100 8))
      chmod header.parts (mode % 512)

/-- The padding of the last data block. -/
def skip (size : Nat) : Job Unit :=
  Prog.when (0 < padding size) do
    let _ ← readFully (padding size)
    pure ()

/-- The loop of `extract`; `left` is `MAX_ENTRIES - entries`. -/
def loop (left : Nat) (seen : List Bytes) (total : Nat) : Job Unit := do
  let raw ← readFully 512
  if isZero raw then terminate total
  else
    match left with
    | 0 => .raise .tooMany
    | left + 1 => do
      count
      let header ← Prog.ofExcept (parseHeader raw)
      let total ← Prog.ofExcept (addTotal total (header.size + 512 + padding header.size))
      if maxExpanded < total then .raise .tooLarge
      else if isDirectory header.kind ∧ header.size ≠ 0 then .raise .directoryData
      else if header.parts = [] then
        if isDirectory header.kind then loop left seen total else .raise .emptyFile
      else if join slash header.parts ∈ seen then .raise .duplicate
      else do
        unpack raw header
        skip header.size
        loop left (join slash header.parts :: seen) total

/-- `BuildContext.extract` -/
def extract : Job Unit := loop maxEntries [] 0

end Sandcube.BuildContext
