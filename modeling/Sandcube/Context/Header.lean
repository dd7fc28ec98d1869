import Sandcube.Path.Basic

/-!
# Headers of build contexts

What `BuildContext.extract` reads off one 512-byte header of a POSIX ustar archive: `field` and
`number`, the checksum, the name assembled from two fields and split into components, the kind
and the size.  A number is octal text in a field of at most twelve bytes, so it stays far below
the bounds of `Int64` (`number_lt`); the components of a name that passes are safe to create
(`Safe`).
-/

namespace Sandcube.BuildContext

open Sandcube.Path (Bytes slash dot parts normal join plain)

/-- `MAX_EXPANDED` -/
def maxExpanded : Nat := 256 * 1024 * 1024

/-- `MAX_ENTRIES` -/
def maxEntries : Nat := 10000

/-- The largest `Int64`. -/
def maxInt64 : Nat := 2 ^ 63 - 1

/-- What `extract` raises.  `invalid` is an error of the gzip reader or of the file system, which
`extract` rescues and raises again as its own; `overflow` is Crystal's `OverflowError`; `exhausted`
is no error of the source: a bounded loop of the model has run out of rounds. -/
inductive ContextError
  | terminator
  | padding
  | tooMany
  | checksum
  | unsafePath
  | kind
  | tooLarge
  | directoryData
  | emptyFile
  | duplicate
  | truncated
  | number
  | invalid
  | overflow
  | exhausted
  deriving DecidableEq, Repr

def ContextError.message : ContextError → String
  | .terminator => "Invalid tar terminator"
  | .padding => "Invalid archive padding"
  | .tooMany => "Too many archive entries"
  | .checksum => "Invalid tar checksum"
  | .unsafePath => "Unsafe archive path"
  | .kind => "Only regular files and directories are allowed"
  | .tooLarge => "Build context exceeds expanded size limit"
  | .directoryData => "Directory has data"
  | .emptyFile => "Empty file path"
  | .duplicate => "Duplicate archive path"
  | .truncated => "Truncated archive file"
  | .number => "Invalid tar numeric field"
  | .invalid => "Invalid build context: "
  | .overflow => "Arithmetic overflow"
  | .exhausted => ""

/-! ### Fields -/

/-- `bytes[start, count]` -/
def slice (bytes : Bytes) (start count : Nat) : Bytes :=
  (bytes.drop start).take count

/-- `BuildContext.field`: the bytes up to the first NUL. -/
def field (bytes : Bytes) : Bytes :=
  bytes.takeWhile (· != 0)

/-- The characters that `String#strip` removes, in UTF-8. -/
def whitespace : List Bytes :=
  [[9], [10], [11], [12], [13], [32], [0xC2, 0x85], [0xC2, 0xA0], [0xE1, 0x9A, 0x80],
    [0xE2, 0x80, 0x80], [0xE2, 0x80, 0x81], [0xE2, 0x80, 0x82], [0xE2, 0x80, 0x83],
    [0xE2, 0x80, 0x84], [0xE2, 0x80, 0x85], [0xE2, 0x80, 0x86], [0xE2, 0x80, 0x87],
    [0xE2, 0x80, 0x88], [0xE2, 0x80, 0x89], [0xE2, 0x80, 0x8A], [0xE2, 0x80, 0xA8],
    [0xE2, 0x80, 0xA9], [0xE2, 0x80, 0xAF], [0xE2, 0x81, 0x9F], [0xE3, 0x80, 0x80]]

/-- Remove the characters `spaces` from the front; every round removes at least one byte. -/
def dropSpaces (spaces : List Bytes) : Nat → Bytes → Bytes
  | 0, s => s
  | rounds + 1, s =>
    match spaces.find? (·.isPrefixOf s) with
    | some space => dropSpaces spaces rounds (s.drop space.length)
    | none => s

/-- `String#strip` -/
def strip (s : Bytes) : Bytes :=
  let left := dropSpaces whitespace s.length s
  (dropSpaces (whitespace.map List.reverse) left.length left.reverse).reverse

/-- `[0-7]` -/
def isOctal (c : UInt8) : Bool :=
  48 ≤ c ∧ c ≤ 55

/-- The value of octal text. -/
def octalValue (digits : Bytes) : Nat :=
  digits.foldl (fun value c => value * 8 + (c.toNat - 48)) 0

/-- `BuildContext.number` -/
def number (bytes : Bytes) : Except ContextError Nat :=
  let value := strip (field bytes)
  if value = [] then .ok 0
  else if value.all isOctal = false then .error .number
  else if maxInt64 < octalValue value then .error .number
  else .ok (octalValue value)

/-- The checksum of a header: the sum of its bytes, those of the checksum field counting as
blanks. -/
def headerSum (header : Bytes) : Nat :=
  ((header.take 148).map UInt8.toNat).sum + 8 * 32 + ((header.drop 156).map UInt8.toNat).sum

/-- The name of an entry: the name field, behind the prefix field when there is one. -/
def entryName (header : Bytes) : Bytes :=
  let name := field (slice header 0 100)
  let leading := field (slice header 345 155)
  if leading = [] then name else leading ++ slash :: name

/-- `\` -/
def backslash : UInt8 := 92

/-- The names that `extract` refuses. -/
def unsafeName (name : Bytes) : Bool :=
  name.head? = some slash ∨ backslash ∈ name ∨ [dot, dot] ∈ parts slash name

def isDirectory (kind : UInt8) : Bool := kind = 53

/-- Regular files, in the old and the new spelling, and directories. -/
def knownKind (kind : UInt8) : Bool := kind ∈ [0, 48, 53]

/-- `header[156]` -/
def kindOf (header : Bytes) : UInt8 := header.getD 156 0

structure Header where
  /-- the components of the name without the empty ones and `.` -/
  parts : List Bytes
  kind : UInt8
  size : Nat
  deriving Repr

/-- The checks of `extract` on a header that need nothing but the header. -/
def parseHeader (header : Bytes) : Except ContextError Header :=
  (number (slice header 148 8)).bind fun checksum =>
    if headerSum header ≠ checksum then .error .checksum
    else if unsafeName (entryName header) then .error .unsafePath
    else if knownKind (kindOf header) = false then .error .kind
    else (number (slice header 124 12)).map fun size =>
      ⟨normal slash dot (entryName header), kindOf header, size⟩

/-! ### Numbers -/

theorem length_dropSpaces_le (spaces : List Bytes) (rounds : Nat) (s : Bytes) :
    (dropSpaces spaces rounds s).length ≤ s.length := by
  induction rounds generalizing s with
  | zero => exact le_rfl
  | succ rounds ih =>
    rw [dropSpaces]
    cases spaces.find? (·.isPrefixOf s) with
    | none => exact le_rfl
    | some space =>
      have := ih (s.drop space.length)
      rw [List.length_drop] at this
      exact le_trans this (Nat.sub_le ..)

theorem length_strip_le (s : Bytes) : (strip s).length ≤ s.length := by
  have hleft := length_dropSpaces_le whitespace s.length s
  have hright := length_dropSpaces_le (whitespace.map List.reverse)
    (dropSpaces whitespace s.length s).length (dropSpaces whitespace s.length s).reverse
  rw [List.length_reverse] at hright
  rw [strip, List.length_reverse]
  exact le_trans hright hleft

theorem octalValue_append (digits : Bytes) (c : UInt8) :
    octalValue (digits ++ [c]) = octalValue digits * 8 + (c.toNat - 48) := by
  simp [octalValue]

theorem isOctal_iff {c : UInt8} : isOctal c = true ↔ 48 ≤ c.toNat ∧ c.toNat ≤ 55 := by
  simp [isOctal, UInt8.le_iff_toNat_le]

/-- Text of `n` octal digits stands for less than `8 ^ n`. -/
theorem octalValue_lt (digits : Bytes) (h : digits.all isOctal = true) :
    octalValue digits < 8 ^ digits.length := by
  induction digits using List.reverseRecOn with
  | nil => simp [octalValue]
  | append_singleton digits c ih =>
    rw [List.all_append, Bool.and_eq_true] at h
    have hdigits := ih h.1
    have hc : 48 ≤ c.toNat ∧ c.toNat ≤ 55 := isOctal_iff.1 (by simpa using h.2)
    rw [octalValue_append, List.length_append, List.length_singleton, pow_succ]
    omega

/-- What a field of `n` bytes can stand for. -/
theorem number_lt {bytes : Bytes} {n value : Nat} (hlen : bytes.length ≤ n)
    (h : number bytes = .ok value) : value < 8 ^ n := by
  simp only [number] at h
  have hstrip : (strip (field bytes)).length ≤ n :=
    le_trans (length_strip_le _) (le_trans (List.takeWhile_prefix _).length_le hlen)
  have hpos : 0 < 8 ^ n := Nat.pow_pos (by decide)
  split_ifs at h with hempty hdigits hbig
  · cases h
    exact hpos
  · have hall : (strip (field bytes)).all isOctal = true := by simpa using hdigits
    cases h
    exact lt_of_lt_of_le (octalValue_lt _ hall) (Nat.pow_le_pow_right (by decide) hstrip)

theorem length_slice_le (bytes : Bytes) (start count : Nat) :
    (slice bytes start count).length ≤ count := by
  rw [slice]
  exact List.length_take_le ..

/-! ### Names -/

theorem not_mem_field (bytes : Bytes) : 0 ∉ field bytes := by
  intro hmem
  have := List.all_takeWhile (l := bytes) (p := (· != 0))
  rw [List.all_eq_true] at this
  exact absurd (this 0 hmem) (by decide)

theorem not_mem_entryName (header : Bytes) : 0 ∉ entryName header := by
  have hname := not_mem_field (slice header 0 100)
  have hleading := not_mem_field (slice header 345 155)
  unfold entryName
  by_cases hempty : field (slice header 345 155) = []
  · rwa [if_pos hempty]
  · rw [if_neg hempty, List.mem_append, List.mem_cons]
    rintro (hmem | hmem | hmem)
    · exact hleading hmem
    · exact absurd hmem (by decide)
    · exact hname hmem

/-- A component under which a file or directory may be created. -/
def Safe (part : Bytes) : Prop :=
  part ≠ [] ∧ part ≠ [dot] ∧ part ≠ [dot, dot] ∧ slash ∉ part ∧ backslash ∉ part ∧ 0 ∉ part

theorem safe_of_mem_normal {name part : Bytes} (hsafe : unsafeName name = false) (hnul : 0 ∉ name)
    (h : part ∈ normal slash dot name) : Safe part := by
  obtain ⟨hmem, hne, hdot⟩ := Path.mem_normal.1 h
  simp only [unsafeName, decide_eq_false_iff_not, not_or] at hsafe
  refine ⟨hne, hdot, ?_, Path.slash_not_mem_of_mem_parts hmem, ?_, ?_⟩
  · rintro rfl
    exact hsafe.2.2 hmem
  · exact fun hc => hsafe.2.1 (Path.mem_of_mem_parts hmem hc)
  · exact fun hc => hnul (Path.mem_of_mem_parts hmem hc)

/-- What an accepted header says, check by check. -/
theorem parseHeader_eq_ok {header : Bytes} {parsed : Header} :
    parseHeader header = .ok parsed ↔
      number (slice header 148 8) = .ok (headerSum header) ∧
      unsafeName (entryName header) = false ∧ knownKind (kindOf header) = true ∧
      number (slice header 124 12) = .ok parsed.size ∧
      parsed.parts = normal slash dot (entryName header) ∧ parsed.kind = kindOf header := by
  obtain ⟨parts, kind, size⟩ := parsed
  unfold parseHeader
  cases hsum : number (slice header 148 8) with
  | error e => simp [Except.bind]
  | ok checksum =>
    by_cases hs : headerSum header = checksum
    · subst hs
      cases hn : unsafeName (entryName header) with
      | true => simp [Except.bind]
      | false =>
        cases hk : knownKind (kindOf header) with
        | false => simp [Except.bind]
        | true =>
          cases number (slice header 124 12) with
          | error e => simp [Except.bind, Except.map]
          | ok found =>
            simp only [Except.bind, Except.map, ne_eq, not_true_eq_false, if_false,
              Bool.false_eq_true, Bool.true_eq_false, Except.ok.injEq, Header.mk.injEq, true_and]
            tauto
    · simp [Except.bind, hs, Ne.symm hs]

theorem Header.safe_of_parse {header : Bytes} {parsed : Header}
    (h : parseHeader header = .ok parsed) : ∀ part ∈ parsed.parts, Safe part := by
  obtain ⟨-, hsafe, -, -, hparts, -⟩ := parseHeader_eq_ok.1 h
  intro part hpart
  rw [hparts] at hpart
  exact safe_of_mem_normal hsafe (not_mem_entryName header) hpart

theorem Header.size_lt {header : Bytes} {parsed : Header} (h : parseHeader header = .ok parsed) :
    parsed.size < 8 ^ 12 := by
  obtain ⟨-, -, -, hsize, -⟩ := parseHeader_eq_ok.1 h
  exact number_lt (length_slice_le ..) hsize

end Sandcube.BuildContext
