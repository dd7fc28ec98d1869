import Sandcube.Context.Extract

/-!
# ustar archives

What an archiver writes: headers of 512 bytes with the name, mode, size and kind of an entry and
a checksum, each followed by the data in zero-padded blocks, and two zero blocks at the end.  The
fields that `extract` does not look at are arbitrary.  `parseHeader_header` reads a written
header back.
-/

namespace Sandcube.BuildContext

variable {width n : Nat} {bytes s : Bytes}

open Sandcube.Path (Bytes slash dot parts normal join plain)

/-! ### Writing -/

/-- A text field: the bytes, padded with NUL. -/
def textField (width : Nat) (bytes : Bytes) : Bytes :=
  bytes ++ List.replicate (width - bytes.length) 0

/-- `n` in `width` octal digits. -/
def octal : Nat → Nat → Bytes
  | 0, _ => []
  | width + 1, n => octal width (n / 8) ++ [UInt8.ofNat (48 + n % 8)]

inductive Body
  | directory
  /-- a regular file; `old` files have the kind NUL of older archivers -/
  | file (old : Bool) (content : Bytes)
  deriving DecidableEq

namespace Body

def kind : Body → UInt8
  | directory => 53
  | file true _ => 0
  | file false _ => 48

def content : Body → Bytes
  | directory => []
  | file _ content => content

end Body

/-- The fields that `extract` does not look at: owners, modification time, link target up to
device numbers, and the bytes behind the prefix field. -/
structure Unread where
  owner : Bytes
  mtime : Bytes
  link : Bytes
  tail : Bytes
  owner_length : owner.length = 16
  mtime_length : mtime.length = 12
  link_length : link.length = 188
  tail_length : tail.length = 12

/-- An entry whose name can be written in the two name fields and is not refused. -/
structure Entry where
  name : Bytes
  leading : Bytes
  mode : Nat
  body : Body
  unread : Unread
  name_ne_nil : name ≠ []
  name_length : name.length ≤ 100
  leading_length : leading.length ≤ 155
  name_nul : 0 ∉ name
  leading_nul : 0 ∉ leading
  mode_lt : mode < 8 ^ 7
  safe : unsafeName (if leading = [] then name else leading ++ slash :: name) = false

namespace Entry

/-- The name as `extract` assembles it. -/
def fullName (e : Entry) : Bytes :=
  if e.leading = [] then e.name else e.leading ++ slash :: e.name

/-- The place of an entry below the destination. -/
def path (e : Entry) : Place := normal slash dot e.fullName

def size (e : Entry) : Nat := e.body.content.length

/-- The header up to the checksum. -/
def front (e : Entry) : Bytes :=
  textField 100 e.name ++ (octal 7 e.mode ++ [0]) ++ e.unread.owner ++ (octal 11 e.size ++ [0]) ++
    e.unread.mtime

/-- The header behind the checksum. -/
def back (e : Entry) : Bytes :=
  e.body.kind :: (e.unread.link ++ textField 155 e.leading ++ e.unread.tail)

/-- The checksum of the header, in which the checksum field counts as blanks. -/
def checksum (e : Entry) : Nat :=
  (e.front.map UInt8.toNat).sum + 8 * 32 + (e.back.map UInt8.toNat).sum

def header (e : Entry) : Bytes :=
  e.front ++ (octal 6 e.checksum ++ [0, 32]) ++ e.back

/-- Header, data and the padding of the last block. -/
def encode (e : Entry) : Bytes :=
  e.header ++ e.body.content ++ List.replicate (padding e.size) 0

/-- What the entry adds to the total. -/
def weight (e : Entry) : Nat := e.size + 512 + padding e.size

end Entry

/-- The entries, two zero blocks, and `zeros` more bytes of padding. -/
def archive (entries : List Entry) (zeros : Nat) : Bytes :=
  entries.flatMap Entry.encode ++ (List.replicate 512 0 ++ (List.replicate 512 0 ++
    List.replicate zeros 0))

/-! ### Reading fields back -/

theorem slice_middle (a b c : Bytes) {start count : Nat} (ha : a.length = start)
    (hb : b.length = count) : slice (a ++ b ++ c) start count = b := by
  rw [slice, List.append_assoc, ← ha, List.drop_left, ← hb, List.take_left]

theorem length_textField (h : bytes.length ≤ width) : (textField width bytes).length = width := by
  simp [textField]
  omega

theorem field_append {rest : Bytes} (h : 0 ∉ bytes) : field (bytes ++ 0 :: rest) = bytes := by
  rw [field, List.takeWhile_append_of_pos]
  · simp
  · intro c hc
    simpa using fun he : c = 0 => h (he ▸ hc)

theorem field_textField (h : 0 ∉ bytes) : field (textField width bytes) = bytes := by
  unfold textField
  cases width - bytes.length with
  | zero =>
    rw [List.replicate_zero, List.append_nil, field, List.takeWhile_eq_self_iff]
    intro c hc
    simpa using fun he : c = 0 => h (he ▸ hc)
  | succ n => rw [List.replicate_succ, field_append h]

theorem length_octal (width n : Nat) : (octal width n).length = width := by
  induction width generalizing n with
  | zero => rfl
  | succ width ih => simp [octal, ih]

/-- The digit for `n % 8`. -/
theorem toNat_digit (n : Nat) : (UInt8.ofNat (48 + n % 8)).toNat = 48 + n % 8 := by
  rw [UInt8.toNat_ofNat']
  omega

theorem octal_all (width n : Nat) : (octal width n).all isOctal = true := by
  induction width generalizing n with
  | zero => rfl
  | succ width ih =>
    rw [octal, List.all_append, ih, Bool.true_and, List.all_cons, List.all_nil, Bool.and_true,
      isOctal_iff, toNat_digit]
    omega

theorem octalValue_octal (h : n < 8 ^ width) : octalValue (octal width n) = n := by
  induction width generalizing n with
  | zero => simp [octal, octalValue]; omega
  | succ width ih =>
    rw [pow_succ] at h
    rw [octal, octalValue_append, ih (by omega), toNat_digit]
    omega

/-- No white space begins or ends with a digit. -/
theorem whitespace_digit {c : UInt8} (hc : isOctal c = true) :
    (∀ space ∈ whitespace, space.head? ≠ some c) ∧
      ∀ space ∈ whitespace.map List.reverse, space.head? ≠ some c := by
  obtain ⟨hlo, hhi⟩ := isOctal_iff.1 hc
  have hall : (∀ space ∈ whitespace, ∀ d ∈ space.head?, d.toNat < 48 ∨ 55 < d.toNat) ∧
      ∀ space ∈ whitespace.map List.reverse, ∀ d ∈ space.head?, d.toNat < 48 ∨ 55 < d.toNat := by
    decide +kernel
  refine ⟨fun space hspace he => ?_, fun space hspace he => ?_⟩
  · have := hall.1 space hspace c he
    omega
  · have := hall.2 space hspace c he
    omega

/-- White space that cannot begin the text is not removed from it. -/
theorem dropSpaces_eq_self {spaces : List Bytes} (rounds : Nat) (hempty : [] ∉ spaces)
    (h : ∀ c ∈ s.head?, ∀ space ∈ spaces, space.head? ≠ some c) :
    dropSpaces spaces rounds s = s := by
  cases rounds with
  | zero => rfl
  | succ rounds =>
    have hnone : spaces.find? (·.isPrefixOf s) = none := by
      rw [List.find?_eq_none]
      intro space hspace hpre
      rw [List.isPrefixOf_iff_prefix] at hpre
      cases space with
      | nil => exact hempty hspace
      | cons d space =>
        obtain ⟨rest, rfl⟩ := hpre
        exact h d rfl _ hspace rfl
    rw [dropSpaces, hnone]

theorem strip_digits (h : s.all isOctal = true) : strip s = s := by
  rw [List.all_eq_true] at h
  have hleft : dropSpaces whitespace s.length s = s := by
    refine dropSpaces_eq_self _ (by decide) fun c hc => ?_
    exact (whitespace_digit (h c (List.mem_of_head? hc))).1
  rw [strip, hleft, dropSpaces_eq_self _ (by decide) fun c hc => ?_, List.reverse_reverse]
  exact (whitespace_digit (h c (List.mem_reverse.1 (List.mem_of_head? hc)))).2

/-- A number field is read back. -/
theorem number_octal (hwidth : 0 < width) (hle : width ≤ 12) (h : n < 8 ^ width) (rest : Bytes) :
    number (octal width n ++ 0 :: rest) = .ok n := by
  have hdigits := octal_all width n
  have hnul : 0 ∉ octal width n := by
    intro hmem
    exact absurd (List.all_eq_true.1 hdigits 0 hmem) (by decide)
  have hne : octal width n ≠ [] := by
    intro hnil
    have := length_octal width n
    rw [hnil] at this
    exact absurd this (by simp; omega)
  have hbig : ¬ maxInt64 < n := by
    have : 8 ^ width ≤ 8 ^ 12 := Nat.pow_le_pow_right (by decide) hle
    unfold maxInt64
    omega
  simp only [number, field_append hnul, strip_digits hdigits, if_neg hne, hdigits,
    Bool.true_eq_false, if_false, octalValue_octal h, if_neg hbig]

/-! ### Reading headers back -/

namespace Entry

variable (e : Entry)

theorem length_front : e.front.length = 148 := by
  have hname := length_textField e.name_length
  simp only [front, List.length_append, hname, length_octal, e.unread.owner_length,
    e.unread.mtime_length, List.length_singleton]

theorem length_header : e.header.length = 512 := by
  have hleading := length_textField e.leading_length
  simp only [header, back, List.length_append, List.length_cons, List.length_nil, length_front,
    length_octal, hleading, e.unread.link_length, e.unread.tail_length]

theorem headerSum_header : headerSum e.header = e.checksum := by
  have hfront : e.header.take 148 = e.front := by
    rw [header, List.append_assoc, ← e.length_front, List.take_left]
  have hback : e.header.drop 156 = e.back := by
    have hlen : (e.front ++ (octal 6 e.checksum ++ [0, 32])).length = 156 := by
      simp [length_front, length_octal]
    rw [header, ← hlen, List.drop_left]
  rw [headerSum, hfront, hback, checksum]

/-- 512 bytes cannot sum up to more than six octal digits. -/
theorem checksum_lt : e.checksum < 8 ^ 6 := by
  have hsum : ∀ l : Bytes, (l.map UInt8.toNat).sum ≤ 255 * l.length := by
    intro l
    induction l with
    | nil => simp
    | cons c l ih =>
      have := c.toNat_lt
      simp only [List.map_cons, List.sum_cons, List.length_cons]
      omega
  have hfront := hsum e.front
  have hback := hsum e.back
  have hlength : e.front.length + e.back.length = 504 := by
    have := e.length_header
    simp only [header, List.length_append, length_octal, List.length_cons, List.length_nil] at this
    omega
  unfold checksum
  omega

theorem entryName_header : entryName e.header = e.fullName := by
  have hname : slice e.header 0 100 = textField 100 e.name := by
    have := slice_middle [] (textField 100 e.name) ((octal 7 e.mode ++ [0]) ++ e.unread.owner ++
      (octal 11 e.size ++ [0]) ++ e.unread.mtime ++ (octal 6 e.checksum ++ [0, 32]) ++ e.back) rfl
      (length_textField e.name_length)
    simpa [header, front] using this
  have hleading : slice e.header 345 155 = textField 155 e.leading := by
    have hlen : (e.front ++ (octal 6 e.checksum ++ [0, 32]) ++
        (e.body.kind :: e.unread.link)).length = 345 := by
      simp [length_front, length_octal, e.unread.link_length]
    have := slice_middle _ (textField 155 e.leading) e.unread.tail hlen
      (length_textField e.leading_length)
    simpa [header, back] using this
  rw [entryName, hname, hleading, field_textField e.name_nul, field_textField e.leading_nul,
    fullName]

theorem kindOf_header : kindOf e.header = e.body.kind := by
  have hlen : (e.front ++ (octal 6 e.checksum ++ [0, 32])).length = 156 := by
    simp [length_front, length_octal]
  rw [kindOf, header, List.getD_eq_getElem?_getD, List.getElem?_append_right (by omega), hlen]
  rfl

theorem knownKind_kind : knownKind e.body.kind = true := by
  cases e.body with
  | directory => rfl
  | file old content => cases old <;> rfl

theorem number_mode : number (slice e.header 100 8) = .ok e.mode := by
  have hslice : slice e.header 100 8 = octal 7 e.mode ++ [0] := by
    have hlen : (octal 7 e.mode ++ [0]).length = 8 := by simp [length_octal]
    have := slice_middle (textField 100 e.name) (octal 7 e.mode ++ [0]) (e.unread.owner ++
      (octal 11 e.size ++ [0]) ++ e.unread.mtime ++ (octal 6 e.checksum ++ [0, 32]) ++ e.back)
      (length_textField e.name_length) hlen
    simpa [header, front] using this
  rw [hslice]
  exact number_octal (by decide) (by decide) e.mode_lt []

/-- A written header is read back. -/
theorem parseHeader_header (hsize : e.size < 8 ^ 11) :
    parseHeader e.header = .ok ⟨e.path, e.body.kind, e.size⟩ := by
  have hchecksum : slice e.header 148 8 = octal 6 e.checksum ++ [0, 32] :=
    slice_middle e.front _ e.back e.length_front (by simp [length_octal])
  have hslice : slice e.header 124 12 = octal 11 e.size ++ [0] := by
    have hstart : (textField 100 e.name ++ (octal 7 e.mode ++ [0]) ++ e.unread.owner).length = 124 := by
      simp [length_textField e.name_length, length_octal, e.unread.owner_length]
    have hlen : (octal 11 e.size ++ [0]).length = 12 := by simp [length_octal]
    have := slice_middle _ (octal 11 e.size ++ [0]) (e.unread.mtime ++
      (octal 6 e.checksum ++ [0, 32]) ++ e.back) hstart hlen
    simpa [header, front] using this
  rw [parseHeader_eq_ok, hchecksum, hslice, e.headerSum_header, e.entryName_header,
    e.kindOf_header]
  refine ⟨number_octal (by decide) (by decide) e.checksum_lt _, e.safe, e.knownKind_kind,
    number_octal (by decide) (by decide) hsize _, rfl, rfl⟩

end Entry

end Sandcube.BuildContext
