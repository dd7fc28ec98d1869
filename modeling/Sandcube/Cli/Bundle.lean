import Sandcube.Cli.Config
import Sandcube.Value.Read

/-!
# Release bundles

`bundle.cr` and `package.cr`: a launcher with three payloads behind it, a manifest that says where
they are, the length of the manifest and a magic line.  The reader finds its way from the end of the
file and believes nothing that it has not checked.

* `open_sound`: what `Bundle.new` accepts lies in order before the manifest, and no file makes its
  arithmetic overflow.
* `open_packed`: it accepts what `package` writes, with the entries that were written.
-/

namespace Sandcube.Cli

variable {n : ℕ} {p : Prop} {start previous : ℤ} {version : String}

abbrev Bytes := List UInt8

/-- What the code raises. -/
inductive Failure where
  /-- `raise "…"` -/
  | raised (message : String)
  /-- `OverflowError` -/
  | overflow
  /-- `JSON::ParseException` -/
  | parse
  /-- `File::Error`, with the error of the system call. -/
  | system (error : String)
  deriving DecidableEq

/-! ### Integers -/

/-- The number is an `Int64`. -/
def IsInt64 (n : ℤ) : Prop := -2 ^ 63 ≤ n ∧ n < 2 ^ 63

instance (n : ℤ) : Decidable (IsInt64 n) := inferInstanceAs (Decidable (_ ∧ _))

/-- The result of an operation on `Int64`. -/
def checked (n : ℤ) : Except Failure ℤ := if IsInt64 n then .ok n else .error .overflow

/-- A `UInt64` in the order `IO::ByteFormat::LittleEndian`. -/
def encodeLe (n : ℕ) : Bytes :=
  (List.range 8).map fun i => UInt8.ofNat (n / 256 ^ i)

def decodeLe (bytes : Bytes) : ℕ := bytes.foldr (fun b n => b.toNat + 256 * n) 0

theorem decodeLe_encodeLe (h : n < 2 ^ 64) : decodeLe (encodeLe n) = n := by
  simp only [encodeLe, decodeLe, List.range_succ, List.range_zero, List.nil_append, List.map_append,
    List.map_cons, List.map_nil, List.foldr_append, List.foldr_cons, List.foldr_nil,
    UInt8.toNat_ofNat']
  omega

@[simp]
theorem length_encodeLe (n : ℕ) : (encodeLe n).length = 8 := by simp [encodeLe]

/-! ### Texts -/

/-- A text in UTF-8. -/
def encodeText (text : Chars) : Bytes := text.flatMap String.utf8EncodeChar

/-- The characters of a text, if the bytes are UTF-8. -/
def decodeText? (bytes : Bytes) : Option Chars :=
  bytes.toByteArray.utf8Decode?.map Array.toList

theorem decodeText?_encodeText (text : Chars) : decodeText? (encodeText text) = some text := by
  have hbytes : (encodeText text).toByteArray = text.utf8Encode := rfl
  rw [decodeText?, hbytes, List.utf8Decode?_utf8Encode]
  rfl

theorem length_encodeText_le (text : Chars) : (encodeText text).length ≤ 4 * text.length := by
  induction text with
  | nil => simp [encodeText]
  | cons c text ih =>
    have hsize : (String.utf8EncodeChar c).length ≤ 4 := by
      rw [String.length_utf8EncodeChar]
      exact c.utf8Size_le_four
    rw [encodeText, List.flatMap_cons, List.length_append, List.length_cons]
    rw [encodeText] at ih
    omega

/-! ### Manifests -/

/-- An `Int64`. -/
abbrev I64 := { n : ℤ // IsInt64 n }

structure Entry where
  name : String
  offset : I64
  size : I64
  sha256 : String
  deriving DecidableEq

structure Manifest where
  version : String
  entries : List Entry
  deriving DecidableEq

def Entry.toJson (e : Entry) : Json :=
  .obj [("name", .str e.name), ("offset", .int e.offset), ("size", .int e.size),
    ("sha256", .str e.sha256)]

def Manifest.toJson (m : Manifest) : Json :=
  .obj [("version", .str m.version), ("entries", .arr (m.entries.map Entry.toJson))]

/-- `to_json` -/
def Manifest.toText (m : Manifest) : Bytes := encodeText m.toJson.render

/-- A property of a `JSON::Serializable`: every member of its name has to be of its type, and the
last one counts. -/
def field? {α : Type} (read : Json → Option α) (name : String) (fields : List (String × Json)) :
    Option α := do
  let values ← (fields.filter (·.1 = name)).mapM fun field => read field.2
  values.getLast?

def string? : Json → Option String
  | .str s => some s
  | _ => none

def int64? : Json → Option I64
  | .int n => if h : IsInt64 n then some ⟨n, h⟩ else none
  | _ => none

def Entry.ofJson? : Json → Option Entry
  | .obj fields => do
    let name ← field? string? "name" fields
    let offset ← field? int64? "offset" fields
    let size ← field? int64? "size" fields
    let sha256 ← field? string? "sha256" fields
    return ⟨name, offset, size, sha256⟩
  | _ => none

def entries? : Json → Option (List Entry)
  | .arr items => items.mapM Entry.ofJson?
  | _ => none

def Manifest.ofJson? : Json → Option Manifest
  | .obj fields => do
    let version ← field? string? "version" fields
    let entries ← field? entries? "entries" fields
    return ⟨version, entries⟩
  | _ => none

/-- `from_json` -/
def Manifest.fromJson (bytes : Bytes) : Option Manifest := do
  let text ← decodeText? bytes
  let value ← Json.read text
  Manifest.ofJson? value

theorem Entry.ofJson?_toJson (e : Entry) : Entry.ofJson? e.toJson = some e := by
  have hint : ∀ n : I64, int64? (.int n) = some n := fun n => dif_pos n.2
  simp [Entry.ofJson?, Entry.toJson, field?, string?, hint]

theorem Manifest.ofJson?_toJson (m : Manifest) : Manifest.ofJson? m.toJson = some m := by
  have hentries : entries? (.arr (m.entries.map Entry.toJson)) = some m.entries := by
    rw [entries?]
    induction m.entries with
    | nil => rfl
    | cons e entries ih =>
      rw [List.map_cons, List.mapM_cons, Entry.ofJson?_toJson, ih]
      rfl
  simp [Manifest.ofJson?, Manifest.toJson, field?, string?, hentries]

theorem Entry.whole_toJson (e : Entry) : Json.Whole e.toJson := by
  refine .obj fun field hfield => ?_
  simp only [List.mem_cons, List.not_mem_nil, or_false] at hfield
  rcases hfield with rfl | rfl | rfl | rfl
  · exact .str _
  · exact .int _
  · exact .int _
  · exact .str _

theorem Manifest.whole_toJson (m : Manifest) : Json.Whole m.toJson := by
  refine .obj fun field hfield => ?_
  simp only [List.mem_cons, List.not_mem_nil, or_false] at hfield
  rcases hfield with rfl | rfl
  · exact .str _
  · refine .arr fun value hvalue => ?_
    obtain ⟨e, -, rfl⟩ := List.mem_map.mp hvalue
    exact e.whole_toJson

/-- What `to_json` writes, `from_json` reads. -/
theorem Manifest.fromJson_toText (m : Manifest) : Manifest.fromJson m.toText = some m := by
  rw [Manifest.fromJson, Manifest.toText, decodeText?_encodeText]
  show (Json.read m.toJson.render >>= Manifest.ofJson?) = some m
  rw [Json.read_render m.whole_toJson]
  exact m.ofJson?_toJson

/-! ### Reading a bundle -/

/-- `MAGIC` -/
def magic : Bytes := encodeText "SANDCUBE_BUNDLE_V1\n".toList

/-- `NAMES` -/
def payloadNames : List String := ["sandcube-api", "containerd-runtime", "install-deps.sh"]

/-- A file, of a size that the system can tell. -/
structure File where
  bytes : Bytes
  fits : bytes.length < 2 ^ 63

/-- The expression for versions. -/
def versionValid (version : String) : Bool :=
  match version.toList with
  | [] => false
  | first :: rest => first.isAlphanum && rest.length ≤ 79 &&
      rest.all fun c => c.isAlphanum || c = '.' || c = '_' || c = '-'

/-- The expression for checksums. -/
def isSha256 (sha256 : String) : Bool :=
  sha256.toList.length = 64 && sha256.toList.all fun c => c.isDigit || ('a' ≤ c && c ≤ 'f')

/-- `sort` -/
def sortNames (names : List String) : List String := names.mergeSort fun a b => decide (a ≤ b)

/-- The loop over the entries, from the end of the entry before. -/
def checkEntries (start : ℤ) (previous : ℤ) : List Entry → Except Failure Unit
  | [] => .ok ()
  | entry :: entries => do
    refuse (¬ (previous ≤ entry.offset.1 ∧ 0 < entry.size.1 ∧ entry.offset.1 ≤ start))
      (.raised "Invalid payload bounds")
    let room ← checked (start - entry.offset)
    refuse (¬ entry.size.1 ≤ room) (.raised "Invalid payload bounds")
    refuse (isSha256 entry.sha256 = false) (.raised "Invalid payload checksum")
    let previous ← checked (entry.offset + entry.size)
    checkEntries start previous entries

/-- The tests of the manifest, which starts at `start`. -/
def checkManifest (start : ℤ) (value : Manifest) : Except Failure Manifest := do
  refuse (versionValid value.version = false) (.raised "Invalid release version")
  refuse (sortNames (value.entries.map Entry.name) ≠ sortNames payloadNames)
    (.raised "Invalid payload entries")
  checkEntries start 0 value.entries
  return value

/-- `Bundle.new` -/
def Bundle.new (fromJson : Bytes → Option Manifest) (file : File) : Except Failure Manifest := do
  let size := file.bytes.length
  refuse (size < magic.length + 8) (.raised "No release payload; use make build")
  refuse (file.bytes.drop (size - magic.length) ≠ magic)
    (.raised "No release payload; use make build")
  let length := decodeLe ((file.bytes.drop (size - magic.length - 8)).take 8)
  -- `file.pos` is behind the length now
  let behind ← checked ((size - magic.length : ℕ) - 8)
  refuse (¬ (0 < length ∧ length ≤ 65536 ∧ (length : ℤ) < behind))
    (.raised "Invalid bundle manifest size")
  let start ← checked (behind - length)
  match fromJson ((file.bytes.drop start.toNat).take length) with
  | none => .error .parse
  | some value => checkManifest start value

/-! ### What is accepted -/

section Sound

variable {fromJson : Bytes → Option Manifest} {file : File} {m : Manifest}

/-- A payload inside the first bytes of a file. -/
structure Entry.Within (e : Entry) (limit : ℤ) : Prop where
  nonneg : 0 ≤ e.offset.1
  nonempty : 0 < e.size.1
  inside : e.offset.1 + e.size.1 ≤ limit

/-- The bytes of the first payload all lie before those of the second. -/
def Entry.Before (e e' : Entry) : Prop := e.offset.1 + e.size.1 ≤ e'.offset.1

theorem refuse_bind_of_not {ε α : Type} [Decidable p] {e : ε} {f : Unit → Except ε α} (h : ¬ p) :
    (refuse p e >>= f) = f () := by
  rw [refuse, if_neg h]
  rfl

theorem refuse_bind_of_pos {ε α : Type} [Decidable p] {e : ε} {f : Unit → Except ε α} (h : p) :
    (refuse p e >>= f) = .error e := by
  rw [refuse, if_pos h]
  rfl

theorem checked_bind {α : Type} {n : ℤ} {f : ℤ → Except Failure α} (h : IsInt64 n) :
    (checked n >>= f) = f n := by
  rw [checked, if_pos h]
  rfl

/-- The step of the loop; nothing overflows behind its tests. -/
theorem checkEntries_cons (hstart : IsInt64 start) (hprevious : 0 ≤ previous) (e : Entry)
    (entries : List Entry) :
    checkEntries start previous (e :: entries) =
      if previous ≤ e.offset.1 ∧ 0 < e.size.1 ∧ e.offset.1 + e.size.1 ≤ start then
        if isSha256 e.sha256 then checkEntries start (e.offset + e.size) entries
        else .error (.raised "Invalid payload checksum")
      else .error (.raised "Invalid payload bounds") := by
  unfold IsInt64 at hstart
  rw [checkEntries]
  by_cases hfirst : previous ≤ e.offset.1 ∧ 0 < e.size.1 ∧ e.offset.1 ≤ start
  · have hroom : IsInt64 (start - e.offset) := by
      unfold IsInt64
      omega
    rw [refuse_bind_of_not (not_not.mpr hfirst), checked_bind hroom]
    by_cases hsize : e.size.1 ≤ start - e.offset
    · have hend : IsInt64 (e.offset + e.size) := by
        unfold IsInt64
        omega
      rw [refuse_bind_of_not (not_not.mpr hsize), if_pos ⟨hfirst.1, hfirst.2.1, by omega⟩]
      cases hsha : isSha256 e.sha256 with
      | false =>
        rw [refuse_bind_of_pos rfl]
        rfl
      | true =>
        rw [refuse_bind_of_not (by decide), checked_bind hend]
        rfl
    · rw [refuse_bind_of_pos hsize, if_neg fun h => hsize (by omega)]
  · rw [refuse_bind_of_pos hfirst, if_neg fun h => hfirst ⟨h.1, h.2.1, by omega⟩]

theorem checkEntries_ne_overflow (hstart : IsInt64 start) (hprevious : 0 ≤ previous)
    (entries : List Entry) : checkEntries start previous entries ≠ .error .overflow := by
  induction entries generalizing previous with
  | nil => exact fun h => nomatch h
  | cons e entries ih =>
    rw [checkEntries_cons hstart hprevious]
    split_ifs with hbounds hsha
    · exact ih (by omega)
    · exact fun h => nomatch h
    · exact fun h => nomatch h

/-- Entries that pass the loop follow each other. -/
theorem sound_of_checkEntries (hstart : IsInt64 start) (hprevious : 0 ≤ previous)
    {entries : List Entry} (h : checkEntries start previous entries = .ok ()) :
    (∀ e ∈ entries, previous ≤ e.offset.1 ∧ e.Within start) ∧ entries.Pairwise Entry.Before := by
  induction entries generalizing previous with
  | nil => exact ⟨fun _ he => absurd he List.not_mem_nil, .nil⟩
  | cons e entries ih =>
    rw [checkEntries_cons hstart hprevious] at h
    split_ifs at h with hbounds hsha
    obtain ⟨hprev, hsize, hend⟩ := hbounds
    obtain ⟨hrest, hordered⟩ := ih (by omega) h
    refine ⟨fun e' he' => ?_, .cons (fun e' he' => (hrest e' he').1) hordered⟩
    rcases List.mem_cons.mp he' with rfl | he'
    · exact ⟨hprev, by omega, hsize, hend⟩
    · obtain ⟨hoffset, hwithin⟩ := hrest e' he'
      exact ⟨by omega, hwithin⟩

/-- A bundle as it should be: the payloads in order, then the manifest, its length and the magic
line. -/
structure Sound (fromJson : Bytes → Option Manifest) (file : File) (m : Manifest) : Prop where
  names : (m.entries.map Entry.name).Perm payloadNames
  ordered : m.entries.Pairwise Entry.Before
  layout : ∃ body text length, file.bytes = body ++ (text ++ (length ++ magic)) ∧
    length.length = 8 ∧ decodeLe length = text.length ∧ fromJson text = some m ∧
    ∀ e ∈ m.entries, e.Within body.length

theorem perm_of_sortNames {names names' : List String} (h : sortNames names = sortNames names') :
    names.Perm names' := by
  have hsorted := List.mergeSort_perm names fun a b => decide (a ≤ b)
  have hsorted' := List.mergeSort_perm names' fun a b => decide (a ≤ b)
  rw [sortNames, sortNames] at h
  rw [h] at hsorted
  exact hsorted.symm.trans hsorted'

/-- A file is cut into three parts in front of its end. -/
theorem split_end {bytes tail : Bytes} {first second : ℕ}
    (h : first + second + tail.length ≤ bytes.length)
    (htail : bytes.drop (bytes.length - tail.length) = tail) :
    bytes = bytes.take (bytes.length - tail.length - second - first) ++
      ((bytes.drop (bytes.length - tail.length - second - first)).take first ++
        ((bytes.drop (bytes.length - tail.length - second)).take second ++ tail)) := by
  have hsecond : (bytes.drop (bytes.length - tail.length - second)).take second ++ tail =
      bytes.drop (bytes.length - tail.length - second) := by
    have hsplit := List.take_append_drop second (bytes.drop (bytes.length - tail.length - second))
    rw [List.drop_drop, show bytes.length - tail.length - second + second =
      bytes.length - tail.length by omega, htail] at hsplit
    exact hsplit
  have hfirst : (bytes.drop (bytes.length - tail.length - second - first)).take first ++
      bytes.drop (bytes.length - tail.length - second) =
        bytes.drop (bytes.length - tail.length - second - first) := by
    have hsplit := List.take_append_drop first
      (bytes.drop (bytes.length - tail.length - second - first))
    rw [List.drop_drop, show bytes.length - tail.length - second - first + first =
      bytes.length - tail.length - second by omega] at hsplit
    exact hsplit
  rw [hsecond, hfirst, List.take_append_drop]

/-- What `Bundle.new` does behind the magic line. -/
theorem Bundle.new_of_magic (hsize : magic.length + 8 ≤ file.bytes.length)
    (hmagic : file.bytes.drop (file.bytes.length - magic.length) = magic) {length start : ℕ}
    (hlength : decodeLe ((file.bytes.drop (file.bytes.length - magic.length - 8)).take 8) = length)
    (hstart : start = file.bytes.length - magic.length - 8 - length) :
    Bundle.new fromJson file =
      if 0 < length ∧ length ≤ 65536 ∧ length < file.bytes.length - magic.length - 8 then
        match fromJson ((file.bytes.drop start).take length) with
        | none => .error .parse
        | some value => checkManifest start value
      else .error (.raised "Invalid bundle manifest size") := by
  have hfits := file.fits
  have hbehind : ((file.bytes.length - magic.length : ℕ) : ℤ) - 8 =
      (file.bytes.length - magic.length - 8 : ℕ) := by omega
  have hbehind64 : IsInt64 ((file.bytes.length - magic.length - 8 : ℕ) : ℤ) := by
    unfold IsInt64
    omega
  unfold Bundle.new
  rw [refuse_bind_of_not (by omega), refuse_bind_of_not (not_not.mpr hmagic), hlength, hbehind,
    checked_bind hbehind64]
  by_cases hsizes : 0 < length ∧ length ≤ 65536 ∧ length < file.bytes.length - magic.length - 8
  · have hstart' : ((file.bytes.length - magic.length - 8 : ℕ) : ℤ) - length = (start : ℕ) := by
      omega
    have hstart64 : IsInt64 (start : ℤ) := by
      unfold IsInt64
      omega
    rw [refuse_bind_of_not (by omega), if_pos hsizes, hstart', checked_bind hstart64,
      Int.toNat_natCast]
  · rw [refuse_bind_of_pos (by omega), if_neg hsizes]

theorem isInt64_natCast (h : n < 2 ^ 63) : IsInt64 (n : ℤ) := by
  unfold IsInt64
  omega

theorem checkManifest_ne_overflow (hstart : IsInt64 start) (value : Manifest) :
    checkManifest start value ≠ .error .overflow := by
  unfold checkManifest
  by_cases hversion : versionValid value.version = false
  · rw [refuse_bind_of_pos hversion]
    exact fun h => nomatch h
  rw [refuse_bind_of_not hversion]
  by_cases hnames : sortNames (value.entries.map Entry.name) ≠ sortNames payloadNames
  · rw [refuse_bind_of_pos hnames]
    exact fun h => nomatch h
  rw [refuse_bind_of_not hnames]
  have hentries := checkEntries_ne_overflow hstart le_rfl value.entries
  cases hcheck : checkEntries start 0 value.entries with
  | ok u => exact fun h => nomatch h
  | error e =>
    rw [hcheck] at hentries
    exact fun h => hentries (congrArg Except.error (Except.error.inj h))

/-- No file makes `Bundle.new` overflow, and what it accepts is sound. -/
theorem Bundle.new_sound (fromJson : Bytes → Option Manifest) (file : File) :
    Bundle.new fromJson file ≠ .error .overflow ∧
      ∀ m, Bundle.new fromJson file = .ok m → Sound fromJson file m := by
  have hfits := file.fits
  by_cases hsize : magic.length + 8 ≤ file.bytes.length
  · by_cases hmagic : file.bytes.drop (file.bytes.length - magic.length) = magic
    · rw [Bundle.new_of_magic hsize hmagic rfl rfl]
      split_ifs with hlength
      · set length := decodeLe ((file.bytes.drop (file.bytes.length - magic.length - 8)).take 8)
        set start := file.bytes.length - magic.length - 8 - length with hstart
        have hstart64 : IsInt64 (start : ℤ) := isInt64_natCast (by omega)
        cases hjson : fromJson ((file.bytes.drop start).take length) with
        | none => exact ⟨by simp, by simp⟩
        | some value =>
          refine ⟨checkManifest_ne_overflow hstart64 value, fun m h => ?_⟩
          obtain ⟨_, -, h⟩ := bind_eq_ok.mp h
          obtain ⟨_, hnames, h⟩ := bind_eq_ok.mp h
          obtain ⟨_, hentries, h⟩ := bind_eq_ok.mp h
          cases h
          obtain ⟨hwithin, hordered⟩ := sound_of_checkEntries hstart64 le_rfl hentries
          refine ⟨perm_of_sortNames (not_not.mp (refuse_eq_ok.mp hnames)), hordered, _, _, _,
            split_end (by omega) hmagic, ?_, ?_, hjson, fun e he => ?_⟩
          · rw [List.length_take, List.length_drop]
            omega
          · rw [List.length_take, List.length_drop]
            omega
          · rw [List.length_take, Nat.min_eq_left (by omega)]
            exact (hwithin e he).2
      · exact ⟨by simp, by simp⟩
    · unfold Bundle.new
      rw [refuse_bind_of_not (by omega), refuse_bind_of_pos hmagic]
      exact ⟨by simp, by simp⟩
  · unfold Bundle.new
    rw [refuse_bind_of_pos (by omega)]
    exact ⟨by simp, by simp⟩

end Sound

/-! ### Writing a bundle -/

/-- `Digest::SHA256`, of which only the form of its results matters. -/
structure Sha256 where
  hex : Bytes → String
  formed : ∀ bytes, isSha256 (hex bytes) = true

section Package

variable (sha : Sha256)

/-- One payload behind what has been written, and its entry. -/
def packStep (state : Bytes × List Entry) (payload : String × Bytes) :
    Except Failure (Bytes × List Entry) :=
  if h : IsInt64 (state.1.length : ℤ) ∧ IsInt64 (payload.2.length : ℤ) then
    .ok (state.1 ++ payload.2,
      state.2 ++ [⟨payload.1, ⟨_, h.1⟩, ⟨_, h.2⟩, sha.hex payload.2⟩])
  else .error .overflow

/-- `package`: the file, and the manifest in it. -/
def package (version : String) (launcher api adapter deps : Bytes) :
    Except Failure (Bytes × Manifest) := do
  refuse (versionValid version = false) (.raised "Invalid version")
  let (output, entries) ← [("sandcube-api", api), ("containerd-runtime", adapter),
    ("install-deps.sh", deps)].foldlM (packStep sha) (launcher, [])
  let manifest : Manifest := ⟨version, entries⟩
  return (output ++ (manifest.toText ++ (encodeLe manifest.toText.length ++ magic)), manifest)

/-- The bytes of a file that an entry is about. -/
def Entry.slice (e : Entry) (bytes : Bytes) : Bytes :=
  (bytes.drop e.offset.1.toNat).take e.size.1.toNat

variable {sha}

/-- An entry is about a payload that stands in the file. -/
structure Entry.About (sha : Sha256) (bytes : Bytes) (e : Entry) (payload : String × Bytes) :
    Prop where
  name : e.name = payload.1
  slice : e.slice bytes = payload.2
  size : e.size.1 = payload.2.length
  sha256 : e.sha256 = sha.hex payload.2

/-- What the loop of `package` has done after so many payloads. -/
structure Packed (sha : Sha256) (output : Bytes) (payloads : List (String × Bytes))
    (added : List Entry) : Prop where
  names : added.map Entry.name = payloads.map Prod.fst
  entries : List.Forall₂ (fun e payload => ∀ rest,
    e.About sha (output ++ ((payloads.map Prod.snd).flatten ++ rest)) payload) added payloads
  accepted : ∀ start previous : ℤ, IsInt64 start → 0 ≤ previous → previous ≤ output.length →
    (output ++ (payloads.map Prod.snd).flatten).length ≤ start →
      checkEntries start previous added = .ok ()

theorem packed_cons {output : Bytes} {payload : String × Bytes} {payloads : List (String × Bytes)}
    {e : Entry} {added : List Entry} (hname : e.name = payload.1)
    (hoffset : e.offset.1 = output.length) (hsize : e.size.1 = payload.2.length)
    (hsha : e.sha256 = sha.hex payload.2) (hne : payload.2 ≠ [])
    (h : Packed sha (output ++ payload.2) payloads added) :
    Packed sha output (payload :: payloads) (e :: added) := by
  have hpos : 0 < payload.2.length := List.length_pos_of_ne_nil hne
  refine ⟨?_, .cons (fun rest => ⟨hname, ?_, hsize, hsha⟩) ?_, ?_⟩
  · rw [List.map_cons, List.map_cons, hname, h.names]
  · rw [Entry.slice, hoffset, hsize, Int.toNat_natCast, Int.toNat_natCast, List.drop_left,
      List.map_cons, List.flatten_cons, List.append_assoc, List.take_left]
  · refine h.entries.imp fun e' payload' he' rest => ?_
    have habout := he' rest
    rw [List.append_assoc] at habout
    rw [List.map_cons, List.flatten_cons, List.append_assoc]
    exact habout
  · intro start previous hstart hprevious hoffset' hend
    rw [List.map_cons, List.flatten_cons, ← List.append_assoc] at hend
    have hlength : (output ++ payload.2).length = output.length + payload.2.length :=
      List.length_append
    have hrest : ((output ++ payload.2).length : ℤ) ≤
        (output ++ payload.2 ++ (payloads.map Prod.snd).flatten).length := by
      exact_mod_cast (List.sublist_append_left (output ++ payload.2) _).length_le
    rw [checkEntries_cons hstart hprevious, if_pos ⟨by omega, by omega, by omega⟩, hsha,
      if_pos (sha.formed _)]
    exact h.accepted start _ hstart (by omega) (by omega) hend

/-- The loop of `package`. -/
theorem packed_of_foldlM {payloads : List (String × Bytes)} (hne : ∀ p ∈ payloads, p.2 ≠ [])
    {state state' : Bytes × List Entry}
    (h : payloads.foldlM (packStep sha) state = .ok state') :
    state'.1 = state.1 ++ (payloads.map Prod.snd).flatten ∧
      ∃ added, state'.2 = state.2 ++ added ∧ Packed sha state.1 payloads added := by
  induction payloads generalizing state with
  | nil =>
    cases h
    exact ⟨(List.append_nil _).symm, [], (List.append_nil _).symm, rfl, .nil, fun _ _ _ _ _ _ => rfl⟩
  | cons payload payloads ih =>
    rw [List.foldlM_cons] at h
    obtain ⟨next, hstep, h⟩ := bind_eq_ok.mp h
    unfold packStep at hstep
    split_ifs at hstep with hfits
    cases hstep
    obtain ⟨houtput, added, hadded, hpacked⟩ := ih (fun p hp => hne p (List.mem_cons_of_mem _ hp)) h
    refine ⟨?_, ⟨payload.1, ⟨_, hfits.1⟩, ⟨_, hfits.2⟩, sha.hex payload.2⟩ :: added, ?_,
      packed_cons rfl rfl rfl rfl (hne payload List.mem_cons_self) hpacked⟩
    · rw [houtput, List.map_cons, List.flatten_cons, List.append_assoc]
    · rw [hadded, List.append_assoc]
      rfl

/-- The loop ends if what it writes has a length that the system can tell. -/
theorem exists_foldlM {payloads : List (String × Bytes)} {state : Bytes × List Entry}
    (h : (state.1 ++ (payloads.map Prod.snd).flatten).length < 2 ^ 63) :
    ∃ state', payloads.foldlM (packStep sha) state = .ok state' := by
  induction payloads generalizing state with
  | nil => exact ⟨state, rfl⟩
  | cons payload payloads ih =>
    rw [List.map_cons, List.flatten_cons, List.length_append, List.length_append] at h
    have hfits : IsInt64 (state.1.length : ℤ) ∧ IsInt64 (payload.2.length : ℤ) :=
      ⟨isInt64_natCast (by omega), isInt64_natCast (by omega)⟩
    rw [List.foldlM_cons, packStep, dif_pos hfits]
    apply ih
    rw [List.length_append, List.length_append]
    omega

/-! ### The length of a manifest -/

theorem length_escape_le (c : Char) : (Json.escape c).length ≤ 6 := by
  unfold Json.escape
  split_ifs <;> simp [Json.hexByte]

theorem length_quote_le (s : String) : (Json.quote s).length ≤ 6 * s.toList.length + 2 := by
  have hescaped : ∀ text : Chars, (text.flatMap Json.escape).length ≤ 6 * text.length := by
    intro text
    induction text with
    | nil => simp
    | cons c text ih =>
      have := length_escape_le c
      rw [List.flatMap_cons, List.length_append, List.length_cons]
      omega
  have := hescaped s.toList
  rw [Json.quote, List.length_cons, List.length_append, List.length_singleton]
  omega

theorem length_toDigits_le (h : n ≤ 2 ^ 63) : (Nat.toDigits 10 n).length ≤ 19 :=
  (Nat.length_toDigits_le_iff (by decide) (by decide)).mpr (by omega)

theorem length_render_int_le (n : I64) : (Json.render (.int n)).length ≤ 20 := by
  obtain ⟨n, hlow, hhigh⟩ := n
  cases n with
  | ofNat n =>
    have := length_toDigits_le (show n ≤ 2 ^ 63 by rw [Int.ofNat_eq_natCast] at hhigh; omega)
    rw [Json.render_ofNat]
    omega
  | negSucc n =>
    have := length_toDigits_le (show n + 1 ≤ 2 ^ 63 by rw [Int.negSucc_eq] at hlow; omega)
    rw [Json.render_negSucc, List.length_cons]
    omega

theorem length_entry_le (e : Entry) : e.toJson.render.length ≤
    6 * (e.name.toList.length + e.sha256.toList.length) + 100 := by
  have hname := length_quote_le e.name
  have hsha := length_quote_le e.sha256
  have hoffset := length_render_int_le e.offset
  have hsize := length_render_int_le e.size
  have hkey : ∀ key ∈ ["name", "offset", "size", "sha256"], (Json.quote key).length ≤ 8 := by
    decide +kernel
  have hk1 := hkey "name" (by simp)
  have hk2 := hkey "offset" (by simp)
  have hk3 := hkey "size" (by simp)
  have hk4 := hkey "sha256" (by simp)
  simp only [Entry.toJson, Json.render, Json.renderMembers, List.length_cons, List.length_append,
    List.length_nil]
  simp only [Json.render] at hoffset hsize
  omega

theorem length_version_le (h : versionValid version = true) : version.toList.length ≤ 80 := by
  unfold versionValid at h
  cases htext : version.toList with
  | nil => simp
  | cons first rest =>
    rw [htext] at h
    simp only [Bool.and_eq_true, decide_eq_true_eq] at h
    rw [List.length_cons]
    omega

theorem length_of_isSha256 {sha256 : String} (h : isSha256 sha256 = true) :
    sha256.toList.length = 64 := by
  simp only [isSha256, Bool.and_eq_true, decide_eq_true_eq] at h
  exact h.1

/-- A manifest that `package` writes is not too long for the reader. -/
theorem length_toText_le {m : Manifest} (hversion : versionValid m.version = true)
    (hnames : m.entries.map Entry.name = payloadNames)
    (hsha : ∀ e ∈ m.entries, isSha256 e.sha256 = true) :
    0 < m.toText.length ∧ m.toText.length ≤ 65536 := by
  have hname : ∀ name ∈ payloadNames, name.toList.length ≤ 18 := by decide +kernel
  have hentry : ∀ e ∈ m.entries, e.toJson.render.length ≤ 592 := by
    intro e he
    have h18 := hname e.name (hnames ▸ List.mem_map_of_mem he)
    have h64 := length_of_isSha256 (hsha e he)
    have := length_entry_le e
    omega
  obtain ⟨version, entries⟩ := m
  obtain ⟨api, adapter, deps, rfl⟩ : ∃ api adapter deps, entries = [api, adapter, deps] := by
    apply List.length_eq_three.mp
    rw [← List.length_map Entry.name, hnames]
    rfl
  have hapi := hentry api (by simp)
  have hadapter := hentry adapter (by simp)
  have hdeps := hentry deps (by simp)
  have hquote := length_quote_le version
  have h80 : version.toList.length ≤ 80 := length_version_le hversion
  have hkey : (Json.quote "version").length = 9 ∧ (Json.quote "entries").length = 9 := by
    decide +kernel
  have hrender : (Manifest.toJson ⟨version, [api, adapter, deps]⟩).render.length ≤ 4096 := by
    simp only [Manifest.toJson, Json.render, Json.renderMembers, Json.renderItems, List.map_cons,
      List.map_nil, List.length_cons, List.length_append, List.length_nil]
    omega
  constructor
  · apply List.length_pos_of_ne_nil
    exact List.append_ne_nil_of_left_ne_nil (String.utf8EncodeChar_ne_nil) _
  · have := length_encodeText_le (Manifest.toJson ⟨version, [api, adapter, deps]⟩).render
    rw [Manifest.toText]
    omega

/-! ### Reading what was written -/

/-- The payloads of a release. -/
def payloadsOf (api adapter deps : Bytes) : List (String × Bytes) :=
  [("sandcube-api", api), ("containerd-runtime", adapter), ("install-deps.sh", deps)]

theorem sha256_of_packed {output : Bytes} {payloads : List (String × Bytes)} {added : List Entry}
    (h : Packed sha output payloads added) : ∀ e ∈ added, isSha256 e.sha256 = true := by
  intro e he
  obtain ⟨i, hi, rfl⟩ := List.mem_iff_getElem.mp he
  have habout := (List.forall₂_iff_get.mp h.entries).2 i hi
    (by rw [← h.entries.length_eq]; exact hi) []
  have hsha : added[i].sha256 = sha.hex _ := habout.sha256
  rw [hsha]
  exact sha.formed _

/-- A file that is laid out like a bundle is read up to the tests of its manifest. -/
theorem new_of_layout {fromJson : Bytes → Option Manifest} {file : File} {output text : Bytes}
    {m : Manifest} (hbytes : file.bytes = output ++ (text ++ (encodeLe text.length ++ magic)))
    (houtput : output ≠ []) (hpos : 0 < text.length) (hlong : text.length ≤ 65536)
    (hjson : fromJson text = some m) :
    Bundle.new fromJson file = checkManifest output.length m := by
  have hlength : file.bytes.length = output.length + text.length + 8 + magic.length := by
    rw [hbytes]
    simp only [List.length_append, length_encodeLe]
    omega
  have hnonempty : 0 < output.length := List.length_pos_of_ne_nil houtput
  have hmagic : file.bytes.drop (file.bytes.length - magic.length) = magic := by
    rw [hlength, Nat.add_sub_cancel, hbytes, ← List.append_assoc, ← List.append_assoc]
    exact List.drop_left' (by simp only [List.length_append, length_encodeLe])
  have hbehind : file.bytes.length - magic.length - 8 = (output ++ text).length := by
    rw [hlength, List.length_append]
    omega
  have hnumber : (file.bytes.drop (file.bytes.length - magic.length - 8)).take 8 =
      encodeLe text.length := by
    rw [hbehind, hbytes, ← List.append_assoc, List.drop_left]
    exact List.take_left' (length_encodeLe _)
  have htext : (file.bytes.drop output.length).take text.length = text := by
    rw [hbytes, List.drop_left, List.take_left]
  have hdecoded := congrArg decodeLe hnumber
  rw [decodeLe_encodeLe (by omega)] at hdecoded
  have hstart : output.length = file.bytes.length - magic.length - 8 - text.length := by omega
  rw [Bundle.new_of_magic (by omega) hmagic hdecoded hstart, if_pos ⟨hpos, hlong, by omega⟩, htext,
    hjson]

/-- `Bundle.new` reads what `package` writes: the manifest that was written, whose entries are about
the bytes of the payloads. -/
theorem new_packed {launcher api adapter deps : Bytes}
    (hpayloads : ∀ p ∈ payloadsOf api adapter deps, p.2 ≠ []) {file : File} {manifest : Manifest}
    (h : package sha version launcher api adapter deps = .ok (file.bytes, manifest)) :
    Bundle.new Manifest.fromJson file = .ok manifest ∧ manifest.version = version ∧
      List.Forall₂ (Entry.About sha file.bytes) manifest.entries (payloadsOf api adapter deps) := by
  unfold package at h
  obtain ⟨_, hversion, h⟩ := bind_eq_ok.mp h
  obtain ⟨⟨output, entries⟩, hloop, h⟩ := bind_eq_ok.mp h
  obtain ⟨houtput, added, hadded, hpacked⟩ := packed_of_foldlM hpayloads hloop
  dsimp only at houtput hadded
  rw [List.nil_append] at hadded
  subst hadded
  have hversion : versionValid version = true := by simpa using refuse_eq_ok.mp hversion
  have hnames : entries.map Entry.name = payloadNames := hpacked.names
  obtain ⟨hpos, hlong⟩ := length_toText_le (m := ⟨version, entries⟩) hversion hnames
    (sha256_of_packed hpacked)
  injection h with h
  injection h with hbytes hmanifest
  subst hmanifest
  set text := Manifest.toText ⟨version, entries⟩ with htext
  have hne : output ≠ [] := by
    intro hnil
    have hempty : (launcher ++ (api ++ (adapter ++ (deps ++ [])))) = [] := houtput.symm.trans hnil
    have hapi : api = [] := by
      simp only [List.append_eq_nil_iff] at hempty
      exact hempty.2.1
    exact hpayloads ("sandcube-api", api) (by simp [payloadsOf]) hapi
  have hfits : IsInt64 (output.length : ℤ) := by
    have := file.fits
    rw [← hbytes, List.length_append] at this
    exact isInt64_natCast (by omega)
  refine ⟨?_, rfl, ?_⟩
  · rw [new_of_layout hbytes.symm hne hpos hlong (Manifest.fromJson_toText _), checkManifest,
      refuse_bind_of_not (by simp [hversion]), refuse_bind_of_not (by simp [hnames]),
      hpacked.accepted output.length 0 hfits le_rfl (by omega) (by rw [← houtput])]
    rfl
  · refine hpacked.entries.imp fun e payload he => ?_
    rw [← hbytes, houtput, List.append_assoc]
    exact he _

/-- A release that is not too large can be packed. -/
theorem exists_package (hversion : versionValid version = true) {launcher api adapter deps : Bytes}
    (hpayloads : ∀ p ∈ payloadsOf api adapter deps, p.2 ≠ [])
    (hfits : launcher.length + api.length + adapter.length + deps.length + 65563 < 2 ^ 63) :
    ∃ (file : File) (manifest : Manifest),
      package sha version launcher api adapter deps = .ok (file.bytes, manifest) := by
  have hlaunched : ((launcher, ([] : List Entry)).1 ++
      ((payloadsOf api adapter deps).map Prod.snd).flatten).length =
        launcher.length + api.length + adapter.length + deps.length := by
    simp only [payloadsOf, List.map_cons, List.map_nil, List.flatten_cons, List.flatten_nil,
      List.append_nil, List.length_append]
    omega
  obtain ⟨⟨output, entries⟩, hloop⟩ : ∃ state',
      (payloadsOf api adapter deps).foldlM (packStep sha) (launcher, []) = .ok state' := by
    apply exists_foldlM
    rw [hlaunched]
    omega
  obtain ⟨houtput, added, hadded, hpacked⟩ := packed_of_foldlM hpayloads hloop
  dsimp only at houtput hadded
  rw [List.nil_append] at hadded
  subst hadded
  obtain ⟨-, hlong⟩ := length_toText_le (m := ⟨version, entries⟩) hversion hpacked.names
    (sha256_of_packed hpacked)
  have hmagic : magic.length = 19 := by decide +kernel
  have hlength : (output ++ (Manifest.toText ⟨version, entries⟩ ++
      (encodeLe (Manifest.toText ⟨version, entries⟩).length ++ magic))).length < 2 ^ 63 := by
    dsimp only at hlaunched
    simp only [List.length_append, length_encodeLe, hmagic]
    rw [← houtput] at hlaunched
    omega
  refine ⟨⟨_, hlength⟩, ⟨version, entries⟩, ?_⟩
  unfold package
  rw [refuse_bind_of_not (by simp [hversion])]
  exact bind_eq_ok.mpr ⟨_, hloop, rfl⟩

end Package

end Sandcube.Cli
