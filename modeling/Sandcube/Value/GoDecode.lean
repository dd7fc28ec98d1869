import Sandcube.Value.Text

/-!
# The adapter's JSON decoder

`decode` of the adapter: at most 64 KiB, one object, only known fields.  Go's `encoding/json` goes
through the members as they are written.  A member belongs to the struct field of its name, or
else to the field whose name is the same up to case; every member is assigned in turn, so the
last one wins, a list is written over the elements of the previous one, and maps are merged.  A
member of a wrong type or without a field makes `decode` fail in the end.
-/

namespace Sandcube.Go

open Sandcube (Json Text)

/-! ### Field names -/

/-- The representative of a character under simple case folding.  Two characters outside ASCII
fold to letters of ASCII: the long s and the Kelvin sign. -/
def foldChar (c : Char) : Char :=
  if c = 'ſ' then 's' else if c.toNat = 0x212A then 'k' else c.toLower

def foldName (name : String) : List Char := name.toList.map foldChar

/-- The field that a member of the given name is for. -/
def fieldFor (fields : List String) (name : String) : Option String :=
  if name ∈ fields then some name else fields.find? fun field => foldName field = foldName name

theorem fieldFor_of_mem {fields : List String} {name : String} (h : name ∈ fields) :
    fieldFor fields name = some name := if_pos h

/-- When no two fields are the same up to case, case decides. -/
theorem fieldFor_eq_some_iff {fields : List String} {name field : String}
    (hfold : ∀ f ∈ fields, ∀ g ∈ fields, foldName f = foldName g → f = g) :
    fieldFor fields name = some field ↔ field ∈ fields ∧ foldName field = foldName name := by
  unfold fieldFor
  by_cases hmem : name ∈ fields
  · rw [if_pos hmem, Option.some_inj]
    constructor
    · rintro rfl
      exact ⟨hmem, rfl⟩
    · exact fun ⟨hfield, heq⟩ => (hfold field hfield name hmem heq).symm
  · rw [if_neg hmem]
    constructor
    · intro hfind
      have hfound := List.find?_some hfind
      exact ⟨List.mem_of_find?_eq_some hfind, by simpa using hfound⟩
    · rintro ⟨hfield, heq⟩
      cases hfind : fields.find? fun f => decide (foldName f = foldName name) with
      | none =>
        rw [List.find?_eq_none] at hfind
        exact absurd heq (by simpa using hfind field hfield)
      | some f =>
        have hfound := List.find?_some hfind
        have hf : foldName f = foldName name := by simpa using hfound
        rw [hfold f (List.mem_of_find?_eq_some hfind) field hfield (hf.trans heq.symm)]

/-! ### Structs -/

inductive DecodeError
  | tooLarge
  | unknownField
  | wrongType
  deriving DecidableEq, Repr

/-- A struct type: its field names, the values that a field accepts, and their assignment. -/
structure Struct (σ : Type) where
  fields : List String
  accepts : String → Json → Bool
  assign : String → Json → σ → σ

namespace Struct

variable {σ : Type} (S : Struct σ)

/-- One member. -/
def member (s : σ) (member : String × Json) : Except DecodeError σ :=
  match fieldFor S.fields member.1 with
  | none => .error .unknownField
  | some field =>
    if S.accepts field member.2 then .ok (S.assign field member.2 s) else .error .wrongType

/-- The members in turn. -/
def members (s : σ) : List (String × Json) → Except DecodeError σ
  | [] => .ok s
  | m :: ms => (S.member s m).bind fun s => members s ms

/-- `decode` -/
def decode (zero : σ) (text : Text) : Except DecodeError σ :=
  if 64 * 1024 < text.size then .error .tooLarge
  else
    match text.written with
    | some (.obj ms) => S.members zero ms
    | some .null => .ok zero
    | _ => .error .wrongType

/-- A member that is decoded, whatever the struct holds so far. -/
def Fits (m : String × Json) : Prop :=
  ∃ field, fieldFor S.fields m.1 = some field ∧ S.accepts field m.2 = true

/-- The effect of a member; one that does not fit has none. -/
def set (s : σ) (m : String × Json) : σ :=
  match fieldFor S.fields m.1 with
  | none => s
  | some field => S.assign field m.2 s

variable {S}

theorem member_eq_ok {s s' : σ} {m : String × Json} :
    S.member s m = .ok s' ↔ S.Fits m ∧ s' = S.set s m := by
  unfold member Fits set
  cases fieldFor S.fields m.1 with
  | none => simp
  | some field =>
    cases haccepts : S.accepts field m.2 with
    | false => simp [haccepts]
    | true =>
      simp only [haccepts, if_true, Except.ok.injEq, Option.some.injEq, exists_eq_left', true_and]
      exact eq_comm

/-- All members have to fit, and they take effect in turn. -/
theorem members_eq_ok {s s' : σ} {ms : List (String × Json)} :
    S.members s ms = .ok s' ↔ (∀ m ∈ ms, S.Fits m) ∧ s' = ms.foldl S.set s := by
  induction ms generalizing s with
  | nil =>
    rw [members, List.foldl_nil, Except.ok.injEq]
    exact ⟨fun h => ⟨fun m hm => absurd hm List.not_mem_nil, h.symm⟩, fun h => h.2.symm⟩
  | cons m ms ih =>
    rw [members, List.forall_mem_cons, List.foldl_cons]
    cases hm : S.member s m with
    | error e =>
      have hnot : ¬ S.Fits m := fun hfits => by
        rw [member_eq_ok.2 ⟨hfits, rfl⟩] at hm
        cases hm
      simp [Except.bind, hnot]
    | ok s₁ =>
      obtain ⟨hfits, rfl⟩ := member_eq_ok.1 hm
      rw [Except.bind, ih]
      simp [hfits]

theorem decode_obj_eq_ok {zero s : σ} {text : Text} {ms : List (String × Json)}
    (hwritten : text.written = some (.obj ms)) :
    S.decode zero text = .ok s ↔
      text.size ≤ 64 * 1024 ∧ (∀ m ∈ ms, S.Fits m) ∧ s = ms.foldl S.set zero := by
  rw [decode, hwritten]
  by_cases hsize : 64 * 1024 < text.size
  · rw [if_pos hsize]
    constructor
    · intro h
      cases h
    · rintro ⟨hle, -⟩
      omega
  · rw [if_neg hsize, members_eq_ok]
    constructor
    · exact fun h => ⟨by omega, h⟩
    · exact fun h => h.2

end Struct

/-! ### Values of fields

`null` leaves a string or a number as it is, and takes a new list or map. -/

def isString : Json → Bool
  | .str _ | .null => true
  | _ => false

def readString (old : String) : Json → String
  | .str s => s
  | _ => old

/-- An integer that fits `int64`. -/
def isInt : Json → Bool
  | .int n => -2 ^ 63 ≤ n ∧ n < 2 ^ 63
  | .null => true
  | _ => false

def readInt (old : ℤ) : Json → ℤ
  | .int n => n
  | _ => old

/-- A slice: the elements of its array, of which the first `len` are in use. -/
structure Slice where
  array : List String
  len : ℕ
  deriving DecidableEq

def Slice.values (s : Slice) : List String := s.array.take s.len

def isStrings : Json → Bool
  | .arr items => items.all isString
  | .null => true
  | _ => false

/-- The elements of a list are decoded over those of the array. -/
def overwrite : List String → List Json → List String
  | array, [] => array
  | array, item :: items => readString (array.headD "") item :: overwrite array.tail items

/-- An empty list takes a new array. -/
def readStrings (old : Slice) : Json → Slice
  | .arr [] => ⟨[], 0⟩
  | .arr items => ⟨overwrite old.array items, items.length⟩
  | .null => ⟨[], 0⟩
  | _ => old

/-- A map of strings. -/
abbrev StringMap := String → Option String

def isStringMap : Json → Bool
  | .obj ms => ms.all fun m => isString m.2
  | .null => true
  | _ => false

/-- The members of an object are added to the map, `null` as the empty string. -/
def addEntries (old : StringMap) (ms : List (String × Json)) : StringMap :=
  ms.foldl (fun map m => Function.update map m.1 (some (readString "" m.2))) old

def readStringMap (old : StringMap) : Json → StringMap
  | .obj ms => addEntries old ms
  | .null => fun _ => none
  | _ => old

end Sandcube.Go
