import Sandcube.Value.Json
import Sandcube.Table.Basic

/-!
# JSON texts

A JSON text as it is written is a value in which an object may have several members of one name;
its size is a matter of white space and escapes.  `Json.kept` is what Crystal's parser keeps of
it: a hash has one entry for each name, at the place of the first member and with the value of the
last.  `Json.render` is `to_json`, which writes no white space.
-/

namespace Sandcube

/-- A request body that is JSON text: its length in bytes and what is written in it, `none` when
it is no JSON. -/
structure Text where
  size : ℕ
  written : Option Json

namespace Json

/-! ### What the parser keeps -/

/-- `Hash#[]=` for each member, in order. -/
def hash (members : List (String × Json)) : Table String Json :=
  members.foldl (fun hash member => hash.put member.1 member.2) .empty

mutual

/-- The value that `JSON.parse` gives. -/
def kept : Json → Json
  | .obj members => .obj (hash (keptMembers members)).rows
  | .arr items => .arr (keptItems items)
  | .null => .null
  | .bool b => .bool b
  | .int n => .int n
  | .float literal => .float literal
  | .str s => .str s

def keptItems : List Json → List Json
  | [] => []
  | item :: items => kept item :: keptItems items

def keptMembers : List (String × Json) → List (String × Json)
  | [] => []
  | (name, value) :: members => (name, kept value) :: keptMembers members

end

/-! ### `to_json` -/

/-- Two hexadecimal digits. -/
def hexByte (n : ℕ) : List Char :=
  [Nat.digitChar (n / 16), Nat.digitChar (n % 16)]

/-- One character of a string. -/
def escape (c : Char) : List Char :=
  if c = '"' then ['\\', '"']
  else if c = '\\' then ['\\', '\\']
  else if c = '\n' then ['\\', 'n']
  else if c = '\r' then ['\\', 'r']
  else if c = '\t' then ['\\', 't']
  else if c.toNat = 8 then ['\\', 'b']
  else if c.toNat = 12 then ['\\', 'f']
  else if c.toNat < 32 ∨ c.toNat = 127 then ['\\', 'u', '0', '0'] ++ hexByte c.toNat
  else [c]

def quote (s : String) : List Char :=
  '"' :: (s.toList.flatMap escape ++ ['"'])

mutual

/-- `to_json` -/
def render : Json → List Char
  | .null => "null".toList
  | .bool b => (toString b).toList
  | .int n => (toString n).toList
  | .float literal => literal.toList
  | .str s => quote s
  | .arr items => '[' :: (renderItems items ++ [']'])
  | .obj members => '\x7b' :: (renderMembers members ++ ['\x7d'])

def renderItems : List Json → List Char
  | [] => []
  | [item] => render item
  | item :: items => render item ++ ',' :: renderItems items

def renderMembers : List (String × Json) → List Char
  | [] => []
  | [(name, value)] => quote name ++ ':' :: render value
  | (name, value) :: members => quote name ++ ':' :: (render value ++ ',' :: renderMembers members)

end

/-- The length of a text in UTF-8. -/
def byteSize (text : List Char) : ℕ := (text.map Char.utf8Size).sum

@[simp]
theorem byteSize_append (text text' : List Char) :
    byteSize (text ++ text') = byteSize text + byteSize text' := by
  simp [byteSize]

@[simp]
theorem byteSize_cons (c : Char) (text : List Char) :
    byteSize (c :: text) = c.utf8Size + byteSize text := by
  simp [byteSize]

theorem byteSize_replicate (n : ℕ) (c : Char) :
    byteSize (List.replicate n c) = n * c.utf8Size := by
  simp [byteSize]

/-- Characters that are not escaped. -/
theorem quote_replicate (n : ℕ) {c : Char} (h : escape c = [c]) :
    quote (String.ofList (List.replicate n c)) = '"' :: (List.replicate n c ++ ['"']) := by
  have hescaped : (List.replicate n c).flatMap escape = List.replicate n c := by
    induction n with
    | zero => rfl
    | succ n ih => rw [List.replicate_succ, List.flatMap_cons, h, ih, List.singleton_append]
  rw [quote, String.toList_ofList, hescaped]

/-- A value as Crystal writes it. -/
def toText (j : Json) : Text := ⟨byteSize j.render, some j⟩

end Json

end Sandcube
