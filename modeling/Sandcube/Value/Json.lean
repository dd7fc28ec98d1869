import Mathlib

/-!
# Exceptions and JSON values

Exceptions and JSON values, as the API code sees them.

`Ex` is the part of the exception hierarchy that the lifecycle code raises or rescues.
`Json` is `JSON::Any`; an object has one entry for each name, as the parser leaves it.  The
accessors raise what the standard library raises: `as_s` and its siblings a `TypeCastError`, `[]` a
`KeyError`.
-/

namespace Sandcube

/-- The exceptions of the API process. -/
inductive Ex where
  /-- `ArgumentError` -/
  | argument (message : String)
  /-- `ImageError`: an error answer of the API itself. -/
  | image (status : ℕ) (code message : String)
  /-- `RuntimeError`: the runtime answered, with a status that is not a success. -/
  | runtime (status : ℕ) (body : String)
  /-- `IO::Error` and the like: the runtime's answer did not arrive. -/
  | io (message : String)
  /-- `JSON::ParseException` -/
  | parse (message : String)
  /-- `TypeCastError` -/
  | cast (message : String)
  /-- `KeyError` -/
  | key (message : String)
  /-- `IndexError` -/
  | index
  /-- `OverflowError` -/
  | overflow
  /-- `SQLite3::Exception`: a constraint of the schema failed. -/
  | sqlite (message : String)
  /-- `DB::NoResultsError`, or a NULL column read as a non-nilable type. -/
  | noResult
  deriving DecidableEq, Repr

/-- `Exception#message`. -/
def Ex.message : Ex → String
  | .argument m => m
  | .image _ _ m => m
  | .runtime status _ => "Runtime request failed (" ++ toString status ++ ")"
  | .io m => m
  | .parse m => m
  | .cast m => m
  | .key m => m
  | .index => "Index out of bounds"
  | .overflow => "Arithmetic overflow"
  | .sqlite m => m
  | .noResult => "no results"

/-- `JSON::Any`. -/
inductive Json where
  | null
  | bool (b : Bool)
  | int (n : ℤ)
  /-- A number with a fraction or an exponent; nothing here computes with its value. -/
  | float (literal : String)
  | str (s : String)
  | arr (items : List Json)
  | obj (fields : List (String × Json))

namespace Json

/-- `as_s` -/
def asString : Json → Except Ex String
  | .str s => .ok s
  | _ => .error (.cast "Expected String")

/-- `as_a` -/
def asArray : Json → Except Ex (List Json)
  | .arr items => .ok items
  | _ => .error (.cast "Expected Array")

/-- `as_h` -/
def asObject : Json → Except Ex (List (String × Json))
  | .obj fields => .ok fields
  | _ => .error (.cast "Expected Hash")

/-- `as_i`: an integer, and one that fits `Int32`. -/
def asInt32 : Json → Except Ex ℤ
  | .int n => if -2147483648 ≤ n ∧ n ≤ 2147483647 then .ok n else .error .overflow
  | _ => .error (.cast "Expected Int")

/-- `[name]` on a hash. -/
def get (fields : List (String × Json)) (name : String) : Except Ex Json :=
  match fields.lookup name with
  | some value => .ok value
  | none => .error (.key ("Missing hash key: " ++ name))

/-- `[name]` on a `JSON::Any`. -/
def field (j : Json) (name : String) : Except Ex Json := do
  get (← j.asObject) name

/-- `[name].as_s` on a `JSON::Any`. -/
def word (j : Json) (name : String) : Except Ex String := do
  (← j.field name).asString

/-- `[name]?.try(&.as_i)` on a hash. -/
def getInt? (fields : List (String × Json)) (name : String) : Except Ex (Option ℤ) :=
  match fields.lookup name with
  | some value => do return some (← value.asInt32)
  | none => .ok none

/-- `[name]?.try(&.as_s)` on a hash. -/
def getString? (fields : List (String × Json)) (name : String) : Except Ex (Option String) :=
  match fields.lookup name with
  | some value => do return some (← value.asString)
  | none => .ok none

/-- `has_key?` -/
def hasKey (fields : List (String × Json)) (name : String) : Bool := (fields.lookup name).isSome

theorem word_ne_runtime (j : Json) (name : String) (status : ℕ) (body : String) :
    j.word name ≠ .error (.runtime status body) := by
  cases j with
  | obj fields =>
    simp only [word, field, asObject, get, bind, Except.bind]
    cases fields.lookup name with
    | none => nofun
    | some value => cases value <;> simp [asString]
  | _ => nofun

end Json

end Sandcube
