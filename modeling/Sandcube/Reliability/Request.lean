import Sandcube.Reliability.Converge

/-!
# `request`

`Reliability#request`: a lifecycle request of a client.
-/

namespace Sandcube

/-- A lifecycle request, with the random identifier a create would draw and the time. -/
structure Request where
  method : String
  path : String
  body : Option String
  /-- The `Idempotency-Key` header. -/
  key : Option String
  uuid : String
  now : Time

/-- What a request returns: the JSON of a response, or whatever an old body parses to. -/
inductive Answer where
  | response (r : Response)
  | json (j : Json)

namespace Request

/-- `path.split('/')` -/
def segments (r : Request) : List String := (r.path.toList.splitOn '/').map String.ofList

/-- The word for the operation. -/
def actionText (r : Request) : String :=
  if r.path = "/v1/sandboxes" then "create"
  else if r.method = "DELETE" then "delete"
  else r.segments.getLast?.getD ""

/-- 1–200 printable ASCII characters. -/
def keyAllowed (key : String) : Bool :=
  !key.isEmpty && key.utf8ByteSize ≤ 200 && key.toList.all fun c => 33 ≤ c.toNat && c.toNat ≤ 126

/-- The checks before the lock is taken. -/
def check (r : Request) : Except Ex Action :=
  if r.key.all keyAllowed then
    match Action.ofText? r.actionText with
    | some action => .ok action
    | none => .error (.argument "Unsupported lifecycle operation")
  else .error (.argument "Idempotency-Key must contain 1–200 printable ASCII characters")

/-- The text whose digest identifies the request. -/
def text (r : Request) : String := r.method ++ "\n" ++ r.path ++ "\n" ++ r.body.getD ""

/-- `Digest::SHA256.hexdigest("#\x7bmethod\x7d\n#\x7bpath\x7d\n#\x7bbody\x7d")` -/
def fingerprint (codec : Codec) (r : Request) : String := codec.hexdigest r.text

/-- The sandbox: a new one for a create, the one in the path otherwise. -/
def sandboxId (r : Request) (action : Action) : Except Ex String :=
  if action = .create then .ok ("sbx_" ++ r.uuid)
  else match r.segments[3]? with
    | some id => .ok id
    | none => .error .index

end Request

/-- The text of a saved response. -/
def Saved.text (codec : Codec) : Saved → String
  | .response r => codec.render r
  | .body text => text

/-- `JSON.parse(saved)` -/
def Saved.parse (codec : Codec) : Saved → Except Ex Answer
  | .response r => .ok (.response r)
  | .body text => do return .json (← codec.parse text)

namespace Reliability

open Prog (raise ofExcept forEach when)

variable {ρ ψ : Type} [Inhabited ψ]

/-- The refusal of a key that was used for another request. -/
def conflict : Ex := .image 409 "IDEMPOTENCY_CONFLICT" "Key was used for a different request"

/-- The refusal while the runtime has a container without a row. -/
def unaccounted : Ex :=
  .image 503 "CAPACITY_UNAVAILABLE"
    "Runtime inventory contains an unaccounted sandbox; reconciliation is required"

/-- The stored outcome of an answered record. -/
def outcome (codec : Codec) (saved : Saved) (status : ℕ) : Except Ex Answer :=
  if 400 ≤ status then .error (.runtime status (saved.text codec)) else saved.parse codec

/-- A request whose key has a record. -/
def replay (codec : Codec) (R : Runtime ρ ψ) (key fingerprint : String) (rec : Record) :
    Op ρ ψ Answer :=
  if rec.fingerprint ≠ fingerprint then raise conflict
  else match rec.response with
    | some saved => ofExcept (outcome codec saved rec.responseStatus)
    | none => do
      converge R rec.sandboxId
      let saved ← query fun j =>
        match (j.requests.find? key).bind Record.response with
        | some saved => .ok saved
        | none => .error .noResult
      ofExcept (saved.parse codec)

/-- One container of the inventory has a row that is not deleted. -/
def accounted (container : Json) : Op ρ ψ Unit := do
  let id ← ofExcept (container.word "id")
  query fun j =>
    match j.sandboxes.find? id with
    | some row => if row.status = .deleted then .error unaccounted else .ok ()
    | none => .error unaccounted

/-- Unknown runtime objects have no trustworthy reservation. -/
def checkInventory (R : Runtime ρ ψ) : Op ρ ψ Unit := do
  let inventory ← call R .list
  let containers ← ofExcept inventory.asArray
  forEach containers accounted

/-- Everything up to the commit of the intent transaction. -/
def accept (codec : Codec) (R : Runtime ρ ψ) (cap : Capacity) (r : Request) (action : Action) :
    Op ρ ψ String := do
  when action.Starts (checkInventory R)
  let id ← ofExcept (r.sandboxId action)
  transaction (Journal.accept codec cap r.now id action r.body r.key (r.fingerprint codec))
  pure id

/-- A request that is not a retry. -/
def process (codec : Codec) (R : Runtime ρ ψ) (cap : Capacity) (r : Request) (action : Action) :
    Op ρ ψ Answer := do
  let id ← accept codec R cap r action
  converge R id
  let response ← query (Journal.response id)
  pure (.response response)

/-- `SELECT fingerprint,… FROM lifecycle_requests WHERE key=?1` -/
def previous (key : Option String) (j : Journal) : Option (String × Record) :=
  key.bind fun key => (j.requests.find? key).map fun rec => (key, rec)

/-- `Reliability#request` -/
def request (codec : Codec) (R : Runtime ρ ψ) (cap : Capacity) (r : Request) : Op ρ ψ Answer := do
  let action ← ofExcept r.check
  match ← query fun j => .ok (previous r.key j) with
  | some (key, rec) => replay codec R key (r.fingerprint codec) rec
  | none => process codec R cap r action

end Reliability

end Sandcube
