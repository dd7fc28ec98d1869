import Sandcube.Value.GoDecode

/-!
# Bodies of process requests

`Service#process_body`, which checks the body of an exec or a process request and adds the
request id of a keyed one, and what the adapter decodes from the text that is passed on.  Without
a key the text of the client is passed on as it is; with one the service writes what its own
parser has kept of it.  The two parsers agree on the grammar but not on the names of members.
-/

namespace Sandcube

open Go (foldName fieldFor Slice StringMap)

/-! ### The service -/

namespace Service

/-- `MAX_BODY` -/
def maxBody : ℕ := 64 * 1024

/-- `Service#read_body` -/
def readBody (body : Option Text) : Except Ex Text :=
  match body with
  | none => .error (.argument "JSON body is required")
  | some text =>
    if maxBody < text.size then .error (.argument "Request body exceeds 64 KiB") else .ok text

/-- `JSON.parse(body).as_h` -/
def parseObject (text : Text) : Except Ex (List (String × Json)) :=
  match text.written with
  | none => .error (.parse "unexpected token")
  | some written => written.kept.asObject

/-- `"proc_#\x7bdigest[0, 32]\x7d"` -/
def requestId (hexdigest : String → String) (id path key : String) : String :=
  "proc_" ++ String.ofList ((hexdigest (id ++ "\n" ++ path ++ "\n" ++ key)).toList.take 32)

/-- `input[name] = value` on a hash without the name. -/
def addMember (input : List (String × Json)) (name value : String) : List (String × Json) :=
  input ++ [(name, .str value)]

def keyAllowed (key : String) : Prop := key ≠ "" ∧ key.utf8ByteSize ≤ 200

instance (key : String) : Decidable (keyAllowed key) := inferInstanceAs (Decidable (_ ∧ _))

/-- `Service#process_body` -/
def processBody (hexdigest : String → String) (id path : String) (key : Option String)
    (body : Option Text) : Except Ex Text :=
  (readBody body).bind fun text =>
    (parseObject text).bind fun input =>
      if Json.hasKey input "request_id" then .error (.argument "request_id is internal")
      else
        match key with
        | some key =>
          if keyAllowed key then
            .ok (Json.obj (addMember input "request_id" (requestId hexdigest id path key))).toText
          else .error (.argument "Invalid Idempotency-Key")
        | none => .ok text

end Service

/-! ### The adapter -/

namespace Go

/-- `ExecRequest` as it is decoded. -/
structure Exec where
  requestId : String := ""
  command : Slice := ⟨[], 0⟩
  cwd : String := ""
  env : StringMap := fun _ => none
  timeout : ℤ := 0

def execStruct : Struct Exec where
  fields := ["request_id", "command", "cwd", "env", "timeout_seconds"]
  accepts field value :=
    if field = "request_id" then isString value
    else if field = "command" then isStrings value
    else if field = "cwd" then isString value
    else if field = "env" then isStringMap value
    else isInt value
  assign field value e :=
    if field = "request_id" then { e with requestId := readString e.requestId value }
    else if field = "command" then { e with command := readStrings e.command value }
    else if field = "cwd" then { e with cwd := readString e.cwd value }
    else if field = "env" then { e with env := readStringMap e.env value }
    else { e with timeout := readInt e.timeout value }

/-- The two routes that take an `ExecRequest`. -/
inductive Endpoint
  | exec
  | processes
  deriving DecidableEq, Repr

/-- The default timeout of the exec route. -/
def Endpoint.settle : Endpoint → Exec → Exec
  | .exec, e => if e.timeout = 0 then { e with timeout := 30 } else e
  | .processes, e => e

/-- `req.Command` has a first word and `req.Cwd` is absolute when it is given. -/
def Exec.Sound (e : Exec) : Prop :=
  e.command.values ≠ [] ∧ e.command.values.head? ≠ some "" ∧
    (e.cwd ≠ "" → e.cwd.toList.head? = some '/')

instance (e : Exec) : Decidable e.Sound := inferInstanceAs (Decidable (_ ∧ _ ∧ _))

/-- The checks of the routes on a request. -/
def Endpoint.Checks : Endpoint → Exec → Prop
  | .exec, e => e.Sound ∧ 1 ≤ e.timeout ∧ e.timeout ≤ 3600
  | .processes, e => e.Sound ∧ e.timeout = 0

instance (endpoint : Endpoint) (e : Exec) : Decidable (endpoint.Checks e) := by
  cases endpoint <;> exact inferInstanceAs (Decidable (_ ∧ _))

inductive Refusal
  | decode (e : DecodeError)
  | invalid
  deriving DecidableEq, Repr

/-- The routes up to the call of the backend. -/
def Endpoint.accept (endpoint : Endpoint) (text : Text) : Except Refusal Exec :=
  match execStruct.decode {} text with
  | .error e => .error (.decode e)
  | .ok e => if endpoint.Checks (endpoint.settle e) then .ok (endpoint.settle e) else .error .invalid

end Go

/-! ### What is passed on -/

namespace Service

/-- The members that a hash without `request_id` has kept of a text. -/
abbrev kept (ms : List (String × Json)) : List (String × Json) :=
  (Json.hash (Json.keptMembers ms)).rows

/-- The body passes the checks of `process_body`, with the members `ms`. -/
structure Checked (body : Option Text) (text : Text) (ms : List (String × Json)) : Prop where
  body : body = some text
  size : text.size ≤ maxBody
  written : text.written = some (.obj ms)
  internal : Json.hasKey (kept ms) "request_id" = false

theorem Checked.unique {body : Option Text} {text text' : Text} {ms ms' : List (String × Json)}
    (h : Checked body text ms) (h' : Checked body text' ms') : text = text' ∧ ms = ms' := by
  have htext : text = text' := Option.some.inj (h.body.symm.trans h'.body)
  subst htext
  have hwritten := h.written.symm.trans h'.written
  cases hwritten
  exact ⟨rfl, rfl⟩

/-- Without a key the text of the client is passed on; with one, what the parser has kept of it,
with the request id behind it. -/
def passedOn (hexdigest : String → String) (id path : String) (key : Option String) (text : Text)
    (ms : List (String × Json)) : Text :=
  match key with
  | none => text
  | some key =>
    (Json.obj (addMember (kept ms) "request_id" (requestId hexdigest id path key))).toText

theorem parseObject_eq_ok {text : Text} {input : List (String × Json)} :
    parseObject text = .ok input ↔ ∃ ms, text.written = some (.obj ms) ∧ input = kept ms := by
  unfold parseObject
  cases text.written with
  | none => simp
  | some written =>
    cases written with
    | obj ms => simp [Json.kept, Json.asObject, kept, eq_comm]
    | _ => simp [Json.kept, Json.asObject]

theorem readBody_eq_ok {body : Option Text} {text : Text} :
    readBody body = .ok text ↔ body = some text ∧ text.size ≤ maxBody := by
  cases body with
  | none => simp [readBody]
  | some text' =>
    by_cases hsize : maxBody < text'.size
    · simp only [readBody, if_pos hsize, reduceCtorEq, Option.some.injEq, false_iff]
      rintro ⟨rfl, hle⟩
      omega
    · simp only [readBody, if_neg hsize, Except.ok.injEq, Option.some.injEq]
      refine ⟨?_, fun h => h.1⟩
      rintro rfl
      exact ⟨rfl, by omega⟩

theorem bind_eq_ok {ε α β : Type} {x : Except ε α} {f : α → Except ε β} {b : β} :
    x.bind f = .ok b ↔ ∃ a, x = .ok a ∧ f a = .ok b := by
  cases x <;> simp [Except.bind]

theorem processBody_eq_ok {hexdigest : String → String} {id path : String} {key : Option String}
    {body : Option Text} {out : Text} :
    processBody hexdigest id path key body = .ok out ↔
      (∀ k ∈ key, keyAllowed k) ∧
        ∃ text ms, Checked body text ms ∧ out = passedOn hexdigest id path key text ms := by
  simp only [processBody, bind_eq_ok, readBody_eq_ok, parseObject_eq_ok]
  constructor
  · rintro ⟨text, ⟨hbody, hsize⟩, input, ⟨ms, hwritten, rfl⟩, hout⟩
    cases hinternal : Json.hasKey (kept ms) "request_id" with
    | true => simp [hinternal] at hout
    | false =>
      have hchecked : Checked body text ms := ⟨hbody, hsize, hwritten, hinternal⟩
      rw [hinternal, if_neg (by decide)] at hout
      cases key with
      | none =>
        exact ⟨by simp, text, ms, hchecked, (Except.ok.inj hout).symm⟩
      | some key =>
        by_cases hkey : keyAllowed key
        · simp only [if_pos hkey, Except.ok.injEq] at hout
          exact ⟨by simpa using hkey, text, ms, hchecked, hout.symm⟩
        · simp [hkey] at hout
  · rintro ⟨hkey, text, ms, hchecked, rfl⟩
    refine ⟨text, ⟨hchecked.body, hchecked.size⟩, kept ms, ⟨ms, hchecked.written, rfl⟩, ?_⟩
    rw [hchecked.internal, if_neg (by decide)]
    cases key with
    | none => rfl
    | some key =>
      have : keyAllowed key := hkey key rfl
      simp only [if_pos this]
      rfl

end Service

/-! ### Request ids -/

namespace Go

/-- The last string that the members give under a spelling of `request_id`. -/
def spelledRequestId (ms : List (String × Json)) : String :=
  ms.foldl (fun old m =>
    if foldName m.1 = foldName "request_id" then readString old m.2 else old) ""

/-- No two fields of `ExecRequest` are the same up to case. -/
theorem execStruct_fold : ∀ f ∈ execStruct.fields, ∀ g ∈ execStruct.fields,
    foldName f = foldName g → f = g := by
  decide

theorem set_requestId (e : Exec) (m : String × Json) :
    (execStruct.set e m).requestId =
      if foldName m.1 = foldName "request_id" then readString e.requestId m.2 else e.requestId := by
  have hfor : ∀ field, fieldFor execStruct.fields m.1 = some field ↔ _ := fun field =>
    fieldFor_eq_some_iff execStruct_fold
  unfold Struct.set
  by_cases hspelled : foldName m.1 = foldName "request_id"
  · rw [(hfor "request_id").2 ⟨by decide, hspelled.symm⟩, if_pos hspelled]
    rfl
  · rw [if_neg hspelled]
    cases hfield : fieldFor execStruct.fields m.1 with
    | none => rfl
    | some field =>
      have hne : field ≠ "request_id" := by
        rintro rfl
        exact hspelled ((hfor _).1 hfield).2.symm
      simp only [execStruct, if_neg hne]
      split_ifs <;> rfl

theorem foldl_set_requestId (ms : List (String × Json)) (e : Exec) :
    (ms.foldl execStruct.set e).requestId = ms.foldl (fun old m =>
      if foldName m.1 = foldName "request_id" then readString old m.2 else old) e.requestId := by
  induction ms generalizing e with
  | nil => rfl
  | cons m ms ih => rw [List.foldl_cons, ih, List.foldl_cons, set_requestId]

end Go

namespace Service

open Go (spelledRequestId execStruct)

/-- The request id that the service means the adapter to see. -/
def intendedRequestId (hexdigest : String → String) (id path : String) : Option String → String
  | none => ""
  | some key => requestId hexdigest id path key

/-- The adapter sees the intended request id unless, without a key, the client has spelled
`request_id` in another case with a text. -/
theorem request_id_internal_iff {hexdigest : String → String} {id path : String}
    {key : Option String} {body : Option Text} {out : Text} {e : Go.Exec}
    (haccepted : processBody hexdigest id path key body = .ok out)
    (hdecoded : execStruct.decode {} out = .ok e) :
    e.requestId = intendedRequestId hexdigest id path key ↔
      (key = none → ∀ text ms, body = some text → text.written = some (.obj ms) →
        spelledRequestId ms = "") := by
  obtain ⟨-, text, ms, hchecked, rfl⟩ := processBody_eq_ok.1 haccepted
  cases key with
  | none =>
    obtain ⟨-, -, rfl⟩ := (Go.Struct.decode_obj_eq_ok hchecked.written).1 hdecoded
    rw [Go.foldl_set_requestId]
    constructor
    · intro h _ text' ms' hbody hwritten
      rw [hchecked.body, Option.some_inj] at hbody
      subst hbody
      rw [hchecked.written] at hwritten
      cases hwritten
      exact h
    · exact fun h => h rfl text ms hchecked.body hchecked.written
  | some key =>
    obtain ⟨-, -, rfl⟩ := (Go.Struct.decode_obj_eq_ok rfl).1 hdecoded
    have hlast : (execStruct.set ((kept ms).foldl execStruct.set {})
        ("request_id", .str (requestId hexdigest id path key))).requestId =
          requestId hexdigest id path key := by
      rw [Go.set_requestId, if_pos rfl]
      rfl
    rw [addMember, List.foldl_append]
    simp [hlast, intendedRequestId]

def plainMembers : List (String × Json) := [("command", .arr [.str "true"])]

def plainBody : Text := (Json.obj plainMembers).toText

theorem checked_plainBody : Checked (some plainBody) plainBody plainMembers :=
  ⟨rfl, by decide +kernel, rfl, by decide +kernel⟩

theorem request_id_internal_plain :
    processBody (fun _ => "") "sbx_a" "/v1/sandboxes/sbx_a/exec" none (some plainBody) =
        .ok plainBody ∧
      execStruct.decode {} plainBody = .ok (plainMembers.foldl execStruct.set {}) ∧
      (plainMembers.foldl execStruct.set {}).requestId = "" := by
  have haccepted : processBody (fun _ => "") "sbx_a" "/v1/sandboxes/sbx_a/exec" none
      (some plainBody) = .ok plainBody :=
    processBody_eq_ok.2 ⟨by simp, plainBody, plainMembers, checked_plainBody, rfl⟩
  refine ⟨haccepted, rfl, (request_id_internal_iff haccepted rfl).2 ?_⟩
  rintro - text ms hbody hwritten
  cases hbody
  cases hwritten
  rfl

/-- A body that names the process of its choice. -/
def spelledMembers : List (String × Json) :=
  [("Request_ID", .str "proc_0123456789abcdef0123456789abcdef"), ("command", .arr [.str "true"])]

def spelledBody : Text := (Json.obj spelledMembers).toText

theorem request_id_spelled :
    ∃ e, processBody (fun _ => "") "sbx_a" "/v1/sandboxes/sbx_a/processes" none
        (some spelledBody) = .ok spelledBody ∧
      Go.Endpoint.processes.accept spelledBody = .ok e ∧
      execStruct.decode {} spelledBody = .ok e ∧
      e.requestId = "proc_0123456789abcdef0123456789abcdef" := by
  have hchecked : Checked (some spelledBody) spelledBody spelledMembers :=
    ⟨rfl, by decide +kernel, rfl, by decide +kernel⟩
  refine ⟨spelledMembers.foldl execStruct.set {},
    processBody_eq_ok.2 ⟨by simp, spelledBody, spelledMembers, hchecked, rfl⟩, rfl, rfl, rfl⟩

end Service

end Sandcube
