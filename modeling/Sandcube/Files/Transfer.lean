import Sandcube.Files.Upload
import Sandcube.Value.GoDecode
import Sandcube.Value.Quoted

/-!
# Transfers through both services

`Files.call` of the API puts the bytes of an upload into a JSON object, in base64, and sends it to
the adapter, which reads at most 24 MiB, decodes the object and calls `fileAt`.  A download goes the
other way.  The API takes at most 16 MiB and the adapter reads files of at most 16 MiB, so with the
four digits for three bytes and six bytes for a byte of the path the object always fits.

The adapter's scanner is taken to find the members that were written.  The content of an answer has
no character that either side escapes (`Base64.plain_encode`).
-/

namespace Sandcube.Files

open Sandcube.Path (Bytes slash dot parts normal)

/-! ### The object between the services -/

/-- A text of ASCII characters. -/
def ascii (text : String) : Bytes := text.toList.map fun c => UInt8.ofNat c.toNat

/-- The value of a member as it is written. -/
inductive Token
  /-- What stands between the quotation marks. -/
  | str (quoted : Bytes)
  | num (n : ℕ)
  | null
  deriving DecidableEq

def Token.text : Token → Bytes
  | .str quoted => 34 :: (quoted ++ [34])
  | .num n => ascii (toString n)
  | .null => ascii "null"

/-- One member with its name. -/
def memberText (member : String × Token) : Bytes :=
  34 :: (ascii member.1 ++ 34 :: 58 :: member.2.text)

/-- The members between braces, with commas. -/
def objectText (members : List (String × Token)) : Bytes :=
  123 :: ([44].intercalate (members.map memberText) ++ [125])

def Operation.text : Operation → Bytes
  | .read => ascii "read"
  | .list => ascii "list"
  | .write => ascii "write"
  | .mkdir => ascii "mkdir"
  | .delete => ascii "delete"
  | .other => []

def Operation.ofText (text : Bytes) : Operation :=
  if text = ascii "read" then .read
  else if text = ascii "list" then .list
  else if text = ascii "write" then .write
  else if text = ascii "mkdir" then .mkdir
  else if text = ascii "delete" then .delete
  else .other

/-- `{operation: operation, path: path, content: data, mode: mode}` -/
structure Envelope where
  operation : Operation
  path : Bytes
  content : Bytes
  mode : Option ℕ

/-- `to_json` -/
def Envelope.members (e : Envelope) : List (String × Token) :=
  [("operation", .str (Quoted.escape e.operation.text)), ("path", .str (Quoted.escape e.path)),
    ("content", .str (Quoted.escape e.content)),
    ("mode", match e.mode with | some n => .num n | none => .null)]

/-! ### The adapter -/

inductive BodyError
  | tooLarge
  | unknownField
  | wrongType
  deriving DecidableEq, Repr

def fileFields : List String := ["operation", "path", "mode", "content"]

/-- A string field: `null` leaves it as it is. -/
def readText (old : Bytes) : Token → Option Bytes
  | .str quoted => Quoted.unquote quoted
  | .null => some old
  | .num _ => none

/-- The field `*uint32`. -/
def readMode : Token → Option (Option UInt32)
  | .num n => if n < 2 ^ 32 then some (some (UInt32.ofNat n)) else none
  | .null => some none
  | .str _ => none

def assignField (field : String) (token : Token) (req : Request) : Option Request :=
  if field = "operation" then
    match token with
    | .null => some req
    | _ => (readText [] token).map fun text => { req with operation := .ofText text }
  else if field = "path" then (readText req.path token).map fun path => { req with path := path }
  else if field = "mode" then (readMode token).map fun mode => { req with mode := mode }
  else (readText req.content token).map fun content => { req with content := content }

/-- The members in turn. -/
def decodeMembers (req : Request) : List (String × Token) → Except BodyError Request
  | [] => .ok req
  | member :: members =>
    match Go.fieldFor fileFields member.1 with
    | none => .error .unknownField
    | some field =>
      match assignField field member.2 req with
      | none => .error .wrongType
      | some req => decodeMembers req members

/-- The route `files` of `ServeHTTP`, up to the call of the backend. -/
def receive (members : List (String × Token)) : Except BodyError Request :=
  if 24 * 2 ^ 20 < (objectText members).length then .error .tooLarge
  else decodeMembers { operation := .other, path := [] } members

/-! ### The API -/

inductive Method
  | get
  | put
  | post
  | delete
  | other
  deriving DecidableEq, Repr

/-- A request to `files` or, with `content`, to `files/content`. -/
structure Incoming where
  method : Method
  content : Bool
  path : Option Bytes := none
  mode : Option Bytes := none
  body : Option Bytes := none

inductive Refusal
  /-- `400 INVALID_PATH` -/
  | invalidPath
  /-- `Unsupported file operation` -/
  | unsupported
  /-- `to_i(8)` raises, or `mode must be octal 0000–0777`. -/
  | mode
  /-- `413 LIMIT_EXCEEDED` -/
  | tooLarge
  /-- The adapter refuses the body. -/
  | body (e : BodyError)
  /-- The adapter reports a failure. -/
  | runtime (e : Failure)
  /-- `Base64::Error` -/
  | base64
  deriving DecidableEq, Repr

/-- `MAX_TRANSFER` -/
def maxTransfer : ℕ := 16 * 1024 * 1024

def operationFor : Method → Bool → Option Operation
  | .get, true => some .read
  | .put, true => some .write
  | .get, false => some .list
  | .post, false => some .mkdir
  | .delete, false => some .delete
  | _, _ => none

/-- `path = request.query_params["path"]? || "/"` -/
def Incoming.target (r : Incoming) : Bytes := r.path.getD [slash]

def Incoming.data (r : Incoming) : Bytes := r.body.getD []

section Call

-- `String#to_i(8)`, `none` when it raises
variable (toI8 : Bytes → Option ℤ)
variable {r : Incoming} {e : Envelope}

/-- `request.query_params["mode"]?.try(&.to_i(8))` and the check of its range. -/
def modeParam (mode : Option Bytes) : Except Refusal (Option ℕ) :=
  match mode with
  | none => .ok none
  | some text =>
    match toI8 text with
    | none => .error .mode
    | some n => if 0 ≤ n ∧ n ≤ 0o777 then .ok (some n.toNat) else .error .mode

/-- `Files.call` up to `runtime.request`. -/
def prepare (r : Incoming) : Except Refusal Envelope :=
  if 0 ∈ r.target ∨ [dot, dot] ∈ parts slash r.target ∨ 4096 < r.target.length then
    .error .invalidPath
  else
    match operationFor r.method r.content with
    | none => .error .unsupported
    | some operation =>
      (modeParam toI8 r.mode).bind fun mode =>
        if operation = .write then
          -- `IO.copy` stops behind the limit
          let buffer := r.data.take (maxTransfer + 1)
          if maxTransfer < buffer.length then .error .tooLarge
          else .ok ⟨operation, r.target, Base64.encode buffer, mode⟩
        else .ok ⟨operation, r.target, [], mode⟩

inductive Response
  /-- `application/octet-stream` -/
  | bytes (data : Bytes)
  | json (answer : Answer)
  deriving DecidableEq

/-- What the API makes of an answer. -/
def respond (operation : Operation) (answer : Answer) : Except Refusal Response :=
  match operation, answer with
  | .read, .content text =>
    match Base64.decodeLenient text with
    | some data => .ok (.bytes data)
    | none => .error .base64
  | _, answer => .ok (.json answer)

/-- `Files.call`, with the adapter behind it. -/
def call (k : Kernel) (draw : Bytes) (root : ℕ) (r : Incoming) (t : Tree) :
    Tree × Except Refusal Response :=
  match prepare toI8 r with
  | .error e => (t, .error e)
  | .ok envelope =>
    match receive envelope.members with
    | .error e => (t, .error (.body e))
    | .ok req =>
      match fileOn k draw root req t with
      | (t, .error e) => (t, .error (.runtime e))
      | (t, .ok answer) => (t, respond envelope.operation answer)

end Call

/-! ### The envelope -/

theorem ofText_text (operation : Operation) : Operation.ofText operation.text = operation := by
  cases operation <;> decide

theorem valid_text (operation : Operation) : Quoted.valid operation.text = operation.text := by
  apply Quoted.valid_eq_self_of_all
  cases operation <;> decide

/-- Base64 is written without escapes. -/
theorem escape_encode (data : Bytes) : Quoted.escape (Base64.encode data) = Base64.encode data := by
  have hplain : ∀ c : UInt8, Base64.Plain c → Quoted.escapeByte c = [c] :=
    Quoted.byte_forall (by decide +kernel)
  exact Quoted.escape_eq_self fun c hc => hplain c (Base64.plain_encode data c hc)

theorem valid_encode (data : Bytes) : Quoted.valid (Base64.encode data) = Base64.encode data := by
  apply Quoted.valid_eq_self
  intro c hc
  have hlt := (Base64.plain_encode data c hc).2.1
  omega

/-- What the adapter gets of an envelope that is not too large. -/
def Envelope.received (e : Envelope) : Request where
  operation := e.operation
  path := Quoted.valid e.path
  mode := e.mode.map UInt32.ofNat
  content := Quoted.valid e.content

/-- A member of a known field. -/
theorem decodeMembers_cons {name : String} {token : Token} {members : List (String × Token)}
    {req req' : Request} (hname : name ∈ fileFields) (hassign : assignField name token req = some req') :
    decodeMembers req ((name, token) :: members) = decodeMembers req' members := by
  rw [decodeMembers, Go.fieldFor_of_mem hname]
  dsimp only
  rw [hassign]

theorem readText_escape (old s : Bytes) :
    readText old (.str (Quoted.escape s)) = some (Quoted.valid s) := Quoted.unquote_escape s

theorem decodeMembers_members (e : Envelope) (h : ∀ n, e.mode = some n → n < 2 ^ 32) :
    decodeMembers { operation := .other, path := [] } e.members = .ok e.received := by
  have hoperation (req : Request) :
      assignField "operation" (.str (Quoted.escape e.operation.text)) req =
        some { req with operation := e.operation } := by
    show (readText [] (.str (Quoted.escape e.operation.text))).map _ = _
    rw [readText_escape, valid_text, Option.map_some, ofText_text]
  have hpath (req : Request) : assignField "path" (.str (Quoted.escape e.path)) req =
      some { req with path := Quoted.valid e.path } := by
    show (readText req.path (.str (Quoted.escape e.path))).map _ = _
    rw [readText_escape, Option.map_some]
  have hcontent (req : Request) : assignField "content" (.str (Quoted.escape e.content)) req =
      some { req with content := Quoted.valid e.content } := by
    show (readText req.content (.str (Quoted.escape e.content))).map _ = _
    rw [readText_escape, Option.map_some]
  have hmode (req : Request) :
      assignField "mode" (match e.mode with | some n => .num n | none => .null) req =
        some { req with mode := e.mode.map UInt32.ofNat } := by
    show (readMode (match e.mode with | some n => .num n | none => .null)).map _ = _
    cases hn : e.mode with
    | none => rfl
    | some n =>
      dsimp only
      rw [readMode, if_pos (h n hn)]
      rfl
  unfold Envelope.members
  rw [decodeMembers_cons (by decide) (hoperation _), decodeMembers_cons (by decide) (hpath _),
    decodeMembers_cons (by decide) (hcontent _), decodeMembers_cons (by decide) (hmode _)]
  rfl

/-! ### Sizes -/

/-- The digits of a permission mode. -/
theorem length_modeText {n : ℕ} (h : n ≤ 0o777) : (ascii (toString n)).length ≤ 3 := by
  revert n
  decide +kernel

/-- The object is as large as its parts, with at most 64 bytes around them. -/
theorem length_objectText_le (e : Envelope) (h : ∀ n, e.mode = some n → n ≤ 0o777) :
    (objectText e.members).length ≤
      (Quoted.escape e.path).length + (Quoted.escape e.content).length + 64 := by
  have hoperation : (Quoted.escape e.operation.text).length ≤ 6 := by
    cases e.operation <;> decide
  have hmode : (Token.text (match e.mode with | some n => .num n | none => .null)).length ≤ 4 := by
    cases hn : e.mode with
    | none => decide
    | some n =>
      have := length_modeText (h n hn)
      dsimp only [Token.text]
      omega
  have hnames : (ascii "operation").length = 9 ∧ (ascii "path").length = 4 ∧
      (ascii "content").length = 7 ∧ (ascii "mode").length = 4 := by decide
  unfold objectText Envelope.members
  simp only [List.map_cons, List.map_nil, List.intercalate_cons_cons, List.intercalate_singleton,
    List.length_cons, List.length_append, List.length_nil, memberText, Token.text, hnames]
  dsimp only [Token.text] at hmode
  omega

/-! ### What `Files.call` sends -/

section Exact

variable {toI8 : Bytes → Option ℤ}

theorem modeParam_eq_ok {mode : Option Bytes} {value : Option ℕ}
    (h : modeParam toI8 mode = .ok value) : ∀ n, value = some n → n ≤ 0o777 := by
  unfold modeParam at h
  split at h
  · cases h
    intro n hn
    cases hn
  · split at h
    · cases h
    · split_ifs at h with hrange
      cases h
      intro n hn
      cases hn
      omega

/-- An envelope that was sent. -/
structure Sent (r : Incoming) (e : Envelope) : Prop where
  operation : operationFor r.method r.content = some e.operation
  path : e.path = r.target
  size : r.target.length ≤ 4096
  mode : ∀ n, e.mode = some n → n ≤ 0o777
  upload : e.operation = .write → r.data.length ≤ maxTransfer ∧ e.content = Base64.encode r.data
  rest : e.operation ≠ .write → e.content = []

theorem sent_of_prepare (h : prepare toI8 r = .ok e) : Sent r e := by
  unfold prepare at h
  split_ifs at h with hpath
  have hsize : r.target.length ≤ 4096 := by
    by_contra hlarge
    exact hpath (.inr (.inr (by omega)))
  cases hoperation : operationFor r.method r.content with
  | none =>
    rw [hoperation] at h
    cases h
  | some operation =>
    rw [hoperation] at h
    dsimp only at h
    cases hmode : modeParam toI8 r.mode with
    | error e =>
      rw [hmode] at h
      cases h
    | ok mode =>
      rw [hmode, Except.bind] at h
      have hbound := modeParam_eq_ok hmode
      by_cases hwrite : operation = .write
      · rw [if_pos hwrite] at h
        split_ifs at h with hlarge
        cases h
        have hdata : r.data.length ≤ maxTransfer := by
          rw [List.length_take] at hlarge
          omega
        have htake : r.data.take (maxTransfer + 1) = r.data := List.take_of_length_le (by omega)
        exact ⟨hoperation, rfl, hsize, hbound, fun _ => ⟨hdata, by dsimp only; rw [htake]⟩,
          fun hne => absurd hwrite hne⟩
      · rw [if_neg hwrite] at h
        cases h
        exact ⟨hoperation, rfl, hsize, hbound, fun he => absurd he hwrite, fun _ => rfl⟩

/-- The bytes of an upload; nothing for the other operations. -/
def Incoming.payload (r : Incoming) (operation : Operation) : Bytes :=
  if operation = .write then r.data else []

theorem Sent.content_eq (h : Sent r e) : e.content = Base64.encode (r.payload e.operation) := by
  unfold Incoming.payload
  by_cases hwrite : e.operation = .write
  · rw [if_pos hwrite, (h.upload hwrite).2]
  · rw [if_neg hwrite, h.rest hwrite]
    rfl

/-- The object fits. -/
theorem Sent.fits (h : Sent r e) : (objectText e.members).length ≤ 24 * 2 ^ 20 := by
  have hpayload : (r.payload e.operation).length ≤ maxTransfer := by
    unfold Incoming.payload
    split_ifs with hwrite
    · exact (h.upload hwrite).1
    · exact Nat.zero_le _
  have hcontent : (Quoted.escape e.content).length ≤ 4 * ((maxTransfer + 2) / 3) := by
    rw [h.content_eq, escape_encode, Base64.length_encode]
    omega
  have hpath : (Quoted.escape e.path).length ≤ 6 * 4096 := by
    have hescape := Quoted.length_escape_le e.path
    have hsize := h.size
    rw [h.path] at hescape ⊢
    omega
  have hobject := length_objectText_le e h.mode
  unfold maxTransfer at hcontent
  omega

theorem Sent.receive_eq (h : Sent r e) : receive e.members = .ok e.received := by
  have hfits := h.fits
  rw [receive, if_neg (by omega), decodeMembers_members e fun n hn => ?_]
  have hmode := h.mode n hn
  omega

theorem Sent.decode_eq (h : Sent r e) :
    Base64.decode e.received.content = some (r.payload e.operation) := by
  show Base64.decode (Quoted.valid e.content) = _
  rw [h.content_eq, valid_encode, Base64.decode_encode]

theorem Sent.mode_any (h : Sent r e) : e.received.mode.any (· > 0o777) = false := by
  show (e.mode.map UInt32.ofNat).any (· > 0o777) = false
  cases hn : e.mode with
  | none => rfl
  | some n =>
    have hmode := h.mode n hn
    have hval : (UInt32.ofNat n).toNat = n := by
      rw [UInt32.toNat_ofNat']
      omega
    rw [Option.map_some, Option.any_some, decide_eq_false_iff_not]
    intro hlt
    have hlt' : (0o777 : UInt32).toNat < (UInt32.ofNat n).toNat := hlt
    rw [hval] at hlt'
    exact absurd hmode (Nat.not_le.mpr hlt')

/-! ### Both ways -/

/-- A larger upload is refused by the API. -/
theorem prepare_of_large (hmethod : r.method = .put) (hcontent : r.content = true)
    (hlarge : maxTransfer < r.data.length) : ∃ e, prepare toI8 r = .error e := by
  cases hprepare : prepare toI8 r with
  | error e => exact ⟨e, rfl⟩
  | ok e =>
    have hsent := sent_of_prepare hprepare
    have hoperation := hsent.operation
    rw [hmethod, hcontent] at hoperation
    have hwrite : e.operation = .write := (Option.some.inj hoperation).symm
    have := (hsent.upload hwrite).1
    omega

/-- A larger file is not read. -/
theorem fileOn_of_large {k : Kernel} {draw : Bytes} {root i : ℕ} {t : Tree} {req : Request}
    {name content : Bytes} {x : Inode Bytes UInt8} (hop : req.operation = .read)
    (hopen : fileAt req.toFileRequest = .ok (.object name))
    (hwalk : walk t root (normal slash dot name) = .ok i) (hx : t.face? i = some x)
    (hcontent : x.content? = some content) (hlarge : maxFileSize < content.length) :
    ∃ e, fileOn k draw root req t = (t, .error e) ∧ (k.Reads → e = .tooLarge) := by
  have heq : fileOn k draw root req t =
      (t, (openBeneath k t root name).bind fun i => readOn k t i) := by
    rw [fileOn, hopen]
    dsimp only
    rw [hop, if_neg (by decide)]
  rw [heq]
  cases hbeneath : openBeneath k t root name with
  | error e =>
    refine ⟨e, rfl, fun hk => ?_⟩
    rw [openBeneath_of_reads hk hwalk] at hbeneath
    cases hbeneath
  | ok j =>
    have hj : i = j := by
      have hsame := hwalk.symm.trans (openBeneath_eq_ok hbeneath)
      exact Except.ok.inj hsame
    subst hj
    rw [Except.bind]
    cases hfstat : k.error .fstat with
    | some e =>
      refine ⟨.errno e, ?_, fun hk => ?_⟩
      · rw [readOn, hfstat]
      · rw [hk.error (by simp)] at hfstat
        cases hfstat
    | none =>
      refine ⟨.tooLarge, ?_, fun _ => rfl⟩
      rw [readOn, hfstat, hx, Option.bind_some, hcontent]
      dsimp only
      rw [if_pos hlarge]

/-- The calls of an upload and of the read that follows it. -/
theorem call_read_of_upload {k k' : Kernel} {draw draw' : Bytes} {root : ℕ} {r' : Incoming}
    {t t' : Tree} {answer : Response} (hmethod : r.method = .put) (hcontent : r.content = true)
    (hdraw : temporary draw ∉ normal slash dot (Quoted.valid r.target))
    (hcall : call toI8 k draw root r t = (t', .ok answer)) (hk' : k'.Reads)
    (hmethod' : r'.method = .get) (hcontent' : r'.content = true) (hpath : r'.path = r.path)
    {e' : Envelope} (hprepare' : prepare toI8 r' = .ok e') :
    call toI8 k' draw' root r' t' = (t', .ok (.bytes r.data)) := by
  -- the upload
  unfold call at hcall
  cases hprepare : prepare toI8 r with
  | error e =>
    rw [hprepare] at hcall
    cases hcall
  | ok e =>
    have hsent := sent_of_prepare hprepare
    have hwrite : e.operation = .write := by
      have hoperation := hsent.operation
      rw [hmethod, hcontent] at hoperation
      exact (Option.some.inj hoperation).symm
    rw [hprepare] at hcall
    dsimp only at hcall
    rw [hsent.receive_eq] at hcall
    dsimp only at hcall
    have hleaf : ∀ name leaf, fileAt e.received.toFileRequest = .ok (.parent name leaf) →
        leaf ≠ temporary draw := by
      rintro name leaf hopen rfl
      obtain ⟨-, ps, hnormal, -⟩ := fileAt_eq_parent hwrite hopen
      have hpath : e.received.path = Quoted.valid r.target := congrArg Quoted.valid hsent.path
      rw [hpath] at hnormal
      exact hdraw (hnormal ▸ List.mem_append_right _ List.mem_cons_self)
    have hall := write_all_or_nothing k root t hwrite hleaf
    cases hfile : fileOn k draw root e.received t with
    | mk t₁ result =>
      rw [hfile] at hcall hall
      cases result with
      | error f => cases hcall
      | ok given =>
        dsimp only at hcall
        have ht : t₁ = t' := congrArg Prod.fst hcall
        subst ht
        obtain ⟨-, data, hwritten⟩ := hall.2 given rfl
        have hdata : data = r.data := by
          have hdecoded := hwritten.decoded
          rw [hsent.decode_eq, Incoming.payload, if_pos hwrite] at hdecoded
          exact (Option.some.inj hdecoded).symm
        -- the read
        have hsent' := sent_of_prepare hprepare'
        have hread : e'.operation = .read := by
          have hoperation := hsent'.operation
          rw [hmethod', hcontent'] at hoperation
          exact (Option.some.inj hoperation).symm
        have htarget : e'.received.path = e.received.path := by
          show Quoted.valid e'.path = Quoted.valid e.path
          rw [hsent.path, hsent'.path, Incoming.target, hpath, Incoming.target]
        have hback := hwritten.read k' draw' e'.received hk' hread htarget hsent'.mode_any
        unfold call
        rw [hprepare']
        dsimp only
        rw [hsent'.receive_eq]
        dsimp only
        rw [hback, hread]
        dsimp only [respond]
        rw [Base64.decodeLenient_encode, hdata]

/-- **Transfers are exact.**  What `Files.call` sends fits the adapter's limit and is decoded to
the bytes of the upload.  After a successful upload a read of the same path returns those bytes.
Larger uploads are not sent, and larger files are not read. -/
theorem transfers_exact (toI8 : Bytes → Option ℤ) :
    (∀ r e, prepare toI8 r = .ok e →
      (objectText e.members).length ≤ 24 * 2 ^ 20 ∧ receive e.members = .ok e.received ∧
        Base64.decode e.received.content = some (r.payload e.operation)) ∧
      (∀ k draw root r t t' answer, r.method = .put → r.content = true →
        temporary draw ∉ normal slash dot (Quoted.valid r.target) →
        call toI8 k draw root r t = (t', .ok answer) →
        ∀ (k' : Kernel) draw' (r' : Incoming) e', k'.Reads → r'.method = .get → r'.content = true →
          r'.path = r.path → prepare toI8 r' = .ok e' →
          call toI8 k' draw' root r' t' = (t', .ok (.bytes r.data))) ∧
      (∀ r : Incoming, r.method = .put → r.content = true → 16 * 2 ^ 20 < r.data.length →
        ∃ e, prepare toI8 r = .error e) ∧
      ∀ (k : Kernel) draw root (t : Tree) (req : Request) name i x content, req.operation = .read →
        fileAt req.toFileRequest = .ok (.object name) →
        walk t root (normal slash dot name) = .ok i → t.face? i = some x →
        x.content? = some content → 16 * 2 ^ 20 < content.length →
        ∃ e, fileOn k draw root req t = (t, .error e) ∧ (k.Reads → e = .tooLarge) := by
  refine ⟨fun r e hprepare => ?_, ?_, fun r hmethod hcontent hlarge => ?_, ?_⟩
  · have hsent := sent_of_prepare hprepare
    exact ⟨hsent.fits, hsent.receive_eq, hsent.decode_eq⟩
  · intro k draw root r t t' answer hmethod hcontent hdraw hcall k' draw' r' e' hk' hmethod'
      hcontent' hpath hprepare'
    exact call_read_of_upload hmethod hcontent hdraw hcall hk' hmethod' hcontent' hpath hprepare'
  · exact prepare_of_large hmethod hcontent hlarge
  · intro k draw root t req name i x content hop hopen hwalk hx hcontent hlarge
    exact fileOn_of_large hop hopen hwalk hx hcontent hlarge

end Exact

/-- An upload of four bytes to `linked`, and a download. -/
def linkedUpload : Incoming :=
  { method := .put, content := true, path := some linkedName, body := some [0, 255, 128, 10] }

def linkedDownload : Incoming := { method := .get, content := true, path := some linkedName }

theorem transfers_exact_linked :
    (call (fun _ => none) {} [1] 0 linkedUpload linkedTree).2 = .ok (.json .ok) ∧
      (call (fun _ => none) {} [1] 0 linkedDownload
        (call (fun _ => none) {} [1] 0 linkedUpload linkedTree).1).2 =
          .ok (.bytes [0, 255, 128, 10]) := by
  have hname : Quoted.valid linkedName = linkedName :=
    Quoted.valid_eq_self_of_all (by decide)
  have hprepare : prepare (fun _ => none) linkedUpload =
      .ok ⟨.write, linkedName, Base64.encode [0, 255, 128, 10], none⟩ := by rfl
  have hreceive : receive (Envelope.members
      ⟨.write, linkedName, Base64.encode [0, 255, 128, 10], none⟩) = .ok linkedRequest := by
    rw [(sent_of_prepare hprepare).receive_eq]
    unfold Envelope.received
    rw [hname, valid_encode]
    rfl
  have hopen : fileAt linkedRequest.toFileRequest = .ok (.parent (relativeName []) linkedName) :=
    fileAt_parent (by unfold Rejected; decide +kernel) (by decide +kernel) (.inl rfl)
  have hok : (fileOn {} [1] 0 linkedRequest linkedTree).2 = .ok .ok := by
    rw [fileOn, hopen]
    decide +kernel
  have hcall : call (fun _ => none) {} [1] 0 linkedUpload linkedTree =
      ((fileOn {} [1] 0 linkedRequest linkedTree).1, .ok (.json .ok)) := by
    unfold call
    rw [hprepare]
    dsimp only
    rw [hreceive]
    dsimp only
    rw [show fileOn {} [1] 0 linkedRequest linkedTree =
      ((fileOn {} [1] 0 linkedRequest linkedTree).1, .ok .ok) from Prod.ext rfl hok]
    rfl
  have hdraw : temporary [1] ∉ normal slash dot (Quoted.valid linkedUpload.target) := by
    show temporary [1] ∉ normal slash dot (Quoted.valid linkedName)
    rw [hname]
    decide +kernel
  have hback := (transfers_exact fun _ => none).2.1 {} [1] 0 linkedUpload linkedTree _ _ rfl rfl hdraw
    hcall {} [1] linkedDownload ⟨.read, linkedName, [], none⟩ (fun _ _ => rfl) rfl rfl rfl rfl
  rw [hcall]
  exact ⟨rfl, congrArg Prod.snd hback⟩

end Sandcube.Files
