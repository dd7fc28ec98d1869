import Sandcube.Adapter.World
import Sandcube.Journal.Intent
import Sandcube.Value.GoDecode

/-!
# The body of `POST /containers`

The API checks the body of a create request, stores a configuration and posts that configuration
to the adapter, which decodes it and checks it once more (`ServeHTTP` of `main.go`).  The two
checks agree on the command and the resources.  They do not agree on the image, which the API lets
be empty, nor on the size: the API measures the body of the client, the adapter the configuration.
-/

namespace Sandcube

variable {codec : Codec} {now : Time} {body : Option String} {j j' : Journal}

/-- The configuration as it is posted: the stored members without `image_id`. -/
def Spec.json (spec : Spec) : Json :=
  .obj [("id", .str spec.id), ("image", .str spec.image),
    ("command", .arr (spec.command.map .str)), ("cpu", .int spec.cpu),
    ("memory_mb", .int spec.memoryMb), ("disk_mb", .int spec.diskMb), ("pids", .int spec.pids)]

/-- `config.to_json` -/
def Spec.posted (spec : Spec) : Text := spec.json.toText

namespace Go

open Adapter (validID)

/-- `Config`, with the default of `POST /containers`. -/
structure Container where
  id : String := ""
  image : String := ""
  command : Slice := ⟨[], 0⟩
  cpu : ℤ := 0
  diskMb : ℤ := 1024
  memoryMb : ℤ := 0
  pids : ℤ := 0
  deriving DecidableEq

def containerStruct : Struct Container where
  fields := ["id", "image", "command", "cpu", "disk_mb", "memory_mb", "pids"]
  accepts field value :=
    if field = "id" ∨ field = "image" then isString value
    else if field = "command" then isStrings value
    else isInt value
  assign field value c :=
    if field = "id" then { c with id := readString c.id value }
    else if field = "image" then { c with image := readString c.image value }
    else if field = "command" then { c with command := readStrings c.command value }
    else if field = "cpu" then { c with cpu := readInt c.cpu value }
    else if field = "disk_mb" then { c with diskMb := readInt c.diskMb value }
    else if field = "memory_mb" then { c with memoryMb := readInt c.memoryMb value }
    else { c with pids := readInt c.pids value }

/-- The check of `POST /containers`. -/
def Container.Allowed (c : Container) : Prop :=
  (16 ≤ c.diskMb ∧ c.diskMb ≤ 1048576) ∧ validID c.id ∧ c.image ≠ "" ∧ c.command.values ≠ [] ∧
    c.command.values.head? ≠ some "" ∧ (1 ≤ c.cpu ∧ c.cpu ≤ 64) ∧
    (16 ≤ c.memoryMb ∧ c.memoryMb ≤ 262144) ∧ (1 ≤ c.pids ∧ c.pids ≤ 65536)

instance (c : Container) : Decidable c.Allowed := by unfold Container.Allowed; infer_instance

inductive CreateRefusal
  | decode (e : DecodeError)
  | invalid
  deriving DecidableEq, Repr

/-- `400 INVALID_REQUEST` or the configuration that the backend is called with. -/
def postContainers (text : Text) : Except CreateRefusal Container :=
  match containerStruct.decode {} text with
  | .error e => .error (.decode e)
  | .ok c => if c.Allowed then .ok c else .error .invalid

theorem postContainers_eq_ok {text : Text} {c : Container} :
    postContainers text = .ok c ↔ containerStruct.decode {} text = .ok c ∧ c.Allowed := by
  unfold postContainers
  cases containerStruct.decode {} text with
  | error e => simp
  | ok c' =>
    by_cases hallowed : c'.Allowed
    · simp only [if_pos hallowed, Except.ok.injEq]
      refine ⟨?_, fun h => h.1⟩
      rintro rfl
      exact ⟨rfl, hallowed⟩
    · simp only [if_neg hallowed, reduceCtorEq, Except.ok.injEq, false_iff]
      rintro ⟨rfl, h⟩
      exact hallowed h

end Go

/-! ### What the adapter makes of a configuration -/

open Adapter (validID wordChar)
open Go

/-- The container that a configuration asks for. -/
def Spec.container (spec : Spec) : Go.Container :=
  ⟨spec.id, spec.image, ⟨spec.command, spec.command.length⟩, spec.cpu, spec.diskMb, spec.memoryMb,
    spec.pids⟩

theorem overwrite_strings (command : List String) :
    overwrite [] (command.map Json.str) = command := by
  induction command with
  | nil => rfl
  | cons word command ih =>
    rw [List.map_cons, overwrite, List.tail_nil, ih]
    rfl

theorem readStrings_command {command : List String} (h : command ≠ []) :
    readStrings ⟨[], 0⟩ (.arr (command.map .str)) = ⟨command, command.length⟩ := by
  cases command with
  | nil => exact absurd rfl h
  | cons word command =>
    have hover := overwrite_strings (word :: command)
    rw [List.map_cons] at hover
    simp only [List.map_cons, readStrings, hover, List.length_cons, List.length_map]

theorem isInt_of_le {n : ℤ} (hlow : 0 ≤ n) (hhigh : n ≤ 1048576) : isInt (.int n) = true := by
  simp only [isInt, decide_eq_true_eq]
  omega

/-- Every member of a posted configuration has a field that takes it. -/
theorem Config.fits (config : Config) (id : String) :
    ∀ m ∈ [("id", Json.str id), ("image", .str config.image),
      ("command", .arr (config.command.map .str)), ("cpu", .int config.cpu),
      ("memory_mb", .int config.memoryMb), ("disk_mb", .int config.diskMb),
      ("pids", .int config.pids)], containerStruct.Fits m := by
  obtain ⟨⟨hd, hd'⟩, -, -, ⟨hc, hc'⟩, ⟨hm, hm'⟩, ⟨hp, hp'⟩⟩ := config.limits
  have hcommand : isStrings (.arr (config.command.map .str)) = true := by
    simp [isStrings, isString]
  have hnumber : ∀ {field : String} {n : ℤ}, field ∈ ["cpu", "memory_mb", "disk_mb", "pids"] →
      0 ≤ n → n ≤ 1048576 → containerStruct.Fits (field, .int n) := by
    intro field n hfield hlow hhigh
    simp only [List.mem_cons, List.not_mem_nil, or_false] at hfield
    have hint := isInt_of_le hlow hhigh
    rcases hfield with rfl | rfl | rfl | rfl <;>
      exact ⟨_, fieldFor_of_mem (by simp [containerStruct]), by simpa [containerStruct] using hint⟩
  intro m hm
  simp only [List.mem_cons, List.not_mem_nil, or_false] at hm
  rcases hm with rfl | rfl | rfl | rfl | rfl | rfl | rfl
  · exact ⟨"id", fieldFor_of_mem (by simp [containerStruct]), rfl⟩
  · exact ⟨"image", fieldFor_of_mem (by simp [containerStruct]), rfl⟩
  · exact ⟨"command", fieldFor_of_mem (by simp [containerStruct]), hcommand⟩
  all_goals exact hnumber (by decide) (by omega) (by omega)

/-- The adapter reads back the configuration, if it is not too large. -/
theorem Config.decode_posted (config : Config) (id : String) (c : Go.Container) :
    containerStruct.decode {} (config.spec id).posted = .ok c ↔
      (config.spec id).posted.size ≤ 64 * 1024 ∧ c = (config.spec id).container := by
  have hwritten : (config.spec id).posted.written = some (.obj _) := rfl
  rw [Struct.decode_obj_eq_ok hwritten]
  have hcommand := readStrings_command config.limits.2.1
  have hset : List.foldl containerStruct.set {}
      [("id", Json.str id), ("image", .str config.image),
        ("command", .arr (config.command.map .str)), ("cpu", .int config.cpu),
        ("memory_mb", .int config.memoryMb), ("disk_mb", .int config.diskMb),
        ("pids", .int config.pids)] = (config.spec id).container := by
    simp only [List.foldl_cons, List.foldl_nil, Struct.set, containerStruct, fieldFor]
    simp [hcommand, readString, readInt, Spec.container, Config.spec]
  constructor
  · rintro ⟨hsize, -, rfl⟩
    exact ⟨hsize, hset⟩
  · rintro ⟨hsize, rfl⟩
    exact ⟨hsize, config.fits id, hset.symm⟩

/-- `UUID.random.to_s.gsub("-", "")` -/
def IsUuid (uuid : String) : Prop :=
  uuid.toList.length = 32 ∧ ∀ c ∈ uuid.toList, c.isDigit ∨ c ∈ ['a', 'b', 'c', 'd', 'e', 'f']

theorem validID_of_isUuid {uuid : String} (h : IsUuid uuid) : validID ("sbx_" ++ uuid) = true := by
  have hlist : ("sbx_" ++ uuid).toList = 's' :: 'b' :: 'x' :: '_' :: uuid.toList := by
    rw [String.toList_append]
    rfl
  have hall : uuid.toList.all wordChar = true := by
    rw [List.all_eq_true]
    intro c hc
    rcases h.2 c hc with hdigit | hletter
    · simp [wordChar, Char.isAlphanum, hdigit]
    · simp only [List.mem_cons, List.not_mem_nil, or_false] at hletter
      rcases hletter with rfl | rfl | rfl | rfl | rfl | rfl <;> decide
  simp only [validID, hlist, h.1, hall]
  decide

/-- Of all checks of the adapter, only the one on the image says something new about a stored
configuration. -/
theorem Config.allowed_iff (config : Config) {id : String} (hid : validID id = true) :
    (config.spec id).container.Allowed ↔ config.image ≠ "" := by
  have hvalues : (config.spec id).container.command.values = config.command := by
    simp [Slice.values, Spec.container, Config.spec]
  obtain ⟨hd, hne, hhead, hc, hm, hp⟩ := config.limits
  rw [Go.Container.Allowed, hvalues]
  exact ⟨fun h => h.2.2.1, fun himage => ⟨hd, hid, himage, hne, hhead, hc, hm, hp⟩⟩

theorem Config.postContainers_iff (config : Config) {id : String} (hid : validID id = true) :
    (∃ c, postContainers (config.spec id).posted = .ok c) ↔
      config.image ≠ "" ∧ (config.spec id).posted.size ≤ 64 * 1024 := by
  simp only [postContainers_eq_ok, config.decode_posted]
  constructor
  · rintro ⟨c, ⟨hsize, rfl⟩, hallowed⟩
    exact ⟨(config.allowed_iff hid).1 hallowed, hsize⟩
  · rintro ⟨himage, hsize⟩
    exact ⟨_, ⟨hsize, rfl⟩, (config.allowed_iff hid).2 himage⟩

/-! ### Accepted creates -/

/-- The image reference that a create request resolves to. -/
def Journal.resolve (source : Source) (j : Journal) : Option String :=
  match source with
  | .managed imageId => (j.images.find? imageId).map (·.ociReference)
  | .reference image => some image

/-- The checked input of a create body. -/
def createInput (codec : Codec) (body : Option String) : Except Ex CreateInput := do
  CreateInput.parse (← (← codec.parse (body.getD "\x7b\x7d")).asObject)

/-- The configuration of a create comes from its body, with the image resolved. -/
theorem Journal.prepareCreate_config {id : String} {config : Config}
    (h : j.prepareCreate codec now id body = .ok (config, j')) :
    ∃ input image, createInput codec body = .ok input ∧ j.resolve input.source = some image ∧
      config = input.config image := by
  simp only [prepareCreate, except_bind_eq_ok] at h
  obtain ⟨json, hjson, fields, hfields, input, hinput, ⟨image, j₁⟩, href, j₂, -, hret⟩ := h
  have hdecoded : createInput codec body = .ok input := by
    simp only [createInput, except_bind_eq_ok]
    exact ⟨json, hjson, fields, hfields, hinput⟩
  have hresolve : j.resolve input.source = some image := by
    rcases reference_eq_ok href with ⟨hs, -⟩ | ⟨imageId, im, t, hs, him, -, rfl, -, -⟩
    · rw [hs, resolve]
    · rw [hs, resolve, him]
      rfl
  exact ⟨input, image, hdecoded, hresolve, (Prod.mk.inj (Except.ok.inj hret)).1.symm⟩

/-- What an accepted create has stored. -/
theorem Journal.accept_create_config {cap : Capacity} {id : String} {key : Option String}
    {fingerprint : String} (h : j.accept codec cap now id .create body key fingerprint = .ok j') :
    ∃ input image row, createInput codec body = .ok input ∧ j.resolve input.source = some image ∧
      j'.sandboxes.find? id = some row ∧ row.intent = some .create ∧
      row.config = input.config image := by
  unfold accept at h
  simp only [except_bind_eq_ok] at h
  obtain ⟨⟨config, j₁⟩, hprep, j₂, hadm, hrem⟩ := h
  obtain ⟨input, image, hinput, hresolve, hconfig⟩ := prepareCreate_config hprep
  obtain ⟨expiresAt, sandboxes, hins, -, hj₁⟩ := prepareCreate_eq_ok hprep
  obtain ⟨requests, -, rfl⟩ := remember_eq_ok hrem
  obtain ⟨-, rfl⟩ := Capacity.reserve_eq_ok hadm
  have hfind : j₁.sandboxes.find? id = some (.fresh config expiresAt) := by
    rw [hj₁]
    exact (Table.find?_insert? hins id).trans (if_pos rfl)
  refine ⟨input, image, (Row.fresh config expiresAt).reserved, hinput, hresolve, ?_, rfl, hconfig⟩
  simp [mark, setRow, hfind, Row.reserved, Row.fresh]

/-- A codec whose parser reads the one object that is given. -/
def parsesTo (ms : List (String × Json)) : Codec := ⟨id, fun _ => .ok (.obj ms), fun r => r.id⟩

theorem roomy_positive : (0 : ℤ) < 4 ∧ (0 : ℤ) < 1024 ∧ (0 : ℤ) < 4096 := by decide

def roomy : Capacity := ⟨4, 1024, 4096, roomy_positive⟩

def sampleUuid : String := "0123456789abcdef0123456789abcdef"

theorem isUuid_sample : IsUuid sampleUuid := by
  refine ⟨by decide +kernel, ?_⟩
  have hall : sampleUuid.toList.all fun c =>
      c.isDigit || ['a', 'b', 'c', 'd', 'e', 'f'].contains c := by decide +kernel
  rw [List.all_eq_true] at hall
  intro c hc
  simpa using hall c hc

/-- The journal after a create request with the given members. -/
def createdBy (ms : List (String × Json)) : Except Ex Journal :=
  Journal.empty.accept (parsesTo ms) roomy 0 ("sbx_" ++ sampleUuid) .create (some "") none ""

def plainCreate : List (String × Json) :=
  [("image", .str "busybox"), ("command", .arr [.str "true"])]

def emptyImageCreate : List (String × Json) := [("image", .str ""), ("command", .arr [.str "true"])]

end Sandcube
