import Sandcube.Journal.Capacity

/-!
# The intent transaction

The intent transaction of `Reliability#request`: everything a lifecycle request writes
before the runtime hears of it.

A create checks its body, takes a reference on a managed image, inserts the sandbox with
intent `create` and reserves its resources.  The other operations move an existing row.
A keyed request also leaves its record, in the same transaction.
-/

namespace Sandcube

variable {id fingerprint : String} {j j' : Journal} {now : Time} {body key : Option String}
  {action : Action} {cap : Capacity}

/-- The library functions the lifecycle code calls on texts: `Digest::SHA256.hexdigest`, the
JSON parser with the message of its failures, and `to_json` of a response. -/
structure Codec where
  hexdigest : String → String
  decode : String → Except String Json
  render : Response → String

/-- `JSON.parse` -/
def Codec.parse (codec : Codec) (text : String) : Except Ex Json :=
  (codec.decode text).mapError .parse

/-! ### The body of a create request -/

/-- `image_id` or `image`. -/
inductive Source where
  | managed (imageId : String)
  | reference (image : String)

/-- A checked create body. -/
structure CreateInput where
  command : List String
  cpu : ℤ
  memory : ℤ
  disk : ℤ
  pids : ℤ
  ttl : Option ℤ
  source : Source
  limits : Limits command cpu memory disk pids

/-- The fields a create body may have. -/
def createFields : List String :=
  ["image", "image_id", "command", "cpu", "memory_mb", "pids", "disk_mb", "ttl_seconds"]

/-- The checks on a create body, in the order of the source. -/
def CreateInput.parse (input : List (String × Json)) : Except Ex CreateInput := do
  if !input.all fun entry => createFields.contains entry.1 then
    throw (.argument "Unknown create field")
  if Json.hasKey input "image" == Json.hasKey input "image_id" then
    throw (.argument "Provide exactly one of image or image_id")
  let command ← (← (← Json.get input "command").asArray).mapM Json.asString
  let cpu := (← Json.getInt? input "cpu").getD 1
  let memory := (← Json.getInt? input "memory_mb").getD 256
  let disk := (← Json.getInt? input "disk_mb").getD 1024
  let pids := (← Json.getInt? input "pids").getD 128
  let ttl ← Json.getInt? input "ttl_seconds"
  if limits : Limits command cpu memory disk pids then
    if ttl.any (· ≤ 0) then throw (.argument "ttl_seconds must be positive")
    match ← Json.getString? input "image_id" with
    | some imageId => return ⟨command, cpu, memory, disk, pids, ttl, .managed imageId, limits⟩
    | none =>
      let image ← (← Json.get input "image").asString
      return ⟨command, cpu, memory, disk, pids, ttl, .reference image, limits⟩
  else throw (.argument "Invalid command or resource limits")

/-- `(Time.utc + n.seconds).to_rfc3339`, which keeps whole seconds. -/
def expiry (now : Time) (ttl : ℤ) : Time := (now / 1000 + ttl.toNat) * 1000

/-- The `config` a checked body and the image it resolved to give. -/
def CreateInput.config (input : CreateInput) (image : String) : Config where
  image := image
  imageId := match input.source with
    | .managed imageId => some imageId
    | .reference _ => none
  command := input.command
  cpu := input.cpu
  memoryMb := input.memory
  diskMb := input.disk
  pids := input.pids
  limits := input.limits

/-- The row of a new sandbox, before its reservation. -/
def Row.fresh (config : Config) (expiresAt : Option Time) : Row :=
  ⟨config, .creating, some .create, expiresAt, none, 0, 0, 0⟩

/-- A row with the resources of its configuration reserved. -/
def Row.reserved (row : Row) : Row :=
  { row with
    reservedCpu := row.config.cpu
    reservedMemoryMb := row.config.memoryMb
    reservedDiskMb := row.config.diskMb }

/-- The status of a sandbox while an operation is pending. -/
def Action.pending : Action → Status
  | .create => .creating
  | .start => .starting
  | .stop => .stopping
  | .restart => .stopping
  | .delete => .deleting

/-! ### The transaction -/

namespace Journal

/-- Take a reference on a managed image; a registry image needs none.  Gives the reference the
runtime is to use. -/
def reference (id : String) (source : Source) (j : Journal) : Except Ex (String × Journal) :=
  match source with
  | .managed imageId =>
    match j.images.find? imageId with
    | none => .error (.image 404 "IMAGE_NOT_FOUND" "Image does not exist")
    | some image =>
      if image.status ≠ .ready then .error (.image 409 "IMAGE_NOT_READY" "Image is not ready")
      else match j.sandboxImages.insert? id imageId with
        | none => .error (.sqlite "UNIQUE constraint failed: sandbox_images.sandbox_id")
        | some sandboxImages => .ok (image.ociReference, { j with sandboxImages := sandboxImages })
  | .reference image => .ok (image, j)

/-- `INSERT INTO sandboxes` -/
def insertSandbox (id : String) (row : Row) (j : Journal) : Except Ex Journal :=
  match j.sandboxes.insert? id row with
  | none => .error (.sqlite "UNIQUE constraint failed: sandboxes.id")
  | some sandboxes => .ok { j with sandboxes := sandboxes }

/-- `INSERT INTO lifecycle_requests` -/
def insertRecord (key fingerprint id : String) (action : Action) (j : Journal) :
    Except Ex Journal :=
  match j.requests.insert? key ⟨fingerprint, id, action, none, 200⟩ with
  | none => .error (.sqlite "UNIQUE constraint failed: lifecycle_requests.key")
  | some requests => .ok { j with requests := requests }

/-- The create branch up to its reservation. -/
def prepareCreate (codec : Codec) (now : Time) (id : String) (body : Option String)
    (j : Journal) : Except Ex (Config × Journal) := do
  let input ← CreateInput.parse (← (← codec.parse (body.getD "\x7b\x7d")).asObject)
  let (image, j) ← j.reference id input.source
  let j ← j.insertSandbox id (.fresh (input.config image) (input.ttl.map (expiry now)))
  return (input.config image, j)

/-- The branch for an existing sandbox up to its reservation. -/
def prepareMove (id : String) (action : Action) (j : Journal) : Except Ex (Config × Journal) := do
  let row ← j.get id
  -- Complete older accepted work before recording a new transition.
  if row.intent ≠ none ∧ action ≠ .delete then
    .error (.image 409 "LIFECYCLE_PENDING" "Previous operation is awaiting reconciliation")
  else if row.status = .deleted ∧ action ≠ .delete then
    .error (.image 410 "SANDBOX_DELETED" "Sandbox was deleted")
  else .ok (row.config, j)

/-- The checks of an operation before its reservation, with what they write. -/
def prepare (codec : Codec) (now : Time) (id : String) (action : Action) (body : Option String)
    (j : Journal) : Except Ex (Config × Journal) :=
  match action with
  | .create => j.prepareCreate codec now id body
  | _ => j.prepareMove id action

/-- Create, start and restart reserve; stop and delete do not. -/
def reserveFor (cap : Capacity) (id : String) (action : Action) (config : Config) (j : Journal) :
    Except Ex Journal :=
  if action.Starts then cap.reserve id config.cpu config.memoryMb config.diskMb j else .ok j

/-- The intent of the operations on an existing sandbox. -/
def mark (id : String) (action : Action) (j : Journal) : Journal :=
  match action with
  | .create => j
  | _ => j.setRow id fun row => { row with intent := some action, status := action.pending }

/-- The record of a keyed request. -/
def remember (key : Option String) (fingerprint id : String) (action : Action) (j : Journal) :
    Except Ex Journal :=
  match key with
  | some key => j.insertRecord key fingerprint id action
  | none => .ok j

/-- The intent transaction. -/
def accept (codec : Codec) (cap : Capacity) (now : Time) (id : String) (action : Action)
    (body key : Option String) (fingerprint : String) (j : Journal) : Except Ex Journal := do
  let (config, j) ← j.prepare codec now id action body
  let j ← j.reserveFor cap id action config
  (j.mark id action).remember key fingerprint id action

/-! ### What an accepted request wrote -/

/-- A keyed request left its record under a key that was free; another left none. -/
def Remembered (key : Option String) (rec : Record) (r r' : Table String Record) : Prop :=
  match key with
  | some key => r.insert? key rec = some r'
  | none => r' = r

/-- The image reference of a new sandbox: none for a registry image, and a row of
`sandbox_images` to a ready image otherwise. -/
def Referenced (id : String) (config : Config) (j j' : Journal) : Prop :=
  (config.imageId = none ∧ j'.sandboxImages = j.sandboxImages) ∨
  ∃ imageId image, config.imageId = some imageId ∧ j.images.find? imageId = some image ∧
    image.status = .ready ∧ config.image = image.ociReference ∧
    j.sandboxImages.insert? id imageId = some j'.sandboxImages

/-- The effect of a committed intent transaction, with the checks it passed. -/
inductive Accepted (cap : Capacity) (id fingerprint : String) (key : Option String) :
    Action → Journal → Journal → Prop
  | create {j j' : Journal} (config : Config) (expiresAt : Option Time)
      (sandboxes : j.sandboxes.insert? id (Row.fresh config expiresAt).reserved =
        some j'.sandboxes)
      (fits : ¬ cap.Exceeds id config.cpu config.memoryMb config.diskMb j)
      (image : Referenced id config j j')
      (requests : Remembered key ⟨fingerprint, id, .create, none, 200⟩ j.requests j'.requests)
      (images : j'.images = j.images) (counters : j'.counters = j.counters)
      (hostCapacity : j'.hostCapacity = j.hostCapacity) :
      Accepted cap id fingerprint key .create j j'
  | move {j j' : Journal} (action : Action) (row : Row) (old : action ≠ .create)
      (found : j.sandboxes.find? id = some row)
      (idle : action = .delete ∨ row.intent = none ∧ row.status ≠ .deleted)
      (sandboxes : j'.sandboxes = j.sandboxes.modify id fun row =>
        { (if action.Starts then row.reserved else row) with
          intent := some action, status := action.pending })
      (fits : action.Starts →
        ¬ cap.Exceeds id row.config.cpu row.config.memoryMb row.config.diskMb j)
      (sandboxImages : j'.sandboxImages = j.sandboxImages)
      (requests : Remembered key ⟨fingerprint, id, action, none, 200⟩ j.requests j'.requests)
      (images : j'.images = j.images) (counters : j'.counters = j.counters)
      (hostCapacity : j'.hostCapacity = j.hostCapacity) :
      Accepted cap id fingerprint key action j j'

theorem except_bind_eq_ok {ε α β : Type} {x : Except ε α} {f : α → Except ε β} {b : β} :
    (x >>= f) = .ok b ↔ ∃ a, x = .ok a ∧ f a = .ok b := by
  cases x <;> simp [bind, Except.bind]

theorem reference_eq_ok {image : String} {source : Source}
    (h : j.reference id source = .ok (image, j')) :
    (source = .reference image ∧ j' = j) ∨
    ∃ imageId im sandboxImages, source = .managed imageId ∧ j.images.find? imageId = some im ∧
      im.status = .ready ∧ image = im.ociReference ∧
      j.sandboxImages.insert? id imageId = some sandboxImages ∧
      j' = { j with sandboxImages := sandboxImages } := by
  cases source with
  | reference image' =>
    obtain ⟨rfl, rfl⟩ := Prod.mk.inj (Except.ok.inj h)
    exact Or.inl ⟨rfl, rfl⟩
  | managed imageId =>
    right
    simp only [reference] at h
    cases him : j.images.find? imageId with
    | none => simp [him] at h
    | some im =>
      simp only [him] at h
      split_ifs at h with hready
      cases hins : j.sandboxImages.insert? id imageId with
      | none => simp [hins] at h
      | some sandboxImages =>
        simp only [hins] at h
        obtain ⟨rfl, rfl⟩ := Prod.mk.inj (Except.ok.inj h)
        exact ⟨imageId, im, sandboxImages, rfl, him, not_not.mp hready, rfl, hins, rfl⟩

theorem insertSandbox_eq_ok {row : Row} (h : j.insertSandbox id row = .ok j') :
    ∃ sandboxes, j.sandboxes.insert? id row = some sandboxes ∧
      j' = { j with sandboxes := sandboxes } := by
  unfold insertSandbox at h
  cases hins : j.sandboxes.insert? id row with
  | none => simp [hins] at h
  | some sandboxes =>
    simp only [hins] at h
    exact ⟨sandboxes, rfl, (Except.ok.inj h).symm⟩

theorem prepareCreate_eq_ok {codec : Codec} {config : Config}
    (h : j.prepareCreate codec now id body = .ok (config, j')) :
    ∃ expiresAt sandboxes, j.sandboxes.insert? id (.fresh config expiresAt) = some sandboxes ∧
      Referenced id config j j' ∧
      j' = { j with sandboxes := sandboxes, sandboxImages := j'.sandboxImages } := by
  unfold prepareCreate at h
  simp only [except_bind_eq_ok] at h
  obtain ⟨json, -, fields, -, input, -, ⟨image, j₁⟩, href, j₂, hins, hret⟩ := h
  obtain ⟨rfl, rfl⟩ := Prod.mk.inj (Except.ok.inj hret)
  obtain ⟨sandboxes, hsand, rfl⟩ := insertSandbox_eq_ok hins
  rcases reference_eq_ok href with ⟨hs, rfl⟩ | ⟨imageId, im, t, hs, him, hready, rfl, ht, rfl⟩
  · exact ⟨_, sandboxes, hsand, Or.inl ⟨by simp [CreateInput.config, hs], rfl⟩, rfl⟩
  · exact ⟨_, sandboxes, hsand,
      Or.inr ⟨imageId, im, by simp [CreateInput.config, hs], him, hready, rfl, ht⟩, rfl⟩

theorem prepareMove_eq_ok {config : Config} (h : j.prepareMove id action = .ok (config, j')) :
    j' = j ∧ ∃ row, j.sandboxes.find? id = some row ∧ config = row.config ∧
      (action = .delete ∨ row.intent = none ∧ row.status ≠ .deleted) := by
  unfold prepareMove at h
  rw [except_bind_eq_ok] at h
  obtain ⟨row, hrow, h⟩ := h
  split_ifs at h with hpend hdel
  obtain ⟨rfl, rfl⟩ := Prod.mk.inj (Except.ok.inj h)
  refine ⟨rfl, row, get_eq_ok_iff.mp hrow, rfl, ?_⟩
  by_cases hact : action = .delete
  · exact Or.inl hact
  · exact Or.inr ⟨by_contra fun hn => hpend ⟨hn, hact⟩, fun hd => hdel ⟨hd, hact⟩⟩

theorem remember_eq_ok (h : j.remember key fingerprint id action = .ok j') :
    ∃ requests, Remembered key ⟨fingerprint, id, action, none, 200⟩ j.requests requests ∧
      j' = { j with requests := requests } := by
  cases key with
  | none => exact ⟨j.requests, rfl, (Except.ok.inj h).symm⟩
  | some key =>
    simp only [remember, insertRecord] at h
    cases hins : j.requests.insert? key ⟨fingerprint, id, action, none, 200⟩ with
    | none => simp [hins] at h
    | some requests =>
      simp only [hins] at h
      exact ⟨requests, hins, (Except.ok.inj h).symm⟩

/-- **Inversion of the intent transaction.**  Whatever it commits is an `Accepted` change. -/
theorem accepted_of_accept {codec : Codec}
    (h : j.accept codec cap now id action body key fingerprint = .ok j') :
    Accepted cap id fingerprint key action j j' := by
  unfold accept at h
  simp only [except_bind_eq_ok] at h
  obtain ⟨⟨config, j₁⟩, hprep, j₂, hadm, hrem⟩ := h
  obtain ⟨requests, hreq, rfl⟩ := remember_eq_ok hrem
  by_cases hcreate : action = .create
  · subst hcreate
    obtain ⟨expiresAt, sandboxes, hins, href, hj₁⟩ := prepareCreate_eq_ok hprep
    obtain ⟨hfits, rfl⟩ := Capacity.reserve_eq_ok hadm
    have hsand : j₁.sandboxes = sandboxes := by rw [hj₁]
    refine .create config expiresAt ?_ ?_ ?_ ?_ ?_ ?_ ?_
    · have := Table.insert?_modify hins fun row => { row with
        reservedCpu := config.cpu, reservedMemoryMb := config.memoryMb,
        reservedDiskMb := config.diskMb }
      simpa [mark, setRow, hsand, Row.reserved, Row.fresh] using this
    · have hfree := Table.find?_of_insert?_eq_some hins
      simpa [Capacity.Exceeds, hsand, Table.erase_insert? hins,
        Table.erase_of_find?_eq_none _ hfree] using hfits
    · exact href
    · rw [hj₁] at hreq; exact hreq
    · rw [hj₁]; rfl
    · rw [hj₁]; rfl
    · rw [hj₁]; rfl
  · -- The other operations: `prepare` leaves the journal alone and finds the row.
    have hprep' : j.prepareMove id action = .ok (config, j₁) := by
      cases action <;> first | exact absurd rfl hcreate | exact hprep
    have hmark : ∀ j : Journal, j.mark id action = j.setRow id fun row =>
        { row with intent := some action, status := action.pending } := by
      intro j
      cases action <;> first | exact absurd rfl hcreate | rfl
    obtain ⟨rfl, row, hfind, rfl, hidle⟩ := prepareMove_eq_ok hprep'
    rw [hmark] at hreq ⊢
    unfold reserveFor at hadm
    split_ifs at hadm with hstarts
    · obtain ⟨hfits, rfl⟩ := Capacity.reserve_eq_ok hadm
      refine .move action row hcreate hfind hidle ?_ (fun _ => hfits) rfl hreq rfl rfl rfl
      simp only [setRow, Table.modify_modify]
      exact Table.modify_congr _ hfind (by simp [hstarts, Row.reserved])
    · obtain rfl := Except.ok.inj hadm
      refine .move action row hcreate hfind hidle ?_ (fun h => absurd h hstarts) rfl hreq rfl rfl rfl
      simp [setRow, hstarts]

/-- The intent of what was accepted is pending. -/
theorem Accepted.pending (h : Accepted cap id fingerprint key action j j') :
    ∃ row, j'.sandboxes.find? id = some row ∧ row.intent = some action := by
  cases h with
  | create config expiresAt sandboxes =>
    exact ⟨_, by rw [Table.find?_insert? sandboxes, if_pos rfl], rfl⟩
  | move action row old found idle sandboxes =>
    exact ⟨_, by rw [sandboxes, Table.find?_modify_self, found]; rfl, rfl⟩

end Journal

end Sandcube
