import Sandcube.Journal.Intent

/-!
# The image store

`src/images/store.cr`: the statements of `ImageStore`, each one transaction.

`ready` is guarded by the status it expects and `begin_delete` by its checks; `failed` and
`deleted` are not guarded at all.
-/

namespace Sandcube

namespace ImageStore

/-- `UPDATE images SET … WHERE id=?1` -/
def setImage (id : String) (f : Image → Image) (j : Journal) : Journal :=
  { j with images := j.images.modify id f }

/-- `ImageStore#reference` -/
def reference (id : String) : String := "sandcube.local/images/" ++ id ++ ":latest"

/-- `ImageStore#create` -/
def create (id : String) (name : Option String) (dockerfile : String) (j : Journal) :
    Except Ex Journal :=
  match j.images.insert? id ⟨name, .building, reference id, none, dockerfile, none⟩ with
  | none => .error (.sqlite "UNIQUE constraint failed: images.id")
  | some images => .ok { j with images := images }

/-- `ImageStore#ready`: `WHERE id=?1 AND status='BUILDING'` -/
def ready (id digest : String) (j : Journal) : Journal :=
  setImage id (fun image => if image.status = .building then
    { image with status := .ready, ociDigest := some digest, errorMessage := none } else image) j

/-- `ImageStore#failed` -/
def failed (id message : String) (j : Journal) : Journal :=
  setImage id (fun image => { image with status := .error, errorMessage := some message }) j

/-- `ImageStore#reserve` -/
def reserve (id sandboxId : String) (j : Journal) : Except Ex Journal :=
  match j.images.find? id with
  | none => .error (.image 404 "IMAGE_NOT_FOUND" ("Image " ++ id ++ " does not exist"))
  | some image =>
    if image.status ≠ .ready then
      .error (.image 409 "IMAGE_NOT_READY" ("Image " ++ id ++ " is " ++ image.status.text))
    else match j.sandboxImages.insert? sandboxId id with
      | none => .error (.sqlite "UNIQUE constraint failed: sandbox_images.sandbox_id")
      | some sandboxImages => .ok { j with sandboxImages := sandboxImages }

/-- `ImageStore#release` -/
def release (sandboxId : String) (j : Journal) : Journal :=
  { j with sandboxImages := j.sandboxImages.erase sandboxId }

/-- `SELECT count(*) FROM sandbox_images WHERE image_id=?1` -/
def references (id : String) (j : Journal) : ℕ :=
  (j.sandboxImages.keysWhere fun _ imageId => imageId = id).length

/-- `ImageStore#begin_delete`.  Gives the journal and the status the row then has. -/
def beginDelete (id : String) (j : Journal) : Except Ex (ImageStatus × Journal) :=
  match j.images.find? id with
  | none => .error (.image 404 "IMAGE_NOT_FOUND" ("Image " ++ id ++ " does not exist"))
  | some image =>
    if image.status = .building then
      .error (.image 409 "IMAGE_BUILDING" "Cannot delete an active build")
    else if 0 < references id j then
      .error (.image 409 "IMAGE_IN_USE" "Image is referenced by sandboxes")
    else if image.status = .deleted then .ok (.deleted, j)
    else .ok (.deleting, setImage id (fun image => { image with status := .deleting }) j)

/-- `ImageStore#deleted` -/
def deleted (id : String) (j : Journal) : Journal :=
  setImage id (fun image => { image with status := .deleted, errorMessage := none }) j

/-- `ImageStore#interrupted_builds` -/
def interruptedBuilds (j : Journal) : Journal :=
  { j with
    images := j.images.mapRows fun _ image =>
      if image.status = .building then
        { image with
          status := .error
          errorMessage := some "Build interrupted by service restart" }
      else image }

end ImageStore

end Sandcube
