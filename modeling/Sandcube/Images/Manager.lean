import Sandcube.Images.Store

/-!
# The image manager

`src/images/builder.cr`: the fibers of `ImageManager` and the steps they take.

A submission inserts its image and spawns a fiber that builds it; the fiber ends by
recording the digest, or by removing what a failed build left behind and recording the
failure.  A deletion is three steps with no lock held across them: `begin_delete`, the
runtime's delete, `deleted`.  The fibers of the image side run between any two steps of
each other and of the lifecycle side; only database transactions exclude each other.

An `ImageStep` is one database transaction of the image side, together with the move of
the fiber that issues it.  A step whose fiber is not there, or whose transaction raises,
changes nothing.
-/

namespace Sandcube

/-- Where the fiber of a build is. -/
inductive BuildPhase where
  /-- Waiting for the build lock or running the builder. -/
  | building
  /-- The builder raised; what it left behind is being removed. -/
  | failed (message : String)
  deriving DecidableEq

/-- The fibers of the image side.  They live in the process and die with it. -/
structure Fibers where
  builds : Table String BuildPhase
  /-- Images whose deletion is between `begin_delete` and `deleted`, one entry a call. -/
  deletions : List String

/-- A process that has just started has no fiber. -/
def Fibers.none : Fibers := ⟨.empty, []⟩

/-- One transaction of the image side. -/
inductive ImageStep where
  /-- `ImageManager#submit`, at its `ImageStore#create`. -/
  | submit (id : String) (name : Option String) (dockerfile : String)
  /-- The builder returned: `ImageStore#ready`, and the fiber ends. -/
  | built (id digest : String)
  /-- The builder raised. -/
  | buildRaised (id message : String)
  /-- The cleanup is over: `ImageStore#failed`, and the fiber ends. -/
  | recordFailure (id : String)
  /-- `ImageManager#delete`, at its `ImageStore#begin_delete`. -/
  | beginDelete (id : String)
  /-- The runtime deleted the image: `ImageStore#deleted`. -/
  | finishDelete (id : String)
  /-- The runtime failed to delete the image; the call ends there. -/
  | abandonDelete (id : String)
  /-- `ImageStore#reserve` -/
  | reserve (id sandboxId : String)
  /-- `ImageStore#release` -/
  | release (sandboxId : String)

/-- The effect of a step of the image side. -/
def ImageStep.apply (step : ImageStep) (j : Journal) (fibers : Fibers) : Journal × Fibers :=
  match step with
  | .submit id name dockerfile =>
    match ImageStore.create id name dockerfile j with
    | .ok j' =>
      (j', { fibers with builds := (fibers.builds.insert? id .building).getD fibers.builds })
    | .error _ => (j, fibers)
  | .built id digest =>
    if fibers.builds.find? id = some .building then
      (ImageStore.ready id digest j, { fibers with builds := fibers.builds.erase id })
    else (j, fibers)
  | .buildRaised id message =>
    if fibers.builds.find? id = some .building then
      (j, { fibers with builds := fibers.builds.modify id fun _ => .failed message })
    else (j, fibers)
  | .recordFailure id =>
    match fibers.builds.find? id with
    | some (.failed message) =>
      (ImageStore.failed id message j, { fibers with builds := fibers.builds.erase id })
    | _ => (j, fibers)
  | .beginDelete id =>
    match ImageStore.beginDelete id j with
    | .ok (.deleted, j') => (j', fibers)
    | .ok (_, j') => (j', { fibers with deletions := id :: fibers.deletions })
    | .error _ => (j, fibers)
  | .finishDelete id =>
    if id ∈ fibers.deletions then
      (ImageStore.deleted id j, { fibers with deletions := fibers.deletions.erase id })
    else (j, fibers)
  | .abandonDelete id => (j, { fibers with deletions := fibers.deletions.erase id })
  | .reserve id sandboxId =>
    match ImageStore.reserve id sandboxId j with
    | .ok j' => (j', fibers)
    | .error _ => (j, fibers)
  | .release sandboxId => (ImageStore.release sandboxId j, fibers)

/-- A step that leaves `sandbox_images` to the lifecycle side. -/
def ImageStep.Internal : ImageStep → Prop
  | .reserve _ _ | .release _ => False
  | _ => True

/-- The image side writes `images` and `sandbox_images` and nothing else. -/
theorem ImageStep.apply_journal (step : ImageStep) (j : Journal) (fibers : Fibers) :
    ∃ images sandboxImages, (step.apply j fibers).1 =
      { j with images := images, sandboxImages := sandboxImages } := by
  cases step with
  | submit id name dockerfile =>
    simp only [apply, ImageStore.create]
    cases j.images.insert? id _ <;> exact ⟨_, _, rfl⟩
  | built id digest | buildRaised id message | recordFailure id =>
    simp only [apply]; split <;> exact ⟨_, _, rfl⟩
  | beginDelete id =>
    simp only [apply, ImageStore.beginDelete]
    cases j.images.find? id with
    | none => exact ⟨_, _, rfl⟩
    | some image =>
      dsimp only
      split_ifs <;> exact ⟨_, _, rfl⟩
  | finishDelete id => simp only [apply]; split <;> exact ⟨_, _, rfl⟩
  | abandonDelete id => exact ⟨_, _, rfl⟩
  | reserve id sandboxId =>
    simp only [apply, ImageStore.reserve]
    cases j.images.find? id with
    | none => exact ⟨_, _, rfl⟩
    | some image =>
      dsimp only
      split_ifs
      · exact ⟨_, _, rfl⟩
      · cases j.sandboxImages.insert? sandboxId id <;> exact ⟨_, _, rfl⟩
  | release sandboxId => exact ⟨_, _, rfl⟩

/-- The steps of the image manager leave `sandbox_images` alone. -/
theorem ImageStep.Internal.sandboxImages_eq {step : ImageStep} (h : step.Internal) (j : Journal)
    (fibers : Fibers) : (step.apply j fibers).1.sandboxImages = j.sandboxImages := by
  cases step with
  | submit id name dockerfile =>
    simp only [apply, ImageStore.create]
    cases j.images.insert? id _ <;> rfl
  | built id digest | buildRaised id message | recordFailure id => simp only [apply]; split <;> rfl
  | beginDelete id =>
    simp only [apply, ImageStore.beginDelete]
    cases j.images.find? id with
    | none => rfl
    | some image =>
      dsimp only
      split_ifs <;> rfl
  | finishDelete id => simp only [apply]; split <;> rfl
  | abandonDelete id => rfl
  | reserve id sandboxId | release sandboxId => cases h

end Sandcube
