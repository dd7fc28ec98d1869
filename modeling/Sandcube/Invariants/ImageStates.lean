import Sandcube.System.Basic

/-!
# The life of an image

`ImageStatus.Next` is the order in which the status of an image may move.  No statement of
the image side checks it: `failed` and `deleted` are not guarded, and a deletion holds no
lock between its steps.  It holds because of where the fibers are (`ImageSound`): a build
fiber belongs to an image that is BUILDING, a deletion in progress to one that is DELETING
or DELETED, and a reference to one that is READY.

`ImageStep.apply_sound` is the step, for one image; the runs follow from it.
-/

open Relation

namespace Sandcube

variable {ρ ψ : Type} [Inhabited ψ]
variable {j j' : Journal}
variable {id x : String} {fibers : Fibers} {job : Job} {last : Option (Call × Reply)}

/-! ### The order -/

/-- One move of the status of an image. -/
inductive ImageStatus.Next : ImageStatus → ImageStatus → Prop
  | ready : Next .building .ready
  | error : Next .building .error
  | deleteReady : Next .ready .deleting
  | deleteError : Next .error .deleting
  | deleted : Next .deleting .deleted

/-- One move of an image, which may not exist yet. -/
inductive ImageMove : Option ImageStatus → Option ImageStatus → Prop
  | submit : ImageMove none (some .building)
  | next {a b : ImageStatus} (h : a.Next b) : ImageMove (some a) (some b)

/-- The status of an image. -/
def Journal.imageStatus? (j : Journal) (id : String) : Option ImageStatus :=
  (j.images.find? id).map Image.status

theorem Journal.imageStatus?_eq_some {status : ImageStatus} :
    j.imageStatus? id = some status ↔ ∃ im, j.images.find? id = some im ∧ im.status = status :=
  Option.map_eq_some_iff

/-! ### Where the fibers of an image are -/

/-- What is known of the image `id`, from the fibers and the references that name it. -/
structure ImageSound (j : Journal) (fibers : Fibers) (id : String) : Prop where
  building : fibers.builds.find? id ≠ none → j.imageStatus? id = some .building
  deleting : id ∈ fibers.deletions →
    j.imageStatus? id = some .deleting ∨ j.imageStatus? id = some .deleted
  ready : ∀ x, j.sandboxImages.find? x = some id → j.imageStatus? id = some .ready

namespace ImageSound

variable {j j' : Journal} {fibers fibers' : Fibers} {id : String}

/-- An image whose status does not change stays sound when it has no more fibers and
references than before. -/
theorem mono (h : ImageSound j fibers id) (status : j'.imageStatus? id = j.imageStatus? id)
    (builds : fibers'.builds.find? id ≠ none → fibers.builds.find? id ≠ none)
    (deletions : id ∈ fibers'.deletions → id ∈ fibers.deletions)
    (refs : ∀ x, j'.sandboxImages.find? x = some id → j.sandboxImages.find? x = some id) :
    ImageSound j' fibers' id where
  building hb := by rw [status]; exact h.building (builds hb)
  deleting hd := by rw [status]; exact h.deleting (deletions hd)
  ready x hx := by rw [status]; exact h.ready x (refs x hx)

/-- An image that is being built is in nobody else's hands. -/
theorem of_building (h : ImageSound j fibers id) (hb : j.imageStatus? id = some .building) :
    id ∉ fibers.deletions ∧ ∀ x, j.sandboxImages.find? x ≠ some id := by
  refine ⟨fun hd => ?_, fun x hx => ?_⟩
  · rcases h.deleting hd with hs | hs <;> simp [hb] at hs
  · simpa [hb] using h.ready x hx

end ImageSound

/-! ### One step of the image side -/

namespace ImageStore

theorem imageStatus?_setImage (id k : String) (f : Image → Image) (j : Journal) :
    (setImage id f j).imageStatus? k =
      if k = id then (j.images.find? id).map (Image.status ∘ f) else j.imageStatus? k := by
  simp only [Journal.imageStatus?, setImage, Table.find?_modify]
  split_ifs with h
  · rw [h, Option.map_map]
  · rfl

theorem imageStatus?_setImage_self {f : Image → Image} {im : Image}
    (h : j.images.find? id = some im) : (setImage id f j).imageStatus? id = some (f im).status := by
  rw [imageStatus?_setImage, if_pos rfl, h]
  rfl

theorem imageStatus?_setImage_of_ne {k : String} (h : k ≠ id) (f : Image → Image) (j : Journal) :
    (setImage id f j).imageStatus? k = j.imageStatus? k := by
  rw [imageStatus?_setImage, if_neg h]

theorem references_eq_zero (h : ¬ 0 < references id j) (x : String) :
    j.sandboxImages.find? x ≠ some id := by
  intro hx
  have hmem : x ∈ j.sandboxImages.keysWhere fun _ imageId => imageId = id := by
    rw [Table.mem_keysWhere_iff]
    exact ⟨id, hx, decide_eq_true rfl⟩
  exact h (List.length_pos_of_mem hmem)

end ImageStore

open ImageStore

/-- The image stays sound, and its status moves by at most one move. -/
def ImageAdvances (j : Journal) (next : Journal × Fibers) (id : String) : Prop :=
  ImageSound next.1 next.2 id ∧ ReflGen ImageMove (j.imageStatus? id) (next.1.imageStatus? id)

theorem ImageAdvances.stay (h : ImageSound j fibers id) :
    ImageAdvances j (j, fibers) id := ⟨h, .refl⟩

/-- Whatever a step does to another image, this one stays as it is. -/
theorem ImageAdvances.frame {fibers' : Fibers} (h : ImageSound j fibers id)
    (status : j'.imageStatus? id = j.imageStatus? id)
    (builds : fibers'.builds.find? id ≠ none → fibers.builds.find? id ≠ none)
    (deletions : id ∈ fibers'.deletions → id ∈ fibers.deletions)
    (refs : ∀ x, j'.sandboxImages.find? x = some id → j.sandboxImages.find? x = some id) :
    ImageAdvances j (j', fibers') id :=
  ⟨h.mono status builds deletions refs, by rw [status]⟩

section Steps

variable {j : Journal} {fibers : Fibers} {k : String}

section

variable (h : ImageSound j fibers k)
include h

theorem submit_advances (id : String) (name : Option String) (dockerfile : String) :
    ImageAdvances j ((ImageStep.submit id name dockerfile).apply j fibers) k := by
  simp only [ImageStep.apply, create]
  cases hins : j.images.insert? id ⟨name, .building, reference id, none, dockerfile, none⟩ with
  | none => exact .stay h
  | some images =>
    have hstatus : ({ j with images := images } : Journal).imageStatus? k =
        if k = id then some .building else j.imageStatus? k := by
      simp only [Journal.imageStatus?, Table.find?_insert? hins]
      split_ifs <;> rfl
    have hbuilds : k ≠ id → ((fibers.builds.insert? id .building).getD fibers.builds).find? k =
        fibers.builds.find? k := by
      intro hk
      cases hb : fibers.builds.insert? id .building with
      | none => rfl
      | some builds => rw [Option.getD_some, Table.find?_insert? hb, if_neg hk]
    by_cases hk : k = id
    · subst hk
      rw [if_pos rfl] at hstatus
      have hnew : j.imageStatus? k = none := by
        rw [Journal.imageStatus?, Table.find?_of_insert?_eq_some hins, Option.map_none]
      refine ⟨⟨fun _ => hstatus, fun hd => ?_, fun x hx => ?_⟩, ?_⟩
      · simpa [hnew] using h.deleting hd
      · simpa [hnew] using h.ready x hx
      · rw [hnew, hstatus]; exact .single .submit
    · rw [if_neg hk] at hstatus
      refine .frame h hstatus (fun hb => ?_) (fun hd => hd) fun _ hx => hx
      rwa [hbuilds hk] at hb

/-- The fiber of a build ends; its image becomes what `f` makes of it. -/
theorem build_ends {f : Image → Image} (hfiber : fibers.builds.find? id ≠ none)
    (hf : ∀ im : Image, im.status = .building → ImageStatus.Next .building (f im).status) :
    ImageAdvances j (setImage id f j, { fibers with builds := fibers.builds.erase id }) k := by
  by_cases hk : k = id
  · subst hk
    have hb := h.building hfiber
    obtain ⟨hd, hrefs⟩ := h.of_building hb
    obtain ⟨im, hfound, him⟩ := Journal.imageStatus?_eq_some.mp hb
    refine ⟨⟨fun hne => ?_, fun hdel => absurd hdel hd, fun x hx => absurd hx (hrefs x)⟩, ?_⟩
    · exact absurd (Table.find?_erase_self _ _) hne
    · rw [hb, imageStatus?_setImage_self hfound]
      exact .single (.next (hf im him))
  · refine .frame h (imageStatus?_setImage_of_ne hk f j) (fun hne => ?_) (fun hd => hd)
      fun _ hx => hx
    rwa [Table.find?_erase_of_ne _ hk] at hne

theorem beginDelete_advances (id : String) :
    ImageAdvances j ((ImageStep.beginDelete id).apply j fibers) k := by
  simp only [ImageStep.apply, beginDelete]
  cases hfound : j.images.find? id with
  | none => exact .stay h
  | some im =>
    dsimp only
    split_ifs with hbuild hrefs hdeleted
    · exact .stay h
    · exact .stay h
    · exact .stay h
    · by_cases hk : k = id
      · subst hk
        have hstatus := imageStatus?_setImage_self (f := fun im => { im with status := .deleting })
          hfound
        refine ⟨⟨fun hb => ?_, fun _ => .inl hstatus, fun x hx => ?_⟩, ?_⟩
        · obtain ⟨im', hfound', him'⟩ := Journal.imageStatus?_eq_some.mp (h.building hb)
          rw [hfound, Option.some.injEq] at hfound'
          rw [← hfound'] at him'
          exact absurd him' hbuild
        · exact absurd hx (references_eq_zero hrefs x)
        · rw [hstatus, Journal.imageStatus?, hfound, Option.map_some]
          cases hs : im.status with
          | building => exact absurd hs hbuild
          | ready => exact .single (.next .deleteReady)
          | error => exact .single (.next .deleteError)
          | deleting => exact .refl
          | deleted => exact absurd hs hdeleted
      · refine .frame h (imageStatus?_setImage_of_ne hk _ j) (fun hb => hb) (fun hd => ?_)
          fun _ hx => hx
        rcases List.mem_cons.mp hd with heq | hd
        · exact absurd heq hk
        · exact hd

theorem finishDelete_advances (id : String) :
    ImageAdvances j ((ImageStep.finishDelete id).apply j fibers) k := by
  simp only [ImageStep.apply]
  split_ifs with hd
  · by_cases hk : k = id
    · subst hk
      have hold := h.deleting hd
      have hfound : ∃ im, j.images.find? k = some im := by
        rcases hold with hs | hs <;>
          exact (Journal.imageStatus?_eq_some.mp hs).imp fun _ => And.left
      obtain ⟨im, hfound⟩ := hfound
      have hstatus : (deleted k j).imageStatus? k = some .deleted := imageStatus?_setImage_self hfound
      refine ⟨⟨fun hb => ?_, fun _ => .inr hstatus, fun x hx => ?_⟩, ?_⟩
      · rcases hold with hs | hs <;> simp [h.building hb] at hs
      · rcases hold with hs | hs <;> simp [h.ready x hx] at hs
      · rw [hstatus]
        rcases hold with hs | hs <;> rw [hs]
        exact .single (.next .deleted)
    · exact .frame h (imageStatus?_setImage_of_ne hk _ j) (fun hb => hb) List.mem_of_mem_erase
        fun _ hx => hx
  · exact .stay h

theorem reserve_advances (id sandboxId : String) :
    ImageAdvances j ((ImageStep.reserve id sandboxId).apply j fibers) k := by
  simp only [ImageStep.apply, reserve]
  cases hfound : j.images.find? id with
  | none => exact .stay h
  | some im =>
    dsimp only
    split_ifs with hready
    · exact .stay h
    · cases hins : j.sandboxImages.insert? sandboxId id with
      | none => exact .stay h
      | some sandboxImages =>
        refine ⟨⟨h.building, h.deleting, fun x hx => ?_⟩, .refl⟩
        rw [Table.find?_insert? hins] at hx
        split_ifs at hx with hxs
        · obtain rfl := Option.some.inj hx
          exact Journal.imageStatus?_eq_some.mpr ⟨im, hfound, not_not.mp hready⟩
        · exact h.ready x hx

end

end Steps

/-- **A step of the image side moves an image by at most one move.** -/
theorem ImageStep.apply_advances {k : String} (h : ImageSound j fibers k) (step : ImageStep) :
    ImageAdvances j (step.apply j fibers) k := by
  cases step with
  | submit id name dockerfile => exact submit_advances h id name dockerfile
  | built id digest =>
    simp only [apply]
    split_ifs with hfiber
    · refine build_ends h (by simp [hfiber]) fun im him => ?_
      simp only [him, if_true]
      exact .ready
    · exact .stay h
  | buildRaised id message =>
    simp only [apply]
    split_ifs with hfiber
    · refine .frame h rfl (fun hb hnone => hb ?_) (fun hd => hd) fun _ hx => hx
      rw [Table.find?_modify]
      split_ifs with hk
      · rw [hnone, Option.map_none]
      · exact hnone
    · exact .stay h
  | recordFailure id =>
    simp only [apply]
    cases hfiber : fibers.builds.find? id with
    | none => exact .stay h
    | some phase =>
      cases phase with
      | building => exact .stay h
      | failed message => exact build_ends h (by simp [hfiber]) fun im _ => .error
  | beginDelete id => exact beginDelete_advances h id
  | finishDelete id => exact finishDelete_advances h id
  | abandonDelete id =>
    exact .frame h rfl (fun hb => hb) List.mem_of_mem_erase fun _ hx => hx
  | reserve id sandboxId => exact reserve_advances h id sandboxId
  | release sandboxId =>
    refine .frame h rfl (fun hb => hb) (fun hd => hd) fun x hx => ?_
    rw [ImageStore.release, Table.find?_erase] at hx
    split_ifs at hx
    exact hx

/-! ### The other writers of the two tables -/

/-- The lifecycle side does not write `images`. -/
theorem Write.images_eq (h : Write job x last j j') : j'.images = j.images := by
  cases h with
  | accept _ _ _ accepted => cases accepted <;> assumption
  | row found step => rfl
  | complete found pending whole answer done =>
    rw [Journal.complete_of_find? found, Except.ok.injEq] at done
    rw [← done]
  | compensate found pending launch answer | count name | dropImage sweeping gone answer => rfl

/-- What a write for `x` can make of the reference of `x`. -/
inductive ReferenceChange (j : Journal) : Option String → Option String → Prop
  | same {ref : Option String} : ReferenceChange j ref ref
  | take {id : String} (ready : j.imageStatus? id = some .ready) : ReferenceChange j none (some id)
  | drop {ref : Option String} : ReferenceChange j ref none

theorem Write.referenceChange (h : Write job x last j j') :
    ReferenceChange j (j.sandboxImages.find? x) (j'.sandboxImages.find? x) := by
  cases h with
  | accept _ _ _ accepted =>
    cases accepted with
    | create config expiresAt sandboxes fits image =>
      rcases image with ⟨-, himage⟩ | ⟨imageId, im, -, hfound, hready, -, hins⟩
      · rw [himage]
        exact .same
      · rw [Table.find?_of_insert?_eq_some hins, Table.find?_insert? hins, if_pos rfl]
        exact .take (Journal.imageStatus?_eq_some.mpr ⟨im, hfound, hready⟩)
    | move action row old found idle sandboxes fits sandboxImages =>
      rw [sandboxImages]
      exact .same
  | row found step => exact .same
  | complete found pending whole answer done =>
    rw [Journal.complete_of_find? found, Except.ok.injEq] at done
    rw [← done]
    dsimp only
    split_ifs
    · rw [Table.find?_erase_self]
      exact .drop
    · exact .same
  | compensate found pending launch answer | count name => exact .same
  | dropImage sweeping gone answer =>
    rw [Journal.dropImage, Table.find?_erase_self]
    exact .drop

/-- A write of the lifecycle side takes references to READY images only. -/
theorem ImageSound.write {job : Job} {x : String} {last : Option (Call × Reply)} {fibers : Fibers}
    {id : String} (h : ImageSound j fibers id) (hw : Write job x last j j') :
    ImageSound j' fibers id ∧ j'.imageStatus? id = j.imageStatus? id := by
  have hstatus : j'.imageStatus? id = j.imageStatus? id := by
    rw [Journal.imageStatus?, hw.images_eq, Journal.imageStatus?]
  refine ⟨⟨?_, ?_, fun y hy => ?_⟩, hstatus⟩
  · rw [hstatus]; exact h.building
  · rw [hstatus]; exact h.deleting
  · rw [hstatus]
    by_cases hyx : y = x
    · subst hyx
      have hchange := hw.referenceChange
      rw [hy] at hchange
      generalize hold : j.sandboxImages.find? y = old at hchange
      cases hchange with
      | same => exact h.ready y hold
      | take ready => exact ready
    · rw [hw.sandboxImages_of_ne hyx] at hy
      exact h.ready y hy

/-- A restart ends the builds that were interrupted. -/
theorem ImageSound.interruptedBuilds (h : ImageSound j .none id) :
    ImageAdvances j (ImageStore.interruptedBuilds j, .none) id := by
  have hstatus : (ImageStore.interruptedBuilds j).imageStatus? id =
      (j.imageStatus? id).map fun s => if s = .building then .error else s := by
    simp only [Journal.imageStatus?, ImageStore.interruptedBuilds, Table.find?_mapRows,
      Option.map_map]
    congr 1
    funext im
    simp only [Function.comp_apply]
    split_ifs <;> rfl
  refine ⟨⟨fun hb => absurd rfl hb, by simp [Fibers.none], fun x hx => ?_⟩, ?_⟩
  · rw [hstatus, h.ready x hx]
    rfl
  · rw [hstatus]
    cases j.imageStatus? id with
    | none => exact .refl
    | some status =>
      cases status with
      | building => exact .single (.next .error)
      | ready | error | deleting | deleted => exact .refl

/-! ### Runs -/

/-- Against any runtime and in any setting, the image stays sound and keeps moving forward
from any status it once had. -/
theorem image_keeps (R : Runtime ρ ψ) (S : Setting ρ ψ)
    (hjob : ∀ {job x} {w w' : World ρ}, S.job job w → Move R S.rules job x w w' → S.job job w')
    (id : String) (old : Option ImageStatus) :
    S.Keeps R fun w => ImageSound w.journal w.fibers id ∧
      ReflTransGen ImageMove old (w.journal.imageStatus? id) where
  call h _ _ _ := h
  write h _ _ hw := by
    obtain ⟨hsound, hstatus⟩ := h.1.write hw
    refine ⟨hsound, ?_⟩
    rw [World.withJournal, hstatus]
    exact h.2
  image {step w} h _ := by
    obtain ⟨hsound, hmove⟩ := step.apply_advances h.1
    exact ⟨hsound, h.2.trans hmove.to_reflTransGen⟩
  job _ := hjob
  done h := h
  die h := ⟨⟨fun hb => absurd rfl hb, nofun, h.1.ready⟩, h.2⟩
  configure h _ := ⟨⟨h.1.building, h.1.deleting, h.1.ready⟩, h.2⟩
  builds {w} h hfibers := by
    obtain ⟨hsound, hmove⟩ := (hfibers ▸ h.1).interruptedBuilds
    refine ⟨?_, h.2.trans hmove.to_reflTransGen⟩
    rw [World.withJournal, hfibers]
    exact hsound
  drift h _ _ := h

theorem ImageSound.empty (id : String) : ImageSound .empty .none id :=
  ⟨fun hb => absurd rfl hb, nofun, nofun⟩

theorem System.Reachable.imageSound {codec : Codec} {R : Runtime ρ ψ} {S : Setting ρ ψ}
    {init : ρ → Prop} {s : System ρ} (hs : s.Reachable codec R S init) (id : String) :
    ImageSound s.world.journal s.world.fibers id := by
  refine ((hs.any.invariant (image_keeps R .any (fun _ _ => trivial) id none) ?_).1).1
  intro s hstart _
  rw [hstart.journal, hstart.fibers]
  exact ⟨.empty id, .refl⟩

/-- **Referenced images stay READY, and image state never goes backwards.**  In every
reachable state, whatever the runtime does and wherever the process was killed, a reference
names an image that is READY; and from there on every image moves along BUILDING → READY or
ERROR → DELETING → DELETED. -/
theorem referenced_images_ready (codec : Codec) (R : Runtime ρ ψ) (s : System ρ)
    (hs : s.Reachable codec R .any fun _ => True) :
    (∀ x id, s.world.journal.sandboxImages.find? x = some id →
      s.world.journal.imageStatus? id = some .ready) ∧
    ∀ t, System.Later codec R .any s t → ∀ id,
      ReflTransGen ImageMove (s.world.journal.imageStatus? id) (t.world.journal.imageStatus? id) := by
  refine ⟨fun x id => (hs.imageSound id).ready x, fun t ht id => ?_⟩
  have hkeeps := image_keeps R .any (fun _ _ => trivial) id (s.world.journal.imageStatus? id)
  exact (ht.invariant hkeeps ⟨hs.imageSound id, .refl⟩ hs.settled).1.2

namespace Sample

/-- An image is built and `sbx_9` takes a reference to it. -/
def reserved : List (Act Containers Fault) :=
  [.boot capacity true, .image (.submit "img_1" none "FROM busybox"),
    .image (.built "img_1" "sha256:1"), .image (.reserve "img_1" "sbx_9")]

/-- The image is deleted once the reference is gone; the first attempt comes too early. -/
def retired : List (Act Containers Fault) :=
  [.image (.beginDelete "img_1"), .image (.release "sbx_9"), .image (.beginDelete "img_1"), .halt,
    .boot capacity true, .image (.beginDelete "img_1"), .image (.finishDelete "img_1")]

end Sample

theorem referenced_images_ready_retired :
    (Sample.run Sample.reserved).world.journal.sandboxImages.find? "sbx_9" = some "img_1" ∧
    (Sample.run Sample.reserved).world.journal.imageStatus? "img_1" = some .ready ∧
    (Sample.run (Sample.reserved ++ Sample.retired)).world.journal.imageStatus? "img_1" =
      some .deleted ∧
    ReflTransGen ImageMove (some .ready) (some .deleted) := by
  have hs : (Sample.run Sample.reserved).Reachable Sample.codec Containers.runtime .any
      fun _ => True :=
    (Sample.reachable (S := .any) Sample.reserved ⟨trivial, trivial, trivial, trivial, trivial⟩).any
  have href : (Sample.run Sample.reserved).world.journal.sandboxImages.find? "sbx_9" =
      some "img_1" := by decide
  have hdeleted : (Sample.run (Sample.reserved ++ Sample.retired)).world.journal.imageStatus?
      "img_1" = some .deleted := by decide
  obtain ⟨hready, hlater⟩ := referenced_images_ready Sample.codec Containers.runtime _ hs
  have hafter : System.Later Sample.codec Containers.runtime .any (Sample.run Sample.reserved)
      (Sample.run (Sample.reserved ++ Sample.retired)) := by
    rw [Sample.run, Sample.run, Transition.run_append]
    exact Transition.Later.run ⟨trivial, trivial, trivial, trivial, trivial, trivial, trivial, trivial⟩
  have hmoves := hlater _ hafter "img_1"
  rw [hready _ _ href, hdeleted] at hmoves
  exact ⟨href, hready _ _ href, hdeleted, hmoves⟩

end Sandcube
