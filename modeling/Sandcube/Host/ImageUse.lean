import Sandcube.Host.Transparency
import Sandcube.Invariants.ImageStates

/-!
# Images that sandboxes use

A create request names its image by `image_id` or by `image`.  The first takes a row of
`sandbox_images` in the transaction that accepts the request, and the row stays until the
container is known to be gone (`Linked`); so `begin_delete` refuses the image as long as a
container uses it.

The second takes none, and nothing keeps it from naming a managed image by its
`oci_reference`.  `managed_image_protected_iff` says that the protection is there exactly for
the sandboxes created by `image_id`, and `unlinked_image_deleted` is a run in which an image
goes into deletion under a container that runs on it.
-/

open Relation

namespace Sandcube

variable {j : Journal} {job : Job} {x : String} {last : Option (Call × Reply)} {row : Row}

/-! ### The name of an image -/

/-- The `oci_reference` of an image is made from its identifier. -/
def Journal.Named (j : Journal) : Prop :=
  ∀ id im, j.images.find? id = some im → im.ociReference = ImageStore.reference id

theorem ImageStore.reference_injective : Function.Injective ImageStore.reference := by
  intro a b h
  have hchars := congrArg String.toList h
  unfold ImageStore.reference at hchars
  -- What the two constants are does not matter, and they are long to compute with.
  generalize "sandcube.local/images/" = head, ":latest" = tail at hchars
  simp only [String.toList_append, List.append_cancel_right_eq, List.append_cancel_left_eq]
    at hchars
  exact String.toList_injective hchars

theorem Journal.Named.setImage (h : j.Named) (id : String) {f : Image → Image}
    (hf : ∀ im, (f im).ociReference = im.ociReference) : (ImageStore.setImage id f j).Named := by
  intro k im hk
  rw [ImageStore.setImage, Table.find?_modify] at hk
  split_ifs at hk
  · obtain ⟨im₀, hfound, rfl⟩ := Option.map_eq_some_iff.mp hk
    rw [hf]
    exact h k im₀ hfound
  · exact h k im hk

theorem ImageStep.apply_named (h : j.Named) (step : ImageStep) (fibers : Fibers) :
    (step.apply j fibers).1.Named := by
  cases step with
  | submit id name dockerfile =>
    simp only [apply, ImageStore.create]
    cases hins : j.images.insert? id _ with
    | none => exact h
    | some images =>
      intro k im hk
      rw [Table.find?_insert? hins] at hk
      split_ifs at hk with hkid
      · rw [← Option.some.inj hk, hkid]
      · exact h k im hk
  | built id digest =>
    simp only [apply]
    split_ifs
    · exact h.setImage id fun im => by split_ifs <;> rfl
    · exact h
  | buildRaised id message => simp only [apply]; split_ifs <;> exact h
  | recordFailure id =>
    simp only [apply]
    split
    · exact h.setImage id fun _ => rfl
    · exact h
  | beginDelete id =>
    simp only [apply, ImageStore.beginDelete]
    cases j.images.find? id with
    | none => exact h
    | some image =>
      dsimp only
      split_ifs
      · exact h
      · exact h
      · exact h
      · exact h.setImage id fun _ => rfl
  | finishDelete id =>
    simp only [apply]
    split_ifs
    · exact h.setImage id fun _ => rfl
    · exact h
  | abandonDelete id => exact h
  | reserve id sandboxId =>
    have himages : ∀ j', ImageStore.reserve id sandboxId j = .ok j' → j'.images = j.images := by
      intro j' hj'
      unfold ImageStore.reserve at hj'
      split at hj'
      · cases hj'
      · split_ifs at hj'
        split at hj'
        · cases hj'
        · rw [← Except.ok.inj hj']
    simp only [apply]
    split
    · next j' hj' =>
      intro k im hk
      rw [himages j' hj'] at hk
      exact h k im hk
    · exact h
  | release sandboxId => exact h

theorem Journal.Named.interruptedBuilds (h : j.Named) : (ImageStore.interruptedBuilds j).Named := by
  intro k im hk
  rw [ImageStore.interruptedBuilds, Table.find?_mapRows] at hk
  obtain ⟨im₀, hfound, rfl⟩ := Option.map_eq_some_iff.mp hk
  have hkeep := h k im₀ hfound
  split_ifs <;> exact hkeep

/-! ### The reference of a sandbox -/

/-- The row of a sandbox, its container and its row of `sandbox_images`. -/
structure Linked (row : Row) (c : Option Container) (link : Option String) : Prop where
  /-- From its acceptance to the end of its container, a sandbox holds the reference its
  request asked for. -/
  held : row.intent = some .create ∨ c ≠ none → link = row.config.imageId
  /-- It never holds another. -/
  asked : ∀ id, link = some id → row.config.imageId = some id
  /-- The container is created from the image that the reference protects. -/
  image : ∀ id, row.config.imageId = some id → row.config.image = ImageStore.reference id

namespace Linked

variable {row row' : Row} {c c' : Option Container} {link : Option String}

/-- The row and the container change, the reference does not. -/
theorem mono (h : Linked row c link) (config : row'.config = row.config)
    (held : row'.intent = some .create ∨ c' ≠ none → row.intent = some .create ∨ c ≠ none) :
    Linked row' c' link := by
  refine ⟨fun hh => ?_, ?_, ?_⟩
  · rw [config]; exact h.held (held hh)
  · rw [config]; exact h.asked
  · rw [config]; exact h.image

/-- The reference is dropped when there is no container and none will be created. -/
theorem drop (h : Linked row none link) (config : row'.config = row.config)
    (hi : row'.intent ≠ some .create) : Linked row' none none := by
  refine ⟨fun hh => ?_, nofun, ?_⟩
  · rcases hh with hh | hh
    · exact absurd hh hi
    · exact absurd rfl hh
  · rw [config]; exact h.image

/-- A request makes a container only where a create is pending. -/
theorem effect (h : Linked row c link) {call : Call}
    (hdue : call.target? = some x → Due job x (some row) last call) :
    Linked row (Container.effect x c call) link := by
  refine h.mono rfl fun hh => ?_
  rcases hh with hi | hc
  · exact .inl hi
  cases call with
  | create spec =>
    by_cases hx : spec.id = x
    · obtain ⟨r, hr, hi, -⟩ := hdue (congrArg some hx)
      cases hr
      exact .inl hi
    · simp only [Container.effect, if_neg hx] at hc
      exact .inr hc
  | delete id =>
    simp only [Container.effect] at hc
    split_ifs at hc with hx
    · exact absurd rfl hc
    · exact .inr hc
  | start id | stop id =>
    refine .inr fun hnone => hc ?_
    simp [Container.effect, hnone]
  | list | inspect id | reconcile => exact .inr hc

end Linked

theorem RowStep.config_eq {row' : Row} (h : RowStep job x last row row') :
    row'.config = row.config := by
  cases h <;> rfl

theorem RowStep.create_pending {row' : Row} (h : RowStep job x last row row')
    (hi : row'.intent = some .create) : row.intent = some .create := by
  cases h with
  | passStop pending answer | expire sweeping expired => cases hi
  | noteError message pending | refresh sweeping idle answer word
  | release sweeping idle stopped answer word | markMissing sweeping idle answer => exact hi

/-! ### Whole worlds -/

/-- Journal and runtime fit, the images are named after their identifiers, and every sandbox
holds the reference it asked for. -/
structure Linking (w : World Containers) : Prop where
  closed : Closed w
  named : w.journal.Named
  linked : ∀ {x row}, w.row? x = some row →
    Linked row (w.runtime.find? x) (w.journal.sandboxImages.find? x)

namespace Linking

variable {w : World Containers}

theorem call (h : Linking w) {y : String} {fault : Fault} {c : Call}
    (due : Due job y (w.row? y) w.last c) (hrow : w.row? x = some row) :
    Linked row ((w.called Containers.runtime fault c).runtime.find? x)
      (w.journal.sandboxImages.find? x) := by
  have hdue : c.target? = some x → Due job x (some row) w.last c := by
    intro ht
    obtain rfl := due.target ht
    exact hrow ▸ due
  have hexit : Linked row ((w.runtime.find? x).map (Container.exited x fault.exits))
      (w.journal.sandboxImages.find? x) := by
    refine (h.linked hrow).mono rfl fun hh => ?_
    rcases hh with hi | hc
    · exact .inl hi
    · exact .inr (by simpa using hc)
  rcases Containers.find?_serve fault c w.runtime x with hs | hs
  · exact hs ▸ hexit
  · exact hs ▸ hexit.effect hdue

/-- A new sandbox takes the reference it asks for. -/
theorem accept_create (h : Linking w) {config : Config} {expiresAt : Option Time}
    (hnew : w.row? x = none) (himage : Journal.Referenced x config w.journal j) :
    Linked (Row.fresh config expiresAt).reserved (w.runtime.find? x) (j.sandboxImages.find? x) := by
  have hfree : w.journal.sandboxImages.find? x = none :=
    h.closed.owned x fun r hr => by rw [hnew] at hr; cases hr
  rcases himage with ⟨hnone, hsame⟩ | ⟨imageId, im, hsome, hfound, -, href, hins⟩
  · have himageId : (Row.fresh config expiresAt).reserved.config.imageId = none := hnone
    rw [hsame, hfree]
    exact ⟨fun _ => himageId.symm, nofun, fun id hid => by rw [himageId] at hid; cases hid⟩
  · have himageId : (Row.fresh config expiresAt).reserved.config.imageId = some imageId := hsome
    rw [Table.find?_insert? hins, if_pos rfl]
    refine ⟨fun _ => himageId.symm, fun id hid => himageId.trans hid, fun id hid => ?_⟩
    obtain rfl := Option.some.inj (himageId.symm.trans hid)
    exact href.trans (h.named _ im hfound)

/-- A write at its own sandbox. -/
theorem write_own (h : Linking w) {r : Row} (hw : Write job x w.last w.journal j)
    (hr : j.sandboxes.find? x = some r) :
    Linked r (w.runtime.find? x) (j.sandboxImages.find? x) := by
  cases hw with
  | accept asked drawn listed accepted =>
    cases accepted with
    | create config expiresAt sandboxes fits image =>
      rw [Table.find?_insert? sandboxes, if_pos rfl] at hr
      obtain rfl := Option.some.inj hr
      exact h.accept_create (Table.find?_of_insert?_eq_some sandboxes) image
    | move action row old found idle sandboxes fits sandboxImages =>
      rw [sandboxes, Table.find?_modify_self, found] at hr
      obtain rfl := Option.some.inj hr
      rw [sandboxImages]
      refine (h.linked found).mono (by dsimp only; split_ifs <;> rfl) fun hh => ?_
      rcases hh with hi | hc
      · exact absurd (Option.some.inj hi) old
      · exact .inr hc
  | row found step =>
    rw [Journal.find?_setRow_self found] at hr
    obtain rfl := Option.some.inj hr
    refine (h.linked found).mono step.config_eq fun hh => ?_
    exact hh.imp step.create_pending fun hc => hc
  | @complete _ row action body found pending whole answer done =>
    rw [Journal.complete_of_find? found, Except.ok.injEq] at done
    rw [← done, Table.find?_modify_self, found] at hr
    obtain rfl := Option.some.inj hr
    have hidle : (row.finished action.target).intent ≠ some .create := by simp [Row.finished]
    rw [← done]
    dsimp only
    split_ifs with hdeleted
    · -- The reference goes only after the runtime has said that the container is gone.
      have hdelete : action = .delete := by cases action <;> first | rfl | cases hdeleted
      subst hdelete
      have hlinked := h.linked found
      rw [(h.closed.hosted.exact x).deleted body answer] at hlinked ⊢
      rw [Table.find?_erase_self]
      exact hlinked.drop rfl hidle
    · refine (h.linked found).mono rfl fun hh => ?_
      exact hh.imp (fun hi => absurd hi hidle) fun hc => hc
  | compensate found pending launch answer =>
    rw [Journal.compensate, Journal.answer, Journal.doom, Journal.find?_setRow_self found] at hr
    obtain rfl := Option.some.inj hr
    exact (h.linked found).mono rfl fun hh => hh.imp (by simp [Row.doomed]) fun hc => hc
  | count name => exact h.linked hr
  | @dropImage clock body sweeping gone answer =>
    have hlinked := h.linked hr
    rw [(h.closed.hosted.exact x).deleted body answer] at hlinked ⊢
    rw [Journal.dropImage, Table.find?_erase_self]
    exact hlinked.drop rfl (by simp [(gone r hr).2])

theorem write (h : Linking w) {y : String} (hw : Write job y w.last w.journal j)
    (hrow : j.sandboxes.find? x = some row) :
    Linked row (w.runtime.find? x) (j.sandboxImages.find? x) := by
  by_cases hxy : x = y
  · subst hxy
    exact h.write_own hw hrow
  · rw [hw.sandboxImages_of_ne hxy]
    rw [hw.find?_of_ne hxy] at hrow
    exact h.linked hrow

end Linking

theorem linking_keeps : Setting.closed.Keeps Containers.runtime Linking where
  call h hjob hmay due := ⟨closed_keeps.call h.closed hjob hmay due, h.named, h.call due⟩
  write h hjob hfunded hw := by
    refine ⟨closed_keeps.write h.closed hjob hfunded hw, fun id im him => ?_, h.write hw⟩
    exact h.named id im (hw.images_eq ▸ him)
  image {step w} h hs := by
    refine ⟨closed_keeps.image h.closed hs, step.apply_named h.named w.fibers, ?_⟩
    intro x row hrow
    rw [World.sandboxImages_image hs]
    exact h.linked ((w.row?_image step x).symm.trans hrow)
  job _ _ _ := trivial
  done h := ⟨closed_keeps.done h.closed, h.named, h.linked⟩
  die h := ⟨closed_keeps.die h.closed, h.named, h.linked⟩
  configure h hc := ⟨closed_keeps.configure h.closed hc, h.named, h.linked⟩
  builds h hf := ⟨closed_keeps.builds h.closed hf, h.named.interruptedBuilds, h.linked⟩
  drift h hlast hd := by
    refine ⟨closed_keeps.drift h.closed hlast hd, h.named, fun {x row} hrow => ?_⟩
    obtain ⟨ids, rfl⟩ := hd
    rw [Containers.find?_exit]
    refine (h.linked hrow).mono rfl fun hh => ?_
    exact hh.imp id fun hc => by simpa using hc

theorem System.Reachable.linking {codec : Codec} {s : System Containers}
    (hs : s.Reachable codec Containers.runtime .closed (· = .empty)) : Linking s.world := by
  refine (hs.invariant linking_keeps fun s hstart hempty => ?_).1
  refine ⟨⟨.start hstart, .start hstart, .start hempty⟩, ?_, fun {x row} hrow => ?_⟩
  · rw [hstart.journal]
    nofun
  · rw [World.row?, hstart.journal] at hrow
    cases hrow

/-! ### The protection -/

/-- The image `id` is READY, `x` holds a reference to it, and its deletion is refused. -/
structure Protected (j : Journal) (x id : String) : Prop where
  ready : j.imageStatus? id = some .ready
  link : j.sandboxImages.find? x = some id
  refused : ImageStore.beginDelete id j =
    .error (.image 409 "IMAGE_IN_USE" "Image is referenced by sandboxes")

theorem Protected.of_link {id : String} (ready : j.imageStatus? id = some .ready)
    (link : j.sandboxImages.find? x = some id) : Protected j x id := by
  refine ⟨ready, link, ?_⟩
  obtain ⟨im, hfound, him⟩ := Journal.imageStatus?_eq_some.mp ready
  have hrefs : 0 < ImageStore.references id j := by
    by_contra hzero
    exact ImageStore.references_eq_zero hzero x link
  simp [ImageStore.beginDelete, hfound, him, hrefs]

/-- **A managed image is protected exactly while sandboxes created by `image_id` use it.**  A
container that runs on a managed image protects it if and only if the request that created
the sandbox named the image by `image_id`. -/
theorem managed_image_protected_iff (codec : Codec) (s : System Containers)
    (hs : s.Reachable codec Containers.runtime .closed (· = .empty)) (x id : String) (c : Container)
    (im : Image) (hc : s.world.runtime.find? x = some c)
    (him : s.world.journal.images.find? id = some im) (huses : c.spec.image = im.ociReference) :
    Protected s.world.journal x id ↔
      ∃ row, s.world.row? x = some row ∧ row.config.imageId ≠ none := by
  have hlinking := hs.linking
  -- The container was created from the row of its sandbox.
  obtain ⟨row, hrow⟩ : ∃ row, s.world.row? x = some row := by
    refine Option.ne_none_iff_exists'.mp fun hnone => ?_
    have := hlinking.closed.unclaimed x hnone
    simp [this] at hc
  have hcoupled := hlinking.closed.hosted.coupled hrow
  have hlinked := hlinking.linked hrow
  rw [hc] at hcoupled hlinked
  have himage : row.config.image = ImageStore.reference id := by
    rw [← hlinking.named id im him, ← huses, hcoupled.spec c rfl, Config.spec]
  constructor
  · intro h
    exact ⟨row, hrow, by simp [hlinked.asked id h.link]⟩
  · rintro ⟨row', hrow', hid⟩
    obtain rfl := Option.some.inj (hrow.symm.trans hrow')
    obtain ⟨id', hid'⟩ := Option.ne_none_iff_exists'.mp hid
    have hsame : id' = id :=
      ImageStore.reference_injective ((hlinked.image id' hid').symm.trans himage)
    subst hsame
    have hlink := (hlinked.held (.inr (by simp))).trans hid'
    exact .of_link ((hs.imageSound id').ready x hlink) hlink

/-! ### A run of each kind -/

namespace Sample

/-- The library functions, with two create requests that name the same image. -/
def registry : Codec :=
  { codec with
    decode := fun body => .ok (.obj
      [if body = "by id" then ("image_id", .str "img_1")
        else ("image", .str "sandcube.local/images/img_1:latest"),
        ("command", .arr [.str "sh"])]) }

/-- An image is built, and `sbx_1` is created from it. -/
def launched (body : String) : System Containers :=
  Transition.run (System.next registry Containers.runtime) host
    [.boot capacity true, .image (.submit "img_1" none "FROM busybox"),
      .image (.built "img_1" "sha256:1"),
      .request ⟨"POST", "/v1/sandboxes", some body, none, "1", 0⟩ []]

theorem launched_reachable (body : String) :
    (launched body).Reachable registry Containers.runtime .closed (· = .empty) :=
  Transition.Reach.run (.init ⟨⟨rfl, rfl, rfl, rfl, rfl⟩, rfl⟩)
    ⟨trivial, trivial, trivial, ⟨nofun, fun _ _ => trivial⟩, trivial⟩

end Sample

theorem managed_image_protected_iff_launched :
    Protected (Sample.launched "by id").world.journal "sbx_1" "img_1" ∧
      ¬ Protected (Sample.launched "by name").world.journal "sbx_1" "img_1" := by
  have hiff := fun body => managed_image_protected_iff Sample.registry (Sample.launched body)
    (Sample.launched_reachable body) "sbx_1" "img_1"
  constructor
  · exact (hiff "by id" _ _ (Option.some_get (by decide)).symm (Option.some_get (by decide)).symm
      (by decide)).mpr ⟨_, (Option.some_get (by decide)).symm, by decide⟩
  · rw [hiff "by name" _ _ (Option.some_get (by decide)).symm (Option.some_get (by decide)).symm
      (by decide)]
    rintro ⟨row, hrow, hid⟩
    have hnone : ((Sample.launched "by name").world.row? "sbx_1").map (·.config.imageId) =
        some none := by decide
    rw [hrow, Option.map_some, Option.some.injEq] at hnone
    exact hid hnone

/-- A sandbox created by `image` runs on a managed image; the image goes into deletion under
it. -/
theorem unlinked_image_deleted :
    (Sample.launched "by name").Reachable Sample.registry Containers.runtime .closed (· = .empty) ∧
    ((Sample.launched "by name").world.runtime.find? "sbx_1").map (fun c => (c.spec.image, c.running)) =
      some ("sandcube.local/images/img_1:latest", true) ∧
    ((Sample.launched "by name").world.journal.images.find? "img_1").map
      (fun im => (im.ociReference, im.status)) =
      some ("sandcube.local/images/img_1:latest", .ready) ∧
    (Sample.launched "by name").world.journal.sandboxImages.find? "sbx_1" = none ∧
    ((ImageStore.beginDelete "img_1" (Sample.launched "by name").world.journal).toOption.map fun r =>
      (r.1, r.2.imageStatus? "img_1")) = some (.deleting, some .deleting) :=
  ⟨Sample.launched_reachable _, by decide, by decide, by decide, by decide⟩

end Sandcube
