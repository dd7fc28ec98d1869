import Sandcube.Images.Store
import Sandcube.Table.Sum
import Sandcube.Transition.Basic

/-!
# The build queue

`ImageManager#submit` and the fiber it spawns, from one suspension to the next.

A fiber is at one of its phases, and an action lets one fiber go on to its next phase, with what the
environment answers there.  Fibers are not preempted: the second test of `@pending` and the increment
behind it are one action, and so are the decrement and the removal of the directory at both places
where a slot is given back.
-/

namespace Sandcube

variable {fiber : ℕ} {id : String}

namespace ImageManager

/-- What was read from the body of a request. -/
structure Submission where
  dockerfile : String
  name : Option String
  archive : Option (List UInt8)

/-- The statements between acceptance and `spawn`, each of which may raise. -/
inductive Preparation where
  /-- `Dir.mkdir(directory)` -/
  | directory
  /-- `Dir.mkdir` of `context` -/
  | context
  /-- `Dir.mkdir` of `dockerfile` -/
  | dockerfile
  /-- `BuildContext.extract`, if there is an archive. -/
  | extract
  /-- `File.write` of the Dockerfile -/
  | write
  /-- The `INSERT` of `@store.create` -/
  | insert
  /-- The `SELECT` of `@store.create` -/
  | get
  deriving DecidableEq

/-- Where a fiber is. -/
inductive Phase where
  /-- In `IO.copy` of the body. -/
  | reading
  /-- Before the fields are taken from the body. -/
  | parsing (buffer : List UInt8)
  /-- Before the second test of `@pending`. -/
  | parsed (submission : Submission)
  /-- Accepted, before this statement. -/
  | preparing (id : String) (submission : Submission) (todo : Preparation)
  /-- Spawned, before `@build_lock`. -/
  | waiting (id : String)
  /-- In `@builder.build`. -/
  | building (id : String)
  /-- Before `@store.ready`. -/
  | storing (id digest : String)
  /-- The build raised; in `@builder.delete`. -/
  | cleaning (id message : String)
  /-- Before `@store.failed`. -/
  | recording (id message : String)

/-- The id of a submission between acceptance and outcome. -/
def Phase.submitting? : Phase → Option String
  | .preparing id _ _ => some id
  | _ => none

/-- The id of an accepted build that has not finished. -/
def Phase.unfinished? : Phase → Option String
  | .waiting id | .building id | .storing id _ | .cleaning id _ | .recording id _ => some id
  | _ => none

/-- The id of the slot that a fiber has. -/
def Phase.slot? (phase : Phase) : Option String := phase.submitting? <|> phase.unfinished?

structure Queue where
  /-- `@pending` -/
  pending : ℤ
  /-- The ids whose directory `build-<id>` exists. -/
  directories : List String
  /-- Somebody holds `@build_lock`. -/
  locked : Bool
  fibers : Table ℕ Phase
  journal : Journal
  /-- What the calls of `submit` have answered. -/
  answers : List (ℕ × Except Ex String)

/-- `ImageManager#initialize`: directories that an earlier process left are removed. -/
def Queue.initial (j : Journal) : Queue :=
  ⟨0, [], false, .empty, ImageStore.interruptedBuilds j, []⟩

/-- `MAX_UPLOAD` -/
def maxUpload : ℕ := 48 * 1024 * 1024

def queueFull : Ex := .image 429 "BUILD_QUEUE_FULL" "At most eight builds may be pending"

/-- What happens next, and what the environment answers. -/
inductive Act where
  /-- A call of `submit` by a new fiber. -/
  | request (fiber : ℕ)
  | read (fiber : ℕ) (result : Except Ex (List UInt8))
  | parse (fiber : ℕ) (result : Except Ex Submission)
  | accept (fiber : ℕ) (id : String)
  | prepare (fiber : ℕ) (error : Option Ex)
  | acquire (fiber : ℕ)
  | build (fiber : ℕ) (result : Except Ex String)
  | store (fiber : ℕ) (error : Option Ex)
  | cleanup (fiber : ℕ) (error : Option Ex)
  | record (fiber : ℕ) (error : Option Ex)

namespace Queue

/-- A fiber goes on. -/
def goto (q : Queue) (fiber : ℕ) (phase : Phase) : Queue :=
  { q with fibers := q.fibers.modify fiber fun _ => phase }

/-- A call of `submit` raises before it was accepted. -/
def leave (q : Queue) (fiber : ℕ) (e : Ex) : Queue :=
  { q with fibers := q.fibers.erase fiber, answers := (fiber, .error e) :: q.answers }

/-- `@pending -= 1` and `FileUtils.rm_rf(directory)`, and the fiber ends. -/
def giveBack (q : Queue) (fiber : ℕ) (id : String) : Queue :=
  { q with
    pending := q.pending - 1
    directories := q.directories.filter (· ≠ id)
    fibers := q.fibers.erase fiber }

/-- The `rescue` of `submit`. -/
def abort (q : Queue) (fiber : ℕ) (id : String) (e : Ex) : Queue :=
  { q.giveBack fiber id with answers := (fiber, .error e) :: q.answers }

/-- The `ensure` of a build, and the end of `synchronize`. -/
def finish (q : Queue) (fiber : ℕ) (id : String) : Queue :=
  { q.giveBack fiber id with locked := false }

/-- A statement between acceptance and `spawn`. -/
def prepare (q : Queue) (fiber : ℕ) (id : String) (s : Submission) : Preparation → Queue
  | .directory =>
    if id ∈ q.directories then q.abort fiber id (.io "File exists")
    else { q with directories := id :: q.directories }.goto fiber (.preparing id s .context)
  | .context => q.goto fiber (.preparing id s .dockerfile)
  | .dockerfile =>
    q.goto fiber (.preparing id s (if s.archive.isSome then .extract else .write))
  | .extract => q.goto fiber (.preparing id s .write)
  | .write => q.goto fiber (.preparing id s .insert)
  | .insert =>
    match ImageStore.create id s.name s.dockerfile q.journal with
    | .error e => q.abort fiber id e
    | .ok j => { q with journal := j }.goto fiber (.preparing id s .get)
  | .get => { q with answers := (fiber, .ok id) :: q.answers }.goto fiber (.waiting id)

/-- The queue after an action; a fiber that is elsewhere does nothing. -/
def next (q : Queue) : Act → Queue
  | .request fiber =>
    if 8 ≤ q.pending then { q with answers := (fiber, .error queueFull) :: q.answers }
    else { q with fibers := (q.fibers.insert? fiber .reading).getD q.fibers }
  | .read fiber result =>
    match q.fibers.find? fiber, result with
    | some .reading, .error e => q.leave fiber e
    | some .reading, .ok buffer =>
      if maxUpload < buffer.length then q.leave fiber (.argument "Image request exceeds 48 MiB")
      else q.goto fiber (.parsing buffer)
    | _, _ => q
  | .parse fiber result =>
    match q.fibers.find? fiber, result with
    | some (.parsing _), .error e => q.leave fiber e
    | some (.parsing _), .ok s => q.goto fiber (.parsed s)
    | _, _ => q
  | .accept fiber id =>
    match q.fibers.find? fiber with
    | some (.parsed s) =>
      if 8 ≤ q.pending then q.leave fiber queueFull
      else { q with pending := q.pending + 1 }.goto fiber (.preparing id s .directory)
    | _ => q
  | .prepare fiber error =>
    match q.fibers.find? fiber, error with
    | some (.preparing id _ _), some e => q.abort fiber id e
    | some (.preparing id s todo), none => q.prepare fiber id s todo
    | _, _ => q
  | .acquire fiber =>
    match q.fibers.find? fiber, q.locked with
    | some (.waiting id), false => { q with locked := true }.goto fiber (.building id)
    | _, _ => q
  | .build fiber result =>
    match q.fibers.find? fiber, result with
    | some (.building id), .error e => q.goto fiber (.cleaning id e.message)
    | some (.building id), .ok digest => q.goto fiber (.storing id digest)
    | _, _ => q
  | .store fiber error =>
    match q.fibers.find? fiber, error with
    | some (.storing id _), some e => q.goto fiber (.cleaning id e.message)
    | some (.storing id digest), none =>
      { q with journal := ImageStore.ready id digest q.journal }.finish fiber id
    | _, _ => q
  | .cleanup fiber error =>
    match q.fibers.find? fiber, error with
    | some (.cleaning id message), some e =>
      q.goto fiber (.recording id (message ++ "; image cleanup failed: " ++ e.message))
    | some (.cleaning id message), none => q.goto fiber (.recording id message)
    | _, _ => q
  | .record fiber error =>
    match q.fibers.find? fiber, error with
    | some (.recording id _), some _ => q.finish fiber id
    | some (.recording id message), none =>
      { q with journal := ImageStore.failed id message q.journal }.finish fiber id
    | _, _ => q

/-! ### What an action can do -/

/-- What an action does to the slots, the directories and the fibers. -/
inductive Move (q q' : Queue) : Prop
  /-- Nothing. -/
  | idle (pending : q'.pending = q.pending) (directories : q'.directories = q.directories)
      (fibers : q'.fibers = q.fibers)
  /-- A fiber comes without a slot. -/
  | enter (fiber : ℕ) (phase : Phase) (free : phase.slot? = none)
      (pending : q'.pending = q.pending) (directories : q'.directories = q.directories)
      (fibers : q.fibers.insert? fiber phase = some q'.fibers)
  /-- A fiber goes on with the slot that it has, and may make its directory. -/
  | shift (fiber : ℕ) (phase phase' : Phase) (found : q.fibers.find? fiber = some phase)
      (same : phase'.slot? = phase.slot?) (pending : q'.pending = q.pending)
      (directories : ∀ id ∈ q'.directories, id ∈ q.directories ∨ phase'.slot? = some id)
      (fibers : q'.fibers = q.fibers.modify fiber fun _ => phase')
  /-- A fiber gets a slot. -/
  | accept (fiber : ℕ) (phase phase' : Phase) (found : q.fibers.find? fiber = some phase)
      (free : phase.slot? = none) (taken : phase'.slot?.isSome) (room : q.pending < 8)
      (pending : q'.pending = q.pending + 1) (directories : q'.directories = q.directories)
      (fibers : q'.fibers = q.fibers.modify fiber fun _ => phase')
  /-- A fiber without a slot ends. -/
  | leave (fiber : ℕ) (phase : Phase) (found : q.fibers.find? fiber = some phase)
      (free : phase.slot? = none) (pending : q'.pending = q.pending)
      (directories : q'.directories = q.directories) (fibers : q'.fibers = q.fibers.erase fiber)
  /-- A fiber with a slot ends, and its directory with it. -/
  | giveBack (fiber : ℕ) (phase : Phase) (id : String) (found : q.fibers.find? fiber = some phase)
      (taken : phase.slot? = some id) (pending : q'.pending = q.pending - 1)
      (directories : q'.directories = q.directories.filter (· ≠ id))
      (fibers : q'.fibers = q.fibers.erase fiber)

theorem move_goto {q : Queue} {phase phase' : Phase} (found : q.fibers.find? fiber = some phase)
    (same : phase'.slot? = phase.slot?) : Move q (q.goto fiber phase') :=
  .shift fiber phase phase' found same rfl (fun _ h => .inl h) rfl

theorem move_prepare {q : Queue} {s : Submission} {todo : Preparation}
    (found : q.fibers.find? fiber = some (.preparing id s todo)) :
    Move q (q.prepare fiber id s todo) := by
  cases todo with
  | directory =>
    dsimp only [prepare]
    split_ifs
    · exact .giveBack fiber _ id found rfl rfl rfl rfl
    · refine .shift fiber _ (.preparing id s .context) found rfl rfl (fun id' hid => ?_) rfl
      rcases List.mem_cons.mp hid with rfl | hid
      · exact .inr rfl
      · exact .inl hid
  | context | dockerfile | extract | write => exact move_goto found rfl
  | insert =>
    dsimp only [prepare]
    split
    · exact .giveBack fiber _ id found rfl rfl rfl rfl
    · exact .shift fiber _ (.preparing id s .get) found rfl rfl (fun _ h => .inl h) rfl
  | get => exact .shift fiber _ (.waiting id) found rfl rfl (fun _ h => .inl h) rfl

theorem move_next (q : Queue) (a : Act) : Move q (q.next a) := by
  have hidle : Move q q := .idle rfl rfl rfl
  cases a with
  | request fiber =>
    dsimp only [next]
    split_ifs
    · exact .idle rfl rfl rfl
    · cases hinsert : q.fibers.insert? fiber .reading with
      | none => exact .idle rfl rfl rfl
      | some fibers => exact .enter fiber .reading rfl rfl rfl hinsert
  | read fiber result =>
    dsimp only [next]
    split
    · next found => exact .leave fiber _ found rfl rfl rfl rfl
    · next found =>
      split_ifs
      · exact .leave fiber _ found rfl rfl rfl rfl
      · exact move_goto found rfl
    · exact hidle
  | parse fiber result =>
    dsimp only [next]
    split
    · next found => exact .leave fiber _ found rfl rfl rfl rfl
    · next found => exact move_goto found rfl
    · exact hidle
  | accept fiber id =>
    dsimp only [next]
    split
    · next s found =>
      split_ifs with hfull
      · exact .leave fiber _ found rfl rfl rfl rfl
      · exact .accept fiber _ (.preparing id s .directory) found rfl rfl (by omega) rfl rfl rfl
    · exact hidle
  | prepare fiber error =>
    dsimp only [next]
    split
    · next id _ _ _ found => exact .giveBack fiber _ id found rfl rfl rfl rfl
    · next found => exact move_prepare found
    · exact hidle
  | acquire fiber =>
    dsimp only [next]
    split
    · next id found _ => exact .shift fiber _ (.building id) found rfl rfl (fun _ h => .inl h) rfl
    · exact hidle
  | build fiber result =>
    dsimp only [next]
    split
    · next found => exact move_goto found rfl
    · next found => exact move_goto found rfl
    · exact hidle
  | store fiber error =>
    dsimp only [next]
    split
    · next found => exact move_goto found rfl
    · next id _ found => exact .giveBack fiber _ id found rfl rfl rfl rfl
    · exact hidle
  | cleanup fiber error =>
    dsimp only [next]
    split
    · next found => exact move_goto found rfl
    · next found => exact move_goto found rfl
    · exact hidle
  | record fiber error =>
    dsimp only [next]
    split
    · next id _ _ found => exact .giveBack fiber _ id found rfl rfl rfl rfl
    · next id _ found => exact .giveBack fiber _ id found rfl rfl rfl rfl
    · exact hidle

/-! ### The accounts -/

/-- The submissions between acceptance and outcome. -/
def submissions (q : Queue) : ℕ := q.fibers.count fun phase => phase.submitting?.isSome

/-- The accepted builds that have not finished. -/
def unfinished (q : Queue) : ℕ := q.fibers.count fun phase => phase.unfinished?.isSome

/-- One for a fiber that has a slot. -/
def slots (phase : Phase) : ℤ := if phase.slot?.isSome then 1 else 0

theorem slots_of_eq {phase phase' : Phase} (h : phase'.slot? = phase.slot?) :
    slots phase' = slots phase := by
  unfold slots
  rw [h]

theorem slots_of_free {phase : Phase} (h : phase.slot? = none) : slots phase = 0 := by
  simp [slots, h]

theorem slots_of_taken {phase : Phase} (h : phase.slot?.isSome) : slots phase = 1 := by
  simp [slots, h]

/-- Every slot is some fiber's, there are at most eight, and every directory is a slot's. -/
structure Accounted (q : Queue) : Prop where
  pending : q.pending = q.fibers.sum slots
  bounded : q.pending ≤ 8
  owned : ∀ id ∈ q.directories,
    ∃ fiber phase, q.fibers.find? fiber = some phase ∧ phase.slot? = some id

theorem accounted_initial (j : Journal) : Accounted (initial j) where
  pending := rfl
  bounded := by simp [initial]
  owned := by simp [initial]

/-- A fiber that goes on with the slot it had, or that gets one, still owns its directory. -/
theorem owned_modify {fibers : Table ℕ Phase} {phase phase' : Phase}
    (found : fibers.find? fiber = some phase)
    (keeps : phase.slot? = some id → phase'.slot? = some id)
    (owned : ∃ f p, fibers.find? f = some p ∧ p.slot? = some id) :
    ∃ f p, (fibers.modify fiber fun _ => phase').find? f = some p ∧ p.slot? = some id := by
  obtain ⟨f, p, hp, hslot⟩ := owned
  by_cases hf : f = fiber
  · subst hf
    obtain rfl := Option.some.inj (found.symm.trans hp)
    exact ⟨f, phase', by simp [hp], keeps hslot⟩
  · exact ⟨f, p, by rw [Table.find?_modify, if_neg hf, hp], hslot⟩

/-- The end of a fiber takes no directory of another from its owner. -/
theorem owned_erase {fibers : Table ℕ Phase} {phase : Phase}
    (found : fibers.find? fiber = some phase) (other : phase.slot? ≠ some id)
    (owned : ∃ f p, fibers.find? f = some p ∧ p.slot? = some id) :
    ∃ f p, (fibers.erase fiber).find? f = some p ∧ p.slot? = some id := by
  obtain ⟨f, p, hp, hslot⟩ := owned
  have hf : f ≠ fiber := by
    rintro rfl
    obtain rfl := Option.some.inj (found.symm.trans hp)
    exact other hslot
  exact ⟨f, p, by rw [Table.find?_erase_of_ne _ hf, hp], hslot⟩

theorem Accounted.move {q q' : Queue} (h : Accounted q) (move : Move q q') : Accounted q' := by
  obtain ⟨hpending, hbounded, howned⟩ := h
  cases move with
  | idle pending directories fibers =>
    exact ⟨by rw [pending, fibers, hpending], by rwa [pending], by rwa [directories, fibers]⟩
  | enter fiber phase free pending directories fibers =>
    refine ⟨?_, by rwa [pending], ?_⟩
    · rw [pending, Table.sum_insert? fibers, slots_of_free free, add_zero, hpending]
    · rw [directories]
      intro id hid
      obtain ⟨f, p, hp, hslot⟩ := howned id hid
      have hf : f ≠ fiber := by
        rintro rfl
        rw [Table.find?_of_insert?_eq_some fibers] at hp
        cases hp
      exact ⟨f, p, by rw [Table.find?_insert? fibers, if_neg hf, hp], hslot⟩
  | shift fiber phase phase' found same pending directories fibers =>
    refine ⟨?_, by rwa [pending], fun id hid => ?_⟩
    · rw [pending, fibers, Table.sum_modify _ found, slots_of_eq same, hpending,
        Table.sum_eq_sum_erase_add _ found]
    · rw [fibers]
      rcases directories id hid with hold | hnew
      · exact owned_modify found (fun hslot => same.trans hslot) (howned id hold)
      · exact ⟨fiber, phase', by simp [found], hnew⟩
  | accept fiber phase phase' found free taken room pending directories fibers =>
    refine ⟨?_, by omega, fun id hid => ?_⟩
    · have hbefore := Table.sum_eq_sum_erase_add _ found slots
      rw [slots_of_free free] at hbefore
      rw [pending, fibers, Table.sum_modify _ found, slots_of_taken taken, hpending, hbefore,
        add_zero]
    · rw [fibers]
      rw [directories] at hid
      exact owned_modify found (fun hslot => by simp [free] at hslot) (howned id hid)
  | leave fiber phase found free pending directories fibers =>
    refine ⟨?_, by rwa [pending], fun id hid => ?_⟩
    · rw [pending, fibers, hpending, Table.sum_eq_sum_erase_add _ found, slots_of_free free,
        add_zero]
    · rw [fibers]
      rw [directories] at hid
      exact owned_erase found (by simp [free]) (howned id hid)
  | giveBack fiber phase id found taken pending directories fibers =>
    refine ⟨?_, by omega, fun id' hid => ?_⟩
    · rw [pending, fibers, hpending, Table.sum_eq_sum_erase_add _ found,
        slots_of_taken (by simp [taken]), add_sub_cancel_right]
    · rw [fibers]
      rw [directories, List.mem_filter] at hid
      have hne : id' ≠ id := by simpa using hid.2
      exact owned_erase found (by simp [taken, hne.symm]) (howned id' hid.1)

/-- Every run keeps the accounts. -/
theorem Accounted.run {q : Queue} (h : Accounted q) (acts : List Act) :
    Accounted (Transition.run next q acts) := by
  induction acts generalizing q with
  | nil => exact h
  | cons a acts ih => exact ih (h.move (move_next q a))

theorem slots_eq (phase : Phase) :
    slots phase = (if phase.submitting?.isSome then 1 else 0) +
      if phase.unfinished?.isSome then 1 else 0 := by
  cases phase <;> rfl

theorem sum_slots (q : Queue) : q.fibers.sum slots = q.submissions + q.unfinished := by
  rw [submissions, unfinished, ← Table.sum_indicator, ← Table.sum_indicator, ← Table.sum_add]
  exact congrArg _ (funext slots_eq)

theorem slot?_eq_some_iff (phase : Phase) (id : String) :
    phase.slot? = some id ↔ phase.submitting? = some id ∨ phase.unfinished? = some id := by
  cases phase <;> simp [Phase.slot?, Phase.submitting?, Phase.unfinished?]

/-- **The build queue is bounded and accounted.**  After any actions, `@pending` is the number of
accepted builds that have not finished plus that of the submissions between acceptance and outcome;
it is not negative and at most eight; and a directory is that of such a build or submission. -/
theorem queue_accounted (j : Journal) (acts : List Act) :
    let q := Transition.run next (initial j) acts
    q.pending = q.unfinished + q.submissions ∧ 0 ≤ q.pending ∧ q.pending ≤ 8 ∧
      ∀ id ∈ q.directories, ∃ fiber phase, q.fibers.find? fiber = some phase ∧
        (phase.submitting? = some id ∨ phase.unfinished? = some id) := by
  intro q
  obtain ⟨hpending, hbounded, howned⟩ := (accounted_initial j).run acts
  have hsum : q.pending = q.unfinished + q.submissions := by
    rw [hpending, sum_slots, add_comm]
  refine ⟨hsum, by omega, hbounded, fun id hid => ?_⟩
  obtain ⟨fiber, phase, hfind, hslot⟩ := howned id hid
  exact ⟨fiber, phase, hfind, (slot?_eq_some_iff phase id).mp hslot⟩

end Queue

end ImageManager

end Sandcube
