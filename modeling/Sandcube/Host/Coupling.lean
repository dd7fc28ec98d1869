import Sandcube.Invariants.Admission
import Sandcube.Runtime.Containers

/-!
# The journal and the containers

`Coupled x row c` relates the row of a sandbox to its container: what the container was
created with, what is reserved for it, and when it is there.  The code writes the journal
some steps after the runtime answered, so the invariant needs a second part: `Exact x c last`
says that the container still is as the last answer told.  Both hold at every crash point.
-/

namespace Sandcube

variable {x y : String} {c : Option Container} {job : Job} {last : Option (Call × Reply)}
  {action : Action} {row : Option Row} {fault : Fault} {j : Journal} {s : System Containers}

/-- The row and the container of a sandbox fit together. -/
structure Coupled (x : String) (row : Row) (c : Option Container) : Prop where
  /-- A container was created from the row's configuration. -/
  spec : ∀ k, c = some k → k.spec = row.config.spec x
  /-- The disk of a container is reserved. -/
  disk : c ≠ none → row.reservedDiskMb = row.config.diskMb
  /-- The CPU and the memory of a running task are reserved. -/
  running : ∀ k, c = some k → k.running = true →
    row.reservedCpu = row.config.cpu ∧ row.reservedMemoryMb = row.config.memoryMb
  /-- An operation that will make the task run has its resources. -/
  starting : ∀ a, row.intent = some a → a.Starts → ∀ res, row.reservation res = row.config.demand res
  /-- A sandbox that was created and is not being deleted has its container. -/
  present : row.Idle ∨ row.intent = some .start ∨ row.intent = some .stop ∨
    row.intent = some .restart → c ≠ none
  /-- A deleted sandbox has nothing. -/
  gone : row.status = .deleted → row.intent = none → c = none ∧ ∀ res, row.reservation res = 0
  /-- Disk is given back by deletion only. -/
  retained : row.intent ≠ some .delete → ¬ (row.status = .deleted ∧ row.intent = none) →
    row.reservedDiskMb = row.config.diskMb

/-- The container of `x` is as the last answer told. -/
structure Exact (x : String) (c : Option Container) (last : Option (Call × Reply)) : Prop where
  created : ∀ spec body, last = some (.create spec, .ok body) → spec.id = x → c ≠ none
  started : ∀ body, last = some (.start x, .ok body) → ∃ k, c = some k ∧ k.running = true
  stopped : ∀ body, last = some (.stop x, .ok body) → ∃ k, c = some k ∧ k.running = false
  deleted : ∀ body, last = some (.delete x, .ok body) → c = none
  inspected : ∀ body, last = some (.inspect x, .ok body) → ∃ k, c = some k ∧ body = k.describe x

/-! ### The status words of the adapter -/

namespace Container

theorem word_status_describe (c : Container) (x : String) :
    (c.describe x).word "status" = .ok c.status := by
  simp [describe, Json.word, Json.field, Json.asObject, Json.get, Json.asString, bind, Except.bind,
    List.lookup]

theorem ofText_status (c : Container) :
    Status.ofText c.status = if c.running then .running else .stopped := by
  unfold status
  cases c.running <;> rfl

theorem running_of_status {c : Container} (h : c.status = "stopped") : c.running = false := by
  unfold status at h
  cases hr : c.running <;> simp_all

end Container

/-! ### Tasks that stop by themselves -/

theorem Coupled.exit {row : Row} (h : Coupled x row c) (ids : List String) :
    Coupled x row (c.map (Container.exited x ids)) where
  spec k hk := by
    obtain ⟨k₀, hk₀, rfl⟩ := Option.map_eq_some_iff.mp hk
    rw [Container.exited_spec]
    exact h.spec k₀ hk₀
  disk hc := h.disk (by simpa using hc)
  running k hk hr := by
    obtain ⟨k₀, hk₀, rfl⟩ := Option.map_eq_some_iff.mp hk
    exact h.running k₀ hk₀ (Container.running_of_exited hr)
  starting := h.starting
  present hp := by simpa using h.present hp
  gone hs hi := ⟨by simp [(h.gone hs hi).1], (h.gone hs hi).2⟩
  retained := h.retained

/-! ### Answers -/

theorem Exact.none : Exact x c .none :=
  ⟨nofun, nofun, nofun, nofun, nofun⟩

/-- What an answer tells when it was just given. -/
theorem Exact.serve (x : String) (fault : Fault) (call : Call) (cs : Containers) :
    Exact x ((Containers.serve fault call cs).2.find? x)
      (some (call, (Containers.serve fault call cs).1)) := by
  -- An answer that is not an error comes from an executed request.
  have hexec : ∀ {call' body}, some (call, (Containers.serve fault call cs).1) =
      some (call', Reply.ok body) → (Containers.execute call' (cs.exit fault.exits)).1 = .ok body ∧
      (Containers.serve fault call cs).2.find? x =
        Container.effect x ((cs.exit fault.exits).find? x) call' := by
    intro call' body h
    obtain ⟨rfl, hreply⟩ := Prod.mk.inj (Option.some.inj h)
    have := Containers.execute_of_serve_ok hreply
    exact ⟨by rw [this], by rw [← Containers.find?_execute, this]⟩
  constructor
  · intro spec body hl hx
    obtain ⟨-, hfind⟩ := hexec hl
    simp [hfind, Container.effect, hx]
  · intro body hl
    obtain ⟨hok, hfind⟩ := hexec hl
    obtain ⟨k, hk⟩ := Containers.find?_of_switch_ok hok
    exact ⟨{ k with running := true }, by simp [hfind, Container.effect, hk], rfl⟩
  · intro body hl
    obtain ⟨hok, hfind⟩ := hexec hl
    obtain ⟨k, hk⟩ := Containers.find?_of_switch_ok hok
    exact ⟨{ k with running := false }, by simp [hfind, Container.effect, hk], rfl⟩
  · intro body hl
    obtain ⟨-, hfind⟩ := hexec hl
    simp [hfind, Container.effect]
  · intro body hl
    obtain ⟨hok, hfind⟩ := hexec hl
    obtain ⟨k, hk, hbody⟩ := Containers.find?_of_inspect_ok hok
    exact ⟨k, by simp [hfind, Container.effect, hk], hbody⟩

/-! ### Requests -/

namespace Coupled

variable {x : String} {row : Row} {c : Option Container}

section

variable (h : Coupled x row c)
include h

/-- Creating the container of a pending create. -/
theorem create (hi : row.intent = some .create) :
    Coupled x row (some (c.getD ⟨row.config.spec x, false⟩)) where
  spec k hk := by
    cases c with
    | none => cases hk; rfl
    | some k₀ => cases hk; exact h.spec _ rfl
  disk _ := h.starting _ hi trivial .disk
  running k hk hr := by
    cases c with
    | none => cases hk; cases hr
    | some k₀ => cases hk; exact h.running _ rfl hr
  starting := h.starting
  present _ := by simp
  gone _ hn := by simp [hi] at hn
  retained := h.retained

/-- Starting or stopping the task.  A task that will run has its resources. -/
theorem switch (running : Bool) (hres : running = true → ∃ a, row.intent = some a ∧ a.Starts) :
    Coupled x row (c.map fun k => { k with running := running }) where
  spec k hk := by
    obtain ⟨k₀, hk₀, rfl⟩ := Option.map_eq_some_iff.mp hk
    exact h.spec k₀ hk₀
  disk hc := h.disk (by simpa using hc)
  running k hk hr := by
    obtain ⟨k₀, hk₀, rfl⟩ := Option.map_eq_some_iff.mp hk
    obtain ⟨a, ha, hstarts⟩ := hres hr
    exact ⟨h.starting a ha hstarts .cpu, h.starting a ha hstarts .memory⟩
  starting := h.starting
  present hp := by simpa using h.present hp
  gone hs hn := ⟨by simp [(h.gone hs hn).1], (h.gone hs hn).2⟩
  retained := h.retained

/-- Deleting the container of a sandbox that is to be deleted, or was. -/
theorem delete (hdead : row.intent = some .delete ∨ row.status = .deleted ∧ row.intent = none) :
    Coupled x row none where
  spec := nofun
  disk hc := absurd rfl hc
  running := nofun
  starting := h.starting
  present hp := by
    rcases hdead with hd | ⟨hs, hn⟩
    · rcases hp with hp | hp | hp | hp
      · simp [hp.1] at hd
      all_goals simp [hp] at hd
    · rcases hp with hp | hp | hp | hp
      · exact absurd hs hp.2
      all_goals simp [hp] at hn
  gone hs hn := ⟨rfl, (h.gone hs hn).2⟩
  retained := h.retained

/-- A request that is due does no harm. -/
theorem effect {call : Call} (hdue : call.target? = some x → Due job x (some row) last call) :
    Coupled x row (Container.effect x c call) := by
  cases call with
  | list | inspect id | reconcile => exact h
  | create spec =>
    simp only [Container.effect]
    split_ifs with hx
    · obtain ⟨r, hr, hi, hspec⟩ := hdue (congrArg some hx)
      cases hr
      rw [hspec]
      exact h.create hi
    · exact h
  | start id =>
    simp only [Container.effect]
    split_ifs with hx
    · obtain ⟨-, r, hr, hi⟩ := hdue (congrArg some hx)
      cases hr
      refine h.switch true fun _ => ?_
      rcases hi with hi | ⟨hi, -⟩
      · exact ⟨_, hi, trivial⟩
      · exact ⟨_, hi, trivial⟩
    · exact h
  | stop id =>
    simp only [Container.effect]
    split_ifs with hx
    · exact h.switch false (by simp)
    · exact h
  | delete id =>
    simp only [Container.effect]
    split_ifs with hx
    · obtain ⟨-, hdead⟩ := hdue (congrArg some hx)
      refine h.delete ?_
      rcases hdead with ⟨r, hr, hi⟩ | ⟨clock, -, hgone⟩
      · cases hr
        exact .inl hi
      · exact .inr (hgone row rfl)
    · exact h

/-! ### Writes -/

/-- A deletion is decided. -/
theorem doomed : Coupled x row.doomed c where
  spec := h.spec
  disk := h.disk
  running := h.running
  starting a ha hs := by cases ha; cases hs
  present hp := by
    rcases hp with hp | hp | hp | hp
    · cases hp.1
    all_goals cases hp
  gone _ hn := by cases hn
  retained hd := absurd rfl hd

/-- A change of the status of an idle sandbox that does not delete it. -/
theorem setStatus (hidle : row.Idle) (status : Status)
    (message : Option String) (hs : status ≠ .deleted) :
    Coupled x { row with status := status, errorMessage := message } c where
  spec := h.spec
  disk := h.disk
  running := h.running
  starting a ha := by rw [hidle.1] at ha; cases ha
  present _ := h.present (.inl hidle)
  gone hd := absurd hd hs
  retained hd _ := h.retained hd fun hx => hidle.2 hx.1

theorem rowStep {row' : Row} (htold : Exact x c last)
    (hstep : RowStep job x last row row') : Coupled x row' c := by
  cases hstep with
  | passStop pending answer =>
    refine ⟨h.spec, h.disk, h.running, fun a ha _ => h.starting _ pending trivial, fun _ => ?_,
      nofun, fun _ _ => h.retained (by simp [pending]) (by simp [pending])⟩
    exact h.present (.inr (.inr (.inr pending)))
  | noteError message pending =>
    exact ⟨h.spec, h.disk, h.running, h.starting, h.present, h.gone, h.retained⟩
  | expire sweeping expired => exact h.doomed
  | refresh sweeping idle answer word =>
    obtain ⟨k, -, rfl⟩ := htold.inspected _ answer
    rw [Container.word_status_describe] at word
    cases word
    refine h.setStatus idle _ none ?_
    rw [Container.ofText_status]
    split_ifs <;> nofun
  | release sweeping idle stopped answer word =>
    obtain ⟨k, rfl, rfl⟩ := htold.inspected _ answer
    rw [Container.word_status_describe, Except.ok.injEq] at word
    refine ⟨h.spec, h.disk, fun k' hk' hr => ?_, fun a ha => ?_, h.present, fun hd => ?_, h.retained⟩
    · cases hk'
      simp [Container.running_of_status word] at hr
    · exact absurd ha (by simp [idle])
    · exact absurd hd (by simp [stopped])
  | markMissing sweeping idle answer => exact h.setStatus idle .error _ nofun

/-- The end of an operation: the last answer says that the container is as the row now says. -/
theorem finished {body : Json} (htold : Exact x c last)
    (hi : row.intent = some action) (hwhole : action ≠ .restart)
    (hl : last = some (action.finalCall x, .ok body)) :
    Coupled x (row.finished action.target) c := by
  have hretained : action ≠ .delete → row.reservedDiskMb = row.config.diskMb := fun hd =>
    h.retained (by simpa [hi] using hd) (by simp [hi])
  -- A task that was started, or is about to be, when the operation was not a deletion.
  have hrun : action = .create ∨ action = .start → Coupled x (row.finished .running) c := by
    intro ha
    have hc : c ≠ none := by
      have hstarted : ∃ k, c = some k ∧ k.running = true := by
        rcases ha with rfl | rfl <;> exact htold.started body hl
      obtain ⟨k, rfl, -⟩ := hstarted
      nofun
    refine ⟨h.spec, h.disk, h.running, nofun, fun _ => hc, nofun, fun _ _ => hretained ?_⟩
    rcases ha with rfl | rfl <;> nofun
  cases action with
  | create => exact hrun (.inl rfl)
  | start => exact hrun (.inr rfl)
  | restart => exact absurd rfl hwhole
  | stop =>
    refine ⟨h.spec, h.disk, fun k hk hr => ?_, nofun, fun _ => h.present (.inr (.inr (.inl hi))),
      nofun, fun _ _ => hretained nofun⟩
    obtain ⟨k', hk', hstill⟩ := htold.stopped body hl
    cases hk'.symm.trans hk
    simp [hstill] at hr
  | delete =>
    have hc := htold.deleted body hl
    subst hc
    refine ⟨nofun, fun hc => absurd rfl hc, nofun, nofun, fun hp => ?_, fun _ _ => ⟨rfl, ?_⟩,
      fun _ hn => absurd ⟨rfl, rfl⟩ hn⟩
    · rcases hp with hp | hp | hp | hp
      · exact absurd rfl hp.2
      all_goals cases hp
    · intro res
      cases res <;> simp [Row.reservation, Row.finished, Action.target]

/-- An accepted operation on an existing sandbox. -/
theorem move (hold : action ≠ .create)
    (hidle : action = .delete ∨ row.intent = none ∧ row.status ≠ .deleted) :
    Coupled x { (if action.Starts then row.reserved else row) with
      intent := some action, status := action.pending } c := by
  by_cases hdelete : action = .delete
  · subst hdelete
    exact h.doomed
  have hi : row.Idle := hidle.resolve_left hdelete
  have hc := h.present (.inl hi)
  have hdisk := h.retained (by simp [hi.1]) fun hx => hi.2 hx.1
  cases action with
  | create => exact absurd rfl hold
  | delete => exact absurd rfl hdelete
  | start | restart =>
    exact ⟨h.spec, fun _ => rfl, fun _ _ _ => ⟨rfl, rfl⟩, fun _ _ _ res => by cases res <;> rfl,
      fun _ => hc, nofun, fun _ _ => rfl⟩
  | stop =>
    refine ⟨h.spec, h.disk, h.running, fun a ha hs => ?_, fun _ => hc, nofun, fun _ _ => hdisk⟩
    cases ha
    cases hs

end

/-- A new sandbox. -/
theorem fresh (config : Config) (expiresAt : Option Time) :
    Coupled x (Row.fresh config expiresAt).reserved none where
  spec := nofun
  disk hc := absurd rfl hc
  running := nofun
  starting _ _ _ res := by cases res <;> rfl
  present hp := by
    rcases hp with hp | hp | hp | hp
    · cases hp.1
    all_goals cases hp
  gone _ hn := by cases hn
  retained _ _ := rfl

end Coupled

/-! ### Whole worlds -/

/-- Every row fits its container, and every container is as the last answer told. -/
structure Hosted (w : World Containers) : Prop where
  coupled : ∀ {x row}, w.row? x = some row → Coupled x row (w.runtime.find? x)
  exact : ∀ x, Exact x (w.runtime.find? x) w.last

/-- A sandbox without a row has no container. -/
def Unclaimed (x : String) (w : World Containers) : Prop :=
  w.row? x = none → w.runtime.find? x = none

/-- A request that is due for a sandbox names that sandbox or none. -/
theorem Due.target {call : Call} (h : Due job y row last call) (ht : call.target? = some x) :
    x = y := by
  cases call with
  | list | reconcile => cases ht
  | create spec =>
    obtain ⟨r, -, -, rfl⟩ := h
    exact (Option.some.inj ht).symm
  | start id | stop id | delete id | inspect id => exact (Option.some.inj ht).symm.trans h.1

theorem Container.effect_none {call : Call}
    (hdue : call.target? = some x → Due job x none last call) : effect x none call = none := by
  cases call with
  | create spec =>
    simp only [effect]
    split_ifs with hx
    · obtain ⟨r, hr, -⟩ := hdue (congrArg some hx)
      cases hr
    · rfl
  | _ => simp [effect]

namespace Unclaimed

variable {x : String} {w : World Containers}

theorem call (h : Unclaimed x w) {c : Call} (due : Due job y (w.row? y) w.last c) :
    Unclaimed x (w.called Containers.runtime fault c) := by
  intro hn
  have hc := h hn
  have hdue : c.target? = some x → Due job x none w.last c := by
    intro ht
    obtain rfl := due.target ht
    exact (show w.row? x = none from hn) ▸ due
  rcases Containers.find?_serve fault c w.runtime x with hs | hs <;> rw [hc] at hs
  · exact hs
  · exact hs.trans (Container.effect_none hdue)

theorem write (h : Unclaimed x w) (hw : Write job y w.last w.journal j) :
    Unclaimed x (w.withJournal fun _ => j) :=
  fun hn => h (hw.find?_eq_none hn)

theorem image (h : Unclaimed x w) (step : ImageStep) : Unclaimed x (w.image step) :=
  fun hn => h ((w.row?_image step x).symm.trans hn)

end Unclaimed

namespace Hosted

variable {w : World Containers}

theorem call (h : Hosted w) {c : Call} (due : Due job y (w.row? y) w.last c) :
    Hosted (w.called Containers.runtime fault c) where
  coupled {x row} hrow := by
    have hdue : c.target? = some x → Due job x (some row) w.last c := by
      intro ht
      obtain rfl := due.target ht
      exact (show w.row? x = some row from hrow) ▸ due
    have hexit := (h.coupled hrow).exit fault.exits
    rcases Containers.find?_serve fault c w.runtime x with hs | hs
    · exact hs ▸ hexit
    · exact hs ▸ hexit.effect hdue
  exact x := .serve x fault c w.runtime

theorem rowChange (h : Hosted w) {row' : Option Row} {r : Row}
    (hfresh : ∀ cap n fp key, job = .request cap n fp key → Unclaimed n w) (hrow : w.row? x = row)
    (hchange : RowChange job x w.last row row') (hr : row' = some r) :
    Coupled x r (w.runtime.find? x) := by
  cases hchange with
  | same => exact h.coupled (hrow.trans hr)
  | create asked drawn listed =>
    cases hr
    subst drawn
    rw [hfresh _ _ _ _ asked hrow]
    exact .fresh _ _
  | move asked old idle => cases hr; exact (h.coupled hrow).move old idle
  | step step => cases hr; exact (h.coupled hrow).rowStep (h.exact x) step
  | finish pending whole answer =>
    cases hr
    exact (h.coupled hrow).finished (h.exact x) pending whole answer
  | compensate pending launch answer => cases hr; exact (h.coupled hrow).doomed

theorem write (h : Hosted w) (hfresh : ∀ cap n fp key, job = .request cap n fp key → Unclaimed n w)
    (hw : Write job y w.last w.journal j) : Hosted (w.withJournal fun _ => j) where
  coupled {x _} hrow := h.rowChange hfresh rfl (hw.changes x) hrow
  exact := h.exact

theorem image (h : Hosted w) (step : ImageStep) : Hosted (w.image step) where
  coupled {x _} hrow := h.coupled ((w.row?_image step x).symm.trans hrow)
  exact := h.exact

/-- Tasks that stop by themselves do no harm. -/
theorem exit (h : Hosted w) (hlast : w.last = none) (ids : List String) :
    Hosted { w with runtime := w.runtime.exit ids } where
  coupled hrow := by
    rw [Containers.find?_exit]
    exact (h.coupled hrow).exit ids
  exact x := by
    dsimp only
    rw [hlast]
    exact .none

/-- The end of an operation, or of the process. -/
theorem forget (h : Hosted w) {fibers : Fibers} :
    Hosted { w with fibers := fibers, last := none } :=
  ⟨h.coupled, fun _ => .none⟩

end Hosted

/-! ### The first state -/

theorem Hosted.start (h : s.Start) : Hosted s.world where
  coupled {x row} hrow := by
    rw [World.row?, h.journal] at hrow
    cases hrow
  exact x := by
    rw [h.last]
    exact .none

theorem Unclaimed.start (h : s.world.runtime = .empty) (x : String) :
    Unclaimed x s.world := fun _ => by
  rw [h]
  rfl

end Sandcube
