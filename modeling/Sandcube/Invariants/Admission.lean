import Sandcube.System.Basic

/-!
# Admission

The reservations in the journal never exceed the budgets of the host, whatever the runtime
answers: a reservation enters through `Capacity#reserve` alone, which compares it with what
the other rows leave, and every other write keeps a reservation or sets it to zero.
-/

namespace Sandcube

variable {cap : Capacity} {id x : String} {j j' : Journal} {job : Job}
  {last : Option (Call × Reply)} {row : Row} {action : Action} {codec : Codec} {now : Time}
  {body : Option String} {r : Request}

/-- The three budgets of a host. -/
inductive Resource where
  | cpu | memory | disk
  deriving DecidableEq

/-- `reserved_cpu`, `reserved_memory_mb`, `reserved_disk_mb` -/
def Row.reservation (row : Row) : Resource → ℤ
  | .cpu => row.reservedCpu
  | .memory => row.reservedMemoryMb
  | .disk => row.reservedDiskMb

/-- What a configuration asks for. -/
def Config.demand (config : Config) : Resource → ℤ
  | .cpu => config.cpu
  | .memory => config.memoryMb
  | .disk => config.diskMb

/-- What a host has. -/
def Capacity.budget (cap : Capacity) : Resource → ℤ
  | .cpu => cap.cpu
  | .memory => cap.memoryMb
  | .disk => cap.diskMb

/-- What is reserved of a resource. -/
def Journal.reserved (j : Journal) (res : Resource) : ℤ := j.sandboxes.sum (·.reservation res)

/-- What the sandboxes other than `id` have reserved of a resource. -/
def Journal.reservedByOthers (j : Journal) (id : String) (res : Resource) : ℤ :=
  (j.sandboxes.erase id).sum (·.reservation res)

theorem Config.demand_pos (config : Config) (res : Resource) : 0 < config.demand res := by
  obtain ⟨hdisk, -, -, hcpu, hmemory, -⟩ := config.limits
  cases res <;> simp only [demand] <;> omega

theorem Capacity.budget_pos (cap : Capacity) (res : Resource) : 0 < cap.budget res := by
  obtain ⟨hcpu, hmemory, hdisk⟩ := cap.positive
  cases res <;> assumption

@[simp] theorem Row.reservation_reserved (row : Row) (res : Resource) :
    row.reserved.reservation res = row.config.demand res := by
  cases res <;> rfl

/-- The admission check, resource by resource. -/
theorem Capacity.exceeds_iff (cap : Capacity) (id : String) (config : Config) (j : Journal) :
    cap.Exceeds id config.cpu config.memoryMb config.diskMb j ↔
      ∃ res, cap.budget res < j.reservedByOthers id res + config.demand res := by
  have hcpu : j.reservedByOthers id .cpu = (j.sandboxes.erase id).sum Row.reservedCpu := rfl
  have hmemory : j.reservedByOthers id .memory = (j.sandboxes.erase id).sum Row.reservedMemoryMb :=
    rfl
  have hdisk : j.reservedByOthers id .disk = (j.sandboxes.erase id).sum Row.reservedDiskMb := rfl
  constructor
  · rintro (h | h | h)
    · exact ⟨.cpu, by rw [hcpu]; simp only [budget, Config.demand]; omega⟩
    · exact ⟨.memory, by rw [hmemory]; simp only [budget, Config.demand]; omega⟩
    · exact ⟨.disk, by rw [hdisk]; simp only [budget, Config.demand]; omega⟩
  · rintro ⟨res, h⟩
    cases res with
    | cpu => rw [hcpu] at h; exact .inl (by simp only [budget, Config.demand] at h; omega)
    | memory =>
      rw [hmemory] at h
      exact .inr (.inl (by simp only [budget, Config.demand] at h; omega))
    | disk =>
      rw [hdisk] at h
      exact .inr (.inr (by simp only [budget, Config.demand] at h; omega))

theorem Capacity.fits_of_not_exceeds {config : Config}
    (h : ¬ cap.Exceeds id config.cpu config.memoryMb config.diskMb j) (res : Resource) :
    j.reservedByOthers id res + config.demand res ≤ cap.budget res :=
  not_lt.mp fun hlt => h ((cap.exceeds_iff id config j).mpr ⟨res, hlt⟩)

/-! ### The invariant -/

/-- No reservation is negative, and together they fit the budgets.  There is no sandbox before
the budgets are known. -/
structure Admitted (j : Journal) : Prop where
  nonneg : ∀ {x row}, j.sandboxes.find? x = some row → ∀ res, 0 ≤ row.reservation res
  within : ∀ {cap}, j.hostCapacity = some cap → ∀ res, j.reserved res ≤ cap.budget res
  unconfigured : j.hostCapacity = none → j.sandboxes = .empty

/-- A write keeps a reservation or releases it. -/
def Releases (row row' : Row) : Prop :=
  ∀ res, row'.reservation res = row.reservation res ∨ row'.reservation res = 0

theorem RowStep.releases {row' : Row} (h : RowStep job x last row row') : Releases row row' := by
  intro res
  cases h with
  | release => cases res <;> simp [Row.reservation]
  | _ => exact .inl (by cases res <;> rfl)

theorem Row.releases_finished (row : Row) (status : Status) :
    Releases row (row.finished status) := by
  intro res
  cases res <;> simp only [Row.reservation, finished] <;> split_ifs <;> simp

namespace Admitted

/-- Admission is about `sandboxes` and the budgets only. -/
theorem congr (h : Admitted j) (hs : j'.sandboxes = j.sandboxes)
    (hc : j'.hostCapacity = j.hostCapacity) : Admitted j' where
  nonneg hx := h.nonneg (hs ▸ hx)
  within hcap := by
    intro res
    rw [Journal.reserved, hs]
    exact h.within (hc ▸ hcap) res
  unconfigured hn := hs ▸ h.unconfigured (hc ▸ hn)

/-- Replacing a row by one that reserves no more. -/
theorem modify (h : Admitted j) (f : Row → Row) (found : j.sandboxes.find? x = some row)
    (hf : Releases row (f row)) (hs : j'.sandboxes = j.sandboxes.modify x f)
    (hc : j'.hostCapacity = j.hostCapacity) : Admitted j' where
  nonneg := by
    intro y r hy res
    rw [hs, Table.find?_modify] at hy
    split_ifs at hy with hyx
    · subst hyx
      rw [found, Option.map_some, Option.some.injEq] at hy
      subst hy
      rcases hf res with h' | h' <;> rw [h']
      exact h.nonneg found res
    · exact h.nonneg hy res
  within := by
    intro cap hcap res
    refine le_trans ?_ (h.within (hc ▸ hcap) res)
    rw [Journal.reserved, hs]
    refine Table.sum_modify_le _ _ _ _ fun r hr => ?_
    obtain rfl := Option.some.inj (found.symm.trans hr)
    rcases hf res with h' | h' <;> rw [h']
    exact h.nonneg found res
  unconfigured hn := by
    rw [h.unconfigured (hc ▸ hn)] at found
    cases found

/-- A reservation that passed the check. -/
theorem accept {fingerprint : String} {key : Option String} (h : Admitted j)
    (hcap : j.hostCapacity = some cap)
    (accepted : Journal.Accepted cap x fingerprint key action j j') : Admitted j' := by
  cases accepted with
  | create config expiresAt sandboxes fits image requests images counters hostCapacity =>
    have hfree := Table.find?_of_insert?_eq_some sandboxes
    refine ⟨fun {y r} hy res => ?_, fun {cap'} hcap' res => ?_, fun hn => ?_⟩
    · rw [Table.find?_insert? sandboxes] at hy
      split_ifs at hy with hyx
      · obtain rfl := Option.some.inj hy
        rw [Row.reservation_reserved]
        exact (config.demand_pos res).le
      · exact h.nonneg hy res
    · obtain rfl : cap = cap' := Option.some.inj (hcap.symm.trans (hostCapacity ▸ hcap'))
      have hfit := Capacity.fits_of_not_exceeds fits res
      rw [Journal.reservedByOthers, Table.erase_of_find?_eq_none _ hfree] at hfit
      rw [Journal.reserved, Table.sum_insert? sandboxes, Row.reservation_reserved]
      exact hfit
    · rw [hostCapacity, hcap] at hn
      cases hn
  | move _ row old found idle sandboxes fits sandboxImages requests images counters hostCapacity =>
    by_cases hstarts : action.Starts
    · simp only [hstarts, if_true] at sandboxes
      refine ⟨fun {y r} hy res => ?_, fun {cap'} hcap' res => ?_, fun hn => ?_⟩
      · rw [sandboxes, Table.find?_modify] at hy
        split_ifs at hy with hyx
        · rw [hyx, found, Option.map_some, Option.some.injEq] at hy
          rw [← hy]
          exact (row.reservation_reserved res).symm ▸ (row.config.demand_pos res).le
        · exact h.nonneg hy res
      · obtain rfl : cap = cap' := Option.some.inj (hcap.symm.trans (hostCapacity ▸ hcap'))
        rw [Journal.reserved, sandboxes, Table.sum_modify _ found]
        refine le_trans (add_le_add_right ?_ _) (Capacity.fits_of_not_exceeds (fits hstarts) res)
        exact (row.reservation_reserved res).le
      · rw [hostCapacity, hcap] at hn
        cases hn
    · simp only [hstarts, if_false] at sandboxes
      exact h.modify _ found (fun res => .inl (by cases res <;> rfl)) sandboxes hostCapacity

/-- Every write keeps the invariant, whatever the runtime said. -/
theorem write (h : Admitted j)
    (hcap : ∀ cap n fp key, job = .request cap n fp key → j.hostCapacity = some cap)
    (hw : Write job x last j j') : Admitted j' := by
  cases hw with
  | accept asked _ _ accepted => exact h.accept (hcap _ _ _ _ asked) accepted
  | row found step => exact h.modify (fun _ => _) found step.releases rfl rfl
  | complete found pending whole answer done =>
    rw [Journal.complete_of_find? found, Except.ok.injEq] at done
    subst done
    exact h.modify (·.finished _) found (Row.releases_finished _ _) rfl rfl
  | compensate found pending launch answer =>
    exact h.modify Row.doomed found (fun res => .inl (by cases res <;> rfl)) rfl rfl
  | count name | dropImage sweeping gone answer => exact h.congr rfl rfl

theorem empty : Admitted .empty :=
  ⟨nofun, nofun, fun _ => rfl⟩

end Admitted

variable {ρ ψ : Type} [Inhabited ψ]

theorem admitted_keeps (R : Runtime ρ ψ) :
    (Setting.any : Setting ρ ψ).Keeps R fun w => Admitted w.journal where
  call h _ _ _ := h
  write h _ hfunded hw := h.write hfunded hw
  image h _ := h.congr (World.image_journal _ _).1 (World.image_journal _ _).2.2
  job _ _ _ := trivial
  done h := h
  die h := h
  configure h hold := by
    refine ⟨h.nonneg, fun hcap res => ?_, nofun⟩
    cases hcap
    rcases hold with hn | hc
    · simp only [Journal.reserved, World.withJournal, h.unconfigured hn, Table.sum_empty]
      exact (Capacity.budget_pos _ res).le
    · exact h.within hc res
  builds h _ := h.congr rfl rfl
  drift h _ _ := h

/-! ### The refusal -/

/-- The checks before the reservation do not change what the others have. -/
theorem Journal.reservedByOthers_prepare {config : Config}
    (h : j.prepare codec now id action body = .ok (config, j')) (res : Resource) :
    j'.reservedByOthers id res = j.reservedByOthers id res := by
  unfold reservedByOthers
  by_cases hcreate : action = .create
  · subst hcreate
    obtain ⟨expiresAt, sandboxes, hins, -, hj'⟩ := prepareCreate_eq_ok h
    rw [hj', Table.erase_insert? hins,
      Table.erase_of_find?_eq_none _ (Table.find?_of_insert?_eq_some hins)]
  · have hmove : j.prepareMove id action = .ok (config, j') := by
      cases action <;> first | exact absurd rfl hcreate | exact h
    rw [(prepareMove_eq_ok hmove).1]

/-- An operation that passed the other checks is refused for its demand alone. -/
theorem Journal.accept_eq_insufficient_iff (cap : Capacity) (fingerprint : String)
    (key : Option String) {config : Config} (hstarts : action.Starts)
    (h : j.prepare codec now id action body = .ok (config, j')) :
    j.accept codec cap now id action body key fingerprint = .error Capacity.insufficient ↔
      ∃ res, cap.budget res < j.reservedByOthers id res + config.demand res := by
  have hothers := Journal.reservedByOthers_prepare h
  simp only [← hothers]
  rw [← cap.exceeds_iff id config j']
  unfold accept
  simp only [h, bind, Except.bind, reserveFor, if_pos hstarts]
  by_cases hex : cap.Exceeds id config.cpu config.memoryMb config.diskMb j'
  · simp [(cap.reserve_eq_error_iff id config.cpu config.memoryMb config.diskMb j' _).mpr
      ⟨hex, rfl⟩, hex]
  · simp only [Capacity.reserve, hex, if_false, iff_false]
    -- What can still fail is the record.
    cases key with
    | none => nofun
    | some key =>
      simp only [remember, insertRecord]
      split <;> simp [Capacity.insufficient]

open Reliability Prog

/-- A create, start or restart that passed every check but admission: its key is new, the
inventory is accounted for, the process lives until the transaction, and the transaction comes
to the reservation of `config` for the sandbox `id`. -/
structure Passed (codec : Codec) (R : Runtime ρ ψ) (cap : Capacity) (r : Request) (action : Action)
    (w : World ρ) (fates : List (Fate (Env ψ))) (id : String) (config : Config) : Prop where
  check : r.check = .ok action
  starts : action.Starts
  new : previous r.key w.journal = none
  sandbox : r.sandboxId action = .ok id
  prepared : ∃ u rest env rest' j, checkInventory R w fates = ⟨.ok (), u, rest⟩ ∧
    granted rest = some (env, rest') ∧
    (u.interfere env.images).journal.prepare codec r.now id action r.body = .ok (config, j)

/-- The tables of the lifecycle are as in `j`. -/
structure Unchanged (j : Journal) (w : World ρ) : Prop where
  sandboxes : w.journal.sandboxes = j.sandboxes
  sandboxImages : w.journal.sandboxImages = j.sandboxImages
  requests : w.journal.requests = j.requests

theorem Unchanged.image {w : World ρ} {step : ImageStep} (h : Unchanged j w) (hs : step.Internal) :
    Unchanged j (w.image step) :=
  ⟨(w.image_journal step).1.trans h.sandboxes, (World.sandboxImages_image hs).trans h.sandboxImages,
    (w.image_journal step).2.1.trans h.requests⟩

theorem unchanged_checkInventory (R : Runtime ρ ψ) (j : Journal) :
    Does Rules.internal.adversary (fun _ _ => True) (Unchanged j) (checkInventory R)
      (fun _ => Unchanged j) (fun _ => Unchanged j) := by
  refine .bind (hoare_call (fun _ _ hs h => h.image hs) (fun _ _ _ h _ _ => ⟨h.1, h.2, h.3⟩)
    fun _ _ _ h _ _ => ⟨h.1, h.2, h.3⟩) fun body => .bind (.ofExcept (fun _ _ _ h => h)
    fun _ _ _ h => h) fun containers => .forEach (I := fun _ => Unchanged j) fun c _ _ => ?_
  exact .bind (.ofExcept (fun _ _ _ h => h) fun _ _ _ h => h) fun _ =>
    .read (fun _ _ h _ => h) fun _ _ h _ => h

theorem Reliability.Heard.ne_insufficient {e : Ex} (h : Heard e) : e ≠ Capacity.insufficient := by
  rcases h with rfl | ⟨reply, h⟩
  · simp [Capacity.insufficient]
  · rintro rfl
    cases reply <;> simp [Reply.toExcept, Capacity.insufficient] at h

/-- Once it is admitted, an operation is not refused for its demand. -/
theorem converge_ne_insufficient (R : Runtime ρ ψ) (id : String) (w : World ρ)
    (fates : List (Fate (Env ψ))) :
    ((do converge R id; let response ← query (Journal.response id); pure (.response response) :
      Op ρ ψ Answer) w fates).outcome ≠ .raised Capacity.insufficient := by
  have hconverge : Does Rules.any.adversary (Move R Rules.any .retry id) _ (converge R id) _ _ :=
    does_converge
  have hdoes : Does Rules.any.adversary (fun _ _ => True) (fun _ => True)
      (do converge R id; let response ← query (Journal.response id); pure (.response response) :
        Op ρ ψ Answer) (fun _ _ => True) (fun e _ => e ≠ Capacity.insufficient) := by
    refine .bind (K := fun _ _ => True) ((hconverge.mono fun _ _ _ => trivial).conseq
      (fun _ _ => trivial) (fun _ _ _ => trivial) fun e _ he => he.ne_insufficient) fun _ =>
      .bind (K := fun _ _ => True) (.read (fun _ _ _ _ => trivial) fun w e _ he => ?_) fun _ =>
      .pure fun _ _ => trivial
    simp only [Journal.response, bind, Except.bind] at he
    cases hget : w.journal.get id with
    | ok row => simp [hget] at he; cases he
    | error e' =>
      simp only [hget, Except.error.injEq] at he
      rw [← he, Journal.eq_of_get_eq_error hget]
      simp [Capacity.insufficient]
  exact fun h => hdoes.raised (Rules.allows_any _) trivial h rfl

/-- The first half of an operation that passed the other checks. -/
theorem Passed.accept_apply {R : Runtime ρ ψ} {w u : World ρ}
    {fates rest rest' : List (Fate (Env ψ))} {env : Env ψ} {config : Config}
    (h : Passed codec R cap r action w fates id config)
    (hinventory : checkInventory R w fates = ⟨.ok (), u, rest⟩)
    (hgranted : Prog.granted rest = some (env, rest')) :
    accept codec R cap r action w fates =
      match (u.interfere env.images).journal.accept codec cap r.now id action r.body r.key
        (r.fingerprint codec) with
      | .ok j' => ⟨.ok id, (u.interfere env.images).withJournal fun _ => j', rest'⟩
      | .error e => ⟨.raised e, u.interfere env.images, rest'⟩ := by
  simp only [accept, when, if_pos h.starts, bind_apply, hinventory, h.sandbox,
    Prog.ofExcept, pure_apply, transaction, atomic_apply hgranted]
  cases (u.interfere env.images).journal.accept codec cap r.now id action r.body r.key
    (r.fingerprint codec) <;> rfl

/-- The transaction of an operation that passed the other checks. -/
theorem Passed.request_apply {R : Runtime ρ ψ} {w : World ρ} {fates : List (Fate (Env ψ))}
    {config : Config} (h : Passed codec R cap r action w fates id config)
    (hfates : Rules.internal.adversary.Allows fates) :
    ∃ v rest j, Unchanged w.journal v ∧
      v.journal.prepare codec r.now id action r.body = .ok (config, j) ∧
      request codec R cap r w fates =
        match v.journal.accept codec cap r.now id action r.body r.key (r.fingerprint codec) with
        | .ok j' => (do converge R id; let response ← query (Journal.response id)
                        pure (.response response) : Op ρ ψ Answer) (v.withJournal fun _ => j') rest
        | .error e => ⟨.raised e, v, rest⟩ := by
  obtain ⟨u, rest, env, rest', j, hinventory, hgranted, hprepared⟩ := h.prepared
  have hu : Unchanged w.journal u ∧ Rules.internal.adversary.Allows rest := by
    have hend := unchanged_checkInventory R w.journal w fates hfates ⟨rfl, rfl, rfl⟩
    rw [hinventory] at hend
    exact ⟨hend.2.2, hend.1⟩
  have hpermits : ∀ step ∈ env.images, step.Internal := by
    cases rest with
    | nil =>
      cases hgranted
      intro step hmem
      cases hmem
    | cons fate rest =>
      obtain ⟨hmay, -⟩ := Adversary.allows_cons.mp hu.2
      cases fate with
      | go env' =>
        cases hgranted
        exact hmay.1
      | crash | crashAfter env' => cases hgranted
  have hv : Unchanged w.journal (u.interfere env.images) :=
    World.interfere_induction (fun _ _ hs h => h.image hs) hpermits hu.1
  refine ⟨u.interfere env.images, rest', j, hv, hprepared, ?_⟩
  simp only [request_eq, h.check, h.new, process, bind_apply, h.accept_apply hinventory hgranted]
  cases (u.interfere env.images).journal.accept codec cap r.now id action r.body r.key
    (r.fingerprint codec) <;> rfl

/-- **Admission.**  Against any runtime, the reservations of every resource lie between zero and
the persisted budget, and an operation that passed the other checks is refused exactly when its
demand exceeds what the others leave of some budget.  A refusal changes none of the tables. -/
theorem admission {codec : Codec} {R : Runtime ρ ψ} {init : ρ → Prop} {s : System ρ}
    (hs : s.Reachable codec R .any init) :
    (∀ res, 0 ≤ s.world.journal.reserved res ∧
      match s.world.journal.hostCapacity with
      | some cap => s.world.journal.reserved res ≤ cap.budget res
      | none => s.world.journal.sandboxes = .empty) ∧
    ∀ cap r action fates id config, s.api = some cap → Rules.internal.adversary.Allows fates →
      Passed codec R cap r action s.world fates id config →
      s.world.journal.hostCapacity = some cap ∧
      ((request codec R cap r s.world fates).outcome = .raised Capacity.insufficient ↔
        ∃ res, cap.budget res < s.world.journal.reservedByOthers id res + config.demand res) ∧
      ((request codec R cap r s.world fates).outcome = .raised Capacity.insufficient →
        Unchanged s.world.journal (request codec R cap r s.world fates).state) := by
  obtain ⟨hadmitted, hsettled⟩ := hs.invariant (admitted_keeps R) fun s hstart _ => by
    rw [hstart.journal]
    exact .empty
  refine ⟨fun res => ⟨?_, ?_⟩, fun cap r action fates id config hapi hfates hpassed => ?_⟩
  · exact Table.sum_nonneg _ _ fun x row hrow => hadmitted.nonneg hrow res
  · cases hcap : s.world.journal.hostCapacity with
    | none => exact hadmitted.unconfigured hcap
    | some cap => exact hadmitted.within hcap res
  obtain ⟨v, rest, j, hv, hprepared, hrequest⟩ := hpassed.request_apply hfates
  have hothers : ∀ res, v.journal.reservedByOthers id res =
      s.world.journal.reservedByOthers id res := fun res => by
    simp only [Journal.reservedByOthers, hv.sandboxes]
  have hiff := Journal.accept_eq_insufficient_iff cap (r.fingerprint codec) r.key hpassed.starts
    hprepared
  simp only [hothers] at hiff
  refine ⟨hsettled.funded cap hapi, ?_⟩
  rw [hrequest, ← hiff]
  cases v.journal.accept codec cap r.now id action r.body r.key (r.fingerprint codec) with
  | ok j' =>
    have hne := converge_ne_insufficient R id (v.withJournal fun _ => j') rest
    exact ⟨⟨fun h => absurd h hne, nofun⟩, fun h => absurd h hne⟩
  | error e =>
    refine ⟨⟨fun h => ?_, fun h => ?_⟩, fun _ => hv⟩
    · cases h
      rfl
    · cases h
      rfl

/-! A host with room for one sandbox. -/

/-- The budgets: what a create asks for by default. -/
def Sample.tight : Capacity := ⟨1, 256, 1024, by decide⟩

/-- The state after the first create. -/
def Sample.full : System Containers := Sample.run [.boot Sample.tight true, .request Sample.create []]

/-- Another create, without a key. -/
def Sample.second : Request := { Sample.create with key := none, uuid := "2" }

/-- What the sample body asks for. -/
def Sample.config : Config := ⟨"busybox", none, ["sh"], 1, 256, 1024, 128, by decide⟩

theorem admission_full :
    (request Sample.codec Containers.runtime Sample.tight Sample.second Sample.full.world []).outcome =
      .raised Capacity.insufficient := by
  have hs : Sample.full.Reachable Sample.codec Containers.runtime .any (· = .empty) :=
    Sample.reachable _ ⟨trivial, ⟨Adversary.allows_nil _, fun _ _ => trivial⟩, trivial⟩
  have hpassed : Passed Sample.codec Containers.runtime Sample.tight Sample.second .create
      Sample.full.world [] "sbx_2" Sample.config :=
    ⟨by decide, trivial, by decide, by decide, _, _, _, _, _, rfl, rfl, rfl⟩
  exact ((admission hs).2 _ _ _ _ _ _ rfl (Adversary.allows_nil _) hpassed).2.1.mpr
    ⟨.cpu, by decide⟩

end Sandcube
