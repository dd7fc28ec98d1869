import Sandcube.Host.Sweep

/-!
# Crash transparency

Once the intent of an operation is in the journal, crashes and lost answers do not change
where it ends.  Every move of a recovery keeps the goal of every sandbox (`recovery_keeps`),
and a sweep in which nothing fails takes every sandbox to its goal.
-/

open Relation Prog

namespace Sandcube

open Reliability

/-! ### The states to begin with -/

/-- The host belongs to the API, and only the API's requests take image references.  Calls may
fail in any way, tasks may stop by themselves, and the process may be killed at any point. -/
def Setting.closed : Setting Containers Fault where
  rules := .internal
  job _ _ := True
  drift w runtime := ∃ ids, runtime = w.runtime.exit ids

/-- Journal and runtime fit, and every container has a row. -/
structure Closed (w : World Containers) : Prop where
  hosted : Hosted w
  owned : Owned w
  unclaimed : ∀ x, Unclaimed x w

theorem closed_keeps : Setting.closed.Keeps Containers.runtime Closed where
  call h _ _ due := ⟨h.hosted.call due, h.owned, fun x => (h.unclaimed x).call due⟩
  write h _ _ hw := ⟨h.hosted.write (fun _ n _ _ _ => h.unclaimed n) hw,
    h.hosted.owned_write h.owned hw, fun x => (h.unclaimed x).write hw⟩
  image h hs := ⟨h.hosted.image _, h.owned.image hs, fun x => (h.unclaimed x).image _⟩
  job _ _ _ := trivial
  done h := ⟨h.hosted.forget, h.owned, h.unclaimed⟩
  die h := ⟨h.hosted.forget, h.owned, h.unclaimed⟩
  configure h _ := ⟨⟨h.hosted.coupled, h.hosted.exact⟩, h.owned, h.unclaimed⟩
  builds h _ := ⟨⟨h.hosted.coupled, h.hosted.exact⟩, h.owned, h.unclaimed⟩
  drift h hlast hd := by
    obtain ⟨ids, rfl⟩ := hd
    refine ⟨h.hosted.exit hlast ids, h.owned, fun x hn => ?_⟩
    have hnone := h.unclaimed x hn
    simp [Containers.find?_exit, hnone]

theorem System.Reachable.closed {codec : Codec} {s : System Containers}
    (hs : s.Reachable codec Containers.runtime .closed (· = .empty)) :
    Closed s.world ∧ s.Settled :=
  hs.invariant closed_keeps fun _ hstart hempty => ⟨.start hstart, .start hstart, .start hempty⟩

/-! ### Recovery -/

/-- Recoveries of sandboxes in `U` before they expire: the process is killed and started, it
sweeps, and clients retry.  Calls may be lost. -/
def Setting.recovery (U : String → Prop) : Setting Containers Fault where
  rules := .lossy
  job job w := job.Recovers ∧ ∀ clock, job = .sweep clock →
    ∀ y, U y → ∀ row, w.row? y = some row → ¬ row.Expired (clock y)
  drift _ _ := False

/-- The sandboxes of `U` are on their way to `G`. -/
structure Bound (U : String → Prop) (G : String → View) (w : World Containers) : Prop where
  faithful : Faithful w
  unclaimed : ∀ x, Unclaimed x w
  goal : ∀ y, U y → (w.view y).goal y = G y


theorem recovery_keeps (U : String → Prop) (G : String → View) :
    (Setting.recovery U).Keeps Containers.runtime (Bound U G) where
  call {job x f c w} h hjob hf due := by
    have hmove : Move Containers.runtime .lossy job x w _ := .call hf due
    exact ⟨h.faithful.call hf due, fun x => (h.unclaimed x).call due, fun y hy =>
      (goal_move h.faithful hjob.1 (fun clock hc => hjob.2 clock hc y hy) (h.unclaimed y) hmove).trans
        (h.goal y hy)⟩
  write {job x j w} h hjob _ hw := by
    have hmove : Move Containers.runtime .lossy job x w _ := .write hw
    exact ⟨h.faithful.recover hw hjob.1, fun x => (h.unclaimed x).write hw, fun y hy =>
      (goal_move h.faithful hjob.1 (fun clock hc => hjob.2 clock hc y hy) (h.unclaimed y) hmove).trans
        (h.goal y hy)⟩
  image h hs := ⟨h.faithful.image hs, fun x => (h.unclaimed x).image _, fun y hy => by
    rw [World.view_image _ hs]
    exact h.goal y hy⟩
  job h hjob hmove := ⟨hjob.1, fun clock hc y hy =>
    Row.expired_congr (hmove.expiresAt_eq hjob.1) (hjob.2 clock hc y hy)⟩
  done h := ⟨.of_settled h.faithful.hosted.forget h.faithful.owned rfl, h.unclaimed, h.goal⟩
  die h := ⟨.of_settled h.faithful.hosted.forget h.faithful.owned rfl, h.unclaimed, h.goal⟩
  configure h _ := ⟨⟨⟨h.faithful.hosted.coupled, h.faithful.hosted.exact⟩, h.faithful.owned,
    h.faithful.unrefused⟩, h.unclaimed, h.goal⟩
  builds h _ := ⟨⟨⟨h.faithful.hosted.coupled, h.faithful.hosted.exact⟩, h.faithful.owned,
    h.faithful.unrefused⟩, h.unclaimed, h.goal⟩
  drift _ _ hd := hd.elim

/-! ### The commit -/

/-- The request `r` comes as far as the commit of its intent.  The world is `w₀` then, and the
fates `rest` are still to come. -/
structure Commits (codec : Codec) (cap : Capacity) (s : System Containers) (r : Request)
    (action : Action) (fates : List (Fate (Env Fault))) (id : String) (w₀ : World Containers)
    (rest : List (Fate (Env Fault))) : Prop where
  api : s.api = some cap
  check : r.check = .ok action
  new : previous r.key s.world.journal = none
  allowed : Setting.closed.rules.adversary.Allows fates
  committed : accept codec Containers.runtime cap r action s.world fates = ⟨.ok id, w₀, rest⟩

namespace Commits

variable {codec : Codec} {cap : Capacity} {s : System Containers} {r : Request} {action : Action}
  {fates rest : List (Fate (Env Fault))} {id : String} {w₀ : World Containers}

/-- After the commit, a request does what `converge` does. -/
theorem next_eq (h : Commits codec cap s r action fates id w₀ rest) :
    ∃ result : Result (World Containers) (Env Fault) Ex Answer,
      s.next codec Containers.runtime (.request r fates) = s.after result ∧
      result.state = (converge Containers.runtime id w₀ rest).state ∧
      (result.outcome = .crashed ↔
        (converge Containers.runtime id w₀ rest).outcome = .crashed) := by
  refine ⟨process codec Containers.runtime cap r action s.world fates, ?_, ?_⟩
  · simp only [System.next, h.api, request_eq, h.check, h.new]
  · rw [process, bind_apply, h.committed]
    simp only [bind_apply]
    generalize converge Containers.runtime id w₀ rest = result
    obtain ⟨o, w, fs⟩ := result
    cases o with
    | ok a => cases hresp : w.journal.response id <;> simp [query, Prog.read, hresp, Prog.ofExcept,
        pure_apply, raise_apply]
    | raised e | crashed => simp

/-- What is known at the commit. -/
theorem known (h : Commits codec cap s r action fates id w₀ rest) (hclosed : Closed s.world)
    (hs : s.Settled) :
    Closed w₀ ∧ Answered w₀ ∧ w₀.journal.hostCapacity = s.world.journal.hostCapacity ∧
      ∃ row, w₀.row? id = some row ∧ row.intent = some action := by
  obtain ⟨x, hx⟩ : ∃ x, ∀ id', r.sandboxId action = .ok id' → id' = x := by
    cases hid : r.sandboxId action with
    | ok x => exact ⟨x, fun id' h' => (Except.ok.inj h').symm⟩
    | error e => exact ⟨"", nofun⟩
  have haccept : Does Setting.closed.rules.adversary
      (Move Containers.runtime Setting.closed.rules (r.job codec cap) x) _
      (accept codec Containers.runtime cap r action) _ _ :=
    does_accept (L := fun last => ∀ c reply, last = some (c, reply) → ∃ body, reply = .ok body)
      (by simp) hx
  have hanswered : Answered s.world := .of_settled hs.last
  have hmoves := haccept.steps h.allowed hanswered
  obtain ⟨rfl, hlast, hpending⟩ := haccept.ok h.allowed hanswered (by rw [h.committed])
  rw [h.committed] at hmoves hlast hpending
  have hmoves' := moves_exists hmoves
  have hfunded : (r.job codec cap).Funded s.world := by
    intro cap' n fp key hj
    obtain ⟨rfl, -⟩ := Job.request.inj hj
    exact hs.funded _ h.api
  exact ⟨(closed_keeps.moves hclosed trivial hfunded hmoves').1, hlast,
    hostCapacity_of_moves hmoves', hpending⟩

/-- Recoveries from the commit on. -/
theorem bound (h : Commits codec cap s r action fates id w₀ rest) (hclosed : Closed s.world)
    (hs : s.Settled) (hrest : Rules.lossy.adversary.Allows rest) (U : String → Prop) :
    Bound U (fun y => (w₀.view y).goal y)
        (s.next codec Containers.runtime (.request r fates)).world ∧
      (s.next codec Containers.runtime (.request r fates)).Settled := by
  obtain ⟨hclosed₀, hanswered, hcap, -⟩ := h.known hclosed hs
  obtain ⟨result, hnext, hstate, -⟩ := h.next_eq
  have hmoves : ReflTransGen (fun w w' => ∃ x, Move Containers.runtime .lossy .retry x w w') w₀
      (converge Containers.runtime id w₀ rest).state :=
    moves_exists (does_converge.steps hrest trivial)
  have hfaithful := hanswered.faithful hclosed₀.hosted hclosed₀.owned
  have hjob : (Setting.recovery U).job .retry w₀ := ⟨trivial, nofun⟩
  have hbound := ((recovery_keeps U fun y => (w₀.view y).goal y).moves
    ⟨hfaithful, hclosed₀.unclaimed, fun _ _ => rfl⟩ hjob (Job.funded_retry w₀) hmoves).1
  rw [hnext]
  refine System.after_keeps (recovery_keeps U _) (hstate ▸ hbound) fun cap' hapi => ?_
  rw [hstate, hostCapacity_of_moves hmoves, hcap]
  exact hs.funded cap' hapi

/-- The execution in which nothing fails. -/
theorem flawless (h : Commits codec cap s r action fates id w₀ rest) (hclosed : Closed s.world)
    (hs : s.Settled) (hrest : Rules.clean.adversary.Allows rest) :
    (s.next codec Containers.runtime (.request r fates)).api = some cap ∧
      (s.next codec Containers.runtime (.request r fates)).world.last = none ∧
      Toward id ((w₀.view id).goal id) w₀.view
        (s.next codec Containers.runtime (.request r fates)).world ∧
      (s.next codec Containers.runtime (.request r fates)).world.view id =
        (w₀.view id).goal id := by
  obtain ⟨hclosed₀, hanswered, -, row, hrow, hpending⟩ := h.known hclosed hs
  obtain ⟨result, hnext, hstate, hcrash⟩ := h.next_eq
  have hstart : Toward id ((w₀.view id).goal id) w₀.view w₀ :=
    ⟨hanswered.faithful hclosed₀.hosted hclosed₀.owned, hanswered, by simp [hrow], rfl,
      fun _ _ => rfl⟩
  rcases (clean_attempt _ hstart).survives hrest rfl (Rules.gentle not_false) with
    ⟨_, hok, hend⟩ | ⟨_, _, hend⟩
  · obtain ⟨htoward, -, hquiet | hview⟩ := hend
    · obtain ⟨r, hr, hi⟩ := hquiet
      cases hr.symm.trans hrow
      exact nomatch hi.symm.trans hpending
    have hlives : result.outcome ≠ .crashed := fun hc => by
      have := hcrash.mp hc
      rw [converge, hok] at this
      cases this
    have hafter : s.after result = ⟨result.state.done, s.api⟩ := by
      unfold System.after
      cases ho : result.outcome with
      | crashed => exact absurd ho hlives
      | ok a | raised e => rfl
    rw [hnext, hafter, hstate]
    exact ⟨h.api, rfl, htoward.done, hview⟩
  · exact hend.elim

end Commits

/-! ### The theorem -/

/-- A sweep in which nothing fails takes the sandboxes that did not expire to their goals. -/
theorem sweep_goal {codec : Codec} {s : System Containers} {U : String → Prop} {sweep : Sweep}
    {fates : List (Fate (Env Fault))} (hup : s.api ≠ none) (hfaithful : Faithful s.world)
    (hunclaimed : ∀ x, Unclaimed x s.world) (hlast : s.world.last = none)
    (hsweep : (Setting.recovery U).job (.sweep sweep.clock) s.world)
    (hfates : Rules.clean.adversary.Allows fates) {y : String} (hy : U y) :
    (s.next codec Containers.runtime (.reconcile sweep fates)).world.view y =
      (s.world.view y).goal y := by
  rw [(next_reconcile_clean codec hup hfaithful hlast sweep hfates).2 y]
  exact View.swept_eq_goal y (hsweep.2 _ rfl y hy) (hunclaimed y)

/-- **Crash transparency.**  A request committed its intent; then calls were lost and the process
was killed at any points, and sweeps and retries met the same fate any number of times.  One
sweep in which nothing fails, before the sandbox expires, leaves the sandbox exactly as the
execution in which nothing failed: its row, its image reference, its container and the answers
stored under every key.  The same is true of every other sandbox that did not expire meanwhile,
once that execution is followed by a sweep, too. -/
theorem crash_transparency {codec : Codec} {cap : Capacity} {s t : System Containers} {r : Request}
    {action : Action} {fates fates' rest rest' clean clean' : List (Fate (Env Fault))}
    {id : String} {w₀ : World Containers} {U : String → Prop} {sweep sweep' : Sweep}
    (hs : s.Reachable codec Containers.runtime .closed (· = .empty))
    (hcommit : Commits codec cap s r action fates id w₀ rest)
    (hrest : Rules.lossy.adversary.Allows rest)
    (hlater : System.Later codec Containers.runtime (.recovery U)
      (s.next codec Containers.runtime (.request r fates)) t)
    (hup : t.api ≠ none) (hU : U id)
    (hsweep : (Setting.recovery U).job (.sweep sweep.clock) t.world)
    (hclean : Rules.clean.adversary.Allows clean)
    (hcommit' : Commits codec cap s r action fates' id w₀ rest')
    (hrest' : Rules.clean.adversary.Allows rest')
    (hsweep' : (Setting.recovery U).job (.sweep sweep'.clock)
      (s.next codec Containers.runtime (.request r fates')).world)
    (hclean' : Rules.clean.adversary.Allows clean') :
    (∃ row, (t.next codec Containers.runtime (.reconcile sweep clean)).world.row? id = some row ∧
      row.status = action.target ∧ row.intent = none) ∧
    (t.next codec Containers.runtime (.reconcile sweep clean)).world.view id =
      (s.next codec Containers.runtime (.request r fates')).world.view id ∧
    ∀ y, U y → (t.next codec Containers.runtime (.reconcile sweep clean)).world.view y =
      ((s.next codec Containers.runtime (.request r fates')).next codec Containers.runtime
        (.reconcile sweep' clean')).world.view y := by
  obtain ⟨hclosed, hsettled⟩ := hs.closed
  -- The execution with failures.
  obtain ⟨hbound₁, hsettled₁⟩ := hcommit.bound hclosed hsettled hrest U
  obtain ⟨hbound, hsettled'⟩ := hlater.invariant (recovery_keeps U _) hbound₁ hsettled₁
  have hdone : ∀ y, U y → (t.next codec Containers.runtime (.reconcile sweep clean)).world.view y =
      (w₀.view y).goal y := fun y hy =>
    (sweep_goal hup hbound.faithful hbound.unclaimed hsettled'.last hsweep hclean hy).trans
      (hbound.goal y hy)
  -- The execution without.
  obtain ⟨hapi, hlast, htoward, hview⟩ := hcommit'.flawless hclosed hsettled hrest'
  have hs' : System.Reachable codec Containers.runtime .closed (· = .empty)
      (s.next codec Containers.runtime (.request r fates')) :=
    hs.step ⟨hcommit'.allowed, fun _ _ => trivial⟩
  obtain ⟨-, -, -, row, hrow, hpending⟩ := hcommit.known hclosed hsettled
  have hgoal := View.goal_of_pending (v := w₀.view id) id hrow hpending
  refine ⟨⟨row.finished action.target, ?_, rfl, rfl⟩, (hdone id hU).trans hview.symm,
    fun y hy => ?_⟩
  · exact congrArg View.row ((hdone id hU).trans hgoal)
  · rw [hdone y hy, sweep_goal (by simp [hapi]) htoward.faithful hs'.closed.1.unclaimed hlast
      hsweep' hclean' hy]
    by_cases hyid : y = id
    · subst hyid
      exact htoward.goal.symm
    · rw [htoward.others y hyid]

/-! A create whose first answer is lost, in a process that is then killed. -/

/-- The sample host after its first start. -/
def Sample.booted : System Containers := Sample.run [.boot Sample.capacity true]

/-- The inventory and the commit, then the answer that is lost and the kill. -/
def Sample.lossy : List (Fate (Env Fault)) :=
  [.go default, .go default, .go ⟨[], ⟨[], some (true, .lost "timeout")⟩⟩, .crash]

/-- The next process, which sweeps after a second. -/
def Sample.restarted : System Containers :=
  Transition.run (System.next Sample.codec Containers.runtime) Sample.booted
    [.request Sample.create Sample.lossy, .boot Sample.capacity true]

/-- The world at the commit. -/
def Sample.committed : World Containers :=
  (accept Sample.codec Containers.runtime Sample.capacity Sample.create .create
    Sample.booted.world []).state

theorem crash_transparency_lostCreate :
    (Sample.restarted.next Sample.codec Containers.runtime (.reconcile Sample.sweep [])).world.view
        "sbx_1" =
      (Sample.booted.next Sample.codec Containers.runtime (.request Sample.create [])).world.view
        "sbx_1" := by
  have hcommit : Commits Sample.codec Sample.capacity Sample.booted Sample.create .create
      Sample.lossy "sbx_1" Sample.committed (Sample.lossy.drop 2) :=
    ⟨rfl, by decide, by decide, by
      simp [Adversary.Allows, Sample.lossy, Rules.adversary, Rules.Permits, Setting.closed,
        Rules.internal, default],
      rfl⟩
  have hlossy : Rules.lossy.adversary.Allows (Sample.lossy.drop 2) := by
    simp [Adversary.Allows, Sample.lossy, Rules.adversary, Rules.Permits, Rules.lossy, Fault.Lossy]
  have hcommit' : Commits Sample.codec Sample.capacity Sample.booted Sample.create .create
      [] "sbx_1" Sample.committed [] := ⟨rfl, by decide, by decide, Adversary.allows_nil _, rfl⟩
  have hjob : ∀ s : System Containers, (∀ row ∈ s.world.row? "sbx_1", ¬ row.Expired 1000) →
      (Setting.recovery (· = "sbx_1")).job (.sweep Sample.sweep.clock) s.world := by
    refine fun s h => ⟨trivial, ?_⟩
    rintro _ ⟨⟩ _ rfl
    exact h
  have hlater : System.Later Sample.codec Containers.runtime (.recovery (· = "sbx_1"))
      (Sample.booted.next Sample.codec Containers.runtime (.request Sample.create Sample.lossy))
      Sample.restarted := .single ⟨.boot Sample.capacity true, trivial, rfl⟩
  exact (crash_transparency (Sample.reachable [.boot Sample.capacity true] ⟨trivial, trivial⟩)
    hcommit hlossy hlater (by decide) rfl (hjob Sample.restarted (by decide))
    (Adversary.allows_nil _) hcommit' (Adversary.allows_nil _) (hjob _ (by decide))
    (Adversary.allows_nil _)).2.1

end Sandcube
