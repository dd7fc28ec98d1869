import Sandcube.Host.Missing
import Sandcube.Invariants.Records
import Sandcube.Invariants.Resurrection

/-!
# Expiration and pending work

Pending work is taken up again in two ways: by a sweep, and by a client that repeats its request
under the same key.  A sweep checks the expiration of a sandbox at its turn and turns pending work
into a deletion, so it launches nothing that has expired.  A retry goes straight to `converge`,
which does not look at the clock: it launches expired sandboxes as it would any other.
-/

open Relation

namespace Sandcube

open Prog Reliability

variable {ρ ψ : Type} [Inhabited ψ]
variable {c : Call} {s : System ρ} {x y : String} {w : World Containers} {l : List Call}
  {action : Action} {row : Row} {codec : Codec} {r : Request}

/-! ### Launches between two states -/

/-- From `w` to `w'` no request was sent that launches `x`. -/
def Mute (x : String) (w w' : World ρ) : Prop :=
  ∃ later, w'.sent = later ++ w.sent ∧ ∀ c ∈ later, ¬ c.Launches x

/-- From `w` to `w'` a request was sent that launches `x`. -/
def Launched (x : String) (w w' : World ρ) : Prop :=
  ∃ later, w'.sent = later ++ w.sent ∧ ∃ c ∈ later, c.Launches x

omit [Inhabited ψ] in
theorem sent_after {α : Type} (s : System ρ) (result : Result (World ρ) (Env ψ) Ex α) :
    (s.after result).world.sent = result.state.sent := by
  unfold System.after
  cases result.outcome <;> rfl

namespace Mute

variable {x : String} {u v w : World ρ}

theorem refl (x : String) (w : World ρ) : Mute x w w := ⟨[], rfl, fun _ h => nomatch h⟩

theorem trans (h : Mute x u v) (h' : Mute x v w) : Mute x u w := by
  obtain ⟨l, hl, hmute⟩ := h
  obtain ⟨l', hl', hmute'⟩ := h'
  refine ⟨l' ++ l, by rw [hl', hl, List.append_assoc], fun c hc => ?_⟩
  exact (List.mem_append.mp hc).elim (hmute' c) (hmute c)

theorem of_steps (h : ReflTransGen (Mute x) u w) : Mute x u w := by
  induction h with
  | refl => exact refl x u
  | tail _ hstep ih => exact ih.trans hstep

theorem of_sent_eq (h : w.sent = v.sent) : Mute x v w := ⟨[], h, fun _ h => nomatch h⟩

theorem of_sent_cons (h : w.sent = c :: v.sent) (hc : ¬ c.Launches x) : Mute x v w :=
  ⟨[c], h, fun d hd => by rwa [List.mem_singleton.mp hd]⟩

theorem not_launched (h : Mute x v w) : ¬ Launched x v w := by
  obtain ⟨l, hl, hmute⟩ := h
  rintro ⟨l', hl', c, hc, hlaunch⟩
  rw [List.append_cancel_right (hl.symm.trans hl')] at hmute
  exact hmute c hc hlaunch

omit [Inhabited ψ] in
/-- The end of an operation sends nothing. -/
theorem after {α : Type} {s : System ρ} {result : Result (World ρ) (Env ψ) Ex α}
    (h : Mute x s.world result.state) : Mute x s.world (s.after result).world := by
  exact h.trans (of_sent_eq (sent_after s result))

end Mute

omit [Inhabited ψ] in
theorem Launched.after {α : Type} {result : Result (World ρ) (Env ψ) Ex α}
    (h : Launched x s.world result.state) : Launched x s.world (s.after result).world := by
  unfold Launched
  rwa [sent_after]

section Moves

variable {R : Runtime ρ ψ} {rules : Rules ψ} {job : Job} {x y : String} {w w' : World ρ}

theorem Move.mute (h : Move R rules job y w w')
    (hdue : ∀ c, Due job y (w.row? y) w.last c → ¬ c.Launches x) : Mute x w w' := by
  cases h with
  | image may => exact .of_sent_eq rfl
  | call may due => exact .of_sent_cons rfl (hdue _ due)
  | write write => exact .of_sent_eq rfl

/-- What is done for another sandbox launches nothing here. -/
theorem Move.mute_of_ne (h : Move R rules job y w w') (hy : x ≠ y) : Mute x w w' :=
  h.mute fun _ due hc => hy (due.not_launches hc).1

/-- A doomed sandbox is not launched. -/
theorem Move.mute_of_doomed (h : Move R rules job y w w')
    (hd : w.Doomed x) : Mute x w w' := by
  refine h.mute fun c due hc => ?_
  obtain ⟨rfl, r, hr, hnot⟩ := due.not_launches hc
  obtain ⟨row, hrow, hd⟩ := hd
  obtain rfl := Option.some.inj (hr.symm.trans hrow)
  exact hnot hd

theorem Move.launched {u : World ρ} (h : Move R rules job y w w') (hl : Launched x u w) :
    Launched x u w' := by
  obtain ⟨l, hsent, c, hc, hlaunch⟩ := hl
  cases h with
  | image may => exact ⟨l, hsent, c, hc, hlaunch⟩
  | @call _ d may due => exact ⟨d :: l, congrArg (d :: ·) hsent, c, .tail _ hc, hlaunch⟩
  | write write => exact ⟨l, hsent, c, hc, hlaunch⟩

end Moves

/-! ### A sweep supersedes what has expired -/

section Sweep

variable {R : Runtime ρ ψ} {rules : Rules ψ} {sweep : Sweep} {x : String} {row : Row}

/-- The row of `x` as it was found. -/
theorem row?_image_eq (w : World ρ) (step : ImageStep) (_ : rules.image step)
    (h : w.row? x = some row) : (w.image step).row? x = some row := by
  rwa [World.row?_image]

variable (sweep) in
/-- Whatever moves launches nothing once the sandbox is doomed. -/
theorem mute_of_doomed {α : Type} {M : World ρ → World ρ → Prop} {P : World ρ → Prop}
    {p : Op ρ ψ α} {Q : α → World ρ → Prop} {E : Ex → World ρ → Prop}
    (h : Does rules.adversary M P p Q E)
    (hM : ∀ w w', M w w' → ∃ y, Move R rules (.sweep sweep.clock) y w w') :
    Does rules.adversary (Mute x) (fun w => P w ∧ w.Doomed x) p (fun a w => Q a w ∧ w.Doomed x)
      (fun e w => E e w ∧ w.Doomed x) := by
  refine h.keep_mono (fun w w' hd hstep => ?_) fun w w' hd hstep => ?_
  · obtain ⟨y, hmove⟩ := hM w w' hstep
    exact hmove.doomed hd
  · obtain ⟨y, hmove⟩ := hM w w' hstep
    exact hmove.mute_of_doomed hd

/-- The turn of an expired sandbox: it is doomed before `converge` looks at it. -/
theorem mute_visit (hexp : row.Expired (sweep.clock x)) :
    Does rules.adversary (Mute x) (fun w => w.row? x = some row) (visit R sweep x)
      (fun _ w => w.Doomed x) (fun _ _ => False) := by
  refine .rescue (E := fun _ w => w.Doomed x) ?_ fun _ => ?_
  · refine .bind (query_found fun _ h => h) fun row' => .assuming (fun _ h => h.1) fun heq => ?_
    subst heq
    refine .bind (K := fun _ w => w.Doomed x) (.when (fun _ => ?_) fun hnot => absurd hexp hnot)
      fun _ => ?_
    · refine ((exec_sends row?_image_eq fun w hrow => ?_).mono
        fun _ _ => Mute.of_sent_eq).pre fun _ h => h.2
      exact ⟨_, Journal.find?_setRow_self hrow _, .inl ⟨rfl, rfl⟩⟩
    · exact (mute_of_doomed sweep (does_settle sweep.clock) fun _ _ h => ⟨x, h⟩).conseq
        (fun _ h => ⟨trivial, h⟩) (fun _ _ h => h.2) fun _ _ h => h.2
  · have hcount : Does rules.adversary (Move R rules (.sweep sweep.clock) x)
        (Knows x fun _ _ => True) (exec (Journal.count "reconcile_failures"))
        (fun _ => Knows x fun _ _ => True) (fun _ _ => False) := does_count _
    exact (mute_of_doomed sweep hcount fun _ _ h => ⟨x, h⟩).conseq (fun _ h => ⟨trivial, h⟩)
      (fun _ _ h => h.2) fun _ _ h => h.1

/-- What is true of `x` while the sandboxes of `rest` have not had their turn. -/
def Superseding (x : String) (row : Row) (rest : List String) (w : World ρ) : Prop :=
  w.Doomed x ∨ x ∈ rest ∧ w.row? x = some row

/-- The turn of any sandbox launches no expired one. -/
theorem mute_visits (hexp : row.Expired (sweep.clock x)) {ids rest : List String} (hy : y ∈ ids) :
    Does rules.adversary (Mute x) (fun w => Rest ids w ∧ Superseding x row (y :: rest) w)
      (visit R sweep y) (fun _ w => Rest ids w ∧ Superseding x row rest w) (fun _ _ => False) := by
  have hvisit : Does rules.adversary (Move R rules (.sweep sweep.clock) y) _ _ _ _ := visit_rest hy
  refine .of_state fun w₀ ⟨hrest, hw⟩ => ?_
  by_cases hd : w₀.Doomed x
  · exact (mute_of_doomed sweep hvisit fun _ _ h => ⟨y, h⟩).conseq (fun w hw => hw ▸ ⟨hrest, hd⟩)
      (fun _ _ h => ⟨h.1, .inl h.2⟩) fun _ _ h => h.1
  obtain ⟨hmem, hrow⟩ := hw.resolve_left hd
  by_cases hxy : x = y
  · subst hxy
    exact ((mute_visit hexp).and hvisit).conseq (fun w hw => hw ▸ ⟨hrow, hrest⟩)
      (fun _ _ h => ⟨h.2, .inl h.1⟩) fun _ _ h => h.1
  · refine (hvisit.keep_mono (I := fun w => w.row? x = some row)
      (fun _ _ h hmove => (hmove.row?_of_ne hxy).trans h)
      fun _ _ _ hmove => hmove.mute_of_ne hxy).conseq (fun w hw => hw ▸ ⟨hrest, hrow⟩)
      (fun _ _ h => ⟨h.1, .inr ⟨(List.mem_cons.mp hmem).resolve_left hxy, h.2⟩⟩) fun _ _ h => h.1

/-- **A sweep launches nothing that has expired.** -/
theorem mute_reconcile (hexp : row.Expired (sweep.clock x)) (hpending : row.intent ≠ none) :
    Does rules.adversary (Mute x) (fun w => w.row? x = some row) (reconcile R sweep)
      (fun _ _ => True) (fun _ _ => False) := by
  refine .rescue (E := fun _ _ => True) ?_ fun _ => .pure fun _ _ => trivial
  refine .bind (K := fun _ w => w.row? x = some row) ?_ fun answer =>
    .bind (.ofExcept (Q := fun _ w => w.row? x = some row) (fun _ _ _ h => h)
      fun _ _ _ _ => trivial) fun inventory =>
    .bind (K := fun ids w => Rest ids w ∧ Superseding x row ids w) (.read ?_ fun _ _ _ _ => trivial)
      fun ids =>
    .bind (Does.forEach (I := fun rest w => Rest ids w ∧ Superseding x row rest w) ?_) fun _ =>
    .bind (Does.forEach (I := fun _ w => Rest ids w ∧ Superseding x row [] w) ?_) fun _ =>
    .bind (K := fun _ _ => True) ?_ fun _ => ?_
  · exact ((call_sends row?_image_eq (fun _ _ _ h _ _ => h) fun _ _ _ _ _ _ => trivial).mono
      fun _ _ h => .of_sent_cons h id)
  · rintro w ids hrow hids
    obtain rfl := Except.ok.inj hids
    refine ⟨rest_of_live (sweep.perm _), .inr ⟨(sweep.perm _).mem_iff.mpr ?_, hrow⟩⟩
    exact (Table.mem_keysWhere_iff ..).mpr ⟨row, hrow, by simpa using .inr hpending⟩
  · intro y rest hsuffix
    exact (mute_visits hexp (hsuffix.subset (List.mem_cons_self ..))).relax fun _ _ h => h.elim
  · intro container rest _
    exact (mute_of_doomed sweep (does_visitContainer sweep ids container) fun _ _ ⟨y, _, h⟩ => ⟨y, h⟩).conseq
      (fun _ h => ⟨h.1, h.2.resolve_right fun h => nomatch h.1⟩) (fun _ _ h => ⟨h.1, .inl h.2⟩)
      fun _ _ _ => trivial
  · exact (call_sends (P := fun _ => True) (fun _ _ _ _ => trivial) (fun _ _ _ _ _ _ => trivial)
      fun _ _ _ _ _ _ => trivial).mono (fun _ _ h => .of_sent_cons h id) |>.pre fun _ _ => trivial
  · exact (exec_sends (fun _ _ _ _ => trivial) fun _ _ => trivial).mono fun _ _ => .of_sent_eq

end Sweep

/-! ### A retry that launches nothing -/

/-- A restart does not get past the stop of a missing container. -/
theorem Barred.mute {expiresAt : Option Time} {w' : World Containers}
    (h : Barred x .restart expiresAt w) {rules : Rules Fault}
    (hmoves : ReflTransGen (Move Containers.runtime rules .retry x) w w') : Mute x w w' := by
  have hboth : Barred x .restart expiresAt w' ∧ Mute x w w' := by
    induction hmoves with
    | refl => exact ⟨h, .refl x w⟩
    | tail _ hmove ih =>
      obtain ⟨hbarred, hmute⟩ := ih
      refine ⟨hbarred.move nofun nofun (Job.spares_retry ..) hmove,
        hmute.trans (hmove.mute fun c due hc => ?_)⟩
      rcases hbarred.due_intent due hc with h | h <;> cases h
  exact hboth.2

/-! ### A retry that launches -/

/-- Nothing goes wrong, and nothing else happens. -/
def Rules.calm : Rules ψ := ⟨fun _ => False, (· = default), False, rfl⟩

section Launch

variable {x : String} {w₀ : World Containers}

/-- The requests in `l` were sent since `w₀`. -/
def Since (w₀ : World Containers) (l : List Call) (w : World Containers) : Prop :=
  w.sent = l ++ w₀.sent

theorem since_call :
    Does Rules.calm.adversary (fun _ _ => True) (Since w₀ l) (call Containers.runtime c)
      (fun _ => Since w₀ (c :: l)) (fun _ => Since w₀ (c :: l)) :=
  hoare_call (fun _ _ h => h.elim) (fun _ _ _ h _ _ => congrArg (c :: ·) h)
    fun _ _ _ h _ _ => congrArg (c :: ·) h

/-- An existing container is stopped when nothing goes wrong. -/
theorem since_stop {c : Container} (hc : w₀.runtime.find? x = some c) :
    Does Rules.calm.adversary (fun _ _ => True) (· = w₀) (call Containers.runtime (.stop x))
      (fun _ => Since w₀ [.stop x]) (fun _ _ => False) := by
  refine hoare_call (fun _ _ h => h.elim) (fun w f body h _ _ => ?_) fun w f e h hf he => ?_
  · subst h
    rfl
  · subst h hf
    have hfind : (w.runtime.exit []).find? x = some (c.exited x []) := by
      rw [Containers.find?_exit, hc]
      rfl
    have hserve : (Containers.runtime.serve default (.stop x) w.runtime).1 =
        (Containers.switch false x (w.runtime.exit [])).1 := rfl
    rw [hserve, Containers.switch, hfind] at he
    cases he

/-- The requests of an operation that starts a container launch it. -/
theorem launched_perform (config : Config) (hstarts : action.Starts)
    (hfound : action = .restart → ∃ c, w₀.runtime.find? x = some c) :
    Does Rules.calm.adversary (fun _ _ => True) (· = w₀) (perform Containers.runtime x config action)
      (fun _ => Launched x w₀) (fun _ => Launched x w₀) := by
  have hfirst : ∀ {c : Call}, Does Rules.calm.adversary (fun _ _ => True) (· = w₀)
      (call Containers.runtime c) (fun _ => Since w₀ [c]) (fun _ => Since w₀ [c]) :=
    since_call.pre fun w hw => by rw [hw]; rfl
  have hlaunch : ∀ {c : Call} {l : List Call} {w : World Containers}, c.Launches x →
      Since w₀ (c :: l) w → Launched x w₀ w := fun hc h => ⟨_, h, _, .head _, hc⟩
  cases action with
  | create =>
    refine .bind (hfirst.relax fun _ _ => hlaunch rfl) fun _ =>
      .bind (since_call.relax fun _ _ => hlaunch rfl) fun _ =>
      .pure fun _ => hlaunch rfl
  | start =>
    exact .bind (hfirst.relax fun _ _ => hlaunch rfl) fun _ =>
      .pure fun _ => hlaunch rfl
  | restart =>
    obtain ⟨c, hc⟩ := hfound rfl
    exact .bind ((since_stop hc).relax fun _ _ h => h.elim)
      fun _ => .bind (hoare_exec (fun _ _ h => h.elim) fun _ h => h) fun _ =>
      .bind (since_call.relax fun _ _ => hlaunch rfl) fun _ =>
      .pure fun _ => hlaunch rfl
  | stop | delete => exact hstarts.elim

/-- `converge` launches what is pending, whatever the time is. -/
theorem launched_converge (hrow : w₀.row? x = some row) (hpending : row.intent = some action)
    (hstarts : action.Starts) (hfound : action = .restart → ∃ c, w₀.runtime.find? x = some c) :
    Does Rules.calm.adversary (Move Containers.runtime .calm .retry x) (· = w₀)
      (converge Containers.runtime x) (fun _ => Launched x w₀) (fun _ => Launched x w₀) := by
  have hagain : Does Rules.calm.adversary (Move Containers.runtime .calm .retry x) (fun _ => True)
      (attempt Containers.runtime (pure ()) x) (fun _ _ => True) (fun _ _ => True) :=
    (does_attempt (.pure fun _ _ => trivial)).conseq (fun _ _ => trivial) (fun _ _ _ => trivial)
      fun _ _ _ => trivial
  have hperform : Does Rules.calm.adversary (Move Containers.runtime .calm .retry x) (· = w₀)
      (perform Containers.runtime x row.config action)
      (fun _ w => Knows x (Performed x action) w ∧ Launched x w₀ w)
      (fun e w => Knows x (Failed x action e) w ∧ Launched x w₀ w) :=
    ((does_perform row.config action).and (launched_perform row.config hstarts hfound)).pre
    fun w hw => ⟨⟨row, hw ▸ hrow, rfl, hpending⟩, hw⟩
  refine .bind (query_get fun _ h => h ▸ hrow) fun r => .assuming (fun _ h => h.1) fun hr => ?_
  subst hr
  simp only [hpending]
  refine .rescue (E := fun e w => Knows x (Failed x action e) w ∧ Launched x w₀ w)
    (.bind (hperform.pre fun _ h => h.2) fun _ => ?_) fun e => ?_
  · exact ((does_complete action).keep fun _ _ h hmove => hmove.launched h).post fun _ _ h => h.2
  · exact ((does_fail hagain).keep fun _ _ h hmove => hmove.launched h).conseq (fun _ h => h)
      (fun _ _ h => h.2) fun _ _ h => h.2

/-- A retry of an unanswered request launches what is pending. -/
theorem launched_replay {key fingerprint : String} {rec : Record}
    (hfp : rec.fingerprint = fingerprint) (hresp : rec.response = none)
    (hrow : w₀.row? rec.sandboxId = some row) (hpending : row.intent = some action)
    (hstarts : action.Starts)
    (hfound : action = .restart → ∃ c, w₀.runtime.find? rec.sandboxId = some c) :
    Does Rules.calm.adversary (Move Containers.runtime .calm .retry rec.sandboxId) (· = w₀)
      (replay codec Containers.runtime key fingerprint rec)
      (fun _ => Launched rec.sandboxId w₀) (fun _ => Launched rec.sandboxId w₀) := by
  rw [replay, if_neg (not_not_intro hfp), hresp]
  exact .bind (launched_converge hrow hpending hstarts hfound) fun _ =>
    .bind (.read (fun _ _ h _ => h) fun _ _ h _ => h) fun _ =>
    .ofExcept (fun _ _ _ h => h) fun _ _ _ h => h

end Launch

/-! ### Which steps launch what has expired -/

/-- The request repeats one that has a record without an answer, and `x` is its sandbox. -/
def Request.Retries (codec : Codec) (r : Request) (w : World ρ) (x : String) : Prop :=
  ∃ action key rec, r.check = .ok action ∧ previous r.key w.journal = some (key, rec) ∧
    rec.fingerprint = r.fingerprint codec ∧ rec.response = none ∧ rec.sandboxId = x

/-- The two ways to take up pending work. -/
inductive Recovery where
  | sweep (sweep : Sweep)
  | retry (r : Request)

namespace Recovery

/-- The action, with the choices of the environment. -/
def act (fates : List (Fate (Env ψ))) : Recovery → Act ρ ψ
  | .sweep s => .reconcile s fates
  | .retry r => .request r fates

/-- The time when it comes to the sandbox. -/
def time (x : String) : Recovery → Time
  | .sweep s => s.clock x
  | .retry r => r.now

/-- A retry finds a record without an answer. -/
def Applies (codec : Codec) (w : World ρ) : Recovery → Prop
  | .sweep _ => True
  | .retry r => ∃ y, r.Retries codec w y

end Recovery

/-- A retry for `y` moves on behalf of `y` only. -/
theorem Request.Retries.moves {w : World ρ} (h : r.Retries codec w y) (R : Runtime ρ ψ)
    (cap : Capacity) (fates : List (Fate (Env ψ))) :
    ReflTransGen (Move R .any .retry y) w (request codec R cap r w fates).state := by
  obtain ⟨action, key, rec, hcheck, hprev, -, -, rfl⟩ := h
  rw [request_eq, hcheck]
  simp only [hprev]
  exact (does_replay codec _ _ _).steps (Rules.allows_any fates) trivial

/-- When nothing goes wrong, a retry launches what is pending. -/
theorem Request.Retries.launched (h : r.Retries codec w x) (cap : Capacity)
    (hrow : w.row? x = some row) (hpending : row.intent = some action) (hstarts : action.Starts)
    (hfound : action = .restart → ∃ c, w.runtime.find? x = some c) :
    Launched x w (request codec Containers.runtime cap r w []).state := by
  obtain ⟨_, key, rec, hcheck, hprev, hfp, hresp, rfl⟩ := h
  rw [request_eq, hcheck]
  simp only [hprev]
  have hreplay : Does _ _ _ (replay codec Containers.runtime key (r.fingerprint codec) rec) _ _ :=
    launched_replay hfp hresp hrow hpending hstarts hfound
  rcases hreplay.survives (Adversary.allows_nil _) rfl (Rules.gentle id) with ⟨a, -, h⟩ |
    ⟨e, -, h⟩ <;> exact h

/-- The create of the sample run once more, a minute later: its sandbox has just expired. -/
def Sample.lateRetry : Request := { Sample.create with uuid := "2", now := 60000 }

theorem Sample.unanswered_reachable : (Sample.run Sample.unanswered).Reachable Sample.codec
    Containers.runtime .any (· = .empty) :=
  Sample.reachable _ ⟨trivial, ⟨Rules.allows_any _, fun _ _ => trivial⟩, trivial⟩

theorem Sample.lateRetry_retries :
    Sample.lateRetry.Retries Sample.codec (Sample.run Sample.unanswered).world "sbx_1" :=
  ⟨.create, "k", _, rfl, rfl, rfl, rfl, rfl⟩

/-- A sweep a minute after the first request. -/
def Sample.lateSweep : Sweep := { Sample.sweep with clock := fun _ => 60000 }

end Sandcube
