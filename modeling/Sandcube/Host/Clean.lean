import Sandcube.Host.Goal

/-!
# Runs in which nothing fails

When every call is executed and answered, `converge` brings its sandbox to its goal, and a
sweep does so for every sandbox: what it leaves of each is `View.swept`, and nothing else
changes.  The proofs follow the program with `Toward` as the invariant: the goal of the
sandbox at hand does not move, and the views of the others stay.
-/

open Prog

namespace Sandcube

variable {w : World Containers} {x y : String} {action : Action} {job : Job} {row row' : Option Row}

/-! ### Answers -/

/-- Every call of the operation was answered. -/
def Answered (w : World Containers) : Prop :=
  ∀ c reply, w.last = some (c, reply) → ∃ body, reply = .ok body

theorem Answered.of_settled (h : w.last = none) : Answered w := by
  intro c reply hlast
  rw [h] at hlast
  cases hlast

/-- An answer is not a refusal. -/
theorem Answered.faithful (h : Answered w) (hhosted : Hosted w) (howned : Owned w) : Faithful w :=
  ⟨hhosted, howned, fun c _ _ hlast => nomatch (h c _ hlast).choose_spec⟩

theorem Fault.Clean.serve_eq {fault : Fault} (h : fault.Clean) (call : Call) (cs : Containers) :
    Containers.serve fault call cs = Containers.execute call cs := by
  simp only [Containers.serve, h.1, h.2, Containers.exit_nil]

theorem Answered.not_failed (h : Answered w) {e : Ex} :
    ¬ Knows x (Reliability.Failed x action e) w := by
  rintro ⟨r, c, reply, -, -, hlast, he, -⟩
  obtain ⟨body, rfl⟩ := h c reply hlast
  cases he

theorem RowChange.expiresAt_eq {last : Option (Call × Reply)} (h : RowChange job x last row row')
    (hjob : job.Recovers) : row'.map Row.expiresAt = row.map Row.expiresAt := by
  cases h with
  | same => rfl
  | create asked | move asked => exact absurd asked hjob.ne
  | step step => cases step <;> rfl
  | finish | compensate => rfl

/-- No operation but a request changes when a sandbox expires. -/
theorem Move.expiresAt_eq {ρ ψ : Type} [Inhabited ψ] {R : Runtime ρ ψ} {rules : Rules ψ}
    {w w' : World ρ} (h : Move R rules job x w w') (hjob : job.Recovers) :
    (w'.row? y).map Row.expiresAt = (w.row? y).map Row.expiresAt :=
  (h.changes y).expiresAt_eq hjob

theorem Row.expired_congr (h : row'.map Row.expiresAt = row.map Row.expiresAt) {now : Time}
    (hlive : ∀ r, row = some r → ¬ r.Expired now) : ∀ r, row' = some r → ¬ r.Expired now := by
  rintro r rfl
  cases row with
  | none => cases h
  | some r₀ =>
    have heq : r.expiresAt = r₀.expiresAt := Option.some.inj h
    have := hlive r₀ rfl
    simpa only [Row.Expired, heq] using this

/-- Between two requests no row is removed. -/
theorem Move.row?_ne_none {ρ ψ : Type} [Inhabited ψ] {R : Runtime ρ ψ} {rules : Rules ψ}
    {w w' : World ρ} (h : Move R rules job x w w') (hy : w.row? y ≠ none) : w'.row? y ≠ none := by
  intro hn
  have hchange := h.changes y
  rw [hn] at hchange
  exact hy hchange.eq_none

/-! ### The invariant -/

/-- Nothing failed; `x` is on its way to `G`, and the other sandboxes are as `V` says. -/
structure Toward (x : String) (G : View) (V : String → View) (w : World Containers) : Prop where
  faithful : Faithful w
  answered : Answered w
  known : w.row? x ≠ none
  goal : (w.view x).goal x = G
  others : ∀ y, y ≠ x → w.view y = V y

namespace Toward

variable {x : String} {G : View} {V : String → View} {w w' : World Containers} {job : Job}

theorem move (h : Toward x G V w) (hmove : Move Containers.runtime .clean job x w w')
    (hjob : job.Recovers)
    (hexp : ∀ clock, job = .sweep clock → ∀ row, w.row? x = some row → ¬ row.Expired (clock x)) :
    Toward x G V w' := by
  have hlossy : Move Containers.runtime .lossy job x w w' := by
    cases hmove with
    | image may => exact .image may
    | call may due => exact .call may.lossy due
    | write write => exact .write write
  have hclaimed : Unclaimed x w := fun hn => absurd hn h.known
  refine ⟨?_, ?_, hmove.row?_ne_none h.known,
    (goal_move h.faithful hjob hexp hclaimed hlossy).trans h.goal,
    fun y hy => (hlossy.view_of_ne hy).trans (h.others y hy)⟩
  · cases hlossy with
    | image may => exact h.faithful.image may
    | call may due => exact h.faithful.call may due
    | write write => exact h.faithful.recover write hjob
  · cases hmove with
    | image may => exact h.answered
    | @call fault c may due =>
      rintro c' reply hlast
      obtain ⟨-, rfl⟩ := Prod.mk.inj (Option.some.inj hlast)
      obtain ⟨body, hok⟩ := h.faithful.hosted.execute_ok due
      exact ⟨body, (congrArg Prod.fst (may.serve_eq c w.runtime)).trans hok⟩
    | write write => exact h.answered

theorem done (h : Toward x G V w) : Toward x G V w.done :=
  ⟨.of_settled h.faithful.hosted.forget h.faithful.owned rfl, .of_settled rfl, h.known, h.goal,
    h.others⟩

/-- A sandbox that is deleted has arrived. -/
theorem of_gone (h : Toward x G V w) (hg : Gone (w.row? x)) : w.view x = G :=
  (View.goal_of_gone (v := w.view x) x hg).symm.trans h.goal

/-- A sandbox that is idle is going to be refreshed. -/
theorem row_eq (h : Toward x G V w) {row : Row} (hr : w.row? x = some row) (hi : row.Idle) :
    ∃ k, w.runtime.find? x = some k ∧ G.row = some (row.refreshed k.running) := by
  obtain ⟨k, hk⟩ := Option.ne_none_iff_exists'.mp
    ((h.faithful.hosted.coupled hr).present (.inl hi))
  refine ⟨k, hk, ?_⟩
  rw [← h.goal, View.goal_of_idle (v := w.view x) x hr hi hk]

end Toward

/-! ### `converge` -/

section

variable {x : String} {G : View} {V : String → View}

open Reliability

/-- A sandbox whose operation was just completed has arrived. -/
theorem Toward.of_finished (h : Toward x G V w) (hf : Knows x (Finished x action) w) :
    w.view x = G := by
  obtain ⟨r, body, hrow, hlast⟩ := hf
  have hexact := h.faithful.hosted.exact x
  -- An operation that leaves a container left it as the row says.
  have hlive : ∀ k, w.runtime.find? x = some k →
      action.target = (if k.running then .running else .stopped) → w.view x = G := fun k hk hs =>
    (View.goal_of_finished (v := w.view x) x hrow hk hs).symm.trans h.goal
  cases action with
  | create | start | restart =>
    obtain ⟨k, hk, hr⟩ := hexact.started body hlast
    exact hlive k hk (by rw [hr]; rfl)
  | stop =>
    obtain ⟨k, hk, hr⟩ := hexact.stopped body hlast
    exact hlive k hk (by rw [hr]; rfl)
  | delete =>
    refine h.of_gone fun r' hr' => ?_
    obtain rfl := Option.some.inj (hrow.symm.trans hr')
    exact ⟨rfl, rfl⟩

/-- Without failures the recursive call of `converge` is never reached, and pending work is
done. -/
theorem clean_attempt (again : Op Containers Fault Unit) {w₀ : World Containers}
    (h₀ : Toward x G V w₀) :
    Does Rules.clean.adversary (fun _ _ => True) (· = w₀) (attempt Containers.runtime again x)
      (fun _ w => Toward x G V w ∧ Knows x Quiet w ∧ (Knows x Quiet w₀ ∨ w.view x = G))
      (fun _ _ => False) := by
  refine .bind (K := fun row w => w = w₀ ∧ w.row? x = some row)
    (.read (fun w row h hr => ⟨h, Journal.get_eq_ok_iff.mp hr⟩) fun w e h he => ?_) fun row => ?_
  · subst h
    obtain ⟨row, hr⟩ := Option.ne_none_iff_exists'.mp h₀.known
    exact nomatch he.symm.trans (Journal.get_eq_ok_iff.mpr hr)
  · cases hi : row.intent with
    | none =>
      refine .pure fun w h => ?_
      obtain ⟨rfl, hr⟩ := h
      exact ⟨h₀, ⟨row, hr, hi⟩, .inl ⟨row, hr, hi⟩⟩
    | some action =>
      have hwork : Does Rules.clean.adversary (Move Containers.runtime .clean .retry x) _ _ _ _ :=
        (does_work hi).keep (I := Toward x G V) fun _ _ h hmove =>
          h.move hmove trivial fun _ hs => nomatch hs
      refine .rescue (E := fun _ _ => False) ((hwork.mono fun _ _ _ => trivial).conseq
        (fun w h => ⟨h.2, h.1 ▸ h₀⟩) (fun _ _ h => ⟨h.2, h.1.quiet, .inr (h.2.of_finished h.1)⟩)
        fun _ _ h => h.2.answered.not_failed h.1) fun e => ?_
      exact .assuming (fun _ h => h) False.elim

theorem clean_converge :
    Does Rules.clean.adversary (fun _ _ => True) (Toward x G V) (converge Containers.runtime x)
      (fun _ w => Toward x G V w ∧ Knows x Quiet w) (fun _ _ => False) :=
  .of_state fun _ h₀ => (clean_attempt _ h₀).post fun _ _ h => ⟨h.1, h.2.1⟩

end

end Sandcube
