import Sandcube.Host.Faithful

/-!
# Lost answers do not change the goal

Every move of a recovery, whether it takes effect or is lost, leaves every sandbox on its way
to the same goal: creating again what was created, stopping again what was stopped, or
starting after the stop of a restart changes nothing about where the sandbox will end.
-/

namespace Sandcube

variable {x y : String} {job : Job} {j : Journal} {w : World Containers} {row : Row}
  {status : Status}
variable {call c : Call} {last : Option (Call × Reply)} {w' : World Containers} {action : Action}
  {row' : Row}

/-! ### Moves of other sandboxes -/

theorem Container.effect_of_ne (h : call.target? ≠ some x) (c : Option Container) :
    effect x c call = c := by
  cases call with
  | create spec | start id | stop id | delete id => exact if_neg fun hx => h (congrArg some hx)
  | _ => rfl

/-- A write for `x` leaves the records of the others alone. -/
theorem Write.records_of_ne {j' : Journal} (h : Write job x last j j') (hy : y ≠ x) (key : String) :
    (j'.requests.find? key).filter (·.sandboxId = y) =
      (j.requests.find? key).filter (·.sandboxId = y) := by
  have hanswer : ∀ saved status, ((j.answer x saved status).requests.find? key).filter
      (·.sandboxId = y) = (j.requests.find? key).filter (·.sandboxId = y) := by
    intro saved status
    rw [Journal.find?_answer]
    cases j.requests.find? key with
    | none => rfl
    | some rec =>
      by_cases hx : rec.sandboxId = x
      · simp only [Option.map_some, hx]
        split_ifs <;> simp [Option.filter, hx, Ne.symm hy]
      · simp [hx]
  have hrecord : ∀ {key' rec}, rec.sandboxId = x →
      Journal.Remembered key' rec j.requests j'.requests →
      (j'.requests.find? key).filter (·.sandboxId = y) =
        (j.requests.find? key).filter (·.sandboxId = y) := by
    intro key' rec hrec hrem
    cases key' with
    | none => rw [show j'.requests = j.requests from hrem]
    | some key' =>
      rw [Table.find?_insert? hrem]
      split_ifs with hk
      · rw [hk, Table.find?_of_insert?_eq_some hrem]
        simp [Option.filter, hrec, Ne.symm hy]
      · rfl
  cases h with
  | accept _ _ _ accepted =>
    cases accepted with
    | create config expiresAt sandboxes fits image requests => exact hrecord rfl requests
    | move action row old found idle sandboxes fits sandboxImages requests =>
      exact hrecord rfl requests
  | row found step => rfl
  | complete found pending whole answer done =>
    rw [Journal.complete_of_find? found, Except.ok.injEq] at done
    rw [← done]
    dsimp only
    exact hanswer _ _
  | @compensate row c status body found pending launch answer =>
    exact hanswer (.body body) fun _ => status
  | count name | dropImage sweeping gone answer => rfl

theorem World.view_image (w : World Containers) {step : ImageStep} (h : step.Internal)
    (x : String) : (w.image step).view x = w.view x := by
  ext1
  · exact w.row?_image step x
  · exact congrArg (·.find? x) (World.sandboxImages_image h)
  · rfl
  · funext key
    simp only [World.view, (w.image_journal step).2.1]

/-- Without exits, a call on behalf of `x` leaves the views of the others alone. -/
theorem World.view_called_of_ne {fault : Fault} (hf : fault.Lossy)
    (due : Due job x (w.row? x) w.last c) (hy : y ≠ x) :
    (w.called Containers.runtime fault c).view y = w.view y := by
  have hother : c.target? ≠ some y := fun ht => hy (due.target ht)
  have hc : (Containers.serve fault c w.runtime).2.find? y = w.runtime.find? y := by
    rcases hf.find?_serve c w.runtime y with h | h
    · exact h
    · exact h.trans (Container.effect_of_ne hother _)
  ext1
  · rfl
  · rfl
  · exact hc
  · rfl

theorem World.view_write_of_ne (hw : Write job x w.last w.journal j) (hy : y ≠ x) :
    (w.withJournal fun _ => j).view y = w.view y := by
  ext1
  · exact hw.find?_of_ne hy
  · exact hw.sandboxImages_of_ne hy
  · rfl
  · funext key
    exact hw.records_of_ne hy key

/-- A move on behalf of `x` leaves the views of the others alone. -/
theorem Move.view_of_ne (h : Move Containers.runtime .lossy job x w w') (hy : y ≠ x) :
    w'.view y = w.view y := by
  cases h with
  | image may => exact w.view_image may y
  | call may due => exact World.view_called_of_ne may due hy
  | write write => exact World.view_write_of_ne write hy

/-! ### Moves of the sandbox itself -/

theorem Action.leaves_effect (hi : row.intent = some action) (due : Due job x (some row) last call)
    (c : Option Container) :
    action.leaves x row.config (Container.effect x c call) = action.leaves x row.config c := by
  cases call with
  | list | inspect id | reconcile => rfl
  | create spec =>
    obtain ⟨r, hr, hcreate, -⟩ := due
    cases hr
    cases hi.symm.trans hcreate
    rfl
  | start id =>
    obtain ⟨rfl, r, hr, hstart | ⟨hcreate, -⟩⟩ := due <;> cases hr
    · cases hi.symm.trans hstart
      cases c <;> simp [leaves, Container.effect]
    · cases hi.symm.trans hcreate
      rfl
  | stop id =>
    obtain ⟨rfl, r, hr, hstop | hrestart⟩ := due <;> cases hr
    · cases hi.symm.trans hstop
      cases c <;> simp [leaves, Container.effect]
    · cases hi.symm.trans hrestart
      cases c <;> simp [leaves, Container.effect]
  | delete id =>
    obtain ⟨rfl, ⟨r, hr, hdelete⟩ | ⟨clock, -, hgone⟩⟩ := due
    · cases hr
      cases hi.symm.trans hdelete
      rfl
    · cases (hgone row rfl).2.symm.trans hi

/-- A request changes the container, but not where it will end. -/
theorem goal_effect (h : Hosted w) {c : Call} (hclaimed : Unclaimed x w)
    (due : Due job x (w.row? x) w.last c) :
    View.goal { w.view x with container := Container.effect x (w.runtime.find? x) c } x =
      (w.view x).goal x := by
  cases hrow : w.row? x with
  | none =>
    have hc := hclaimed hrow
    have heffect : Container.effect x none c = none :=
      Container.effect_none fun _ => hrow ▸ due
    simp [View.goal, World.view, hrow, hc, heffect]
  | some row =>
    have hdue : Due job x (some row) w.last c := hrow ▸ due
    cases hi : row.intent with
    | some action =>
      rw [View.goal_of_pending x hrow hi, View.goal_of_pending (v := w.view x) x hrow hi]
      simp only [Action.leaves_effect hi hdue]
      rfl
    | none =>
      -- An idle sandbox is at most inspected, a deleted one at most deleted again.
      have hsame : Container.effect x (w.runtime.find? x) c = w.runtime.find? x := by
        cases c with
        | list | inspect id | reconcile => rfl
        | create spec =>
          obtain ⟨r, hr, hcreate, -⟩ := hdue
          cases hr
          cases hi.symm.trans hcreate
        | start id =>
          obtain ⟨-, r, hr, hstart | ⟨hcreate, -⟩⟩ := hdue <;> cases hr
          · cases hi.symm.trans hstart
          · cases hi.symm.trans hcreate
        | stop id =>
          obtain ⟨-, r, hr, hstop | hrestart⟩ := hdue <;> cases hr
          · cases hi.symm.trans hstop
          · cases hi.symm.trans hrestart
        | delete id =>
          obtain ⟨rfl, ⟨r, hr, hdelete⟩ | ⟨clock, -, hgone⟩⟩ := hdue
          · cases hr
            cases hi.symm.trans hdelete
          · rw [((h.coupled hrow).gone (hgone row rfl).1 hi).1]
            simp [Container.effect]
      rw [hsame]
      rfl

theorem World.view_setRow (found : w.row? x = some row) :
    (w.withJournal fun _ => w.journal.setRow x fun _ => row').view x =
      { w.view x with row := some row' } := by
  ext1
  · exact Journal.find?_setRow_self found _
  · rfl
  · rfl
  · rfl

/-- The completion of an operation, seen from its sandbox. -/
theorem World.view_complete (found : w.row? x = some row)
    (done : w.journal.complete x status = .ok j) :
    (w.withJournal fun _ => j).view x =
      { row := some (row.finished status)
        image := if status = .deleted then none else w.journal.sandboxImages.find? x
        container := w.runtime.find? x
        records := (w.view x).answered x (row.finished status) } := by
  rw [Journal.complete_of_find? found, Except.ok.injEq] at done
  subst done
  ext1
  · simp [World.view, World.withJournal, World.row?, show w.journal.sandboxes.find? x = _ from found]
  · simp only [World.view, World.withJournal]
    split_ifs <;> simp
  · rfl
  · funext key
    simp only [World.view, World.withJournal, View.answered, Journal.find?_answer]
    cases w.journal.requests.find? key with
    | none => rfl
    | some rec =>
      by_cases hx : rec.sandboxId = x
      · by_cases hr : rec.response = none <;> simp [Option.filter, hx, hr]
      · simp [Option.filter, hx]

theorem Row.refreshed_finished (row : Row) {running : Bool}
    (h : status = if running then .running else .stopped) :
    (row.finished status).refreshed running = row.finished status := by
  subst h
  cases running <;> simp [refreshed, finished]

theorem Row.refreshed_reported (row : Row) (c : Container) :
    Reliability.reported row c.status = row.refreshed c.running := by
  obtain ⟨spec, running⟩ := c
  cases running <;>
    simp [Reliability.reported, refreshed, Container.status, Status.ofText]

/-- A sandbox that is as its row says stays as it is. -/
theorem View.goal_of_finished {v : View} (x : String) {k : Container}
    (hrow : v.row = some (row.finished status)) (hk : v.container = some k)
    (hs : status = if k.running then .running else .stopped) : v.goal x = v := by
  have hlive : status ≠ .deleted := by
    rw [hs]
    split_ifs <;> nofun
  rw [View.goal_of_idle x hrow ⟨rfl, hlive⟩ hk, Row.refreshed_finished row hs, ← hrow]

/-- A sandbox whose operation was just completed is where it was to end. -/
theorem goal_complete (h : Hosted w) {body : Json} (found : w.row? x = some row)
    (pending : row.intent = some action) (whole : action ≠ .restart)
    (answer : w.last = some (action.finalCall x, .ok body))
    (done : w.journal.complete x action.target = .ok j) :
    ((w.withJournal fun _ => j).view x).goal x = (w.view x).goal x := by
  rw [World.view_complete found done, View.goal_of_pending (v := w.view x) x found pending]
  have hcoupled := h.coupled found
  -- An operation that leaves a container: a refresh would write what was just written.
  have hlive : ∀ k, w.runtime.find? x = some k → action ≠ .delete →
      action.target = (if k.running then .running else .stopped) →
      action.leaves x row.config (some k) = some k →
      View.goal ⟨some (row.finished action.target),
        if action.target = .deleted then none else w.journal.sandboxImages.find? x,
        w.runtime.find? x, (w.view x).answered x (row.finished action.target)⟩ x =
      ⟨some (row.finished action.target), if action = .delete then none else (w.view x).image,
        action.leaves x row.config (w.view x).container,
        (w.view x).answered x (row.finished action.target)⟩ := by
    intro k hk hd ht hl
    have hstatus : action.target ≠ .deleted := by cases action <;> simp_all [Action.target]
    rw [View.goal_of_finished x rfl hk ht, if_neg hstatus, if_neg hd]
    simp only [World.view, hk, hl]
  cases action with
  | create =>
    obtain ⟨k, hk, hr⟩ := (h.exact x).started body answer
    exact hlive k hk (by simp) (by simp [hr, Action.target]) (by
      rw [Action.leaves, ← hcoupled.spec k hk, ← hr])
  | start =>
    obtain ⟨k, hk, hr⟩ := (h.exact x).started body answer
    exact hlive k hk (by simp) (by simp [hr, Action.target]) (by
      rw [Action.leaves, Option.map_some, ← hr])
  | restart => exact absurd rfl whole
  | stop =>
    obtain ⟨k, hk, hr⟩ := (h.exact x).stopped body answer
    exact hlive k hk (by simp) (by simp [hr, Action.target]) (by
      rw [Action.leaves, Option.map_some, ← hr])
  | delete =>
    have hgone : Gone (some (row.finished Action.delete.target)) := by
      rintro r hr
      cases hr
      exact ⟨rfl, rfl⟩
    exact (View.goal_of_gone x hgone).trans (by
      simp [(h.exact x).deleted body answer, Action.leaves, Action.target])

/-- The writes of a recovery that change the row only. -/
theorem goal_rowStep (h : Faithful w) (found : w.row? x = some row)
    (hexp : ∀ clock, job = .sweep clock → ¬ row.Expired (clock x))
    (step : RowStep job x w.last row row') :
    View.goal { w.view x with row := some row' } x = (w.view x).goal x := by
  -- A change that completing the operation overwrites.
  have hpending : ∀ {action action' : Action}, row.intent = some action →
      row'.intent = some action' → row'.finished action'.target = row.finished action.target →
      action'.leaves x row'.config (w.runtime.find? x) =
        action.leaves x row.config (w.runtime.find? x) → (action' = .delete ↔ action = .delete) →
      View.goal { w.view x with row := some row' } x = (w.view x).goal x := by
    intro action action' hi hi' hfinished hleaves hdelete
    rw [View.goal_of_pending x rfl hi', View.goal_of_pending (v := w.view x) x found hi]
    simp only [hfinished, World.view, hleaves, hdelete]
    rfl
  -- A change that a refresh overwrites.
  have hidle : ∀ k, w.runtime.find? x = some k → row.Idle → row'.Idle →
      row'.refreshed k.running = row.refreshed k.running →
      View.goal { w.view x with row := some row' } x = (w.view x).goal x := by
    intro k hk hi hi' hr
    rw [View.goal_of_idle x rfl hi' hk, View.goal_of_idle (v := w.view x) x found hi hk, hr]
  cases step with
  | passStop pending answer => exact hpending pending rfl rfl rfl (by simp)
  | noteError message pending =>
    obtain ⟨action, hi⟩ := Option.ne_none_iff_exists'.mp pending
    exact hpending hi hi rfl rfl .rfl
  | expire sweeping expired => exact absurd expired (hexp _ sweeping)
  | refresh sweeping idle answer word =>
    obtain ⟨k, hk, rfl⟩ := (h.hosted.exact x).inspected _ answer
    rw [Container.word_status_describe] at word
    cases word
    refine hidle k hk idle ⟨idle.1, ?_⟩ rfl
    rw [Container.ofText_status]
    split_ifs <;> simp
  | release sweeping idle stopped answer word =>
    obtain ⟨k, hk, rfl⟩ := (h.hosted.exact x).inspected _ answer
    rw [Container.word_status_describe, Except.ok.injEq] at word
    refine hidle k hk ⟨idle, by simp [stopped]⟩ ⟨idle, by simp [stopped]⟩ ?_
    simp [Row.refreshed, Container.running_of_status word]
  | markMissing sweeping idle answer => exact absurd answer (h.unrefused _ _ _)

/-- A write of a recovery leaves the goal of its sandbox alone. -/
theorem goal_write (h : Faithful w) (hjob : job.Recovers)
    (hexp : ∀ clock, job = .sweep clock → ∀ row, w.row? x = some row → ¬ row.Expired (clock x))
    (hw : Write job x w.last w.journal j) :
    ((w.withJournal fun _ => j).view x).goal x = (w.view x).goal x := by
  cases hw with
  | accept asked _ _ _ => exact absurd asked hjob.ne
  | row found step =>
    rw [World.view_setRow found]
    exact goal_rowStep h found (fun clock hc => hexp clock hc _ found) step
  | complete found pending whole answer done =>
    exact goal_complete h.hosted found pending whole answer done
  | compensate found pending launch answer => exact absurd answer (h.unrefused _ _ _)
  | count name => rfl
  | dropImage sweeping gone answer =>
    -- There was nothing to drop.
    have himage := h.owned x gone
    have herase := Table.erase_of_find?_eq_none _ himage
    simp only [Journal.dropImage, herase]
    rfl

/-- **A recovery leaves every goal alone.** -/
theorem goal_move (h : Faithful w) (hjob : job.Recovers)
    (hexp : ∀ clock, job = .sweep clock → ∀ row, w.row? y = some row → ¬ row.Expired (clock y))
    (hclaimed : Unclaimed y w) (hmove : Move Containers.runtime .lossy job x w w') :
    (w'.view y).goal y = (w.view y).goal y := by
  by_cases hy : y = x
  · subst hy
    cases hmove with
    | image may => rw [w.view_image may]
    | @call fault c may due =>
      rcases may.find?_serve c w.runtime y with hs | hs
      · have : (w.called Containers.runtime fault c).view y = w.view y := by
          ext1
          · rfl
          · rfl
          · exact hs
          · rfl
        rw [this]
      · rw [← goal_effect h.hosted hclaimed due, ← hs]
        rfl
    | write write => exact goal_write h hjob hexp write
  · rw [hmove.view_of_ne hy]

end Sandcube
