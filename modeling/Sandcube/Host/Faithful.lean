import Sandcube.Host.View

/-!
# Runs in which requests are only lost

While calls fail at transport level only and no task stops by itself, the last answer tells
exactly how the container is (`Exact`), and the runtime refuses nothing it is asked: every
request that is due can be executed (`Faithful`).
-/

namespace Sandcube

variable {fault : Fault} {w : World Containers} {job : Job} {x : String} {j : Journal}

/-- The call is answered, or its answer is lost; no task stops by itself. -/
def Fault.Lossy (fault : Fault) : Prop :=
  fault.exits = [] ∧ ∀ late failure, fault.failure = some (late, failure) →
    ∃ message, failure = .lost message

/-- The call is executed and answered; no task stops by itself. -/
def Fault.Clean (fault : Fault) : Prop := fault.exits = [] ∧ fault.failure = none

theorem Fault.Clean.lossy (h : fault.Clean) : fault.Lossy :=
  ⟨h.1, fun _ _ hf => by rw [h.2] at hf; cases hf⟩

/-- Calls may be lost and the process may be killed. -/
def Rules.lossy : Rules Fault := ⟨ImageStep.Internal, Fault.Lossy, True, rfl, nofun⟩

/-- Nothing fails. -/
def Rules.clean : Rules Fault := ⟨ImageStep.Internal, Fault.Clean, False, rfl, rfl⟩

/-! ### The effect of a call -/

theorem Container.exited_nil (x : String) (c : Option Container) :
    c.map (Container.exited x []) = c := by
  cases c <;> simp [Container.exited]

/-- Without exits, what a call does to the container of `x`. -/
theorem Fault.Lossy.find?_serve (h : fault.Lossy) (call : Call) (cs : Containers) (x : String) :
    (Containers.serve fault call cs).2.find? x = cs.find? x ∨
      (Containers.serve fault call cs).2.find? x = Container.effect x (cs.find? x) call := by
  have hserve := Containers.find?_serve fault call cs x
  rwa [h.1, Container.exited_nil] at hserve

theorem Containers.exit_nil (cs : Containers) : cs.exit [] = cs := by
  refine Table.ext ?_
  simp [exit, Table.mapRows]

/-- Without exits, a call is executed and answered, or its answer is lost. -/
theorem Fault.Lossy.serve_reply (h : fault.Lossy) (call : Call) (cs : Containers) :
    (Containers.serve fault call cs).1 = (Containers.execute call cs).1 ∨
      ∃ message, (Containers.serve fault call cs).1 = .lost message := by
  unfold Containers.serve
  rw [h.1, Containers.exit_nil]
  split
  · exact .inl rfl
  · next failure hf =>
    obtain ⟨message, rfl⟩ := h.2 _ _ hf
    exact .inr ⟨message, rfl⟩
  · next failure hf =>
    obtain ⟨message, rfl⟩ := h.2 _ _ hf
    exact .inr ⟨message, rfl⟩

/-- A request that is due can be executed. -/
theorem Hosted.execute_ok (h : Hosted w) {c : Call} (due : Due job x (w.row? x) w.last c) :
    ∃ body, (Containers.execute c w.runtime).1 = .ok body := by
  have hswitch : ∀ running, w.runtime.find? x ≠ none →
      ∃ body, (w.runtime.switch running x).1 = .ok body := by
    intro running hc
    obtain ⟨k, hk⟩ := Option.ne_none_iff_exists'.mp hc
    exact ⟨_, by simp only [Containers.switch, hk]; rfl⟩
  cases c with
  | list | reconcile | delete id => exact ⟨_, rfl⟩
  | create spec =>
    obtain ⟨r, hr, hi, rfl⟩ := due
    simp only [Containers.execute]
    cases hc : w.runtime.find? (r.config.spec x).id with
    | some k =>
      have hspec := (h.coupled hr).spec k hc
      exact ⟨_, by simp only [hspec, if_true]; rfl⟩
    | none =>
      cases hins : w.runtime.insert? (r.config.spec x).id ⟨r.config.spec x, false⟩ with
      | some cs => exact ⟨_, rfl⟩
      | none =>
        have htaken := (w.runtime.insert?_eq_none_iff _ _).mp hins
        exact absurd htaken ((w.runtime.find?_eq_none_iff _).mp hc)
  | start id =>
    obtain ⟨rfl, r, hr, hi⟩ := due
    refine hswitch true ?_
    rcases hi with hi | ⟨-, body, hlast⟩
    · exact (h.coupled hr).present (.inr (.inl hi))
    · exact (h.exact id).created _ body hlast rfl
  | stop id =>
    obtain ⟨rfl, r, hr, hi⟩ := due
    refine hswitch false ((h.coupled hr).present ?_)
    rcases hi with hi | hi
    · exact .inr (.inr (.inl hi))
    · exact .inr (.inr (.inr hi))
  | inspect id =>
    obtain ⟨rfl, r, hr, hi⟩ := due
    obtain ⟨k, hk⟩ := Option.ne_none_iff_exists'.mp ((h.coupled hr).present (.inl hi))
    exact ⟨_, by simp only [Containers.execute, hk]; rfl⟩

/-! ### Image references -/

/-- Only sandboxes that are not deleted hold image references. -/
def Owned (w : World Containers) : Prop :=
  ∀ x, Gone (w.row? x) → w.journal.sandboxImages.find? x = none

theorem not_gone {row : Row} (h : row.intent ≠ none ∨ row.status ≠ .deleted) :
    ¬ Gone (some row) := by
  intro hg
  obtain ⟨hs, hi⟩ := hg row rfl
  exact h.elim (· hi) (· hs)

/-- A write that leaves its sandbox deleted, or without a row, either took its image reference
or found it so. -/
theorem Hosted.owned_own (h : Hosted w) (hw : Write job x w.last w.journal j) (howned : Owned w)
    (hg : Gone (j.sandboxes.find? x)) : j.sandboxImages.find? x = none := by
  cases hw with
  | accept asked drawn listed accepted =>
    cases accepted with
    | create config expiresAt sandboxes =>
      rw [Table.find?_insert? sandboxes, if_pos rfl] at hg
      exact absurd hg (not_gone (.inl nofun))
    | move action row old found idle sandboxes =>
      rw [sandboxes, Table.find?_modify_self, found] at hg
      exact absurd hg (not_gone (.inl nofun))
  | @row row row' found step =>
    rw [Journal.find?_setRow_self found] at hg
    refine absurd hg (not_gone ?_)
    cases step with
    | passStop pending answer => exact .inl nofun
    | noteError message pending => exact .inl pending
    | expire sweeping expired => exact .inl nofun
    | refresh sweeping idle answer word =>
      obtain ⟨k, -, rfl⟩ := (h.exact x).inspected _ answer
      rw [Container.word_status_describe] at word
      cases word
      refine .inr ?_
      rw [Container.ofText_status]
      split_ifs <;> nofun
    | release sweeping idle stopped answer word => exact .inr (by simp [stopped])
    | markMissing sweeping idle answer => exact .inr nofun
  | @complete _ row action body found pending whole answer done =>
    rw [Journal.complete_of_find? found, Except.ok.injEq] at done
    rw [← done, Table.find?_modify_self, found] at hg
    have hdeleted : action.target = .deleted := (hg _ rfl).1
    simp [← done, hdeleted]
  | compensate found pending launch answer =>
    rw [Journal.compensate, Journal.answer, Journal.doom, Journal.find?_setRow_self found] at hg
    exact absurd hg (not_gone (.inl nofun))
  | count name => exact howned x hg
  | dropImage sweeping gone answer => exact w.journal.sandboxImages.find?_erase_self x

theorem Hosted.owned_write (h : Hosted w) (howned : Owned w) (hw : Write job x w.last w.journal j) :
    Owned (w.withJournal fun _ => j) := by
  intro y hg
  by_cases hyx : y = x
  · subst hyx
    exact h.owned_own hw howned hg
  · refine (hw.sandboxImages_of_ne hyx).trans (howned y ?_)
    rw [World.row?, ← hw.find?_of_ne hyx]
    exact hg

theorem Owned.image (howned : Owned w) {step : ImageStep} (h : step.Internal) :
    Owned (w.image step) := by
  intro x hg
  rw [World.sandboxImages_image h]
  exact howned x (w.row?_image step x ▸ hg)

theorem Owned.start {s : System Containers} (h : s.Start) : Owned s.world := fun x _ => by
  rw [h.journal]
  rfl

/-! ### Faithful worlds -/

/-- Journal and containers fit, and no answer was a refusal. -/
structure Faithful (w : World Containers) : Prop where
  hosted : Hosted w
  owned : Owned w
  unrefused : ∀ c status body, w.last ≠ some (c, .http status body)

namespace Faithful

variable {w : World Containers}

/-- Between operations no answer is outstanding. -/
theorem of_settled (hhosted : Hosted w) (howned : Owned w) (hlast : w.last = none) :
    Faithful w :=
  ⟨hhosted, howned, fun c status body h => by rw [hlast] at h; cases h⟩

theorem call (h : Faithful w) {c : Call} (hf : fault.Lossy) (due : Due job x (w.row? x) w.last c) :
    Faithful (w.called Containers.runtime fault c) where
  hosted := h.hosted.call due
  owned := h.owned
  unrefused c' status body hlast := by
    obtain ⟨-, hreply⟩ := Prod.mk.inj (Option.some.inj hlast)
    obtain ⟨answer, hok⟩ := h.hosted.execute_ok due
    rcases hf.serve_reply c w.runtime with hs | ⟨message, hs⟩
    · exact nomatch hok.symm.trans (hs.symm.trans hreply)
    · exact nomatch hs.symm.trans hreply

theorem write (h : Faithful w)
    (hfresh : ∀ cap n fp key, job = .request cap n fp key → Unclaimed n w)
    (hw : Write job x w.last w.journal j) : Faithful (w.withJournal fun _ => j) :=
  ⟨h.hosted.write hfresh hw, h.hosted.owned_write h.owned hw, h.unrefused⟩

theorem recover (h : Faithful w) (hw : Write job x w.last w.journal j) (hjob : job.Recovers) :
    Faithful (w.withJournal fun _ => j) :=
  h.write (fun _ _ _ _ hr => absurd hr hjob.ne) hw

theorem image (h : Faithful w) {step : ImageStep} (hs : step.Internal) :
    Faithful (w.image step) :=
  ⟨h.hosted.image step, h.owned.image hs, h.unrefused⟩

end Faithful

end Sandcube
