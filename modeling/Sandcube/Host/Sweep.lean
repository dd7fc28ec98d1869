import Sandcube.Host.Clean

/-!
# A sweep in which nothing fails

The sweep visits the sandboxes it read from the journal and then the containers it read from
the runtime before.  Its loops are proved with the remaining work as the loop variable: what
was visited is as `View.swept` says, the rest is as it was.
-/

open Prog

namespace Sandcube

variable {V : String → View} {w : World Containers} {row : Row} {ids : List String}

open Reliability

/-- Nothing failed, and every sandbox is as `V` says. -/
structure Shows (V : String → View) (w : World Containers) : Prop where
  faithful : Faithful w
  answered : Answered w
  view : ∀ y, w.view y = V y

theorem Shows.image {step : ImageStep} (hs : step.Internal) (h : Shows V w) :
    Shows V (w.image step) :=
  ⟨h.faithful.image hs, h.answered, fun y => (w.view_image hs y).trans (h.view y)⟩

theorem Shows.count (name : String) (h : Shows V w) :
    Shows V (w.withJournal (Journal.count name)) :=
  have hw : Write .retry "" w.last w.journal (w.journal.count name) := .count name
  ⟨h.faithful.recover hw trivial, h.answered, h.view⟩

/-! ### The turn of a sandbox -/

section

variable {x : String} {G : View} {V : String → View}

/-- An observed sandbox has arrived. -/
theorem Toward.of_observed (h : Toward x G V w) (hobs : Knows x (Observed x) w) : w.view x = G := by
  obtain ⟨r, actual, text, hidle, htext, hlast, hrow⟩ := hobs
  obtain ⟨k, hk, rfl⟩ := (h.faithful.hosted.exact x).inspected _ hlast
  rw [Container.word_status_describe, Except.ok.injEq] at htext
  rw [← htext, Row.refreshed_reported] at hrow
  have hidle' : (r.refreshed k.running).Idle := ⟨hidle.1, by
    simp only [Row.refreshed]
    split_ifs <;> simp⟩
  have hfix : (r.refreshed k.running).refreshed k.running = r.refreshed k.running := by
    cases k.running <;> rfl
  rw [← h.goal, View.goal_of_idle (v := w.view x) x hrow hidle' hk, hfix, ← hrow]
  rfl

/-- An inspection that was answered was understood. -/
theorem Toward.not_unobserved (h : Toward x G V w) {e : Ex} : ¬ Knows x (Unobserved x e) w := by
  rintro ⟨r, reply, -, -, hlast, he⟩
  obtain ⟨body, rfl⟩ := h.answered _ _ hlast
  rcases he with he | ⟨actual, hactual, he⟩
  · cases he
  · cases hactual
    obtain ⟨k, -, rfl⟩ := (h.faithful.hosted.exact x).inspected _ hlast
    rw [Container.word_status_describe] at he
    cases he

theorem clean_refresh (clock : String → Time) :
    Does Rules.clean.adversary (fun _ _ => True)
      (fun w => Toward x G V w ∧ (∃ r, w.row? x = some r ∧ r.Idle) ∧
        ∀ r, w.row? x = some r → ¬ r.Expired (clock x))
      (refresh Containers.runtime x) (fun _ w => Toward x G V w ∧ w.view x = G)
      (fun _ _ => False) := by
  have hobserve : Does Rules.clean.adversary (Move Containers.runtime .clean (.sweep clock) x)
      _ _ _ _ := does_observe.keep
    (I := fun w => Toward x G V w ∧ ∀ r, w.row? x = some r → ¬ r.Expired (clock x))
    fun _ _ h hmove => ⟨h.1.move hmove trivial fun _ hc => by cases hc; exact h.2,
      Row.expired_congr (hmove.expiresAt_eq trivial) h.2⟩
  refine .rescue (E := fun _ _ => False) ((hobserve.mono fun _ _ _ => trivial).conseq
    (fun _ h => ⟨h.2.1, h.1, h.2.2⟩) (fun _ _ h => ⟨h.2.1, h.2.1.of_observed h.1⟩)
    fun _ _ h => h.2.1.not_unobserved h.1) fun e => ?_
  exact .assuming (fun _ h => h) False.elim

/-- A sandbox that was visited and arrived. -/
theorem Toward.shows (h : Toward x G V w) (hx : w.view x = G) :
    Shows (Function.update V x G) w where
  faithful := h.faithful
  answered := h.answered
  view y := by
    by_cases hy : y = x
    · subst hy
      rw [hx, Function.update_self]
    · rw [h.others y hy, Function.update_of_ne hy]

/-- Where the visit of a sandbox leads. -/
theorem View.swept_of_live {v : View} {now : Time} (hrow : v.row = some row)
    (hlive : ¬ (row.status = .deleted ∧ row.intent = none)) :
    v.swept x now = if row.Expired now then View.goal { v with row := some row.doomed } x
      else v.goal x := by
  rw [View.swept, hrow]
  exact if_neg hlive

/-- The decision at the beginning of a turn. -/
theorem clean_expire (sweep : Sweep) (hrow : (V x).row = some row)
    (hlive : ¬ (row.status = .deleted ∧ row.intent = none)) :
    Does Rules.clean.adversary (fun _ _ => True) (Shows V)
      (when (row.Expired (sweep.clock x)) (exec (Journal.doom x)))
      (fun _ => Toward x ((V x).swept x (sweep.clock x)) V) (fun _ _ => False) := by
  have hfound : ∀ {w}, Shows V w → w.row? x = some row := fun h =>
    (congrArg View.row (h.view x)).trans hrow
  rw [View.swept_of_live hrow hlive]
  refine .when (fun hexp => hoare_exec (fun w step hs h => h.image hs) fun w h => ?_)
    fun hexp w h => ?_
  · have hw : Write (.sweep sweep.clock) x w.last w.journal (w.journal.doom x) := by
      rw [Journal.doom, Journal.setRow_eq_of_find? (hfound h)]
      exact .row (hfound h) (.expire rfl hexp)
    have hview : (w.withJournal (Journal.doom x)).view x = { V x with row := some row.doomed } := by
      rw [← h.view x, ← World.view_setRow (hfound h), ← Journal.setRow_eq_of_find? (hfound h)]
      rfl
    refine ⟨h.faithful.recover hw trivial, h.answered, fun hn => ?_, ?_, fun y hy => ?_⟩
    · cases (hfound h).symm.trans (hw.find?_eq_none hn)
    · rw [if_pos hexp, hview]
    · exact (World.view_write_of_ne hw hy).trans (h.view y)
  · refine ⟨h.faithful, h.answered, by simp [hfound h], ?_, fun y _ => h.view y⟩
    rw [if_neg hexp, h.view x]

/-- An expired sandbox is deleted when its turn comes to an end. -/
theorem Toward.unexpired {now : Time} (hrow : (V x).row = some row)
    (hlive : ¬ (row.status = .deleted ∧ row.intent = none)) (h : Toward x ((V x).swept x now) V w)
    {r : Row} (hr : w.row? x = some r) (hi : r.Idle) : ¬ r.Expired now := by
  obtain ⟨k, -, hk⟩ := h.row_eq hr hi
  have hexpires : r.expiresAt = row.expiresAt := by
    have := (V x).swept_expiresAt x now
    rw [hk, hrow] at this
    exact Option.some.inj this
  intro hexp
  have hexp : row.Expired now := by simpa only [Row.Expired, hexpires] using hexp
  rw [View.swept_of_live hrow hlive, if_pos hexp, View.goal_of_pending x rfl rfl] at hk
  have hstatus := congrArg Row.status (Option.some.inj hk)
  simp only [Row.finished, Action.target, Row.refreshed] at hstatus
  split_ifs at hstatus

/-- **The turn of a sandbox** leads where it should, and touches no other. -/
theorem clean_visit (sweep : Sweep) (hrow : (V x).row = some row)
    (hlive : ¬ (row.status = .deleted ∧ row.intent = none)) :
    Does Rules.clean.adversary (fun _ _ => True) (Shows V) (visit Containers.runtime sweep x)
      (fun _ => Shows (Function.update V x ((V x).swept x (sweep.clock x)))) (fun _ _ => False) := by
  refine .rescue (E := fun _ _ => False) ?_ fun _ => .assuming (fun _ h => h) False.elim
  refine .bind (K := fun r w => Shows V w ∧ r = row) (.read (fun w r h hr => ⟨h, ?_⟩)
    fun w e h he => ?_) fun r => .assuming (fun _ h => h.2) fun hr => ?_
  · have hfound : w.row? x = some row := (congrArg View.row (h.view x)).trans hrow
    simpa [show w.journal.sandboxes.find? x = _ from hfound, eq_comm] using hr
  · have hfound : w.row? x = some row := (congrArg View.row (h.view x)).trans hrow
    simp [show w.journal.sandboxes.find? x = _ from hfound] at he
  subst hr
  refine .bind ((clean_expire sweep hrow hlive).pre fun _ h => h.1)
    fun _ => .bind clean_converge fun _ => .bind (K := fun r w =>
      Toward x ((V x).swept x (sweep.clock x)) V w ∧ w.row? x = some r ∧ r.intent = none)
      (.read (fun w r h hr => ?_) fun w e h he => ?_) fun r' => .when (fun hdel =>
      ((clean_refresh sweep.clock).conseq (fun w h => ⟨h.1, ⟨r', h.2.1, h.2.2, hdel⟩, ?_⟩)
        (fun _ _ h => h.1.shows h.2) fun _ _ h => h)) fun hdel w h => ?_
  · obtain ⟨h, r₀, hr₀, hi⟩ := h
    have hr := Journal.get_eq_ok_iff.mp hr
    obtain rfl := Option.some.inj (hr₀.symm.trans hr)
    exact ⟨h, hr, hi⟩
  · obtain ⟨r₀, hr₀, -⟩ := h.2
    cases he.symm.trans (Journal.get_eq_ok_iff.mpr hr₀)
  · intro r hr
    obtain rfl := Option.some.inj (h.2.1.symm.trans hr)
    exact h.1.unexpired hrow hlive hr ⟨h.2.2, hdel⟩
  · refine h.1.shows (h.1.of_gone fun r hr => ?_)
    obtain rfl := Option.some.inj (h.2.1.symm.trans hr)
    exact ⟨not_not.mp hdel, h.2.2⟩

/-! ### The loop over the sandboxes -/

/-- The sandboxes of `ids` that are not in `rest` were visited. -/
def visited (V : String → View) (clock : String → Time) (ids rest : List String) (y : String) :
    View :=
  if y ∈ ids ∧ y ∉ rest then (V y).swept y (clock y) else V y

theorem visited_cons {clock : String → Time} {rest : List String} {b : String} (hnodup : ids.Nodup)
    (hsuffix : b :: rest <:+ ids) :
    Function.update (visited V clock ids (b :: rest)) b ((V b).swept b (clock b)) =
      visited V clock ids rest := by
  have hb : b ∉ rest := (List.nodup_cons.mp (hnodup.sublist hsuffix.sublist)).1
  have hmem : b ∈ ids := hsuffix.subset (List.mem_cons_self ..)
  funext y
  by_cases hy : y = b
  · subst hy
    rw [Function.update_self, visited, if_pos ⟨hmem, hb⟩]
  · rw [Function.update_of_ne hy]
    simp only [visited, List.mem_cons, hy, false_or]

theorem clean_visits (sweep : Sweep) {ids : List String} (hnodup : ids.Nodup)
    (hlive : ∀ y ∈ ids, ∃ row, (V y).row = some row ∧ ¬ (row.status = .deleted ∧ row.intent = none)) :
    Does Rules.clean.adversary (fun _ _ => True) (Shows V)
      (forEach ids (visit Containers.runtime sweep))
      (fun _ => Shows (visited V sweep.clock ids [])) (fun _ _ => False) := by
  have hstart : visited V sweep.clock ids ids = V := by
    funext y
    exact if_neg fun h => h.2 h.1
  have hloop : Does Rules.clean.adversary (fun _ _ => True)
      (Shows (visited V sweep.clock ids ids)) (forEach ids (visit Containers.runtime sweep))
      (fun _ => Shows (visited V sweep.clock ids [])) (fun _ _ => False) :=
    .forEach (I := fun rest => Shows (visited V sweep.clock ids rest)) fun b rest hsuffix => by
      obtain ⟨row, hrow, hl⟩ := hlive b (hsuffix.subset (List.mem_cons_self ..))
      have hb : visited V sweep.clock ids (b :: rest) b = V b :=
        if_neg fun h => h.2 (List.mem_cons_self ..)
      have hvisit := clean_visit (x := b) sweep (hb ▸ hrow) hl
      rwa [hb, visited_cons hnodup hsuffix] at hvisit
  rwa [hstart] at hloop

end

/-! ### The loop over the containers -/

/-- The inventory has a container of the sandbox. -/
def Listed (y : String) (inventory : List Json) : Prop :=
  ∃ c ∈ inventory, c.word "id" = .ok y

theorem Container.word_id_describe (c : Container) (x : String) :
    (c.describe x).word "id" = .ok x := by
  simp [describe, Json.word, Json.field, Json.asObject, Json.get, Json.asString, bind, Except.bind,
    List.lookup]

/-- Every sandbox is as `T` says, apart from containers outside `ids` that are still to be
removed. -/
structure Clearing (T : String → View) (ids : List String) (rest : List Json)
    (w : World Containers) : Prop where
  faithful : Faithful w
  answered : Answered w
  gone : ∀ y, y ∉ ids → Gone (w.row? y)
  view : ∀ y, w.view y = T y ∨
    y ∉ ids ∧ Listed y rest ∧ T y = { w.view y with container := none }
  container : ∀ y, y ∉ ids → (T y).container = none

namespace Clearing

variable {T : String → View} {ids : List String} {rest : List Json} {c : Json} {y : String}
  {w : World Containers}

theorem image {step : ImageStep} (hs : step.Internal) (h : Clearing T ids rest w) :
    Clearing T ids rest (w.image step) where
  faithful := h.faithful.image hs
  answered := h.answered
  gone y hy := by rw [w.row?_image]; exact h.gone y hy
  view y := by rw [w.view_image hs]; exact h.view y
  container := h.container

theorem count (name : String) (h : Clearing T ids rest w) :
    Clearing T ids rest (w.withJournal (Journal.count name)) :=
  have hw : Write .retry "" w.last w.journal (w.journal.count name) := .count name
  ⟨h.faithful.recover hw trivial, h.answered, h.gone, h.view, h.container⟩

/-- A container of a known sandbox is passed over. -/
theorem skip (h : Clearing T ids (c :: rest) w) (hc : c.word "id" = .ok y) (hy : y ∈ ids) :
    Clearing T ids rest w where
  faithful := h.faithful
  answered := h.answered
  gone := h.gone
  view z := by
    refine (h.view z).imp_right fun ⟨hz, ⟨c', hmem, hc'⟩, hT⟩ => ⟨hz, ?_, hT⟩
    rcases List.mem_cons.mp hmem with rfl | hmem
    · rw [hc, Except.ok.injEq] at hc'
      exact absurd (hc' ▸ hy) hz
    · exact ⟨c', hmem, hc'⟩
  container := h.container

/-- The removal of a container without a row. -/
theorem delete (h : Clearing T ids (c :: rest) w) (hc : c.word "id" = .ok y) (hy : y ∉ ids)
    (clock : String → Time) {fault : Fault} (hf : fault.Clean) :
    Clearing T ids rest (w.called Containers.runtime fault (.delete y)) := by
  have due : Due (.sweep clock) y (w.row? y) w.last (.delete y) :=
    ⟨rfl, .inr ⟨clock, rfl, h.gone y hy⟩⟩
  have hserve := hf.serve_eq (.delete y) w.runtime
  refine ⟨h.faithful.call hf.lossy due, fun c' reply hlast => ?_, h.gone, fun z => ?_, h.container⟩
  · obtain ⟨-, rfl⟩ := Prod.mk.inj (Option.some.inj hlast)
    exact ⟨_, congrArg Prod.fst hserve⟩
  by_cases hz : z = y
  · subst hz
    have hview : (w.called Containers.runtime fault (.delete z)).view z =
        { w.view z with container := none } := by
      ext1
      · rfl
      · rfl
      · change (Containers.serve fault (.delete z) w.runtime).2.find? z = none
        rw [hserve]
        exact w.runtime.find?_erase_self z
      · rfl
    rw [hview]
    rcases h.view z with hT | ⟨-, -, hT⟩
    · refine .inl ?_
      rw [hT, ← h.container z hy]
    · exact .inl hT.symm
  · rw [World.view_called_of_ne hf.lossy due hz]
    refine (h.view z).imp_right fun ⟨hz', ⟨c', hmem, hc'⟩, hT⟩ => ⟨hz', ?_, hT⟩
    rcases List.mem_cons.mp hmem with rfl | hmem
    · rw [hc, Except.ok.injEq] at hc'
      exact absurd hc'.symm hz
    · exact ⟨c', hmem, hc'⟩

/-- There is no image reference to drop. -/
theorem dropImage (h : Clearing T ids rest w) (hy : y ∉ ids) :
    Clearing T ids rest (w.withJournal (Journal.dropImage y)) := by
  have herase := Table.erase_of_find?_eq_none _ (h.faithful.owned y (h.gone y hy))
  have hsame : w.withJournal (Journal.dropImage y) = w := by
    simp only [World.withJournal, Journal.dropImage, herase]
  rwa [hsame]

theorem shows (h : Clearing T ids [] w) : Shows T w :=
  ⟨h.faithful, h.answered, fun y => (h.view y).resolve_right fun ⟨_, ⟨_, hmem, _⟩, _⟩ =>
    List.not_mem_nil hmem⟩

end Clearing

theorem clean_visitContainer {T : String → View} {rest : List Json} {c : Json} {y : String}
    (hc : c.word "id" = .ok y) :
    Does Rules.clean.adversary (fun _ _ => True) (Clearing T ids (c :: rest))
      (visitContainer Containers.runtime ids c) (fun _ => Clearing T ids rest)
      (fun _ _ => False) := by
  have himage : ∀ w step, Rules.clean.image step → Clearing T ids rest w →
      Clearing T ids rest (w.image step) := fun _ _ hs h => h.image hs
  unfold visitContainer
  rw [hc]
  refine .bind (.pure (Q := fun id w => Clearing T ids (c :: rest) w ∧ id = y)
    fun _ h => ⟨h, rfl⟩) fun id => .assuming (fun _ h => h.2) fun hid => ?_
  subst hid
  split_ifs with hy
  · exact .pure fun _ h => h.1.skip hc hy
  refine .bind (K := fun known w => Clearing T ids (c :: rest) w ∧ known.any (· ≠ .deleted) = false)
    (.read (fun w known h hknown => ⟨h.1, ?_⟩) fun _ _ _ he => ?_) fun known =>
    .assuming (fun _ h => h.2) fun hknown => ?_
  · obtain rfl := Except.ok.inj hknown
    have hgone := h.1.gone id hy
    cases hrow : w.journal.sandboxes.find? id with
    | none => rfl
    | some row => simp [(hgone row hrow).1]
  · cases he
  rw [if_neg (by rw [hknown]; exact Bool.false_ne_true)]
  refine .rescue (E := fun _ _ => False) ?_ fun _ => .assuming (fun _ h => h) False.elim
  refine .bind (K := fun _ => Clearing T ids rest) (hoare_call (fun _ _ hs h => ⟨h.1.image hs, h.2⟩)
    (fun w f body h hf _ => h.1.delete hc hy (fun _ => 0) hf) fun w f e h hf he => ?_) fun _ =>
    .bind (hoare_exec himage fun _ h => h.dropImage hy) fun _ =>
    hoare_exec himage fun _ h => h.count _
  change (Containers.serve f _ _).1.toExcept = _ at he
  rw [hf.serve_eq] at he
  cases he

/-! ### The whole sweep -/

/-- A request that concerns no sandbox. -/
theorem Shows.called {fault : Fault} {c : Call} (h : Shows V w) (hf : fault.Clean)
    (hc : c = .list ∨ c = .reconcile) : Shows V (w.called Containers.runtime fault c) := by
  have hserve := hf.serve_eq c w.runtime
  have hsame : (Containers.serve fault c w.runtime).2 = w.runtime := by
    rw [hserve]
    rcases hc with rfl | rfl <;> rfl
  have due : Due .retry "" (w.row? "") w.last c := by rcases hc with rfl | rfl <;> trivial
  refine ⟨h.faithful.call hf.lossy due, fun c' reply hlast => ?_, fun y => ?_⟩
  · obtain ⟨-, rfl⟩ := Prod.mk.inj (Option.some.inj hlast)
    obtain ⟨body, hok⟩ := h.faithful.hosted.execute_ok due
    exact ⟨body, (congrArg Prod.fst hserve).trans hok⟩
  · rw [← h.view y]
    ext1
    · rfl
    · rfl
    · exact congrArg (·.find? y) hsame
    · rfl

/-- When the sandboxes were visited, only the containers without a row are left. -/
theorem Shows.clearing {clock : String → Time} {inventory : List Json}
    (h : Shows (visited V clock ids []) w) (hgone : ∀ y, y ∉ ids → Gone (V y).row)
    (hinventory : ∀ y k, (V y).container = some k → Listed y inventory) :
    Clearing (fun y => (V y).swept y (clock y)) ids inventory w := by
  have hin : ∀ y, y ∈ ids → w.view y = (V y).swept y (clock y) := fun y hy =>
    (h.view y).trans (if_pos ⟨hy, List.not_mem_nil⟩)
  have hout : ∀ y, y ∉ ids → w.view y = V y := fun y hy =>
    (h.view y).trans (if_neg fun hv => hy hv.1)
  have hT : ∀ y, y ∉ ids → (V y).swept y (clock y) = { V y with container := none } := by
    intro y hy
    refine View.swept_of_gone y (clock y) (hgone y hy) fun hrow => ?_
    obtain ⟨row, hr⟩ := Option.ne_none_iff_exists'.mp hrow
    obtain ⟨hs, hi⟩ := hgone y hy row hr
    rw [← hout y hy] at hr ⊢
    exact ((h.faithful.hosted.coupled hr).gone hs hi).1
  refine ⟨h.faithful, h.answered, fun y hy => ?_, fun y => ?_, fun y hy => by rw [hT y hy]⟩
  · rw [show w.row? y = (V y).row from congrArg View.row (hout y hy)]
    exact hgone y hy
  · by_cases hy : y ∈ ids
    · exact .inl (hin y hy)
    · rw [hT y hy, hout y hy]
      cases hk : (V y).container with
      | none => exact .inl (by rw [← hk])
      | some k => exact .inr ⟨hy, hinventory y k hk, rfl⟩

/-- **A sweep in which nothing fails** does to every sandbox what it should, and ends. -/
theorem clean_reconcile (sweep : Sweep) (V : String → View) :
    Does Rules.clean.adversary (fun _ _ => True) (Shows V) (reconcile Containers.runtime sweep)
      (fun _ => Shows fun y => (V y).swept y (sweep.clock y)) (fun _ _ => False) := by
  refine .rescue (E := fun _ _ => False) ?_ fun _ => .assuming (fun _ h => h) False.elim
  have himage : ∀ {V} (w : World Containers) step, Rules.clean.image step → Shows V w →
      Shows V (w.image step) := fun _ _ hs h => h.image hs
  refine .bind (K := fun answer w => Shows V w ∧ ∃ cs : Containers,
      answer = .arr (cs.rows.map fun p => p.2.describe p.1) ∧
      ∀ y, cs.find? y = (V y).container) (hoare_call himage (fun w f body h hf hok =>
        ⟨h.called hf (.inl rfl), w.runtime, ?_, fun y => congrArg View.container (h.view y)⟩)
      fun w f e h hf he => ?_) fun answer => ?_
  · change (Containers.serve f _ _).1 = _ at hok
    rw [hf.serve_eq] at hok
    exact (Reply.ok.inj hok).symm
  · change (Containers.serve f _ _).1.toExcept = _ at he
    rw [hf.serve_eq] at he
    cases he
  refine .assuming (fun _ h => h.2) fun ⟨cs, hanswer, hcs⟩ => ?_
  subst hanswer
  refine .bind (.pure (Q := fun inventory w => Shows V w ∧
    inventory = cs.rows.map fun p => p.2.describe p.1) fun _ h => ⟨h.1, rfl⟩) fun inventory =>
    .assuming (fun _ h => h.2) fun hinv => ?_
  subst hinv
  refine .bind (K := fun ids w => Shows V w ∧ ids.Nodup ∧ (∀ y ∈ ids, ∃ row, (V y).row = some row ∧
      ¬ (row.status = .deleted ∧ row.intent = none)) ∧ ∀ y, y ∉ ids → Gone (V y).row)
    (.read (fun w ids h hids => ⟨h.1, ?_⟩) fun _ _ _ he => nomatch he) fun ids =>
    .assuming (fun _ h => h.2) fun ⟨hnodup, hlive, hgone⟩ => ?_
  · obtain rfl := Except.ok.inj hids
    have hperm := sweep.perm w.journal.live
    have hview := fun y => congrArg View.row (h.1.view y)
    refine ⟨hperm.nodup_iff.mpr (Table.nodup_keysWhere _ _), fun y hy => ?_, fun y hy => ?_⟩
    · obtain ⟨row, hr, hl⟩ := (Table.mem_keysWhere_iff _ _ _).mp (hperm.mem_iff.mp hy)
      refine ⟨row, (hview y).symm.trans hr, fun hg => ?_⟩
      simp [hg.1, hg.2] at hl
    · rw [← hview y]
      exact rest_of_live hperm y hy
  have hlisted : ∀ y k, (V y).container = some k →
      Listed y (cs.rows.map fun p => p.2.describe p.1) := by
    intro y k hk
    have hmem := (cs.find?_eq_some_iff_mem y k).mp ((hcs y).trans hk)
    exact ⟨k.describe y, List.mem_map.mpr ⟨(y, k), hmem, rfl⟩, k.word_id_describe y⟩
  refine .bind ((clean_visits sweep hnodup hlive).conseq (fun _ h => h.1) (fun _ _ h =>
    h.clearing hgone hlisted) fun _ _ h => h) fun _ => .bind (K := fun _ => Shows fun y =>
      (V y).swept y (sweep.clock y)) (Does.conseq (.forEach (I := Clearing _ ids)
        fun c rest hsuffix => ?_) (fun _ h => h) (fun _ _ h => h.shows) fun _ _ h => h) fun _ =>
    .bind (K := fun _ => Shows fun y => (V y).swept y (sweep.clock y)) (hoare_call himage
      (fun w f body h hf _ => h.called hf (.inr rfl)) fun w f e h hf he => ?_) fun _ =>
    hoare_exec himage fun _ h => h.count _
  · obtain ⟨p, -, rfl⟩ := List.mem_map.mp (hsuffix.subset (List.mem_cons_self ..))
    exact clean_visitContainer (p.2.word_id_describe p.1)
  · change (Containers.serve f _ _).1.toExcept = _ at he
    rw [hf.serve_eq] at he
    cases he

/-- The states before and after such a sweep. -/
theorem next_reconcile_clean (codec : Codec) {s : System Containers} (hup : s.api ≠ none)
    (hfaithful : Faithful s.world) (hlast : s.world.last = none) (sweep : Sweep)
    {fates : List (Fate (Env Fault))} (hfates : Rules.clean.adversary.Allows fates) :
    Faithful (s.next codec Containers.runtime (.reconcile sweep fates)).world ∧
      ∀ y, (s.next codec Containers.runtime (.reconcile sweep fates)).world.view y =
        (s.world.view y).swept y (sweep.clock y) := by
  obtain ⟨cap, hapi⟩ := Option.ne_none_iff_exists'.mp hup
  have hshows : Shows s.world.view s.world :=
    ⟨hfaithful, .of_settled hlast, fun _ => rfl⟩
  simp only [System.next, hapi]
  rcases (clean_reconcile sweep s.world.view).survives hfates hshows (Rules.gentle not_false) with
    ⟨_, hok, hend⟩ | ⟨_, _, hend⟩
  · simp only [System.after, hok]
    exact ⟨.of_settled hend.faithful.hosted.forget hend.faithful.owned rfl, hend.view⟩
  · exact hend.elim

end Sandcube
