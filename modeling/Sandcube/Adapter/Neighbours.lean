import Sandcube.Adapter.Addresses

/-!
# Networks of neighbours

The network programs of one sandbox change no object of another, with one exception: the deletion
of connections goes by the address in the journal record, and the search for an address does not
look at records.  A record that a failed setup or removal has left behind without its table can
name the address that another sandbox got later.
-/

open Relation

namespace Sandcube.Adapter

open Prog (Does)

variable {host : Host} {May : Back → Prop} {id : String} {w w' : World}

/-- The programs of `network.go` for one sandbox. -/
inductive NetProgram where
  | setup | remove | reconcile

def NetProgram.run (host : Host) (id : String) : NetProgram → Op Unit
  | .setup => setupNetwork host id
  | .remove => removeNetwork host id
  | .reconcile => reconcileNetwork host id

/-! ### What the programs leave alone -/

/-- What the network programs of a sandbox with the journal record `old` leave alone. -/
structure Neighbourly (host : Host) (id : String) (old : Option NetworkRecord) (w w' : World) :
    Prop where
  links : ∀ name, name ≠ host.networkName id → w'.net.links.find? name = w.net.links.find? name
  namespaces : ∀ name, name ≠ host.networkName id →
    (name ∈ w'.net.namespaces ↔ name ∈ w.net.namespaces)
  tables : ∀ name, name ≠ host.networkName id → w'.net.tables.find? name = w.net.tables.find? name
  records : ∀ id', id' ≠ id → w'.net.records.find? id' = w.net.records.find? id'
  flows : ∀ f ∈ w.net.conntrack, f ∈ w'.net.conntrack ∨ ∃ r, old = some r ∧ f.guest = r.guest

namespace Neighbourly

variable {old : Option NetworkRecord} {r : NetworkRecord}

theorem refl (w : World) : Neighbourly host id old w w :=
  ⟨fun _ _ => rfl, fun _ _ => Iff.rfl, fun _ _ => rfl, fun _ _ => rfl, fun _ hf => .inl hf⟩

theorem trans {w'' : World} (h : Neighbourly host id old w w') (h' : Neighbourly host id old w' w'') :
    Neighbourly host id old w w'' := by
  refine ⟨?_, ?_, ?_, ?_, ?_⟩
  · exact fun name hn => (h'.links name hn).trans (h.links name hn)
  · exact fun name hn => (h'.namespaces name hn).trans (h.namespaces name hn)
  · exact fun name hn => (h'.tables name hn).trans (h.tables name hn)
  · exact fun id' hid => (h'.records id' hid).trans (h.records id' hid)
  · intro f hf
    rcases h.flows f hf with hf | hold
    · exact h'.flows f hf
    · exact .inr hold

theorem of_steps (h : ReflTransGen (Neighbourly host id old) w w') : Neighbourly host id old w w' := by
  induction h with
  | refl => exact refl w
  | tail _ hlast ih => exact ih.trans hlast

/-- Background steps make connections and delete none. -/
theorem back (w : World) (b : Back) : Neighbourly host id old w (w.back host b) := by
  have hb : Beside host w (w.back host b) := .back b
  refine ⟨?_, ?_, ?_, ?_, fun f hf => .inl ?_⟩
  · intro name _; rw [hb.links]
  · intro name _; rw [hb.namespaces]
  · intro name _; rw [hb.tables]
  · intro id' _; rw [hb.records]
  · have hsame : (∀ id inbound, b ≠ .traffic id inbound) → f ∈ (w.back host b).net.conntrack := by
      intro hb
      rw [(w.back_move host b).net_eq hb]
      exact hf
    cases b with
    | traffic id' inbound =>
      simp only [World.back]
      split
      · exact List.mem_cons_of_mem _ hf
      · exact hf
    | exit | taskExit | watch | wait | collect | drift | removeDirectory | charge | discharge =>
      exact hsame (by intro _ _ h; cases h)

theorem isOpen : Open host May (Neighbourly host id old) := fun w b _ => back w b

/-- A command of the setup. -/
theorem command (hname : r.name = host.networkName id) (c : NetCommand) (w : World) :
    Neighbourly host id old w (w.withNet fun _ => (c.run r w.net).2) := by
  have hconf := c.configured r w.net
  refine ⟨?_, ?_, ?_, ?_, ?_⟩
  · intro name hn; exact hconf.others name (hname ▸ hn)
  · intro name hn
    constructor
    · intro hmem
      exact (hconf.namespaces name hmem).resolve_right (hname ▸ hn)
    · intro hmem
      cases c with
      | netnsAdd =>
        simp only [World.withNet, NetCommand.run]
        split_ifs
        · exact hmem
        · exact List.mem_cons_of_mem _ hmem
      | linkAdd =>
        simp only [World.withNet, NetCommand.run]
        split
        · exact hmem
        · split_ifs <;> exact hmem
      | addrAdd | guestAddrAdd | linkUp =>
        simp only [World.withNet, NetCommand.run, NetCommand.run.onLink]
        split <;> exact hmem
      | sysctl | loUp | guestUp | guestRoute =>
        simp only [World.withNet, NetCommand.run]
        split_ifs <;> exact hmem
  · intro name _; rw [World.withNet, hconf.tables]
  · intro id' _; rw [World.withNet, hconf.records]
  · intro f hf
    refine .inl ?_
    rw [World.withNet, hconf.conntrack]
    exact hf

end Neighbourly

/-! ### The programs -/

/-- A program that minds its neighbours. -/
abbrev Minds {α : Type} (host : Host) (May : Back → Prop) (id : String) (old : Option NetworkRecord)
    (P : World → Prop) (p : Op α) (Q : α → World → Prop) : Prop :=
  Does (within May) (Neighbourly host id old) P p Q unknown

section Programs

variable {old : Option NetworkRecord} {r : NetworkRecord}

theorem minds_query {α : Type} {f : World → Except Err α} :
    Minds host May id old (fun _ => True) (query host f) fun _ _ => True :=
  does_query Neighbourly.isOpen .trivial (fun _ _ _ _ => trivial) (fun _ _ _ _ => trivial)
    fun _ _ _ => trivial

theorem minds_netEffect {P : World → Prop} {f : Net → Net} (hP : Steady host May P)
    (hf : ∀ w, Neighbourly host id old w (w.withNet f)) :
    Minds host May id old P (netEffect host f) fun _ _ => True :=
  does_effect Neighbourly.isOpen hP (fun w _ => .single (hf w)) (fun _ _ => trivial)
    (fun _ _ _ => trivial) fun _ _ _ => trivial

theorem minds_deleteListed {listed : Net → Bool} {f : Net → Net}
    (hf : ∀ w, Neighbourly host id old w (w.withNet f)) :
    Minds host May id old (fun _ => True) (deleteListed host listed f) fun _ _ => True :=
  .bind minds_query fun _ => .when (fun _ => minds_netEffect .trivial hf) fun _ _ _ => trivial

/-- The record tells which objects go. -/
theorem minds_teardown (hold : old = some r) (hname : r.name = host.networkName id) :
    Minds host May id old (fun _ => True) (teardown host id r) fun _ _ => True := by
  unfold teardown clearConntrack
  refine .bind (minds_deleteListed fun w => { Neighbourly.refl w with links := ?_ }) fun _ => ?_
  · exact fun name hn => Table.find?_erase_of_ne _ (hname ▸ hn)
  refine .bind (minds_deleteListed fun w => { Neighbourly.refl w with namespaces := ?_ }) fun _ => ?_
  · intro name hn
    have hne : name ≠ r.name := hname ▸ hn
    simp [World.withNet, hne]
  refine .bind (K := fun _ _ => True) ?_ fun _ => ?_
  · split_ifs
    · refine .forEach (I := fun _ _ => True) fun inbound _ _ => ?_
      refine minds_netEffect .trivial fun w => ?_
      have hrefl : Neighbourly host id old w w := .refl w
      refine { hrefl with flows := fun f hf => ?_ }
      by_cases hguest : f.guest = r.guest
      · exact .inr ⟨r, hold, hguest⟩
      · refine .inl (List.mem_filter.mpr ⟨hf, ?_⟩)
        simp [hguest]
    · exact .raise fun _ _ => trivial
  refine .bind (minds_deleteListed fun w => { Neighbourly.refl w with tables := ?_ }) fun _ => ?_
  · exact fun name hn => Table.find?_erase_of_ne _ (hname ▸ hn)
  refine .bind (minds_netEffect .trivial fun w => { Neighbourly.refl w with }) fun _ => ?_
  refine minds_netEffect .trivial fun w => { Neighbourly.refl w with records := ?_ }
  exact fun id' hid => Table.find?_erase_of_ne _ hid

theorem steady_record (old : Option NetworkRecord) :
    Steady host May fun w : World => w.net.records.find? id = old :=
  steady_net fun records _ _ _ _ => records.find? id = old

theorem minds_removeNetworkLocked :
    Minds host May id old (fun w => w.net.records.find? id = old) (removeNetworkLocked host id)
      fun _ _ => True := by
  unfold removeNetworkLocked
  refine .bind (K := fun found _ => found = old) ?_ fun found => ?_
  · refine does_query Neighbourly.isOpen (steady_record old) ?_ (fun _ _ _ _ => trivial)
      fun _ _ _ => trivial
    intro w found hw hfound
    exact (Except.ok.inj hfound).symm.trans hw
  refine .assuming (fun _ hw => hw) fun hold => ?_
  cases found with
  | none => exact .pure fun _ _ => trivial
  | some r =>
    dsimp only
    split_ifs with howned
    · exact (minds_teardown hold.symm howned.2).pre fun _ _ => trivial
    · exact .raise fun _ _ => trivial

/-- A question that the lock comes with. -/
theorem minds_lock {f : World → Except Err Unit} :
    Minds host May id old (fun w => w.net.records.find? id = old) (query host f)
      fun _ w => w.net.records.find? id = old :=
  does_query Neighbourly.isOpen (steady_record old) (fun _ _ hw _ => hw) (fun _ _ _ _ => trivial)
    fun _ _ _ => trivial

theorem minds_removeNetwork :
    Minds host May id old (fun w => w.net.records.find? id = old) (removeNetwork host id)
      fun _ _ => True :=
  .bind minds_lock fun _ => minds_removeNetworkLocked

theorem minds_findSubnet (filtered : List Address) (start left : ℕ) :
    Minds host May id old (fun _ => True) (findSubnet host id filtered start left)
      fun r _ => r.name = host.networkName id := by
  induction left with
  | zero => exact .raise fun _ _ => trivial
  | succ left ih =>
    unfold findSubnet
    refine .bind minds_query fun routed => ?_
    split_ifs
    · exact ih
    · exact .pure fun _ _ => rfl

theorem minds_setupNetwork :
    Minds host May id old (fun w => w.net.records.find? id = old) (setupNetwork host id)
      fun _ _ => True := by
  unfold setupNetwork
  refine .bind minds_lock fun _ => .bind minds_removeNetworkLocked fun _ => ?_
  refine .bind minds_query fun _ => .bind minds_query fun filtered => ?_
  refine .bind (minds_findSubnet filtered _ _) fun r => ?_
  refine .assuming (fun _ hw => hw) fun hname => ?_
  refine .bind (minds_netEffect (fun _ _ _ hw => hw) fun w =>
    { Neighbourly.refl w with records := ?_ }) fun _ => ?_
  · exact fun id' hid => Table.find?_put_of_ne _ hid _
  refine .bind (minds_netEffect .trivial fun w => { Neighbourly.refl w with tables := ?_ }) fun _ => ?_
  · exact fun name hn => Table.find?_put_of_ne _ (hname ▸ hn) _
  refine .bind (.forEach (I := fun _ _ => True) fun c _ _ => ?_) fun _ => ?_
  · exact does_call Neighbourly.isOpen .trivial (fun _ w _ => .single (.command hname c w))
      (fun _ _ _ _ _ => trivial) (fun _ _ _ _ _ => trivial) (fun _ _ _ => trivial)
      fun _ _ _ _ => trivial
  exact .bind (minds_netEffect .trivial fun w => { Neighbourly.refl w with }) fun _ => minds_query

theorem minds_reconcileNetwork :
    Minds host May id old (fun w => w.net.records.find? id = old) (reconcileNetwork host id)
      fun _ _ => True := by
  have hask : ∀ {α : Type} {f : World → Except Err α},
      Does (within May) (Neighbourly host id old) (fun w => w.net.records.find? id = old)
        (query host f) (fun _ w => w.net.records.find? id = old)
        (fun _ w => w.net.records.find? id = old) :=
    does_query Neighbourly.isOpen (steady_record old) (fun _ _ hw _ => hw) (fun _ _ hw _ => hw)
      fun _ _ hw => hw
  unfold reconcileNetwork inspect
  split_ifs
  · refine .bind (K := fun _ w => w.net.records.find? id = old) ?_ fun running => ?_
    · exact does_ifNotFound (.bind hask fun _ => hask) (.pure fun _ hw => hw) fun _ _ _ _ => trivial
    · split_ifs
      · exact .pure fun _ _ => trivial
      · exact minds_removeNetwork
  · exact .raise fun _ _ => trivial

/-- Every network program minds its neighbours, whatever fails and wherever it is cut off. -/
theorem NetProgram.neighbourly (p : NetProgram) (w : World) (fates : List (Fate Env)) :
    Neighbourly host id (w.net.records.find? id) w (p.run host id w fates).state := by
  have hfates : (within fun _ => True).Allows fates := by
    intro t _
    cases t with
    | go env => exact fun _ _ => trivial
    | crash => trivial
    | crashAfter env => exact fun _ _ => trivial
  refine .of_steps ?_
  cases p with
  | setup => exact minds_setupNetwork.steps hfates rfl
  | remove => exact minds_removeNetwork.steps hfates rfl
  | reconcile => exact minds_reconcileNetwork.steps hfates rfl

end Programs

/-! ### Records that share an address -/

/-- No two records name the same address. -/
def Spread (n : Net) : Prop :=
  ∀ id id' r r', n.records.find? id = some r → n.records.find? id' = some r' →
    r.guest = r'.guest → id = id'

/-- Every record, apart from that of the sandbox, has its table: no other setup or removal has
stopped half way. -/
def Tidy (host : Host) (id : String) (n : Net) : Prop :=
  ∀ id' r, id' ≠ id → n.records.find? id' = some r → (n.tables.find? (host.networkName id')).isSome

section Moves

variable {scope : Scope}

theorem Spread.shrink {n n' : Net} (h : Spread n)
    (hrecords : ∀ id r, n'.records.find? id = some r → n.records.find? id = some r) : Spread n' :=
  fun id id' r r' hr hr' => h id id' r r' (hrecords id r hr) (hrecords id' r' hr')

/-- The address of a new record is that of no table, so of no record that has a table. -/
theorem Spread.putRecord (h : Spread w.net) (hleased : Leased host w.net) (htidy : Tidy host id w.net)
    {r : NetworkRecord} (hunfiltered : r.guest ∉ w.net.filtered) :
    Spread { w.net with records := w.net.records.put id r } := by
  have hother : ∀ id' r', id' ≠ id → w.net.records.find? id' = some r' → r'.guest ≠ r.guest := by
    intro id' r' hid hr' hguest
    obtain ⟨g, hg⟩ := Option.isSome_iff_exists.mp (htidy id' r' hid hr')
    obtain ⟨r'', hr'', hguest'⟩ := hleased.record id' g hg
    rw [hr'] at hr''
    rw [← Option.some.inj hr'', hguest] at hguest'
    exact hunfiltered (hguest' ▸ Net.mem_filtered hg)
  intro id₁ id₂ r₁ r₂ h₁ h₂ hguest
  dsimp only at h₁ h₂
  rw [Table.find?_put] at h₁ h₂
  split_ifs at h₁ h₂ with hid₁ hid₂ hid₂
  · rw [hid₁, hid₂]
  · rw [← Option.some.inj h₁] at hguest
    exact absurd hguest.symm (hother id₂ r₂ hid₂ h₂)
  · rw [← Option.some.inj h₂] at hguest
    exact absurd hguest (hother id₁ r₁ hid₁ h₁)
  · exact h id₁ id₂ r₁ r₂ h₁ h₂ hguest

theorem Move.spread (hhoused : Housed host w) (h : Spread w.net)
    (htidy : ∀ id, scope .setup id → Tidy host id w.net) (hm : Move host May scope w w') :
    Spread w'.net := by
  cases hm.netStep with
  | same net => rw [net]; exact h
  | beside beside => exact h.shrink fun id r hr => beside.records ▸ hr
  | move inScope move =>
    cases move with
    | record owned free unfiltered =>
      exact h.putRecord hhoused.leased (htidy _ inScope) unfiltered
    | table owner => exact h
    | command c owner fenced =>
      exact h.shrink fun id r hr => (c.configured _ _).records ▸ hr
    | dropRecord => exact h.shrink fun id r hr => Table.find?_of_find?_erase hr
    | dropLink | dropFlows | dropTable | resolver | dropNamespace | dropResolver => exact h

/-- The moves of one sandbox leave the others tidy. -/
theorem Move.tidy (hname : Function.Injective host.networkName) (h : Tidy host id w.net)
    (hscope : ∀ kind id', scope kind id' → id' = id) (hm : Move host May scope w w') :
    Tidy host id w'.net := by
  cases hm.netStep with
  | same net => rw [net]; exact h
  | beside beside =>
    intro id' r hid hr
    rw [beside.records] at hr
    rw [beside.tables]
    exact h id' r hid hr
  | move inScope move =>
    obtain rfl := hscope _ _ inScope
    cases move with
    | record owned free =>
      intro id' r' hid hr'
      exact h id' r' hid ((Table.find?_put_of_ne _ hid _).symm.trans hr')
    | table owner =>
      intro id' r' hid hr'
      exact Table.isSome_find?_put _ _ _ (h id' r' hid hr')
    | @command r c owner fenced =>
      intro id' r' hid hr'
      have hconf := c.configured r w.net
      rw [World.withNet, hconf.records] at hr'
      rw [World.withNet, hconf.tables]
      exact h id' r' hid hr'
    | @dropTable r owner name =>
      intro id' r' hid hr'
      have hne : host.networkName id' ≠ r.name := fun heq => hid (hname (heq.trans name))
      rw [World.withNet, Table.find?_erase_of_ne _ hne]
      exact h id' r' hid hr'
    | dropRecord =>
      intro id' r' hid hr'
      exact h id' r' hid (Table.find?_of_find?_erase hr')
    | dropLink | dropFlows | resolver | dropNamespace | dropResolver => exact h

end Moves

/-! ### Runs -/

/-- A sandbox is started only where all other records have their tables. -/
def Setting.TidyOk (S : Setting) (w : World) (a : Act) : Prop :=
  S.Ok w a ∧ ∀ id fates, a = .request (.start id) fates → Tidy S.host id w.net

/-- Only a start sets up a network, and only that of its sandbox. -/
theorem Act.setup_scope {a : Act} (h : a.scope .setup id) :
    ∃ fates, a = .request (.start id) fates := by
  cases a with
  | boot polls fates =>
    rcases h with h | h
    · cases h
    · cases Scope.wanes_sweep _ _ h
  | crash | back b => exact h.elim
  | request r fates =>
    cases r with
    | start id' =>
      obtain rfl : id = id' := h.2
      exact ⟨fates, rfl⟩
    | create | stop | delete | startProcess | exec =>
      have hmem := h.1
      simp at hmem
    | inspect | processes | process | processLogs | killProcess => exact h.elim
    | reconcile => cases Scope.wanes_sweep .setup id h

/-- In a run whose starts are tidy, no two records name the same address. -/
theorem spread_of_tidy {S : Setting} (hname : Function.Injective S.host.networkName)
    (h : Transition.Reach (next S.host) S.TidyOk Init w) : Spread w.net := by
  suffices hboth : Reachable S w ∧ Spread w.net from hboth.2
  refine Transition.Reach.invariant (I := fun w => Reachable S w ∧ Spread w.net)
    (fun w hw => ⟨.init hw, ?_⟩) (fun w a hw ha => ?_) h
  · obtain ⟨foreign, hnet⟩ := hw.net
    intro id id' r r' hr
    rw [hnet] at hr
    cases hr
  · obtain ⟨hreach, hspread⟩ := hw
    refine ⟨hreach.step ha.1, ?_⟩
    obtain ⟨w', hsteps, hnext⟩ := ha.1.chain hreach.standing
    -- Along the step the other records keep their tables.
    have hkept : Spread w'.net ∧ Housed S.host w' ∧ ∀ id, a.scope .setup id → Tidy S.host id w'.net := by
      clear hnext
      induction hsteps with
      | refl =>
        refine ⟨hspread, hreach.housed hname, fun id hid => ?_⟩
        obtain ⟨fates, hact⟩ := Act.setup_scope hid
        exact ha.2 id fates hact
      | tail _ hm ih =>
        obtain ⟨hspread', hhoused, htidy⟩ := ih
        refine ⟨hm.spread hhoused hspread' htidy, hm.housed hname hhoused, fun id hid => ?_⟩
        obtain ⟨fates, rfl⟩ := Act.setup_scope hid
        exact hm.tidy hname (htidy id hid) fun _ _ hscope => hscope.2
    rcases hnext with hnext | ⟨hnext, -⟩ <;> rw [hnext] <;> exact hkept.1

/-! ### The result -/

/-- The objects of a sandbox's network are the same. -/
structure SameNetwork (host : Host) (id : String) (w w' : World) : Prop where
  link : w'.net.links.find? (host.networkName id) = w.net.links.find? (host.networkName id)
  netns : host.networkName id ∈ w'.net.namespaces ↔ host.networkName id ∈ w.net.namespaces
  table : w'.net.tables.find? (host.networkName id) = w.net.tables.find? (host.networkName id)
  record : w'.net.records.find? id = w.net.records.find? id

/-- The start of a sandbox fails when its firewall is to be installed; then another one is started
and talks. -/
def leftoverActs : List Act :=
  [.boot 1 [], .request (.create (sampleSpec "sbx_a") 1) [],
    .request (.create (sampleSpec "sbx_b") 1) [],
    .request (.start "sbx_a")
      (List.replicate 15 (.go default) ++ [.go ⟨[], some ⟨false, "nft"⟩, 0⟩]),
    .request (.start "sbx_b") [], .back (.traffic "sbx_b" false)]

end Sandcube.Adapter
