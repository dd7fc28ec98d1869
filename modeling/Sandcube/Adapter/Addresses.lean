import Sandcube.Adapter.NetworkSafety

/-!
# Guest addresses

An address is free for a new network when no route and no firewall table names it.  A table comes
before the first object that uses its address and goes after the last connection, so tables alone
keep the addresses apart (`Leased`): two tables never name the same one, and whoever talks under an
address has its table.
-/

open Relation

namespace Sandcube.Adapter

variable {host : Host} {id : String} {w w' : World}
variable {n : Net} {g : Address} {May : Back → Prop} {scope : Scope}

/-- Who uses an address. -/
structure Leased (host : Host) (n : Net) : Prop where
  /-- The table and the record of a sandbox name the same address. -/
  record : ∀ id g, n.tables.find? (host.networkName id) = some g →
    ∃ r, n.records.find? id = some r ∧ r.guest = g
  exclusive : ∀ name name' g, n.tables.find? name = some g → n.tables.find? name' = some g →
    name = name'
  link : ∀ id l g, n.links.find? (host.networkName id) = some l → l.guest = some g →
    n.tables.find? (host.networkName id) = some g
  flow : ∀ f ∈ n.conntrack, n.tables.find? (host.networkName f.sandbox) = some f.guest

theorem Init.leased (h : Init w) : Leased host w.net := by
  obtain ⟨foreign, hnet⟩ := h.net
  rw [hnet]
  constructor
  · intro id g ht; cases ht
  · intro name name' g ht; cases ht
  · intro id l g hl; cases hl
  · intro f hf; cases hf

theorem Net.mem_filtered {name : String} (h : n.tables.find? name = some g) : g ∈ n.filtered :=
  List.mem_map.mpr ⟨(name, g), (Table.find?_eq_some_iff_mem _ _ _).mp h, rfl⟩

/-! ### Moves -/

/-- Objects other than tables and records go. -/
theorem Leased.reduce {n' : Net} (h : Leased host n) (hrecords : n'.records = n.records)
    (htables : n'.tables = n.tables)
    (hlinks : ∀ name l, n'.links.find? name = some l → n.links.find? name = some l)
    (hconntrack : ∀ f ∈ n'.conntrack, f ∈ n.conntrack) : Leased host n' := by
  constructor
  · rw [hrecords, htables]; exact h.record
  · rw [htables]; exact h.exclusive
  · intro id l g hl hg; rw [htables]; exact h.link id l g (hlinks _ l hl) hg
  · intro f hf; rw [htables]; exact h.flow f (hconntrack f hf)

section NetMoves

variable {r : NetworkRecord} (h : Leased host w.net)

include h

theorem Leased.putRecord (hfree : w.net.records.find? id = none) :
    Leased host { w.net with records := w.net.records.put id r } := by
  refine { h with record := fun id' g ht => ?_ }
  obtain ⟨r', hr', hguest⟩ := h.record id' g ht
  refine ⟨r', ?_, hguest⟩
  rw [Table.find?_put_of_ne]
  · exact hr'
  · rintro rfl
    rw [hfree] at hr'
    cases hr'

/-- A new table names an address that no other one names. -/
theorem Leased.putTable (hfence : Fencing host w) (hname : Function.Injective host.networkName)
    (howner : w.net.records.find? id = some r) (hunfiltered : r.guest ∉ w.net.filtered) :
    Leased host { w.net with tables := w.net.tables.put r.name r.guest } := by
  have hown := (hfence.owned id r howner).name
  have hmine : ∀ id', host.networkName id' = r.name → id' = id := by
    intro id' hid'
    exact hname (hid'.trans hown)
  constructor
  · intro id' g ht
    dsimp only at ht
    rw [Table.find?_put] at ht
    split_ifs at ht with hid'
    · obtain rfl := hmine id' hid'
      exact ⟨r, howner, Option.some.inj ht⟩
    · exact h.record id' g ht
  · intro name name' g ht ht'
    dsimp only at ht ht'
    rw [Table.find?_put] at ht ht'
    split_ifs at ht ht' with hn hn' hn'
    · rw [hn, hn']
    · rw [← Option.some.inj ht] at ht'
      exact absurd (Net.mem_filtered ht') hunfiltered
    · rw [← Option.some.inj ht'] at ht
      exact absurd (Net.mem_filtered ht) hunfiltered
    · exact h.exclusive name name' g ht ht'
  · intro id' l g hl hg
    dsimp only
    rw [Table.find?_put]
    split_ifs with hid'
    · obtain rfl := hmine id' hid'
      obtain ⟨r', hr', hguest⟩ := hfence.guest id' l g hl hg
      rw [howner] at hr'
      rw [Option.some.inj hr', hguest]
    · exact h.link id' l g hl hg
  · intro f hf
    dsimp only
    rw [Table.find?_put]
    split_ifs with hid'
    · obtain ⟨r', hr', hguest⟩ := hfence.flow f hf
      rw [hmine f.sandbox hid', howner] at hr'
      rw [Option.some.inj hr', hguest]
    · exact h.flow f hf

/-- A command of the setup gives the link the address of the table. -/
theorem Leased.configure (hfence : Fencing host w) (howner : w.net.records.find? id = some r)
    (hfenced : (w.net.tables.find? r.name).isSome) (hn : Configured r w.net n) : Leased host n := by
  have hown := (hfence.owned id r howner).name
  have htable : w.net.tables.find? r.name = some r.guest := by
    obtain ⟨g, hg⟩ := Option.isSome_iff_exists.mp hfenced
    obtain ⟨r', hr', hguest⟩ := h.record id g (hown ▸ hg)
    rw [howner] at hr'
    rw [hg, Option.some.inj hr', hguest]
  constructor
  · rw [hn.records, hn.tables]; exact h.record
  · rw [hn.tables]; exact h.exclusive
  · intro id' l g hl hg
    rw [hn.tables]
    by_cases hid' : host.networkName id' = r.name
    · rw [hid'] at hl ⊢
      rcases hn.guest l g hl hg with hguest | ⟨l₀, hl₀, hg₀⟩
      · rw [hguest]; exact htable
      · rw [← hid'] at hl₀ ⊢
        exact h.link id' l₀ g hl₀ hg₀
    · rw [hn.others _ hid'] at hl
      exact h.link id' l g hl hg
  · rw [hn.conntrack, hn.tables]; exact h.flow

/-- A table goes when its address is not used any more. -/
theorem Leased.eraseTable (hfence : Fencing host w) (hname : Function.Injective host.networkName)
    (howner : w.net.records.find? id = some r) (hunlinked : w.net.links.find? r.name = none)
    (hquiet : ∀ f ∈ w.net.conntrack, f.guest = r.guest → f.sandbox ≠ id) :
    Leased host { w.net with tables := w.net.tables.erase r.name } := by
  have hown := (hfence.owned id r howner).name
  have herase : ∀ name g, (w.net.tables.erase r.name).find? name = some g →
      w.net.tables.find? name = some g := fun _ _ ht => Table.find?_of_find?_erase ht
  constructor
  · exact fun id' g ht => h.record id' g (herase _ g ht)
  · exact fun name name' g ht ht' => h.exclusive name name' g (herase _ g ht) (herase _ g ht')
  · intro id' l g hl hg
    dsimp only at hl ⊢
    rw [Table.find?_erase_of_ne]
    · exact h.link id' l g hl hg
    · intro hid'
      rw [hid', hunlinked] at hl
      cases hl
  · intro f hf
    dsimp only
    rw [Table.find?_erase_of_ne]
    · exact h.flow f hf
    · intro hid'
      have hmine : f.sandbox = id := hname (hid'.trans hown)
      obtain ⟨r', hr', hguest⟩ := hfence.flow f hf
      rw [hmine, howner] at hr'
      rw [← Option.some.inj hr'] at hguest
      exact hquiet f hf hguest.symm hmine

theorem Leased.eraseRecord (hopen : w.net.tables.find? (host.networkName id) = none) :
    Leased host { w.net with records := w.net.records.erase id } := by
  refine { h with record := fun id' g ht => ?_ }
  obtain ⟨r, hr, hguest⟩ := h.record id' g ht
  refine ⟨r, ?_, hguest⟩
  rw [Table.find?_erase_of_ne]
  · exact hr
  · rintro rfl
    rw [hopen] at ht
    cases ht

end NetMoves

theorem NetMove.leased (hname : Function.Injective host.networkName) (hfence : Fencing host w)
    (h : Leased host w.net) {kind : Kind} (move : NetMove host w id kind n) : Leased host n := by
  cases move with
  | record owned free => exact h.putRecord free
  | table owner unfiltered => exact h.putTable hfence hname owner unfiltered
  | command c owner fenced => exact h.configure hfence owner fenced (c.configured _ _)
  | dropLink owner =>
    exact h.reduce rfl rfl (fun _ _ hl => Table.find?_of_find?_erase hl) fun _ hf => hf
  | dropFlows inbound owner =>
    exact h.reduce rfl rfl (fun _ _ hl => hl) fun _ hf => List.mem_of_mem_filter hf
  | dropTable owner name unlinked left idle quiet =>
    exact h.eraseTable hfence hname owner unlinked quiet
  | dropRecord owner name unlinked left open' => exact h.eraseRecord (name ▸ open')
  | resolver | dropNamespace | dropResolver =>
    exact h.reduce rfl rfl (fun _ _ hl => hl) fun _ hf => hf

/-- What a step does to the network: nothing, a packet, or a move of the network. -/
inductive NetStep (host : Host) (scope : Scope) (w : World) : World → Prop
  | same {w' : World} (net : w'.net = w.net) : NetStep host scope w w'
  | beside {w' : World} (beside : Beside host w w') : NetStep host scope w w'
  | move {kind : Kind} {id : String} {n : Net} (inScope : scope kind id)
      (move : NetMove host w id kind n) :
      NetStep host scope w (w.withNet fun _ => n)

theorem Move.netStep (hm : Move host May scope w w') : NetStep host scope w w' := by
  cases hm with
  | back may => exact .beside (.back _)
  | net inScope move => exact .move inScope move
  | quota inScope move => obtain ⟨_, _, _, _, rfl⟩ := move.frame; exact .same rfl
  | erase inScope move => obtain ⟨-, -, -, rfl⟩ := move.inv; exact .same rfl
  | task inScope move => obtain ⟨_, _, _, -, rfl⟩ := move.frame; exact .same rfl
  | register inScope move | start inScope move | forget inScope move | boot inScope move =>
    exact .same move.aside.net

theorem Beside.leased (hb : Beside host w w') (h : Leased host w.net) : Leased host w'.net := by
  constructor
  · rw [hb.records, hb.tables]; exact h.record
  · rw [hb.tables]; exact h.exclusive
  · rw [hb.links, hb.tables]; exact h.link
  · intro f hf
    rw [hb.tables]
    rcases hb.flow f hf with hold | ⟨l, hl, hg⟩
    · exact h.flow f hold
    · exact h.link f.sandbox l f.guest hl hg

theorem NetStep.leased (hname : Function.Injective host.networkName) (hfence : Fencing host w)
    (h : Leased host w.net) (hstep : NetStep host scope w w') : Leased host w'.net := by
  cases hstep with
  | same net => rw [net]; exact h
  | beside beside => exact beside.leased h
  | move inScope move => exact move.leased hname hfence h

/-- The network in a state that an operation passes through. -/
structure Housed (host : Host) (w : World) : Prop where
  fencing : Fencing host w
  leased : Leased host w.net

theorem Move.housed (hname : Function.Injective host.networkName) (h : Housed host w)
    (hm : Move host May scope w w') : Housed host w' :=
  ⟨hm.fencing hname h.fencing, hm.netStep.leased hname h.fencing h.leased⟩

theorem Reachable.housed {S : Setting} (hname : Function.Injective S.host.networkName)
    (h : Reachable S w) : Housed S.host w :=
  h.induct (fun _ hw => ⟨hw.fencing, hw.leased⟩)
    (fun _ hw => ⟨hw.fencing.congr rfl hw.fencing.container hw.fencing.running, hw.leased⟩)
    fun _ _ hw hm => hm.housed hname hw

/-! ### Addresses are exclusive -/

/-- The step installs the table of a sandbox, for an address. -/
def Installs (host : Host) (id : String) (g : Address) (w w' : World) : Prop :=
  w.net.tables.find? (host.networkName id) ≠ some g ∧
    w'.net.tables.find? (host.networkName id) = some g

/-- When a table is installed, nobody has a connection under its address. -/
theorem Housed.installs (h : Housed host w) (hm : Move host May scope w w')
    (hinstalls : Installs host id g w w') : ∀ f ∈ w'.net.conntrack, f.guest ≠ g := by
  obtain ⟨hbefore, hafter⟩ := hinstalls
  -- Only one kind of step adds a table.
  have hkept : (∀ name, w'.net.tables.find? name = some g → w.net.tables.find? name = some g) →
      ∀ f ∈ w'.net.conntrack, f.guest ≠ g :=
    fun hkept => absurd (hkept _ hafter) hbefore
  cases hm.netStep with
  | same net => rw [net] at hafter; exact absurd hafter hbefore
  | beside beside => rw [beside.tables] at hafter; exact absurd hafter hbefore
  | move inScope move =>
    cases move with
    | record owned free => exact hkept fun _ ht => ht
    | @table r owner unfiltered =>
      have hg : r.guest = g := by
        unfold World.withNet at hafter
        dsimp only at hafter
        rw [Table.find?_put] at hafter
        split_ifs at hafter
        · exact Option.some.inj hafter
        · exact absurd hafter hbefore
      intro f hf hfg
      have htable := h.leased.flow f hf
      rw [hfg, ← hg] at htable
      exact unfiltered (Net.mem_filtered htable)
    | command c owner fenced =>
      refine hkept fun name ht => ?_
      rw [World.withNet, (c.configured _ _).tables] at ht
      exact ht
    | dropTable => exact hkept fun _ ht => Table.find?_of_find?_erase ht
    | dropLink | dropFlows | dropRecord | resolver | dropNamespace | dropResolver =>
      exact hkept fun _ ht => ht

/-- **Guest addresses are exclusive.**  In every reachable state two tables name two addresses, and
the connections under the address of a table are those of its sandbox.  Every step of the system is
a chain of smaller ones, perhaps cut off by a crash, and none of those installs a table while there
is a connection under its address. -/
theorem guest_addresses_exclusive {S : Setting} (hname : Function.Injective S.host.networkName)
    (hw : Reachable S w) :
    (∀ id id' g, w.net.tables.find? (S.host.networkName id) = some g →
      w.net.tables.find? (S.host.networkName id') = some g → id = id') ∧
    (∀ id g, w.net.tables.find? (S.host.networkName id) = some g →
      ∀ f ∈ w.net.conntrack, f.guest = g → f.sandbox = id) ∧
    ∀ a, S.Ok w a → ∃ w',
      ReflTransGen (fun w₁ w₂ => Move S.host S.May S.scope w₁ w₂ ∧
        ∀ id g, Installs S.host id g w₁ w₂ → ∀ f ∈ w₂.net.conntrack, f.guest ≠ g) w w' ∧
      (next S.host w a = w'.die ∨ next S.host w a = w') := by
  have h := hw.housed hname
  refine ⟨?_, ?_, fun a ha => ?_⟩
  · exact fun id id' g ht ht' => hname (h.leased.exclusive _ _ g ht ht')
  · rintro id g ht f hf rfl
    exact hname (h.leased.exclusive _ _ _ (h.leased.flow f hf) ht)
  · obtain ⟨w', hsteps, hnext⟩ := ha.moves hw.standing
    refine ⟨w', ?_, hnext.imp_right And.left⟩
    clear hnext
    suffices hboth : ReflTransGen _ w w' ∧ Housed S.host w' from hboth.1
    induction hsteps with
    | refl => exact ⟨.refl, h⟩
    | tail _ hm ih =>
      obtain ⟨hchain, hhoused⟩ := ih
      exact ⟨hchain.tail ⟨hm, fun id g hi => hhoused.installs hm hi⟩, hm.housed hname hhoused⟩

/-- Two sandboxes, started one after the other, and a packet from the first. -/
def neighbourActs : List Act :=
  startedActs ++ [.back (.traffic "sbx_a" false), .request (.create (sampleSpec "sbx_b") 1) [],
    .request (.start "sbx_b") []]

/-- Both have a table, for two addresses, and the connection is the first one's. -/
theorem guest_addresses_exclusive_two :
    ∃ g g', (runFrom .plain neighbourActs).net.tables.find? "sbx_a" = some g ∧
      (runFrom .plain neighbourActs).net.tables.find? "sbx_b" = some g' ∧ g ≠ g' ∧
      (runFrom .plain neighbourActs).net.conntrack ≠ [] ∧
      ∀ f ∈ (runFrom .plain neighbourActs).net.conntrack, f.guest = g → f.sandbox = "sbx_a" := by
  have hreach : Reachable (.of .plain (fun _ => true) fun _ => true)
      (runFrom .plain neighbourActs) := reachable_run (by decide +kernel)
  obtain ⟨hexclusive, hflow, -⟩ := guest_addresses_exclusive
    (S := .of .plain (fun _ => true) fun _ => true) (fun _ _ h => h) hreach
  have ha : (runFrom .plain neighbourActs).net.tables.find? "sbx_a" = some ⟨198, 18, 0, 2⟩ := by
    decide +kernel
  have hb : (runFrom .plain neighbourActs).net.tables.find? "sbx_b" = some ⟨198, 18, 0, 6⟩ := by
    decide +kernel
  refine ⟨_, _, ha, hb, fun heq => ?_, by decide +kernel, hflow "sbx_a" _ ha⟩
  have hsame : "sbx_a" = "sbx_b" := hexclusive "sbx_a" "sbx_b" _ ha (heq ▸ hb)
  exact absurd hsame (by decide)

end Sandcube.Adapter
