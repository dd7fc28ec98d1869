import Sandcube.Adapter.Moves

/-!
# The steps of the network programs

`removeNetworkLocked` takes the objects of a sandbox apart in an order in which each step leaves
behind what the next one needs to know, and `setupNetwork` puts them together the other way
round.
-/

open Relation

namespace Sandcube.Adapter

variable {host : Host} {May : Back → Prop} {scope : Scope} {id : String} {r : NetworkRecord}
variable {f : Net → Net} {P : World → Prop} {Q : Unit → World → Prop}

/-! ### Rules -/

theorem runs_netEffect {kind : Kind} (hscope : scope kind id) (hP : Steady host May P)
    (hmove : ∀ w, P w → NetMove host w id kind (f w.net)) (hok : ∀ w, P w → Q () (w.withNet f)) :
    Runs host May scope P (netEffect host f) Q unknown :=
  does_effect (Move.isOpen scope) hP (fun w hw => .single (.net hscope (hmove w hw))) hok
    (fun _ _ _ => trivial) (fun _ _ _ => trivial)

theorem runs_command {f : Net → Except Err Unit × Net} (hscope : scope .net id)
    (hP : Steady host May P) (hmove : ∀ w, P w → NetMove host w id .net (f w.net).2)
    (hok : ∀ w, P w → Q () (w.withNet fun _ => (f w.net).2)) :
    Runs host May scope P (command host f) Q unknown :=
  does_call (Move.isOpen scope) hP (fun _ w hw => .single (.net hscope (hmove w hw)))
    (fun _ w _ hw _ => hok w hw) (fun _ _ _ _ _ => trivial) (fun _ _ _ => trivial)
    (fun _ _ _ _ => trivial)

theorem steady_idle : Steady host May (World.Idle · id) := by
  refine .of_beside fun w w' h hw => ?_
  rcases hw with hw | hw
  · rcases h.tasks id with ht | ⟨ht, -⟩
    · exact .inl (ht ▸ hw)
    · exact absurd ht hw
  · refine .inr ?_
    rwa [World.managed?_congr h.containers]

/-- An assertion about the network objects other than connections. -/
theorem steady_net
    (F : Table String NetworkRecord → Table String Address → Table String Link → List String →
      List String → Prop) :
    Steady host May fun w =>
      F w.net.records w.net.tables w.net.links w.net.namespaces w.net.resolvers := by
  refine .of_beside fun w w' h hw => ?_
  rw [h.records, h.tables, h.links, h.namespaces, h.resolvers]
  exact hw

/-- Entries for the address of a sandbox that are not its own. -/
def World.Quiet (w : World) (id : String) (guest : Address) : Prop :=
  ∀ f ∈ w.net.conntrack, f.guest = guest → f.sandbox ≠ id

/-- Without a link a sandbox makes no new connections. -/
theorem steady_quiet (id : String) (p : Flow → Prop) (guest : Address) :
    Steady host May fun w =>
      w.net.links.find? (host.networkName id) = none ∧
        ∀ f ∈ w.net.conntrack, p f → f.guest = guest → f.sandbox ≠ id := by
  refine .of_beside fun w w' h ⟨hlink, hquiet⟩ => ⟨by rw [h.links]; exact hlink, ?_⟩
  intro f hf hpf hguest hid
  rcases h.flow f hf with hf | ⟨link, hlink', -⟩
  · exact hquiet f hf hpf hguest hid
  · rw [hid, hlink] at hlink'
    cases hlink'

/-! ### Removal -/

/-- A teardown that got as far as the link. -/
structure Unlinked (id : String) (r : NetworkRecord) (w : World) : Prop where
  idle : w.Idle id
  owner : w.net.records.find? id = some r
  link : w.net.links.find? r.name = none

/-- A teardown that got as far as the namespace. -/
structure Detached (id : String) (r : NetworkRecord) (w : World) : Prop
    extends Unlinked id r w where
  left : r.name ∉ w.net.namespaces

/-- A teardown that got as far as the connections. -/
structure Silenced (id : String) (r : NetworkRecord) (w : World) : Prop
    extends Detached id r w where
  quiet : w.Quiet id r.guest

theorem steady_unlinked : Steady host May (Unlinked id r) := by
  have hnet : Steady host May fun w : World =>
      w.net.records.find? id = some r ∧ w.net.links.find? r.name = none :=
    steady_net fun records _ links _ _ => records.find? id = some r ∧ links.find? r.name = none
  intro w b hb hw
  obtain ⟨howner, hlink⟩ := hnet w b hb ⟨hw.owner, hw.link⟩
  exact ⟨steady_idle w b hb hw.idle, howner, hlink⟩

theorem steady_detached : Steady host May (Detached id r) := by
  have hnet : Steady host May fun w : World => r.name ∉ w.net.namespaces :=
    steady_net fun _ _ _ namespaces _ => r.name ∉ namespaces
  exact fun w b hb hw => ⟨steady_unlinked w b hb hw.toUnlinked, hnet w b hb hw.left⟩

theorem steady_silenced (hname : r.name = host.networkName id) :
    Steady host May (Silenced id r) := by
  intro w b hb hw
  have hquiet := steady_quiet id (fun _ => True) r.guest w b hb
    ⟨hname ▸ hw.link, fun f hf _ hguest => hw.quiet f hf hguest⟩
  exact ⟨steady_detached w b hb hw.toDetached, fun f hf hguest => hquiet.2 f hf trivial hguest⟩

section

variable (hscope : scope .net id)
include hscope

/-- The entries of both directions are deleted, one after the other. -/
theorem runs_clearConntrack (hname : r.name = host.networkName id) :
    Runs host May scope (Detached id r) (clearConntrack host r.guest)
      (fun _ => Silenced id r) unknown := by
  unfold clearConntrack
  split_ifs
  · -- After the first round no entry of the sandbox that goes out is left.
    let Half (w : World) : Prop := Detached id r w ∧
      ∀ f ∈ w.net.conntrack, f.inbound = false → f.guest = r.guest → f.sandbox ≠ id
    have hhalf : Steady host May Half := by
      intro w b hb hw
      have hout := steady_quiet id (fun f => f.inbound = false) r.guest w b hb
        ⟨hname ▸ hw.1.link, hw.2⟩
      exact ⟨steady_detached w b hb hw.1, hout.2⟩
    refine .bind (K := fun _ => Half) (runs_netEffect hscope steady_detached ?_ ?_) fun _ => ?_
    · exact fun w hw => .dropFlows false hw.owner
    · intro w hw
      refine ⟨⟨⟨hw.idle, hw.owner, hw.link⟩, hw.left⟩, fun f hf hout hguest => ?_⟩
      have hkept := (List.mem_filter.mp hf).2
      exact absurd ⟨hguest, hout⟩ (of_decide_eq_true hkept)
    refine .bind (K := fun _ => Silenced id r) (runs_netEffect hscope hhalf ?_ ?_)
      fun _ => .pure fun w hw => hw
    · exact fun w hw => .dropFlows true hw.1.owner
    · intro w hw
      refine ⟨⟨⟨hw.1.idle, hw.1.owner, hw.1.link⟩, hw.1.left⟩, fun f hf hguest => ?_⟩
      obtain ⟨hf, hkept⟩ := List.mem_filter.mp hf
      have hout : f.inbound = false := by
        rw [← Bool.not_eq_true]
        exact fun hin => of_decide_eq_true hkept ⟨hguest, hin⟩
      exact hw.2 f hf hout hguest
  · exact .raise fun _ _ => trivial

theorem runs_deleteListed {listed : Net → Bool} {P' : World → Prop}
    (hP : Steady host May P) (hmove : ∀ w, P w → NetMove host w id .net (f w.net))
    (hok : ∀ w, P w → P' (w.withNet f)) (hskip : ∀ w, P w → listed w.net = false → P' w) :
    Runs host May scope P (deleteListed host listed f) (fun _ => P') unknown := by
  refine .bind (K := fun there w => P w ∧ (there = false → P' w)) (runs_ask hP ?_) fun there => ?_
  · intro w there hw hthere
    obtain rfl := Except.ok.inj hthere
    exact ⟨hw, hskip w hw⟩
  refine .when (fun hthere => ?_) (fun hthere w hw => hw.2 (Bool.eq_false_iff.mpr hthere))
  exact (runs_netEffect hscope hP hmove hok).pre (fun _ hw => hw.1)

theorem runs_teardown (hname : r.name = host.networkName id) :
    Runs host May scope (fun w => w.Idle id ∧ w.net.records.find? id = some r) (teardown host id r)
      (fun _ w => w.net.records.find? id = none) unknown := by
  have hstart : Steady host May fun w => w.Idle id ∧ w.net.records.find? id = some r :=
    steady_idle.and (steady_net fun records _ _ _ _ => records.find? id = some r)
  have hopen : Steady host May fun w => Silenced id r w ∧ w.net.tables.find? r.name = none :=
    (steady_silenced hname).and (steady_net fun _ tables _ _ _ => tables.find? r.name = none)
  have hbare : Steady host May fun w =>
      (Silenced id r w ∧ w.net.tables.find? r.name = none) ∧ id ∉ w.net.resolvers :=
    hopen.and (steady_net fun _ _ _ _ resolvers => id ∉ resolvers)
  unfold teardown
  refine .bind (K := fun _ => Unlinked id r)
    (runs_deleteListed hscope hstart ?_ ?_ ?_) fun _ => ?_
  · exact fun w hw => .dropLink hw.2
  · exact fun w hw => ⟨hw.1, hw.2, Table.find?_erase_self _ _⟩
  · exact fun w hw hno => ⟨hw.1, hw.2, Option.isNone_iff_eq_none.mp (by simpa using hno)⟩
  refine .bind (K := fun _ => Detached id r)
    (runs_deleteListed hscope steady_unlinked ?_ ?_ ?_) fun _ => ?_
  · exact fun w hw => .dropNamespace hw.owner
  · exact fun w hw => ⟨⟨hw.idle, hw.owner, hw.link⟩, by simp [World.withNet]⟩
  · exact fun w hw hno => ⟨hw, hname ▸ of_decide_eq_false hno⟩
  refine .bind (runs_clearConntrack hscope hname) fun _ => ?_
  refine .bind (K := fun _ w => Silenced id r w ∧ w.net.tables.find? r.name = none)
    (runs_deleteListed hscope (steady_silenced hname) ?_ ?_ ?_) fun _ => ?_
  · exact fun w hw => .dropTable hw.owner hname hw.link hw.left hw.idle hw.quiet
  · exact fun w hw =>
      ⟨⟨⟨⟨hw.idle, hw.owner, hw.link⟩, hw.left⟩, hw.quiet⟩, Table.find?_erase_self _ _⟩
  · exact fun w hw hno => ⟨hw, Option.isNone_iff_eq_none.mp (by simpa using hno)⟩
  refine .bind (runs_netEffect hscope hopen ?_ ?_) fun _ => runs_netEffect hscope hbare ?_ ?_
  · exact fun w hw => .dropResolver
  · exact fun w hw => ⟨⟨⟨⟨⟨hw.1.idle, hw.1.owner, hw.1.link⟩, hw.1.left⟩, hw.1.quiet⟩, hw.2⟩,
      by simp [World.withNet]⟩
  · exact fun w hw =>
      .dropRecord hw.1.1.owner hname hw.1.1.link hw.1.1.left hw.1.2 hw.1.1.quiet hw.2
  · exact fun w hw => Table.find?_erase_self _ _

theorem runs_removeNetworkLocked :
    Runs host May scope (World.Idle · id) (removeNetworkLocked host id)
      (fun _ w => w.net.records.find? id = none) unknown := by
  unfold removeNetworkLocked
  refine .bind (K := fun found w => w.Idle id ∧ w.net.records.find? id = found)
    (runs_ask steady_idle ?_) fun found => ?_
  · exact fun w found hw hfound => ⟨hw, Except.ok.inj hfound⟩
  cases found with
  | none => exact .pure fun w hw => hw.2
  | some r =>
    dsimp only
    split_ifs with howned
    · exact runs_teardown hscope howned.2
    · exact .raise fun _ _ => trivial

theorem runs_removeNetwork : Runs host May scope (World.Idle · id) (removeNetwork host id)
      (fun _ w => w.net.records.find? id = none) unknown :=
  .bind (runs_ask steady_idle fun _ _ hw _ => hw) fun _ => runs_removeNetworkLocked hscope

end

/-! ### Setup -/

/-- The addresses of sandboxes are in the pool. -/
theorem inPool_guestOf_subnetAt (place : ℕ) : inPool (guestOf (subnetAt place)) = true := by
  have hv : place % 32768 * 4 / 65536 = 0 ∨ place % 32768 * 4 / 65536 = 1 := by omega
  rcases hv with hv | hv <;> simp [inPool, guestOf, subnetAt, hv]

/-- The search changes nothing and finds an address of the pool that no firewall names. -/
theorem runs_findSubnet (hP : Steady host May P) (filtered : List Address) (start left : ℕ) :
    Runs host May scope P (findSubnet host id filtered start left)
      (fun r w => P w ∧ r.Owned host id ∧ r.guest ∉ filtered) unknown := by
  induction left with
  | zero => exact .raise fun _ _ => trivial
  | succ left ih =>
    unfold findSubnet
    refine .bind (K := fun _ => P) (runs_ask hP fun _ _ hw _ => hw) fun routed => ?_
    split_ifs with htaken
    · exact ih
    · exact .pure fun w hw =>
        ⟨hw, ⟨rfl, rfl, inPool_guestOf_subnetAt _⟩, fun hmem => htaken (.inr hmem)⟩

/-- The record and the table of a sandbox are there. -/
structure Fenced (id : String) (r : NetworkRecord) (w : World) : Prop where
  owner : w.net.records.find? id = some r
  table : (w.net.tables.find? r.name).isSome

theorem steady_fenced : Steady host May (Fenced id r) := by
  have hnet : Steady host May fun w : World =>
      w.net.records.find? id = some r ∧ (w.net.tables.find? r.name).isSome :=
    steady_net fun records tables _ _ _ =>
      records.find? id = some r ∧ (tables.find? r.name).isSome = true
  exact fun w b hb hw =>
    let ⟨howner, htable⟩ := hnet w b hb ⟨hw.owner, hw.table⟩
    ⟨howner, htable⟩

/-- The commands leave the journal and the firewall alone. -/
theorem NetCommand.run_frame (c : NetCommand) (r : NetworkRecord) (n : Net) :
    (c.run r n).2.records = n.records ∧ (c.run r n).2.tables = n.tables := by
  have honLink : ∀ f, (NetCommand.run.onLink r n f).2.records = n.records ∧
      (NetCommand.run.onLink r n f).2.tables = n.tables := by
    intro f
    unfold NetCommand.run.onLink
    split <;> exact ⟨rfl, rfl⟩
  cases c with
  | netnsAdd => simp only [run]; split_ifs <;> exact ⟨rfl, rfl⟩
  | linkAdd =>
    simp only [run]
    split
    · exact ⟨rfl, rfl⟩
    · split_ifs <;> exact ⟨rfl, rfl⟩
  | addrAdd | guestAddrAdd | linkUp => exact honLink _
  | sysctl | loUp | guestUp | guestRoute => simp only [run]; split_ifs <;> exact ⟨rfl, rfl⟩

theorem runs_setupNetwork (hscope : scope .net id) (hsetup : scope .setup id) :
    Runs host May scope (World.Idle · id) (setupNetwork host id)
      (fun _ w => (w.net.tables.find? (host.networkName id)).isSome) unknown := by
  have hfree : Steady host May fun w : World => w.net.records.find? id = none :=
    steady_net fun records _ _ _ _ => records.find? id = none
  unfold setupNetwork
  refine .bind (runs_ask steady_idle fun _ _ hw _ => hw) fun _ => ?_
  refine .bind (runs_removeNetworkLocked hscope) fun _ => ?_
  refine .bind (runs_ask hfree fun _ _ hw _ => hw) fun _ => ?_
  refine .bind (K := fun filtered w => w.net.records.find? id = none ∧ w.net.filtered = filtered)
    (runs_ask hfree fun _ _ hw hfiltered => ⟨hw, Except.ok.inj hfiltered⟩) fun filtered => ?_
  -- The firewall cannot change between the listing and the new table.
  have hlisted : Steady host May fun w : World =>
      w.net.records.find? id = none ∧ w.net.filtered = filtered :=
    hfree.and (steady_net fun _ tables _ _ _ => tables.rows.map Prod.snd = filtered)
  refine .bind (runs_findSubnet hlisted filtered _ _) fun r => ?_
  refine .assuming (fun _ hw => hw.2) fun ⟨howned, hunfiltered⟩ => ?_
  have howner : Steady host May fun w : World =>
      w.net.records.find? id = some r ∧ w.net.filtered = filtered :=
    steady_net fun records tables _ _ _ =>
      records.find? id = some r ∧ tables.rows.map Prod.snd = filtered
  refine .bind (K := fun _ w => w.net.records.find? id = some r ∧ w.net.filtered = filtered)
    (runs_netEffect hsetup (hlisted.and fun _ _ _ h => h) ?_ ?_) fun _ => ?_
  · exact fun w hw => .record howned hw.1.1 (hw.1.2 ▸ hunfiltered)
  · exact fun w hw => ⟨Table.find?_put_self _ _ _, hw.1.2⟩
  refine .bind (K := fun _ => Fenced id r) (runs_netEffect hsetup howner ?_ ?_) fun _ => ?_
  · exact fun w hw => .table hw.1 (hw.2 ▸ hunfiltered)
  · exact fun w hw => ⟨hw.1, by simp [World.withNet]⟩
  refine .bind (.forEach (I := fun _ => Fenced id r) fun c rest _ => ?_) fun _ => ?_
  · refine runs_command hscope steady_fenced ?_ ?_
    · exact fun w hw => .command c hw.owner hw.table
    · intro w hw
      obtain ⟨hrecords, htables⟩ := c.run_frame r w.net
      exact ⟨by rw [World.withNet, hrecords]; exact hw.owner,
        by rw [World.withNet, htables]; exact hw.table⟩
  refine .bind (K := fun _ => Fenced id r) (runs_netEffect hscope steady_fenced ?_ ?_) fun _ => ?_
  · exact fun w hw => .resolver (by rw [hw.owner]; rfl)
  · exact fun w hw => ⟨hw.owner, hw.table⟩
  exact runs_ask steady_fenced fun w _ hw _ => howned.name ▸ hw.table

/-! ### The sweep -/

/-- What `inspect` says about the task. -/
theorem runs_inspect (hP : Steady host May P) :
    Runs host May scope P (inspect host id)
      (fun running w => P w ∧ (running = false → w.Idle id))
      (fun e w => P w ∧ (e = .notFound → w.Idle id)) := by
  unfold inspect
  refine .bind (K := fun _ => P) (does_query (Move.isOpen scope) hP ?_ ?_ ?_) fun _ =>
    does_query (Move.isOpen scope) hP ?_ ?_ ?_
  · exact fun w _ hw _ => hw
  · intro w e hw he
    refine ⟨hw, fun _ => .inr ?_⟩
    cases hm : w.managed? id with
    | none => rfl
    | some c => rw [hm] at he; cases he
  · exact fun _ w hw => ⟨hw, nofun⟩
  · intro w running hw hrun
    refine ⟨hw, fun hfalse => .inl ?_⟩
    cases hc : w.containerd.containers.find? id with
    | none => rw [hc] at hrun; cases hrun
    | some c =>
      rw [hc] at hrun
      obtain rfl := Except.ok.inj hrun
      exact of_decide_eq_false hfalse
  · intro w e hw he
    refine ⟨hw, fun _ => .inr ?_⟩
    cases hc : w.containerd.containers.find? id with
    | none => rw [World.managed?, hc]; rfl
    | some c => rw [hc] at he; cases he
  · exact fun _ w hw => ⟨hw, nofun⟩

theorem runs_reconcileNetwork (hscope : scope .net id) :
    Runs host May scope (fun _ => True) (reconcileNetwork host id) (fun _ _ => True) unknown := by
  unfold reconcileNetwork
  split_ifs
  · refine .bind (K := fun running w => running = false → w.Idle id)
      (does_ifNotFound (runs_inspect .trivial |>.post
        (fun _ _ h => h.2)) (.pure fun w hw _ => hw.2 rfl) fun _ _ _ _ => trivial) fun running => ?_
    cases running with
    | true => exact .pure fun _ _ => trivial
    | false =>
      exact (runs_removeNetwork hscope).conseq (fun w hw => hw rfl) (fun _ _ _ => trivial)
        (fun _ _ _ => trivial)
  · exact .raise fun _ _ => trivial

theorem runs_reconcileNetworks (hscope : ∀ id, scope .net id) :
    Runs host May scope (fun _ => True) (reconcileNetworks host) (fun _ _ => True) unknown :=
  .bind (runs_ask .trivial fun _ _ _ _ => trivial) fun _ =>
    .forEach (I := fun _ _ => True) fun id _ _ => runs_reconcileNetwork (hscope id)

end Sandcube.Adapter
