import Sandcube.Adapter.Calm
import Sandcube.Adapter.System

/-!
# Networks fail closed

The objects of a sandbox's network come and go in an order that keeps the chain

    running task, link or namespace  ⟹  firewall table  ⟹  journal record

in every state, whatever command fails and wherever the adapter dies (`Fencing`).  A teardown that
is not disturbed then removes everything.
-/

open Relation

namespace Sandcube.Adapter

variable {host : Host} {id : String} {w w' : World}
variable {n : Net} {kind : Kind} {May : Back → Prop} {f : Net → Net} {P : World → Prop}
  {done : List Bool} {r : NetworkRecord}

/-- What holds of the networks in every reachable state. -/
structure Fencing (host : Host) (w : World) : Prop where
  owned : ∀ id r, w.net.records.find? id = some r → r.Owned host id
  container : ∀ id, (w.containerd.tasks.find? id).isSome → (w.managed? id).isSome
  running : ∀ id, w.containerd.tasks.find? id = some .running →
    (w.net.tables.find? (host.networkName id)).isSome
  link : ∀ id, (w.net.links.find? (host.networkName id)).isSome →
    (w.net.tables.find? (host.networkName id)).isSome
  netns : ∀ id, host.networkName id ∈ w.net.namespaces →
    (w.net.tables.find? (host.networkName id)).isSome
  table : ∀ id, (w.net.tables.find? (host.networkName id)).isSome →
    (w.net.records.find? id).isSome
  /-- A link carries the address of the record. -/
  guest : ∀ id l g, w.net.links.find? (host.networkName id) = some l → l.guest = some g →
    ∃ r, w.net.records.find? id = some r ∧ r.guest = g
  flow : ∀ f ∈ w.net.conntrack, ∃ r, w.net.records.find? f.sandbox = some r ∧ r.guest = f.guest
  resolver : ∀ id ∈ w.net.resolvers, (w.net.records.find? id).isSome

theorem Init.fencing (h : Init w) : Fencing host w := by
  obtain ⟨foreign, hnet⟩ := h.net
  have htasks := h.taskless
  constructor
  · intro id r hr; rw [hnet] at hr; cases hr
  · intro id ht; rw [htasks] at ht; cases ht
  · intro id ht; rw [htasks] at ht; cases ht
  · intro id hl; rw [hnet] at hl; cases hl
  · intro id hn; rw [hnet] at hn; cases hn
  · intro id ht; rw [hnet] at ht; cases ht
  · intro id l g hl; rw [hnet] at hl; cases hl
  · intro f hf; rw [hnet] at hf; cases hf
  · intro id hid; rw [hnet] at hid; cases hid

/-! ### Moves of the network -/

/-- What a command of `setupNetwork` does to links and namespaces. -/
structure Configured (r : NetworkRecord) (n n' : Net) : Prop where
  records : n'.records = n.records
  tables : n'.tables = n.tables
  conntrack : n'.conntrack = n.conntrack
  resolvers : n'.resolvers = n.resolvers
  namespaces : ∀ name ∈ n'.namespaces, name ∈ n.namespaces ∨ name = r.name
  others : ∀ name, name ≠ r.name → n'.links.find? name = n.links.find? name
  guest : ∀ l' g, n'.links.find? r.name = some l' → l'.guest = some g →
    g = r.guest ∨ ∃ l, n.links.find? r.name = some l ∧ l.guest = some g

theorem Configured.refl (r : NetworkRecord) (n : Net) : Configured r n n :=
  ⟨rfl, rfl, rfl, rfl, fun _ h => .inl h, fun _ _ => rfl, fun l _ h hg => .inr ⟨l, h, hg⟩⟩

theorem configured_onLink (r : NetworkRecord) (n : Net) {f : Link → Link}
    (hf : ∀ l g, (f l).guest = some g → g = r.guest ∨ l.guest = some g) :
    Configured r n (NetCommand.run.onLink r n f).2 := by
  unfold NetCommand.run.onLink
  cases hl : n.links.find? r.name with
  | none => exact .refl r n
  | some l =>
    refine { Configured.refl r n with others := ?_, guest := ?_ }
    · exact fun name hname => Table.find?_modify_of_ne _ hname _
    · intro l' g hl' hg
      rw [Table.find?_modify_self, hl, Option.map_some] at hl'
      obtain rfl := Option.some.inj hl'
      exact (hf l g hg).imp_right fun h => ⟨l, hl, h⟩

theorem NetCommand.configured (c : NetCommand) (r : NetworkRecord) (n : Net) :
    Configured r n (c.run r n).2 := by
  have hsame : ∀ (e : Except Err Unit) (p : Prop) [Decidable p] (e' : Except Err Unit),
      Configured r n (if p then (e, n) else (e', n)).2 := by
    intro e p _ e'
    split_ifs <;> exact .refl r n
  cases c with
  | netnsAdd =>
    simp only [run]
    split_ifs
    · exact .refl r n
    · refine { Configured.refl r n with namespaces := fun name h => ?_ }
      exact (List.mem_cons.mp h).symm
  | linkAdd =>
    simp only [run]
    split
    · exact .refl r n
    · split_ifs
      · refine { Configured.refl r n with others := ?_, guest := ?_ }
        · exact fun name hname => Table.find?_put_of_ne _ hname _
        · intro l' g hl' hg
          rw [Table.find?_put_self] at hl'
          obtain rfl := Option.some.inj hl'
          cases hg
      · exact .refl r n
  | addrAdd => exact configured_onLink r n fun l g hg => .inr hg
  | guestAddrAdd => exact configured_onLink r n fun l g hg => .inl (Option.some.inj hg).symm
  | linkUp => exact configured_onLink r n fun l g hg => .inr hg
  | sysctl | loUp | guestUp | guestRoute => exact hsame _ _ _

/-- What a move takes away from the network without touching journal or firewall. -/
theorem Fencing.reduce (h : Fencing host w) (hrecords : n.records = w.net.records)
    (htables : n.tables = w.net.tables)
    (hlinks : ∀ name l, n.links.find? name = some l → w.net.links.find? name = some l)
    (hnamespaces : ∀ name ∈ n.namespaces, name ∈ w.net.namespaces)
    (hconntrack : ∀ f ∈ n.conntrack, f ∈ w.net.conntrack)
    (hresolvers : ∀ id ∈ n.resolvers, id ∈ w.net.resolvers) :
    Fencing host (w.withNet fun _ => n) := by
  have hlink : ∀ name, (n.links.find? name).isSome → (w.net.links.find? name).isSome := by
    intro name hl
    obtain ⟨l, hl⟩ := Option.isSome_iff_exists.mp hl
    exact Option.isSome_of_eq_some (hlinks name l hl)
  unfold World.withNet
  constructor
  · intro id r hr; exact h.owned id r (hrecords ▸ hr)
  · exact h.container
  · intro id ht; rw [htables]; exact h.running id ht
  · intro id hl; rw [htables]; exact h.link id (hlink _ hl)
  · intro id hn; rw [htables]; exact h.netns id (hnamespaces _ hn)
  · intro id ht; rw [hrecords]; exact h.table id (htables ▸ ht)
  · intro id l g hl hg; rw [hrecords]; exact h.guest id l g (hlinks _ l hl) hg
  · intro f hf; rw [hrecords]; exact h.flow f (hconntrack f hf)
  · intro id hid; rw [hrecords]; exact h.resolver id (hresolvers id hid)

section NetMoves

variable {r : NetworkRecord} (h : Fencing host w)

include h

/-- The journal comes first: nothing of the sandbox is there yet. -/
theorem Fencing.putRecord (howned : r.Owned host id) (hfree : w.net.records.find? id = none) :
    Fencing host (w.withNet fun n => { n with records := n.records.put id r }) := by
  have hother : ∀ id' r', w.net.records.find? id' = some r' →
      (w.net.records.put id r).find? id' = some r' := by
    intro id' r' hr'
    rw [Table.find?_put_of_ne _ _ _]
    · exact hr'
    · rintro rfl
      rw [hfree] at hr'
      cases hr'
  unfold World.withNet
  constructor
  · intro id' r' hr'
    dsimp only at hr'
    rw [Table.find?_put] at hr'
    split_ifs at hr' with hid
    · obtain rfl := Option.some.inj hr'
      rw [hid]
      exact howned
    · exact h.owned id' r' hr'
  · exact h.container
  · exact h.running
  · exact h.link
  · exact h.netns
  · exact fun id' ht => Table.isSome_find?_put _ _ _ (h.table id' ht)
  · intro id' l g hl hg
    obtain ⟨r', hr', hguest⟩ := h.guest id' l g hl hg
    exact ⟨r', hother id' r' hr', hguest⟩
  · intro f hf
    obtain ⟨r', hr', hguest⟩ := h.flow f hf
    exact ⟨r', hother _ r' hr', hguest⟩
  · exact fun id' hid' => Table.isSome_find?_put _ _ _ (h.resolver id' hid')

theorem Fencing.putTable (hname : Function.Injective host.networkName)
    (howner : w.net.records.find? id = some r) :
    Fencing host (w.withNet fun n => { n with tables := n.tables.put r.name r.guest }) := by
  have hown := (h.owned id r howner).name
  unfold World.withNet
  refine { h with running := ?_, link := ?_, netns := ?_, table := ?_ }
  · exact fun id' ht => Table.isSome_find?_put _ _ _ (h.running id' ht)
  · exact fun id' hl => Table.isSome_find?_put _ _ _ (h.link id' hl)
  · exact fun id' hn => Table.isSome_find?_put _ _ _ (h.netns id' hn)
  · intro id' ht
    dsimp only at ht
    rw [Table.find?_put] at ht
    split_ifs at ht with hid
    · obtain rfl := hname (hid.trans hown)
      exact Option.isSome_of_eq_some howner
    · exact h.table id' ht

/-- The commands run behind the firewall. -/
theorem Fencing.configure (hname : Function.Injective host.networkName)
    (howner : w.net.records.find? id = some r) (hfenced : (w.net.tables.find? r.name).isSome)
    (hn : Configured r w.net n) : Fencing host (w.withNet fun _ => n) := by
  have hown := (h.owned id r howner).name
  unfold World.withNet
  constructor
  · intro id' r' hr'; exact h.owned id' r' (hn.records ▸ hr')
  · exact h.container
  · intro id' ht; rw [hn.tables]; exact h.running id' ht
  · intro id' hl
    rw [hn.tables]
    by_cases hid : host.networkName id' = r.name
    · rw [hid]; exact hfenced
    · dsimp only at hl
      rw [hn.others _ hid] at hl
      exact h.link id' hl
  · intro id' hns
    rw [hn.tables]
    rcases hn.namespaces _ hns with hold | hnew
    · exact h.netns id' hold
    · rw [hnew]; exact hfenced
  · intro id' ht; rw [hn.records]; exact h.table id' (hn.tables ▸ ht)
  · intro id' l g hl hg
    rw [hn.records]
    by_cases hid : host.networkName id' = r.name
    · dsimp only at hl
      rw [hid] at hl
      obtain rfl := hname (hid.trans hown)
      rcases hn.guest l g hl hg with hguest | ⟨l₀, hl₀, hg₀⟩
      · exact ⟨r, howner, hguest.symm⟩
      · exact h.guest id' l₀ g (hid ▸ hl₀) hg₀
    · dsimp only at hl
      rw [hn.others _ hid] at hl
      exact h.guest id' l g hl hg
  · intro f hf; rw [hn.records]; exact h.flow f (hn.conntrack ▸ hf)
  · intro id' hid'; rw [hn.records]; exact h.resolver id' (hn.resolvers ▸ hid')

/-- The firewall goes when nothing is left behind it. -/
theorem Fencing.eraseTable (hname : Function.Injective host.networkName)
    (hown : r.name = host.networkName id) (hunlinked : w.net.links.find? r.name = none)
    (hleft : r.name ∉ w.net.namespaces) (hidle : w.Idle id) :
    Fencing host (w.withNet fun n => { n with tables := n.tables.erase r.name }) := by
  have hkeep : ∀ id', id' ≠ id → (w.net.tables.find? (host.networkName id')).isSome →
      ((w.net.tables.erase r.name).find? (host.networkName id')).isSome := by
    intro id' hid ht
    rw [Table.find?_erase_of_ne]
    · exact ht
    · rw [hown]
      exact fun heq => hid (hname heq)
  unfold World.withNet
  refine { h with running := ?_, link := ?_, netns := ?_, table := ?_ }
  · intro id' ht
    refine hkeep id' ?_ (h.running id' ht)
    rintro rfl
    rcases hidle with hidle | hunmanaged
    · exact hidle ht
    · have hmanaged := h.container id' (Option.isSome_of_eq_some ht)
      rw [hunmanaged] at hmanaged
      cases hmanaged
  · intro id' hl
    refine hkeep id' ?_ (h.link id' hl)
    rintro rfl
    dsimp only at hl
    rw [← hown, hunlinked] at hl
    cases hl
  · intro id' hn
    refine hkeep id' ?_ (h.netns id' hn)
    rintro rfl
    exact hleft (hown ▸ hn)
  · intro id' ht
    dsimp only at ht
    rw [Table.find?_erase] at ht
    split_ifs at ht
    · cases ht
    · exact h.table id' ht

/-- The journal goes last. -/
theorem Fencing.eraseRecord (howner : w.net.records.find? id = some r)
    (hopen : w.net.tables.find? (host.networkName id) = none)
    (hquiet : ∀ f ∈ w.net.conntrack, f.guest = r.guest → f.sandbox ≠ id)
    (hresolver : id ∉ w.net.resolvers) :
    Fencing host (w.withNet fun n => { n with records := n.records.erase id }) := by
  have hkeep : ∀ id' r', id' ≠ id → w.net.records.find? id' = some r' →
      (w.net.records.erase id).find? id' = some r' := by
    intro id' r' hid hr'
    rw [Table.find?_erase_of_ne _ hid]
    exact hr'
  have hclosed : ∀ id', (w.net.tables.find? (host.networkName id')).isSome → id' ≠ id := by
    rintro id' ht rfl
    rw [hopen] at ht
    cases ht
  have hsome : ∀ id', id' ≠ id → (w.net.records.find? id').isSome →
      ((w.net.records.erase id).find? id').isSome := by
    intro id' hid hr
    rw [Table.find?_erase_of_ne _ hid]
    exact hr
  unfold World.withNet
  refine { h with owned := ?_, table := ?_, guest := ?_, flow := ?_, resolver := ?_ }
  · intro id' r' hr'
    exact h.owned id' r' (Table.find?_of_find?_erase hr')
  · exact fun id' ht => hsome id' (hclosed id' ht) (h.table id' ht)
  · intro id' l g hl hg
    obtain ⟨r', hr', hguest⟩ := h.guest id' l g hl hg
    have hid := hclosed id' (h.link id' (Option.isSome_of_eq_some hl))
    exact ⟨r', hkeep id' r' hid hr', hguest⟩
  · intro f hf
    obtain ⟨r', hr', hguest⟩ := h.flow f hf
    refine ⟨r', hkeep _ r' ?_ hr', hguest⟩
    rintro heq
    rw [heq, howner] at hr'
    obtain rfl := Option.some.inj hr'
    exact hquiet f hf hguest.symm heq
  · intro id' hid'
    refine hsome id' ?_ (h.resolver id' hid')
    rintro rfl
    exact hresolver hid'

end NetMoves

theorem NetMove.fencing (hname : Function.Injective host.networkName) (h : Fencing host w)
    (move : NetMove host w id kind n) : Fencing host (w.withNet fun _ => n) := by
  cases move with
  | record owned free => exact h.putRecord owned free
  | table owner => exact h.putTable hname owner
  | command c owner fenced => exact h.configure hname owner fenced (c.configured _ _)
  | resolver owner =>
    unfold World.withNet
    refine { h with resolver := fun id' hid' => ?_ }
    dsimp only at hid'
    split_ifs at hid'
    · exact h.resolver id' hid'
    · rcases List.mem_cons.mp hid' with rfl | hid'
      · exact owner
      · exact h.resolver id' hid'
  | dropLink owner =>
    exact h.reduce rfl rfl (fun _ _ hl => Table.find?_of_find?_erase hl) (fun _ hn => hn)
      (fun _ hf => hf) fun _ hid => hid
  | dropNamespace owner =>
    exact h.reduce rfl rfl (fun _ _ hl => hl) (fun _ hn => List.mem_of_mem_filter hn)
      (fun _ hf => hf) fun _ hid => hid
  | dropFlows inbound owner =>
    exact h.reduce rfl rfl (fun _ _ hl => hl) (fun _ hn => hn)
      (fun _ hf => List.mem_of_mem_filter hf) fun _ hid => hid
  | dropTable owner name unlinked left idle => exact h.eraseTable hname name unlinked left idle
  | dropResolver =>
    exact h.reduce rfl rfl (fun _ _ hl => hl) (fun _ hn => hn) (fun _ hf => hf)
      fun _ hid => List.mem_of_mem_filter hid
  | dropRecord owner name unlinked left open' quiet resolver =>
    exact h.eraseRecord owner (name ▸ open') quiet resolver

/-! ### The other moves -/

/-- Moves that leave the network alone, keep the containers of tasks and start no task. -/
theorem Fencing.congr (h : Fencing host w) (hnet : w'.net = w.net)
    (hcontainer : ∀ id, (w'.containerd.tasks.find? id).isSome → (w'.managed? id).isSome)
    (hrunning : ∀ id, w'.containerd.tasks.find? id = some .running →
      (w.net.tables.find? (host.networkName id)).isSome) : Fencing host w' := by
  constructor
  · rw [hnet]; exact h.owned
  · exact hcontainer
  · rw [hnet]; exact hrunning
  · rw [hnet]; exact h.link
  · rw [hnet]; exact h.netns
  · rw [hnet]; exact h.table
  · rw [hnet]; exact h.guest
  · rw [hnet]; exact h.flow
  · rw [hnet]; exact h.resolver

theorem Aside.fencing (ha : Aside w w') (h : Fencing host w) : Fencing host w' := by
  refine h.congr ha.net ?_ ?_
  · intro id ht
    rw [World.managed?_congr ha.containers]
    exact h.container id (ha.tasks ▸ ht)
  · exact fun id ht => h.running id (ha.tasks ▸ ht)

theorem Beside.fencing (hb : Beside host w w') (h : Fencing host w) : Fencing host w' := by
  constructor
  · rw [hb.records]; exact h.owned
  · intro id ht
    rw [World.managed?_congr hb.containers]
    refine h.container id ?_
    rcases hb.tasks id with hsame | ⟨hrun, -⟩
    · exact hsame ▸ ht
    · exact Option.isSome_of_eq_some hrun
  · intro id ht
    rw [hb.tables]
    rcases hb.tasks id with hsame | ⟨hrun, -⟩
    · exact h.running id (hsame ▸ ht)
    · exact h.running id hrun
  · rw [hb.links, hb.tables]; exact h.link
  · rw [hb.namespaces, hb.tables]; exact h.netns
  · rw [hb.tables, hb.records]; exact h.table
  · rw [hb.links, hb.records]; exact h.guest
  · intro f hf
    rw [hb.records]
    rcases hb.flow f hf with hold | ⟨l, hl, hg⟩
    · exact h.flow f hold
    · exact h.guest f.sandbox l f.guest hl hg
  · rw [hb.resolvers, hb.records]; exact h.resolver

theorem QuotaMove.fencing (move : QuotaMove host w id kind w') (h : Fencing host w) :
    Fencing host w' := by
  have hmanaged : ∀ id', (w.managed? id').isSome → (w'.managed? id').isSome := fun _ => move.managed
  obtain ⟨_, _, _, _, rfl⟩ := move.frame
  exact h.congr rfl (fun id' ht => hmanaged id' (h.container id' ht)) h.running

theorem EraseMove.fencing (move : EraseMove w id w') (h : Fencing host w) : Fencing host w' := by
  obtain ⟨-, taskless, -, rfl⟩ := move.inv
  refine h.congr rfl (fun id' ht => ?_) h.running
  have hmanaged := h.container id' ht
  unfold World.managed? at hmanaged ⊢
  dsimp only at ht ⊢
  rw [Table.find?_erase_of_ne]
  · exact hmanaged
  · rintro rfl
    rw [taskless] at ht
    cases ht

theorem TaskMove.fencing (move : TaskMove host w id w') (h : Fencing host w) :
    Fencing host w' := by
  have hremove : Fencing host (w.removeTask id) := by
    have htasks : ∀ id' status, (w.removeTask id).containerd.tasks.find? id' = some status →
        w.containerd.tasks.find? id' = some status :=
      fun id' status ht => Table.find?_of_find?_erase ht
    refine h.congr ?_ (fun id' ht => ?_) fun id' ht => h.running id' (htasks _ _ ht)
    · unfold World.removeTask
      dsimp only
      split_ifs <;> rfl
    · obtain ⟨status, ht⟩ := Option.isSome_iff_exists.mp ht
      exact h.container id' (Option.isSome_of_eq_some (htasks _ _ ht))
  cases move with
  | new managed =>
    unfold World.newTask
    split
    · exact h
    · exact h
    · refine h.congr rfl (fun id' ht => ?_) fun id' ht => ?_
      · dsimp only at ht
        rw [Table.find?_put] at ht
        split_ifs at ht with hid
        · rw [hid]; exact managed
        · exact h.container id' ht
      · dsimp only at ht
        rw [Table.find?_put] at ht
        split_ifs at ht
        · cases ht
        · exact h.running id' ht
  | start fenced =>
    unfold World.startTask
    split
    · next hcreated =>
      refine h.congr rfl (fun id' ht => h.container id' ?_) fun id' ht => ?_
      · dsimp only at ht
        rw [Table.find?_modify] at ht
        split_ifs at ht with hid
        · rw [hid, hcreated]; rfl
        · exact ht
      · dsimp only at ht
        rw [Table.find?_modify] at ht
        split_ifs at ht with hid
        · rw [hid]; exact fenced
        · exact h.running id' ht
    · exact h
    · exact h
  | remove | removeSettled settled => exact hremove

theorem Move.fencing {scope : Scope} (hname : Function.Injective host.networkName)
    (h : Fencing host w) (hm : Move host May scope w w') : Fencing host w' := by
  cases hm with
  | back may => exact Beside.fencing (.back _) h
  | net inScope move => exact move.fencing hname h
  | quota inScope move | erase inScope move | task inScope move => exact move.fencing h
  | register inScope move | start inScope move | forget inScope move | boot inScope move =>
    exact move.aside.fencing h

/-- The chain holds in every reachable state. -/
theorem Reachable.fencing {S : Setting} (hname : Function.Injective S.host.networkName)
    (h : Reachable S w) : Fencing S.host w :=
  h.induct (fun _ hw => hw.fencing) (fun _ hw => hw.congr rfl hw.container hw.running)
    fun _ _ hw hm => hm.fencing hname hw

/-! ### A teardown that is not disturbed -/

/-- Nothing is left of the network of a sandbox. -/
structure Bare (host : Host) (id : String) (w : World) : Prop where
  link : w.net.links.find? (host.networkName id) = none
  netns : host.networkName id ∉ w.net.namespaces
  flow : ∀ f ∈ w.net.conntrack, f.sandbox ≠ id
  table : w.net.tables.find? (host.networkName id) = none
  resolver : id ∉ w.net.resolvers
  record : w.net.records.find? id = none

/-- Without a record there is nothing. -/
theorem Fencing.bare (h : Fencing host w) (hrecord : w.net.records.find? id = none) :
    Bare host id w := by
  have htable : w.net.tables.find? (host.networkName id) = none := by
    by_contra hsome
    have hr := h.table id (Option.isSome_iff_ne_none.mpr hsome)
    rw [hrecord] at hr
    cases hr
  refine ⟨?_, ?_, ?_, htable, ?_, hrecord⟩
  · by_contra hsome
    have ht := h.link id (Option.isSome_iff_ne_none.mpr hsome)
    rw [htable] at ht
    cases ht
  · intro hn
    have ht := h.netns id hn
    rw [htable] at ht
    cases ht
  · rintro f hf rfl
    obtain ⟨r, hr, -⟩ := h.flow f hf
    rw [hrecord] at hr
    cases hr
  · intro hid
    have hr := h.resolver id hid
    rw [hrecord] at hr
    cases hr

section Teardown

variable {May : Back → Prop} {r : NetworkRecord} {H : Table String Link → Flow → Prop}

theorem completes_netEffect {Q : Unit → World → Prop} (hP : Steady host May P)
    (hok : ∀ w, P w → Q () (w.withNet f)) :
    Completes May P (netEffect host f) Q := completes_effect hP hok

theorem completes_deleteListed {listed : Net → Bool} {P' : World → Prop} (hP : Steady host May P)
    (hok : ∀ w, P w → P' (w.withNet f)) (hskip : ∀ w, P w → listed w.net = false → P' w) :
    Completes May P (deleteListed host listed f) (fun _ => P') := by
  refine .bind (K := fun there w => P w ∧ (there = false → P' w))
    (completes_query hP fun w hw => ⟨_, rfl, hw, hskip w hw⟩) fun there => ?_
  refine .when (fun _ => ?_) fun hnot w hw => hw.2 (Bool.eq_false_iff.mpr hnot)
  suffices h : Completes May P (netEffect host f) fun _ => P' from
    h.pre fun _ hw => hw.1
  exact completes_netEffect hP hok

/-- The connections of a sandbox during a teardown: they all use the address of the record, and
those of the directions in `done` that use it are accounted for. -/
structure Accounted (host : Host) (id : String) (r : NetworkRecord)
    (H : Table String Link → Flow → Prop) (done : List Bool) (w : World) : Prop where
  guest : ∀ l g, w.net.links.find? (host.networkName id) = some l → l.guest = some g → g = r.guest
  flow : ∀ f ∈ w.net.conntrack, f.sandbox = id → f.guest = r.guest
  held : ∀ f ∈ w.net.conntrack, f.inbound ∈ done → f.guest = r.guest → H w.net.links f

/-- New connections are of the kind that `H` describes. -/
def Admits (host : Host) (May : Back → Prop) (r : NetworkRecord)
    (H : Table String Link → Flow → Prop) : Prop :=
  ∀ (w : World) b f, May b → f ∈ (w.back host b).net.conntrack → f ∉ w.net.conntrack →
    f.guest = r.guest → H w.net.links f

theorem steady_accounted (hH : Admits host May r H) (done : List Bool) :
    Steady host May (Accounted host id r H done) := by
  intro w b hb hw
  have hbeside : Beside host w (w.back host b) := .back b
  refine ⟨?_, ?_, ?_⟩
  · rw [hbeside.links]; exact hw.guest
  · intro f hf hid
    rcases hbeside.flow f hf with hold | ⟨l, hl, hg⟩
    · exact hw.flow f hold hid
    · exact hw.guest l f.guest (hid ▸ hl) hg
  · intro f hf hdone hguest
    rw [hbeside.links]
    by_cases hold : f ∈ w.net.conntrack
    · exact hw.held f hold hdone hguest
    · exact hH w b f hb hf hold hguest

/-- A change that takes objects away but no link keeps the account. -/
theorem Accounted.congr (h : Accounted host id r H done w) (hlinks : n.links = w.net.links)
    (hconntrack : n.conntrack = w.net.conntrack) :
    Accounted host id r H done (w.withNet fun _ => n) := by
  unfold World.withNet
  refine ⟨?_, ?_, ?_⟩
  · rw [hlinks]; exact h.guest
  · rw [hconntrack]; exact h.flow
  · rw [hlinks, hconntrack]; exact h.held

/-- One direction of connections is deleted. -/
theorem Accounted.clear (h : Accounted host id r H done w) (inbound : Bool) :
    Accounted host id r H (inbound :: done) (w.withNet fun n =>
      { n with conntrack := n.conntrack.filter fun e => ¬ (e.guest = r.guest ∧ e.inbound = inbound) }) := by
  unfold World.withNet
  refine ⟨h.guest, fun f hf => h.flow f (List.mem_of_mem_filter hf), fun f hf hdone hguest => ?_⟩
  obtain ⟨hmem, hkept⟩ := List.mem_filter.mp hf
  rcases List.mem_cons.mp hdone with hin | hin
  · exact absurd ⟨hguest, hin⟩ (of_decide_eq_true hkept)
  · exact h.held f hmem hin hguest

theorem completes_clearConntrack {P : World → Prop} (hP : Steady host May P)
    (hH : Admits host May r H) (hpool : inPool r.guest = true)
    (hkeep : ∀ (w : World) (f : List Flow → List Flow), P w →
      P (w.withNet fun n => { n with conntrack := f n.conntrack })) :
    Completes May (fun w => P w ∧ Accounted host id r H [] w) (clearConntrack host r.guest)
      (fun _ w => P w ∧ Accounted host id r H [true, false] w) := by
  unfold clearConntrack
  rw [if_pos hpool]
  refine .bind (K := fun _ w => P w ∧ Accounted host id r H [false] w)
    (completes_netEffect (hP.and (steady_accounted hH _)) fun w hw => ?_) fun _ => ?_
  · exact ⟨hkeep w (List.filter fun e => ¬ (e.guest = r.guest ∧ e.inbound = false)) hw.1,
      hw.2.clear false⟩
  refine .bind (K := fun _ w => P w ∧ Accounted host id r H [true, false] w)
    (completes_netEffect (hP.and (steady_accounted hH _)) fun w hw => ?_) fun _ => ?_
  · exact ⟨hkeep w (List.filter fun e => ¬ (e.guest = r.guest ∧ e.inbound = true)) hw.1,
      hw.2.clear true⟩
  exact .pure fun _ hw => hw

/-- What the teardown has removed, with the account of the connections. -/
structure Removed (host : Host) (id : String) (r : NetworkRecord)
    (H : Table String Link → Flow → Prop) (w : World) : Prop
    extends Accounted host id r H [true, false] w where
  link : w.net.links.find? (host.networkName id) = none
  netns : host.networkName id ∉ w.net.namespaces
  table : w.net.tables.find? (host.networkName id) = none
  resolver : id ∉ w.net.resolvers
  record : w.net.records.find? id = none

theorem completes_teardown (hH : Admits host May r H) (howned : r.Owned host id) :
    Completes May (Accounted host id r H []) (teardown host id r) (fun _ => Removed host id r H) := by
  have hunlinked : Steady host May fun w => w.net.links.find? (host.networkName id) = none :=
    steady_net fun _ _ links _ _ => links.find? (host.networkName id) = none
  have hdetached : Steady host May fun w => w.net.links.find? (host.networkName id) = none ∧
      host.networkName id ∉ w.net.namespaces :=
    steady_net fun _ _ links namespaces _ => links.find? (host.networkName id) = none ∧
      host.networkName id ∉ namespaces
  have hopen : Steady host May fun w => w.net.links.find? (host.networkName id) = none ∧
      host.networkName id ∉ w.net.namespaces ∧
      w.net.tables.find? (host.networkName id) = none :=
    steady_net fun _ tables links namespaces _ => links.find? (host.networkName id) = none ∧
      host.networkName id ∉ namespaces ∧ tables.find? (host.networkName id) = none
  have hbare : Steady host May fun w => w.net.links.find? (host.networkName id) = none ∧
      host.networkName id ∉ w.net.namespaces ∧
      w.net.tables.find? (host.networkName id) = none ∧ id ∉ w.net.resolvers :=
    steady_net fun _ tables links namespaces resolvers =>
      links.find? (host.networkName id) = none ∧ host.networkName id ∉ namespaces ∧
        tables.find? (host.networkName id) = none ∧ id ∉ resolvers
  unfold teardown
  rw [howned.name]
  refine .bind (K := fun _ w => w.net.links.find? (host.networkName id) = none ∧
    Accounted host id r H [] w) (completes_deleteListed (steady_accounted hH _) ?_ ?_) fun _ => ?_
  · intro w hw
    refine ⟨Table.find?_erase_self _ _, ?_, hw.flow, nofun⟩
    exact fun l g hl => hw.guest l g (Table.find?_of_find?_erase hl)
  · intro w hw hlisted
    exact ⟨Option.isSome_eq_false_iff.mp hlisted |> Option.isNone_iff_eq_none.mp, hw⟩
  refine .bind (K := fun _ w => (w.net.links.find? (host.networkName id) = none ∧
    host.networkName id ∉ w.net.namespaces) ∧ Accounted host id r H [] w)
    (completes_deleteListed (hunlinked.and (steady_accounted hH _)) ?_ ?_) fun _ => ?_
  · intro w hw
    refine ⟨⟨hw.1, fun hmem => ?_⟩, hw.2.congr rfl rfl⟩
    exact of_decide_eq_true (List.mem_filter.mp hmem).2 rfl
  · exact fun w hw hlisted => ⟨⟨hw.1, of_decide_eq_false hlisted⟩, hw.2⟩
  refine .bind (completes_clearConntrack hdetached hH howned.guest fun w f hw => hw) fun _ => ?_
  refine .bind (K := fun _ w => (w.net.links.find? (host.networkName id) = none ∧
    host.networkName id ∉ w.net.namespaces ∧ w.net.tables.find? (host.networkName id) = none) ∧
    Accounted host id r H [true, false] w)
    (completes_deleteListed (hdetached.and (steady_accounted hH _)) ?_ ?_) fun _ => ?_
  · exact fun w hw => ⟨⟨hw.1.1, hw.1.2, Table.find?_erase_self _ _⟩, hw.2.congr rfl rfl⟩
  · intro w hw hlisted
    exact ⟨⟨hw.1.1, hw.1.2, Option.isSome_eq_false_iff.mp hlisted |> Option.isNone_iff_eq_none.mp⟩,
      hw.2⟩
  refine .bind (K := fun _ w => (w.net.links.find? (host.networkName id) = none ∧
    host.networkName id ∉ w.net.namespaces ∧ w.net.tables.find? (host.networkName id) = none ∧
    id ∉ w.net.resolvers) ∧ Accounted host id r H [true, false] w)
    (completes_netEffect (hopen.and (steady_accounted hH _)) ?_) fun _ => ?_
  · intro w hw
    refine ⟨⟨hw.1.1, hw.1.2.1, hw.1.2.2, fun hmem => ?_⟩, hw.2.congr rfl rfl⟩
    exact of_decide_eq_true (List.mem_filter.mp hmem).2 rfl
  refine completes_netEffect (hbare.and (steady_accounted hH _)) ?_
  rintro w ⟨⟨hlink, hnetns, htable, hresolver⟩, hacc⟩
  exact ⟨hacc.congr rfl rfl, hlink, hnetns, htable, hresolver, Table.find?_erase_self _ _⟩

/-- `removeNetwork` with the record it finds. -/
theorem completes_removeNetwork (hH : Admits host May r H) (howned : r.Owned host id) :
    Completes May (fun w => w.net.records.find? id = some r ∧ Accounted host id r H [] w)
      (removeNetwork host id) (fun _ => Removed host id r H) := by
  have hsteady : Steady host May fun w =>
      w.net.records.find? id = some r ∧ Accounted host id r H [] w :=
    Steady.and (steady_net fun records _ _ _ _ => records.find? id = some r)
      (steady_accounted hH _)
  refine .bind (K := fun _ w => w.net.records.find? id = some r ∧ Accounted host id r H [] w)
    (completes_query hsteady fun w hw => ⟨(), rfl, hw⟩) fun _ => ?_
  refine .bind (K := fun found w => found = some r ∧ Accounted host id r H [] w)
    (completes_query hsteady fun w hw => ⟨_, rfl, hw.1, hw.2⟩) fun found => ?_
  refine .assuming (fun _ hw => hw.1) fun hfound => ?_
  subst hfound
  dsimp only
  rw [if_pos ⟨howned.self, howned.name⟩]
  exact (completes_teardown hH howned).pre fun _ hw => hw.2

theorem Bare.beside (hw : Bare host id w) {w' : World} (h : Beside host w w') : Bare host id w' := by
  refine ⟨?_, ?_, ?_, ?_, ?_, ?_⟩
  · rw [h.links]; exact hw.link
  · rw [h.namespaces]; exact hw.netns
  · rintro f hf rfl
    rcases h.flow f hf with hold | ⟨l, hl, -⟩
    · exact hw.flow f hold rfl
    · rw [hw.link] at hl
      cases hl
  · rw [h.tables]; exact hw.table
  · rw [h.resolvers]; exact hw.resolver
  · rw [h.records]; exact hw.record

theorem steady_bare : Steady host May (Bare host id) := .of_beside fun _ _ h hw => hw.beside h

/-- `removeNetwork` without a record. -/
theorem completes_removeNetwork_bare :
    Completes May (Bare host id) (removeNetwork host id) (fun _ => Bare host id) := by
  refine .bind (K := fun _ => Bare host id) (completes_query steady_bare fun w hw => ⟨(), rfl, hw⟩)
    fun _ => ?_
  refine .bind (K := fun found w => found = none ∧ Bare host id w)
    (completes_query steady_bare fun w hw => ⟨_, rfl, hw.record, hw⟩) fun found => ?_
  refine .assuming (fun _ hw => hw.1) fun hfound => ?_
  subst hfound
  exact .pure fun _ hw => hw.2

end Teardown

/-! ### New connections -/

/-- Some link carries the address of the connection for its sandbox. -/
def Linked (host : Host) (links : Table String Link) (f : Flow) : Prop :=
  ∃ l, links.find? (host.networkName f.sandbox) = some l ∧ l.guest = some f.guest

theorem admits_linked (May : Back → Prop) (r : NetworkRecord) :
    Admits host May r (Linked host) := by
  intro w b f _ hf hnew _
  exact ((Beside.back b : Beside host w _).flow f hf).resolve_left hnew

/-- Only packets make connections. -/
theorem BackMove.net_eq {b : Back} (h : BackMove host w b w')
    (hb : ∀ id inbound, b ≠ .traffic id inbound) : w'.net = w.net := by
  cases h with
  | idle | collect | vanish | drift | removeDirectory | charge | discharge => rfl
  | exit running => rw [World.exit, if_pos running]; rfl
  | taskExit running => rw [World.taskExit, if_pos running]
  | watch move =>
    obtain ⟨k, htouches⟩ := move.touches
    exact htouches.net
  | wait move =>
    obtain ⟨a, k, htouches⟩ := move.touches
    exact htouches.net
  | traffic => exact absurd rfl (hb _ _)

theorem admits_none (hquiet : ∀ id inbound, ¬ May (.traffic id inbound)) (r : NetworkRecord) :
    Admits host May r fun _ _ => False := by
  intro w b f hb hf hnew _
  rw [(w.back_move host b).net_eq] at hf
  · exact hnew hf
  · rintro id inbound rfl
    exact hquiet id inbound hb

/-- The account of the connections at the beginning. -/
theorem Fencing.accounted (h : Fencing host w) (hr : w.net.records.find? id = some r)
    (H : Table String Link → Flow → Prop) : Accounted host id r H [] w := by
  refine ⟨fun l g hl hg => ?_, fun f hf hid => ?_, nofun⟩
  · obtain ⟨r', hr', hguest⟩ := h.guest id l g hl hg
    rw [hr] at hr'
    rw [Option.some.inj hr', hguest]
  · obtain ⟨r', hr', hguest⟩ := h.flow f hf
    rw [hid, hr] at hr'
    rw [Option.some.inj hr', hguest]

theorem Removed.bare (h : Removed host id r (Linked host) w) : Bare host id w := by
  refine ⟨h.link, h.netns, fun f hf hid => ?_, h.table, h.resolver, h.record⟩
  obtain ⟨l, hl, -⟩ := h.held f hf (List.mem_pair.mpr (by cases f.inbound <;> simp)) (h.flow f hf hid)
  rw [hid, h.link] at hl
  cases hl

/-! ### The result -/

/-- **Networking fails closed and never leaks.**  In every reachable state a running task, a link or
a namespace has its firewall table, and a table its journal record.  A `removeNetwork` in which
nothing fails returns and leaves nothing of the sandbox; a connection that uses the address of the
record afterwards is a new one of another sandbox whose link has the same address. -/
theorem network_fails_closed {S : Setting} (hname : Function.Injective S.host.networkName)
    (hw : Reachable S w) (id : String) :
    (w.containerd.tasks.find? id = some .running →
      (w.net.tables.find? (S.host.networkName id)).isSome) ∧
    ((w.net.links.find? (S.host.networkName id)).isSome ∨
        S.host.networkName id ∈ w.net.namespaces →
      (w.net.tables.find? (S.host.networkName id)).isSome) ∧
    ((w.net.tables.find? (S.host.networkName id)).isSome → (w.net.records.find? id).isSome) ∧
    ∀ May fates, (calm May).Allows fates →
      (removeNetwork S.host id w fates).outcome = .ok () ∧
      Bare S.host id (removeNetwork S.host id w fates).state ∧
      ∀ r, w.net.records.find? id = some r →
        (∀ f ∈ (removeNetwork S.host id w fates).state.net.conntrack, f.guest = r.guest →
          f.sandbox ≠ id ∧ Linked S.host (removeNetwork S.host id w fates).state.net.links f) ∧
        ((∀ id inbound, ¬ May (.traffic id inbound)) →
          ∀ f ∈ (removeNetwork S.host id w fates).state.net.conntrack, f.guest ≠ r.guest) := by
  have h := hw.fencing hname
  refine ⟨h.running id, Or.rec (h.link id) (h.netns id), h.table id, fun May fates hfates => ?_⟩
  cases hr : w.net.records.find? id with
  | none =>
    obtain ⟨_, hok, hbare⟩ := completes_removeNetwork_bare.returns hfates (h.bare hr)
    exact ⟨hok, hbare, nofun⟩
  | some r =>
    have howned := h.owned id r hr
    obtain ⟨_, hok, hremoved⟩ := (completes_removeNetwork (admits_linked May r) howned).returns
      hfates ⟨hr, h.accounted hr _⟩
    have hbare := hremoved.bare
    refine ⟨hok, hbare, ?_⟩
    rintro r' hr'
    obtain rfl := Option.some.inj hr'
    refine ⟨fun f hf hguest => ⟨hbare.flow f hf, ?_⟩, fun hquiet f hf hguest => ?_⟩
    · exact hremoved.held f hf (List.mem_pair.mpr (by cases f.inbound <;> simp)) hguest
    · obtain ⟨_, -, hnone⟩ := (completes_removeNetwork (admits_none hquiet r) howned).returns
        hfates ⟨hr, h.accounted hr _⟩
      exact hnone.held f hf (List.mem_pair.mpr (by cases f.inbound <;> simp)) hguest

/-- A sandbox that runs: its table is there, and a removal leaves nothing. -/
theorem network_fails_closed_started :
    (runFrom .plain startedActs).containerd.tasks.find? "sbx_a" = some .running ∧
    ((runFrom .plain startedActs).net.tables.find? "sbx_a").isSome ∧
    Bare .plain "sbx_a" (removeNetwork .plain "sbx_a" (runFrom .plain startedActs) []).state := by
  have hrunning : (runFrom .plain startedActs).containerd.tasks.find? "sbx_a" = some .running := by
    decide +kernel
  have hreach : Reachable (.of .plain (fun _ => true) fun _ => true) (runFrom .plain startedActs) :=
    reachable_run (by decide +kernel)
  obtain ⟨htask, -, -, hremove⟩ :=
    network_fails_closed (S := .of .plain (fun _ => true) fun _ => true) (fun _ _ h => h) hreach
      "sbx_a"
  exact ⟨hrunning, htask hrunning,
    (hremove (fun _ => True) [] (Adversary.allows_nil _)).2.1⟩

end Sandcube.Adapter
