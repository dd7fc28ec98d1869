import Sandcube.Adapter.AtMostOnce
import Sandcube.Adapter.Isolation

/-!
# Process identifiers on disk and in the registry

The directories of processes are keyed by sandbox and process, the registry by process alone.  As
long as no process was registered under an identifier of another sandbox, no two sandboxes have a
`process.json` under the same identifier, and the registry leads from every `process.json` to a
record of its own sandbox (`Tenancy`), also after the restarts that rebuild it from the disk.

* `Tenancy.ordinary`: steps that leave the registry alone keep this.
* `Tenancy.register`, `Tenancy.unregister`, `Tenancy.enroll`, `Tenancy.serve`: the others, one by one.
* `Reachable.tenancy`: it holds in every reachable state without a collision.
-/

open Relation

namespace Sandcube.Adapter

variable {host : Host} {May : Back → Prop} {scope : Scope} {id : String} {w w' : World} {a : ℕ}
variable {k : Key} {p : Tracked} {pid : String} {req : ExecRequest} {fs fates : List (Fate Env)}

/-! ### The invariant -/

/-- A record in memory is about the process. -/
def World.Remembers (w : World) (k : Key) : Prop := ∃ a p, w.object? a = some p ∧ p.info.key = k

/-- A call of `StartProcess` works on the process. -/
def World.Builds (w : World) (k : Key) : Prop :=
  ∃ a p, w.object? a = some p ∧ p.info.key = k ∧ p.Building

/-- Who lives where. -/
structure Tenancy (w : World) : Prop where
  /-- The record that is worked on is registered. -/
  building : ∀ a p, w.object? a = some p → p.Building →
    w.memory.serving = true ∧ w.memory.registry.find? p.info.id = some a
  /-- While the adapter starts, the records are those of the disk. -/
  down : w.memory.serving = false → ∀ a p, w.object? a = some p → w.HasDir p.info.key →
    w.Recorded p.info.key ∧ w.memory.registry.find? p.info.id = some a
  /-- The processes with a directory are found, except for those that are neither saved nor
  remembered. -/
  found : w.memory.serving = true → ∀ k, w.HasDir k → w.Recorded k ∨ w.Remembers k →
    (w.lookupProcess k.1 k.2).isSome
  /-- No two sandboxes have saved a process under the same identifier. -/
  apart : ∀ k k', w.Recorded k → w.Recorded k' → k.2 = k'.2 → k = k'

/-- The registry has one record for each identifier. -/
theorem World.lookupProcess_unique {k' : Key} (h : (w.lookupProcess k.1 k.2).isSome)
    (h' : (w.lookupProcess k'.1 k'.2).isSome) (hpid : k.2 = k'.2) : k = k' := by
  obtain ⟨⟨b, p⟩, hp⟩ := Option.isSome_iff_exists.mp h
  obtain ⟨⟨b', p'⟩, hp'⟩ := Option.isSome_iff_exists.mp h'
  obtain ⟨hreg, hobj, hmine⟩ := World.lookupProcess_eq_some.mp hp
  obtain ⟨hreg', hobj', hmine'⟩ := World.lookupProcess_eq_some.mp hp'
  rw [hpid, hreg'] at hreg
  obtain rfl := Option.some.inj hreg
  rw [hobj'] at hobj
  obtain rfl := Option.some.inj hobj
  exact Prod.ext (hmine.symm.trans hmine') hpid

theorem World.lookupProcess_of_registry (hobj : w.object? a = some p)
    (hreg : w.memory.registry.find? p.info.id = some a) :
    (w.lookupProcess p.info.key.1 p.info.key.2).isSome :=
  Option.isSome_of_eq_some (World.lookupProcess_eq_some.mpr ⟨hreg, hobj, rfl⟩)

/-- A process that is found stays found while its entry of the registry stays. -/
theorem Persists.lookup {A : String} (h : Persists w w')
    (hregistry : w'.memory.registry.find? pid = w.memory.registry.find? pid)
    (hfound : (w.lookupProcess A pid).isSome) : (w'.lookupProcess A pid).isSome := by
  obtain ⟨⟨b, p⟩, hp⟩ := Option.isSome_iff_exists.mp hfound
  obtain ⟨hreg, hobj, hmine⟩ := World.lookupProcess_eq_some.mp hp
  obtain ⟨p', hobj', hkey⟩ := h b p hobj
  have hreg' : w'.memory.registry.find? pid = some b := by rw [hregistry]; exact hreg
  have hmine' : p'.info.sandboxId = A := (congrArg Prod.fst hkey).trans hmine
  exact Option.isSome_of_eq_some (World.lookupProcess_eq_some.mpr ⟨hreg', hobj', hmine'⟩)

/-! ### Ordinary steps -/

/-- A step that leaves the registry alone.  A directory is made only for a process that is worked
on, and `process.json` is written only for records in memory. -/
structure Ordinary (w w' : World) : Prop where
  registry : w'.memory.registry = w.memory.registry
  serving : w'.memory.serving = w.memory.serving
  persists : Persists w w'
  origin : ∀ a p', w'.object? a = some p' → ∃ p, w.object? a = some p ∧
    p'.info.key = p.info.key ∧ (p'.Building → p.Building)
  dir : ∀ k, w'.HasDir k → w.HasDir k ∨ w.Builds k
  record : ∀ k, w'.Recorded k → w.Recorded k ∨ w.Remembers k
  kept : ∀ k, w'.HasDir k → w.Recorded k → w'.Recorded k

namespace Ordinary

/-- Memory and directories stay. -/
theorem of_same (hmemory : w'.memory = w.memory) (hdirs : w'.history.dirs = w.history.dirs) :
    Ordinary w w' := by
  have hobject : ∀ a, w'.object? a = w.object? a := fun a => by
    unfold World.object?
    rw [hmemory]
  have hdir : ∀ k, w'.HasDir k ↔ w.HasDir k := fun k => by
    unfold World.HasDir
    rw [hdirs]
  have hrecord : ∀ k, w'.Recorded k ↔ w.Recorded k := fun k => by
    unfold World.Recorded History.record?
    rw [hdirs]
  refine ⟨by rw [hmemory], by rw [hmemory], .of_heap (by rw [hmemory]), fun a p' hp' => ?_,
    fun k hk => .inl ((hdir k).mp hk), fun k hk => .inl ((hrecord k).mp hk),
    fun k _ hk => (hrecord k).mpr hk⟩
  exact ⟨p', hobject a ▸ hp', rfl, fun h => h⟩

/-- The directory of a process goes. -/
theorem eraseDir (k : Key) : Ordinary w (w.eraseDir k) := by
  have hbefore : ∀ k' dir, (w.eraseDir k).history.dirs.find? k' = some dir →
      w.history.dirs.find? k' = some dir := fun _ _ => Table.find?_of_find?_erase
  refine ⟨rfl, rfl, .of_heap rfl, fun _ p hp => ⟨p, hp, rfl, fun h => h⟩, fun k' hk' => .inl ?_,
    fun k' hk' => .inl ?_, fun k' hk' hr => ?_⟩
  · obtain ⟨dir, hdir⟩ := Option.isSome_iff_exists.mp hk'
    exact Option.isSome_of_eq_some (hbefore k' dir hdir)
  · obtain ⟨info, hinfo⟩ := Option.isSome_iff_exists.mp hk'
    obtain ⟨dir, hdir, hrecord⟩ := Option.bind_eq_some_iff.mp hinfo
    exact Option.isSome_of_eq_some (Option.bind_eq_some_iff.mpr ⟨dir, hbefore k' dir hdir, hrecord⟩)
  · obtain ⟨dir, hdir⟩ := Option.isSome_iff_exists.mp hk'
    unfold World.Recorded History.record? at hr ⊢
    rw [hbefore k' dir hdir] at hr
    rw [hdir]
    exact hr

end Ordinary

/-- Work on a process is ordinary. -/
theorem Work.ordinary {q : Tracked} (hs : Work w a p q w') : Ordinary w w' := by
  have ht := hs.touches
  refine ⟨ht.registry, ht.serving, ht.persists, fun b r hr => ?_, fun k hk => ?_, fun k hk => ?_,
    fun k _ hk => ht.all_recorded hk⟩
  · by_cases hb : b = a
    · subst hb
      rw [hs.after] at hr
      obtain rfl := Option.some.inj hr
      exact ⟨p, hs.before, hs.key, hs.building⟩
    · rw [ht.object b hb] at hr
      exact ⟨r, hr, rfl, fun h => h⟩
  · by_cases hkey : k = p.info.key
    · rw [hkey] at hk ⊢
      exact (hs.made hk).imp_right fun hbuilding => ⟨a, p, hs.before, rfl, hbuilding⟩
    · unfold World.HasDir at hk ⊢
      rw [ht.dirs k hkey] at hk
      exact .inl hk
  · by_cases hkey : k = p.info.key
    · exact .inr ⟨a, p, hs.before, hkey.symm⟩
    · unfold World.Recorded History.record? at hk ⊢
      rw [ht.dirs k hkey] at hk
      exact .inl hk

/-- Background steps are ordinary. -/
theorem Beside.ordinary (h : Beside host w w') : Ordinary w w' := by
  have hdir : ∀ k, w'.HasDir k ↔ w.HasDir k := by
    intro k
    have hkeys : k ∈ w'.history.dirs.keys ↔ k ∈ w.history.dirs.keys := by rw [h.dirKeys]
    rw [Table.mem_keys_iff, Table.mem_keys_iff] at hkeys
    unfold World.HasDir
    rw [Option.isSome_iff_exists, Option.isSome_iff_exists]
    exact hkeys
  refine ⟨h.registry, h.serving, h.persists, fun a p' hp' => ?_, fun k hk => .inl ((hdir k).mp hk),
    fun k hk => ?_, fun k _ hk => h.recorded k hk⟩
  · obtain ⟨p, hp, hbesides⟩ := h.object_before hp'
    refine ⟨p, hp, hbesides.key, fun hbuilding => ?_⟩
    obtain ⟨launch, hlaunch⟩ := hbuilding
    -- A watched record would be watched or done.
    have hstill : ∀ phase, p.stage ≠ .watched phase := by
      intro phase hphase
      rcases hbesides.watched phase hphase with hdone | ⟨phase', hphase'⟩
      · rw [hlaunch] at hdone
        cases hdone
      · rw [hlaunch] at hphase'
        cases hphase'
    obtain ⟨b, rfl⟩ := hbesides.still hstill
    exact ⟨launch, hlaunch⟩
  · rcases h.rewritten k with hsame | ⟨b, p, phase, hp, hkey, -⟩
    · unfold World.Recorded at hk ⊢
      rw [hsame] at hk
      exact .inl hk
    · exact .inr ⟨b, p, hp, hkey⟩

namespace Tenancy

section

variable (h : Tenancy w)
include h

theorem lookup_of_builds (hk : w.Builds k) :
    w.memory.serving = true ∧ (w.lookupProcess k.1 k.2).isSome := by
  obtain ⟨a, p, hp, rfl, hbuilding⟩ := hk
  obtain ⟨hserving, hregistry⟩ := h.building a p hp hbuilding
  exact ⟨hserving, World.lookupProcess_of_registry hp hregistry⟩

/-- While the adapter starts, what is remembered and has a directory is saved. -/
theorem recorded_of_down (hdown : w.memory.serving = false) (hdir : w.HasDir k)
    (hk : w.Recorded k ∨ w.Remembers k) : w.Recorded k := by
  rcases hk with hk | ⟨a, p, hp, rfl⟩
  · exact hk
  · exact (h.down hdown a p hp hdir).1

/-- **Ordinary steps keep the tenancy.** -/
theorem ordinary (hs : Ordinary w w') : Tenancy w' := by
  have hremembers : ∀ k, w'.Remembers k → w.Remembers k := by
    rintro k ⟨a, p', hp', rfl⟩
    obtain ⟨p, hp, hkey, -⟩ := hs.origin a p' hp'
    exact ⟨a, p, hp, hkey.symm⟩
  have hknown : ∀ k, w'.Recorded k ∨ w'.Remembers k → w.Recorded k ∨ w.Remembers k := by
    rintro k (hk | hk)
    · exact hs.record k hk
    · exact .inr (hremembers k hk)
  -- What can be found after the step could be found before it.
  have hfound : w.memory.serving = true → ∀ k, w'.HasDir k → w'.Recorded k ∨ w'.Remembers k →
      (w.lookupProcess k.1 k.2).isSome := by
    intro hserving k hdir hk
    rcases hs.dir k hdir with hdir | hbuilds
    · exact h.found hserving k hdir (hknown k hk)
    · exact (h.lookup_of_builds hbuilds).2
  have hdown : w.memory.serving = false → ∀ k, w'.HasDir k → w'.Recorded k ∨ w'.Remembers k →
      w.HasDir k ∧ w.Recorded k := by
    intro hdown k hdir hk
    rcases hs.dir k hdir with hdir | hbuilds
    · exact ⟨hdir, h.recorded_of_down hdown hdir (hknown k hk)⟩
    · rw [(h.lookup_of_builds hbuilds).1] at hdown
      cases hdown
  refine ⟨fun a p' hp' hbuilding => ?_, fun hserving a p' hp' hdir => ?_,
    fun hserving k hdir hk => ?_, fun k k' hk hk' hpid => ?_⟩
  · obtain ⟨p, hp, hkey, hbefore⟩ := hs.origin a p' hp'
    obtain ⟨hserving, hregistry⟩ := h.building a p hp (hbefore hbuilding)
    have hid : p'.info.id = p.info.id := congrArg Prod.snd hkey
    rw [hs.serving, hs.registry, hid]
    exact ⟨hserving, hregistry⟩
  · obtain ⟨p, hp, hkey, -⟩ := hs.origin a p' hp'
    rw [hs.serving] at hserving
    obtain ⟨hdir', hrecorded⟩ := hdown hserving _ hdir (.inr ⟨a, p', hp', rfl⟩)
    refine ⟨hs.kept _ hdir hrecorded, ?_⟩
    have hid : p'.info.id = p.info.id := congrArg Prod.snd hkey
    rw [hs.registry, hid]
    exact (h.down hserving a p hp (hkey ▸ hdir')).2
  · rw [hs.serving] at hserving
    exact hs.persists.lookup (by rw [hs.registry]) (hfound hserving k hdir hk)
  · cases hserving : w.memory.serving with
    | true =>
      exact World.lookupProcess_unique (hfound hserving k hk.hasDir (.inl hk))
        (hfound hserving k' hk'.hasDir (.inl hk')) hpid
    | false =>
      exact h.apart k k' (hdown hserving k hk.hasDir (.inl hk)).2
        (hdown hserving k' hk'.hasDir (.inl hk')).2 hpid

theorem of_same (hmemory : w'.memory = w.memory)
    (hdirs : w'.history.dirs = w.history.dirs) : Tenancy w' :=
  h.ordinary (.of_same hmemory hdirs)

/-! ### The changes of the registry -/

/-- A process is registered under an identifier that no sandbox has. -/
theorem register (req : ExecRequest) (now : Time) (hrest : w.AtRest)
    (hserving : w.memory.serving = true) (hfree : w.lookupProcess id pid = none)
    (huntaken : w.taken id pid = false) : Tenancy (World.register host id req pid now w) := by
  obtain ⟨-, hhistory, hsame⟩ := w.register_frame host id req pid now
  have hregistry : ∀ pid', pid' ≠ pid →
      (World.register host id req pid now w).memory.registry.find? pid' =
        w.memory.registry.find? pid' := by
    intro pid' hpid
    rw [World.registry_register, Table.find?_put_of_ne _ hpid]
  have hnew : (World.register host id req pid now w).object? w.memory.heap.length =
      some ⟨World.newInfo host id req pid now, false, .building .fresh⟩ := by
    rw [World.object?_register, if_pos rfl]
  have hself : (World.register host id req pid now w).memory.registry.find? pid =
      some w.memory.heap.length := by
    rw [World.registry_register, Table.find?_put_self]
  -- Nobody has the identifier.
  have hnobody : ∀ A, w.lookupProcess A pid = none := by
    intro A
    by_cases hA : A = id
    · rw [hA]
      exact hfree
    · rw [← Option.not_isSome_iff_eq_none]
      intro hsome
      obtain ⟨⟨b, p⟩, hp⟩ := Option.isSome_iff_exists.mp hsome
      obtain ⟨hreg, hobj, hmine⟩ := World.lookupProcess_eq_some.mp hp
      rw [World.taken, hreg, Option.any_some, hobj, Option.any_some, hmine,
        decide_eq_true hA] at huntaken
      cases huntaken
  have hobject : ∀ b p, (World.register host id req pid now w).object? b = some p →
      p.info.key = (id, pid) ∧ b = w.memory.heap.length ∨ w.object? b = some p := by
    intro b p hp
    rw [World.object?_register] at hp
    split_ifs at hp with hb
    · rw [← Option.some.inj hp]
      exact .inl ⟨rfl, hb⟩
    · exact .inr hp
  refine ⟨fun b p hp hbuilding => ?_, fun hdown => ?_, fun _ k hdir hk => ?_,
    fun k k' hk hk' hpid => ?_⟩
  · rw [hsame]
    refine ⟨hserving, ?_⟩
    rcases hobject b p hp with ⟨hkey, hb⟩ | hp
    · have hid : p.info.id = pid := congrArg Prod.snd hkey
      rw [hid, hb, hself]
    · exact absurd hbuilding (hrest.not_building hp)
  · rw [hsame, hserving] at hdown
    cases hdown
  · have hdir : w.HasDir k := by
      unfold World.HasDir at hdir ⊢
      rwa [hhistory] at hdir
    have hold : w.Recorded k ∨ w.Remembers k →
        ((World.register host id req pid now w).lookupProcess k.1 k.2).isSome := by
      intro hk
      have hfound := h.found hserving k hdir hk
      have hpid : k.2 ≠ pid := by
        intro hpid
        rw [hpid, hnobody] at hfound
        cases hfound
      exact (Persists.register req pid now).lookup (hregistry _ hpid) hfound
    rcases hk with hk | ⟨b, p, hp, rfl⟩
    · refine hold (.inl ?_)
      unfold World.Recorded at hk ⊢
      rwa [hhistory] at hk
    · rcases hobject b p hp with ⟨hkey, hb⟩ | hp
      · have hid : p.info.id = pid := congrArg Prod.snd hkey
        refine World.lookupProcess_of_registry hp ?_
        rw [hid, hb, hself]
      · exact hold (.inr ⟨b, p, hp, rfl⟩)
  · unfold World.Recorded at hk hk'
    rw [hhistory] at hk hk'
    exact h.apart k k' hk hk' hpid

/-- The records of a sandbox without directories leave the registry. -/
theorem unregister (hrest : w.AtRest)
    (hempty : ∀ pid, w.history.dirs.find? (id, pid) = none) : Tenancy (World.unregister id w) := by
  have hother : ∀ k, w.HasDir k → id ≠ k.1 := by
    rintro ⟨A, pid⟩ hdir rfl
    rw [World.HasDir, hempty] at hdir
    cases hdir
  refine ⟨fun b p hp hbuilding => ?_, fun hdown b p hp hdir => ?_, fun hserving k hdir hk => ?_,
    h.apart⟩
  · exact absurd hbuilding (hrest.not_building hp)
  · obtain ⟨hrecorded, hreg⟩ := h.down hdown b p hp hdir
    refine ⟨hrecorded, ?_⟩
    have hstays : (w.lookupProcess id p.info.id).isSome = false := by
      have hobj : w.object? b = some p := hp
      rw [World.lookupProcess_any hreg, hobj, Option.any_some]
      exact decide_eq_false fun he => hother _ hdir he.symm
    unfold World.unregister
    dsimp only
    rw [Table.find?_eraseWhere, hstays, if_neg Bool.false_ne_true]
    exact hreg
  · have hview : SameView k.1 w (World.unregister id w) := .unregister (hother k hdir)
    rw [hview.lookup]
    exact h.found hserving k hdir hk

/-- Recovery reads a `process.json`. -/
theorem enroll {info : ProcessInfo} (hrest : w.AtRest)
    (hdown : w.memory.serving = false) (hrecorded : w.history.record? info.key = some info)
    (hnew : ∀ a p, w.object? a = some p → p.info.key ≠ info.key) :
    Tenancy (w.enroll info (.recovering .nothing)) := by
  have hmine : w.Recorded info.key := Option.isSome_of_eq_some hrecorded
  refine ⟨fun b p hp hbuilding => ?_, fun _ b p hp hdir => ?_, fun hserving => ?_, h.apart⟩
  · rw [World.object?_enroll] at hp
    split_ifs at hp
    · obtain ⟨launch, hlaunch⟩ := hbuilding
      rw [← Option.some.inj hp] at hlaunch
      cases hlaunch
    · exact absurd hbuilding (hrest.not_building hp)
  · rw [World.object?_enroll] at hp
    split_ifs at hp with hb
    · rw [← Option.some.inj hp, hb]
      exact ⟨hmine, Table.find?_put_self _ _ _⟩
    · obtain ⟨hsaved, hreg⟩ := h.down hdown b p hp hdir
      have hid : p.info.id ≠ info.id := fun hid => hnew b p hp (h.apart _ _ hsaved hmine hid)
      refine ⟨hsaved, ?_⟩
      unfold World.enroll
      dsimp only
      rw [Table.find?_put_of_ne _ hid]
      exact hreg
  · have hserving : w.memory.serving = true := hserving
    rw [hdown] at hserving
    cases hserving

/-- The socket is opened. -/
theorem serve (hrest : w.AtRest)
    (hcomplete : ∀ k, w.Recorded k → ∃ a p, w.object? a = some p ∧ p.info.key = k) :
    Tenancy { w with memory := { w.memory with serving := true } } := by
  refine ⟨fun b p hp hbuilding => ?_, fun hdown => ?_, fun _ k hdir hk => ?_, h.apart⟩
  · exact absurd hbuilding (hrest.not_building hp)
  · cases hdown
  · have hfound : (w.lookupProcess k.1 k.2).isSome := by
      cases hserving : w.memory.serving with
      | true => exact h.found hserving k hdir hk
      | false =>
        obtain ⟨b, p, hp, rfl⟩ : w.Remembers k := by
          rcases hk with hk | hk
          · exact hcomplete k hk
          · exact hk
        exact World.lookupProcess_of_registry hp (h.down hserving b p hp hdir).2
    exact hfound

theorem die : Tenancy w.die := by
  refine ⟨fun a p hp => ?_, fun _ a p hp => ?_, fun hserving => ?_, h.apart⟩
  · rw [World.object?_die] at hp
    cases hp
  · rw [World.object?_die] at hp
    cases hp
  · cases hserving

end

end Tenancy

/-! ### All moves -/

theorem StartMove.tenancy (move : StartMove host w id w') (h : Tenancy w) : Tenancy w' := by
  obtain ⟨a, p, q, -, hwork⟩ := move.work
  exact h.ordinary hwork.ordinary

theorem ForgetMove.tenancy {kind : Kind} (move : ForgetMove host w id kind w') (h : Tenancy w) :
    Tenancy w' := by
  cases move with
  | eraseDir => exact h.ordinary (.eraseDir _)
  | eraseHome => exact h.of_same rfl rfl
  | unregister rest unmanaged empty => exact h.unregister rest empty
  | cleanup obj => exact h.ordinary (Work.deleteExec obj).ordinary

theorem BootMove.tenancy (move : BootMove host w id w') (h : Tenancy w) : Tenancy w' := by
  rcases move.work with ⟨a, p, q, -, hwork⟩ | ⟨pid, -, -, rfl⟩ |
    ⟨info, rest, down, -, recorded, new, rfl⟩ | ⟨rest, complete, rfl⟩
  · exact h.ordinary hwork.ordinary
  · exact h.ordinary (.eraseDir _)
  · exact h.enroll rest down recorded new
  · exact h.serve rest complete

/-- No process was registered under an identifier of another sandbox. -/
def World.Distinct (w : World) : Prop := ∀ k, .collision k ∉ w.trace.incidents

theorem World.Distinct.untaken {now : Time} (h : (World.register host id req pid now w).Distinct) :
    w.taken id pid = false := by
  by_contra htaken
  rw [Bool.not_eq_false] at htaken
  refine h (id, pid) ?_
  unfold World.register
  dsimp only
  rw [if_pos htaken]
  exact List.mem_cons_self

theorem Move.tenancy (hm : Move host May scope w w') (h : Tenancy w) (hdistinct : w'.Distinct) :
    Tenancy w' := by
  cases hm with
  | @back b may => exact h.ordinary (Beside.back b : Beside host w _).ordinary
  | net inScope move | quota inScope move | erase inScope move | task inScope move =>
    exact h.of_same move.still.1 (by rw [move.still.2])
  | register inScope move =>
    cases move with
    | register req now rest serving managed valid free =>
      exact h.register req now rest serving free hdistinct.untaken
  | start inScope move | forget inScope move | boot inScope move => exact move.tenancy h

/-- **Who lives where.**  It is kept over crashes and restarts, as long as no process is registered
under an identifier of another sandbox. -/
theorem Reachable.tenancy {S : Setting} (hw : Reachable S w) (hdistinct : w.Distinct) :
    Tenancy w := by
  suffices hall : w.Distinct → Tenancy w from hall hdistinct
  refine hw.induct (I := fun w => w.Distinct → Tenancy w) (fun w h _ => ?_) (fun w h hd => ?_)
    fun w w' h hm hd => ?_
  · have hobject : ∀ a, w.object? a = none := fun a => by
      rw [World.object?, h.memory]
      rfl
    have hrecord : ∀ k, ¬ w.Recorded k := fun k hk => by
      rw [World.Recorded, h.history] at hk
      cases hk
    refine ⟨fun a p hp => ?_, fun _ a p hp => ?_, fun hserving => ?_,
      fun k _ hk => absurd hk (hrecord k)⟩
    · rw [hobject] at hp
      cases hp
    · rw [hobject] at hp
      cases hp
    · rw [h.memory] at hserving
      cases hserving
  · exact (h hd).die
  · exact hm.tenancy (h fun k hk => hd k (hm.trace_mono.1 _ hk)) hd

/-! ### Isolation -/

section Isolation

variable {S : Setting} {A B : String}

theorem allows_of_undisturbed (h : undisturbed.Allows fs) : (within fun _ => False).Allows fs := by
  intro t ht
  have hfate := h t ht
  cases t with
  | go env => exact hfate.2
  | crash | crashAfter env => exact hfate.elim

/-- Where nothing happens beside the operation, the sandbox is seen as before. -/
theorem Apart.sameView (h : Apart host (fun _ => False) A w w') : SameView A w w' := by
  induction h with
  | refl => exact .of_memory rfl rfl rfl fun _ => rfl
  | tail _ hlast ih =>
    rcases hlast with ⟨b, hb, -⟩ | hview
    · exact hb.elim
    · exact ih.trans hview

/-- An accepted request for another sandbox leaves the sandbox alone, unless it registers a process
under one of its identifiers. -/
theorem apart_of_request {r : Request} (hw : Standing w) (hok : S.Ok w (.request r fates))
    (htarget : r.target = some B) (hne : A ≠ B)
    (hfree : ∀ pid, r.registers = some pid → w.lookupProcess A pid = none) :
    Apart S.host S.May A w (r.run S.host w fates).state := by
  obtain ⟨hserving, -, -, hfresh, hfates⟩ := hok
  have hruns : Runs S.host S.May r.scope r.Pre (r.run S.host) (fun _ => World.AtRest)
      fun _ => World.AtRest := runs_request r
  have hsteps := hruns.steps hfates ⟨hw.rest, hserving, hfresh⟩
  exact apart_of_steps (Request.scope_abroad htarget hne)
    (fun pid _ hs => hfree pid (Request.registers_of_scope htarget hs)) hsteps

/-- The turn of another sandbox in `Reconcile` leaves the sandbox alone. -/
theorem apart_of_reconcileHistory {fates : List (Fate Env)} (hw : w.AtRest) (hne : A ≠ B)
    (hfates : (within May).Allows fates) :
    Apart host May A w (reconcileHistory host B w fates).state := by
  have hruns : Runs host May (.only .forget B) World.AtRest (reconcileHistory host B)
      (fun _ w => Swept B w ∧ w.AtRest) unknown := by
    refine runs_reconcileHistory (fun _ => ⟨rfl, rfl⟩) ?_
    rintro kind _ ⟨rfl, -⟩
    rfl
  refine apart_of_steps ⟨?_, ?_⟩ ?_ (hruns.steps hfates hw)
  · rintro kind _ ⟨-, rfl⟩
    exact hne.symm
  · rintro _ ⟨hkind, -⟩
    cases hkind
  · rintro pid _ ⟨hkind, -⟩
    cases hkind

/-- A start that gets to its registration takes the identifier. -/
theorem lookup_after_startProcess {draw : String} (hrest : w.AtRest)
    (hserving : w.memory.serving = true) (hne : A ≠ B) (hfs : undisturbed.Allows fs)
    (hmanaged : (w.managed? B).isSome) (hvalid : validProcessID req.requestId = true)
    (hunknown : w.lookupProcess B req.requestId = none)
    (hrunning : w.containerd.tasks.find? B = some .running) :
    (startProcess host B req draw w fs).state.lookupProcess A req.requestId = none := by
  obtain ⟨now, fs', hfs', hrun⟩ : ∃ now fs', undisturbed.Allows fs' ∧
      startProcess host B req draw w fs =
        bringUp host w.memory.heap.length (B, req.requestId)
          (World.register host B req req.requestId now w) fs' :=
    startProcess_registers hfs hmanaged hvalid hunknown hrunning
  have hready : Ready B req.requestId w := ⟨hrest, hserving, hmanaged, hunknown⟩
  have hruns : Runs host (fun _ => False) (.only .start B)
      (Building B w.memory.heap.length (World.newInfo host B req req.requestId now) false .fresh)
      (bringUp host w.memory.heap.length (B, req.requestId)) (fun _ => World.AtRest)
      fun _ => World.AtRest := runs_bringUp ⟨rfl, rfl⟩
  have hsteps := hruns.steps (allows_of_undisturbed hfs') (hready.register req now)
  have habroad : (Scope.only .start B).Abroad A := by
    refine ⟨?_, ?_⟩
    · rintro kind _ ⟨-, rfl⟩
      exact hne.symm
    · rintro _ ⟨hkind, -⟩
      cases hkind
  rw [hrun]
  -- What is not found stays so through the rest of the start.
  generalize (bringUp host w.memory.heap.length (B, req.requestId)
    (World.register host B req req.requestId now w) fs').state = last at hsteps ⊢
  induction hsteps with
  | refl => exact World.lookupProcess_register req now hne.symm
  | tail _ hm ih => exact hm.lookup_none habroad ih

end Isolation

/-- Two sandboxes, and a process of the first. -/
def tenantActs : List Act :=
  launchedActs ++ [.request (.create (sampleSpec "sbx_b") 1) [], .request (.start "sbx_b") []]

/-- An identifier that the first sandbox does not have. -/
def sparePid : String := "proc_11111111111111111111111111111111"

/-- A request for a process under that identifier. -/
def spareRequest : ExecRequest := { sampleRequest with requestId := sparePid }

/-- The second sandbox starts a process under the identifier of the process of the first. -/
def displacedActs : List Act :=
  tenantActs ++ [.request (.startProcess "sbx_b" sampleRequest sparePid) []]

end Sandcube.Adapter
