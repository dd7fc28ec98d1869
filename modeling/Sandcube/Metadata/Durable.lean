import Sandcube.Metadata.Recovery
import Sandcube.Adapter.System

/-!
# Process metadata survives crashes

In every state that a sequence of process operations and crashes can reach, `process.json` is
absent or a complete record that `saveProcess` was called with for that directory.  The record of
the last save that returned nil is there, or one of a later save, unless `forgetProcesses` was
called.  The next recovery does not complain about what it reads, and keeps the directory of every
exec.
-/

namespace Sandcube.Metadata

open Adapter (Key ProcessInfo ExecRequest Host validID validProcessID)
open Relation

variable {β : Type} {codec : Codec β}
variable {s : Site β} {t : Turn β} {k : Key}

/-! ### Every reachable state is sound -/

theorem Containerd.later_change (c : Containerd) (change : Change) : c.Later (c.change change) := by
  cases change with
  | createContainer id managed =>
    unfold Containerd.change
    dsimp only
    split
    · exact .refl c
    · rename_i hfresh
      refine ⟨fun _ hk => ⟨hk, fun h => h⟩, fun h id' hid' => ?_⟩
      -- The new container has no task yet.
      have hne : id' ≠ id := by
        intro heq
        have htrue := h id' hid'
        rw [heq, hfresh] at htrue
        exact nomatch htrue
      exact (Table.find?_put_of_ne _ hne _).trans (h id' hid')
  | removeContainer id =>
    unfold Containerd.change
    dsimp only
    split
    · exact .refl c
    · rename_i htask
      exact later_removeContainer htask
  | newTask id =>
    unfold Containerd.change
    dsimp only
    split_ifs with hnew
    · refine ⟨fun k hk => ⟨hk, fun h => ?_⟩, fun h id' hid' => ?_⟩
      · rw [← Option.isSome_iff_ne_none] at h ⊢
        exact Table.isSome_find?_put _ _ _ h
      · by_cases heq : id' = id
        · exact heq ▸ hnew.1
        · exact h id' ((Table.find?_put_of_ne _ heq _).symm.trans_ne hid')
    · exact .refl c
  | startTask id =>
    have hfind : ∀ id', (c.tasks.modify id fun _ => .running).find? id' ≠ none ↔
        c.tasks.find? id' ≠ none := by
      intro id'
      rw [Table.find?_modify]
      split_ifs
      · exact not_congr Option.map_eq_none_iff
      · exact Iff.rfl
    exact ⟨fun k hk => ⟨hk, (hfind k.1).mpr⟩, fun h id' hid' => h id' ((hfind id').mp hid')⟩
  | removeTask id => exact later_removeTask id
  | exit k code time => exact later_modifyExec k _

variable [Inhabited β] {host : Host}

/-- The program of an act that may be taken is safe. -/
theorem safe_program (hok : Ok s t) :
    Safe codec true Always (t.act.program codec host) (fun _ => Always) Always := by
  unfold Ok at hok
  cases hact : t.act with
  | startProcess id req draw =>
    rw [hact] at hok
    exact safe_startProcess host req hok.2.1 hok.2.2
  | watch a => exact safe_watchProcess
  | delete id => exact safe_delete
  | reconcile => exact safe_reconcile
  | boot => exact safe_boot
  | collect k name file =>
    rw [hact] at hok
    exact Safe.update (fun _ _ _ _ => .single (.draft (record?_put hok file))) fun _ _ _ h => h
  | containerd change =>
    exact Safe.update (fun _ s _ _ => .single (.containerd (s.containerd.later_change change)))
      fun _ _ _ h => h
  | die =>
    intro s fs hfs _
    exact ⟨hfs, .refl, fun hgentle => hgentle .crash trivial trivial⟩

omit [Inhabited β] in
theorem Sound.init (h : Init s) : Sound codec s := by
  obtain ⟨hdisk, htasks, hexecs, hmemory, hlog⟩ := h
  have hrecord : ∀ k, s.record? k = none := fun k => by rw [Site.record?, hdisk]; rfl
  refine ⟨fun k file hfile => ?_, fun info returned hmem => ?_, fun k => ?_, fun k hk => ?_,
    fun id hid => ?_, fun p hp => ?_⟩
  · exact nomatch (hrecord k).symm.trans hfile
  · rw [hlog] at hmem
    exact nomatch hmem
  · rw [hlog]
    trivial
  · rw [hexecs] at hk
    exact absurd rfl hk
  · rw [htasks] at hid
    exact absurd rfl hid
  · rw [hmemory] at hp
    exact nomatch hp

theorem Sound.next (hs : Sound codec s) (hok : Ok s t) : Sound codec (next codec host s t) := by
  have hsafe : Safe codec true Always (t.act.program codec host) (fun _ => Always) Always :=
    safe_program hok
  have hsound := hs.of_moves (hsafe.steps (Adversary.allows_any t.fates) ⟨hs, trivial⟩)
  unfold Metadata.next
  dsimp only
  split
  · exact hsound
  · split_ifs
    · exact hsound.die t.loss
    · exact hsound
  · exact hsound.die t.loss

theorem Reachable.sound (h : Reachable codec host s) : Sound codec s :=
  h.invariant (I := Sound codec) (fun _ hinit => .init hinit) fun _ _ hs hok => hs.next hok

/-! ### What recovery finds -/

omit [Inhabited β] in
/-- The log as a whole: after a save that returned nil, `process.json` holds that record or one of a
later save. -/
theorem Current.kept {content : Option β} {info : ProcessInfo} (hkey : info.key = k)
    {es' : List Event} :
    ∀ {es : List Event}, Current codec k content (es ++ .save info true :: es') →
      (∀ e ∈ es, e ≠ .forget k.1) →
      ∃ info', info'.key = k ∧ (info' = info ∨ ∃ returned, Event.save info' returned ∈ es) ∧
        content = some (codec.encode info')
  | [], h, _ => by
    rcases h with ⟨-, h⟩ | ⟨h, -⟩
    · exact ⟨info, hkey, .inl rfl, h⟩
    · exact nomatch h hkey
  | .save later returned :: es, h, hes => by
    rcases h with ⟨hlater, h⟩ | ⟨-, h⟩
    · exact ⟨later, hlater, .inr ⟨returned, List.mem_cons_self ..⟩, h⟩
    · obtain ⟨info', hkey', hfrom, hcontent⟩ :=
        Current.kept hkey h fun e he => hes e (List.mem_cons_of_mem _ he)
      refine ⟨info', hkey', hfrom.imp_right fun ⟨returned, hmem⟩ => ?_, hcontent⟩
      exact ⟨returned, List.mem_cons_of_mem _ hmem⟩
  | .forget id :: es, h, hes => by
    rcases h with h | h
    · exact absurd (h ▸ rfl) (hes _ (List.mem_cons_self ..))
    · obtain ⟨info', hkey', hfrom, hcontent⟩ :=
        Current.kept hkey h fun e he => hes e (List.mem_cons_of_mem _ he)
      refine ⟨info', hkey', hfrom.imp_right fun ⟨returned, hmem⟩ => ?_, hcontent⟩
      exact ⟨returned, List.mem_cons_of_mem _ hmem⟩

omit [Inhabited β] in
theorem record_kept_of_moves {s' : Site β} (h : ReflTransGen (Move codec false) s s')
    (hk : s.record? k ≠ none) : s'.record? k ≠ none := by
  induction h with
  | refl => exact hk
  | tail _ hmove ih => exact hmove.record_kept ih

/-- However far recovery gets, every `process.json` is still there. -/
theorem Sound.recover_kept (hs : Sound codec s) (fates : List (Fate (Env β)))
    (hk : s.record? k ≠ none) : (recoverProcesses codec s fates).state.record? k ≠ none :=
  record_kept_of_moves (safe_recoverProcesses.steps (Adversary.allows_any fates) ⟨hs, trivial⟩) hk

theorem Sound.recover (hs : Sound codec s) (fates : List (Fate (Env β))) :
    Sound codec (recoverProcesses codec s fates).state :=
  hs.of_moves (safe_recoverProcesses.steps (Adversary.allows_any fates) ⟨hs, trivial⟩)

theorem Sound.recover_proper (hs : Sound codec s) {fates : List (Fate (Env β))} {e : Failure}
    (h : (recoverProcesses codec s fates).outcome = .raised e) : e.Proper :=
  (safe_recoverProcesses.raised (Adversary.allows_any fates) ⟨hs, trivial⟩ h).2.1

/-! ### A crash in the middle of a save -/

/-- A file that holds a record or nothing that can be read. -/
def plainCodec : Codec (Option ProcessInfo) where
  encode := some
  decode := id
  decode_encode info := ⟨info, rfl, rfl⟩

/-- A host without containers. -/
def blank : Site (Option ProcessInfo) := ⟨.empty, ⟨.empty, .empty, .empty⟩, .fresh, []⟩

/-- A turn in which nothing fails. -/
def smooth (act : Act (Option ProcessInfo)) : Turn (Option ProcessInfo) := ⟨act, [], fun _ _ => none⟩

def cutPid : String := "proc_0123456789abcdef0123456789abcdef"

/-- A sandbox runs, and a process of it is started.  The adapter is killed in the second save,
after the write of the new file and before its sync. -/
def cutTurns : List (Turn (Option ProcessInfo)) :=
  [smooth (.containerd (.createContainer "sbx_a" true)), smooth (.containerd (.newTask "sbx_a")),
    smooth (.containerd (.startTask "sbx_a")), smooth .boot,
    { act := .startProcess "sbx_a" ⟨cutPid, ["true"], "", [], 0⟩ cutPid
      fates := List.replicate 27 (.go default) ++ [.crash]
      loss := fun _ _ => none }]

def cutSite : Site (Option ProcessInfo) :=
  Transition.run (next plainCodec .plain) blank cutTurns

theorem cutSite_reachable : Reachable plainCodec .plain cutSite := by
  have hinit : Reachable plainCodec .plain blank := .init ⟨rfl, rfl, rfl, rfl, rfl⟩
  refine hinit.run ⟨trivial, trivial, trivial, ?_, ?_, trivial⟩
  · decide +kernel
  · decide +kernel

/-! ### The result -/

/-- **Process metadata survives every crash.** -/
theorem metadata_durable (codec : Codec β) (host : Host) {s : Site β} (hs : Reachable codec host s) :
    -- `process.json` is a complete record that was saved there.
    (∀ k file, s.record? k = some file → ∃ info returned, Event.save info returned ∈ s.log ∧
      info.key = k ∧ file.content = codec.encode info) ∧
    -- What was saved stays, until a later save or the call of `forgetProcesses`.
    (∀ info es es', s.log = es ++ .save info true :: es' →
      (∀ e ∈ es, e ≠ .forget info.sandboxId) →
      ∃ info', info'.key = info.key ∧ (info' = info ∨ ∃ returned, Event.save info' returned ∈ es) ∧
        (s.record? info.key).map File.content = some (codec.encode info')) ∧
    -- Recovery finds neither corrupt nor invalid metadata.
    (∀ fates k, (recoverProcesses codec s fates).outcome ≠ .raised (.corrupt k) ∧
      (recoverProcesses codec s fates).outcome ≠ .raised (.invalid k)) ∧
    -- However far it gets, an exec keeps its directory and its record.
    ∀ fates k, (s.containerd.execs.find? k ≠ none ∨
        (recoverProcesses codec s fates).state.containerd.execs.find? k ≠ none) →
      (recoverProcesses codec s fates).state.disk.HasDir k ∧
        (recoverProcesses codec s fates).state.record? k ≠ none := by
  have hsound := hs.sound
  refine ⟨fun k file hfile => (hsound.record k file hfile).2, fun info es es' hlog hes => ?_,
    fun fates k => ⟨fun h => hsound.recover_proper h, fun h => hsound.recover_proper h⟩,
    fun fates k hk => ?_⟩
  · have hcurrent := hsound.current info.key
    rw [hlog] at hcurrent
    exact hcurrent.kept rfl hes
  · have hrecord : (recoverProcesses codec s fates).state.record? k ≠ none := by
      rcases hk with hk | hk
      · exact hsound.recover_kept fates (hsound.exec k hk).1
      · exact ((hsound.recover fates).exec k hk).1
    obtain ⟨file, hfile⟩ := Option.ne_none_iff_exists'.mp hrecord
    exact ⟨Disk.hasDir_of_file? hfile, hrecord⟩

/-- The new file is lost, the first record is there, and the exec keeps it through every recovery,
also through one that is killed. -/
theorem metadata_durable_cut :
    (cutSite.disk.file? ("sbx_a", cutPid) (.pending 0)).map File.content = some none ∧
    cutSite.containerd.execs.find? ("sbx_a", cutPid) = some .running ∧
    ((cutSite.record? ("sbx_a", cutPid)).map File.content).join.map ProcessInfo.status =
      some .starting ∧
    ∀ fates, (recoverProcesses plainCodec cutSite fates).state.record? ("sbx_a", cutPid) ≠ none ∧
      ∀ k, (recoverProcesses plainCodec cutSite fates).outcome ≠ .raised (.corrupt k) := by
  have hdurable := metadata_durable plainCodec .plain cutSite_reachable
  have hexec : cutSite.containerd.execs.find? ("sbx_a", cutPid) = some .running := by decide +kernel
  have hne : cutSite.containerd.execs.find? ("sbx_a", cutPid) ≠ none := by
    rw [hexec]
    exact Option.some_ne_none _
  refine ⟨by decide +kernel, hexec, by decide +kernel, fun fates => ⟨?_, fun k => ?_⟩⟩
  · exact (hdurable.2.2.2 fates _ (.inl hne)).2
  · exact (hdurable.2.2.1 fates k).1

end Sandcube.Metadata
