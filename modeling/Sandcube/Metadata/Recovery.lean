import Sandcube.Metadata.Programs

/-!
# Removal and recovery

`os.RemoveAll` removes the entries of a directory in any order, and can be cut short anywhere.
`forgetProcesses` uses it on sandboxes without containers, and recovery on directories without
`process.json`; in both cases no exec loses its record.
-/

namespace Sandcube.Metadata

open Adapter (Key ProcessInfo ExecState validID validProcessID failedInfo globOrder)
open Prog (Does raise rescue forEach when)
open Relation

variable {β : Type} {codec : Codec β} {forgets : Bool}
variable {k : Key} {s : Site β} {P : Site β → Prop}

/-! ### `os.RemoveAll` -/

/-- A call of `forgetProcesses` is under way, for a sandbox without a container. -/
def Forgetting (id : String) (s : Site β) : Prop :=
  s.managed id = false ∧ ∃ es, s.log = .forget id :: es

/-- The directory may be removed: its sandbox is forgotten, or it was never committed. -/
def Removable : Bool → Key → Site β → Prop
  | true, k, s => Forgetting k.1 s
  | false, k, s => s.record? k = none

theorem record?_unlink_self (s : Site β) (k k' : Key) :
    (s.disk.unlink k .processJson).file? k' .processJson = if k' = k then none else s.record? k' := by
  rw [Disk.file?_unlink]
  by_cases hkey : k' = k
  · rw [if_pos ⟨hkey, rfl⟩, if_pos hkey]
  · rw [if_neg fun h => hkey h.1, if_neg hkey]
    rfl

/-- Without a `process.json` no entry that goes is one. -/
theorem record?_unlink_of_none (h : s.record? k = none) (name : FileName) (k' : Key) :
    (s.disk.unlink k name).file? k' .processJson = s.record? k' := by
  by_cases hname : name = .processJson
  · subst hname
    rw [record?_unlink_self]
    split_ifs with hkey
    · exact (hkey ▸ h : s.record? k' = none).symm
    · rfl
  · exact record?_unlink hname k'

theorem Removable.unlink (h : Removable forgets k s) (name : FileName) :
    Removable forgets k (s.setDisk fun d => d.unlink k name) := by
  cases forgets with
  | true => exact h
  | false => exact (record?_unlink_of_none h name k).trans h

theorem Removable.move_unlink (h : Removable forgets k s) (name : FileName) :
    Move codec forgets s (s.setDisk fun d => d.unlink k name) := by
  cases forgets with
  | true =>
    obtain ⟨hgone, es, hlog⟩ := h
    by_cases hname : name = .processJson
    · subst hname
      exact .withdraw rfl hlog hgone (record?_unlink_self s k)
    · exact .draft (record?_unlink hname)
  | false => exact .draft (record?_unlink_of_none h name)

/-- An empty directory has no `process.json`. -/
theorem record?_rmdir (hempty : s.disk.names k = []) (k' : Key) :
    (s.disk.rmdir k).file? k' .processJson = s.record? k' := by
  rw [Disk.file?_rmdir]
  split_ifs with hkey
  · subst hkey
    have hnone : ¬ (s.disk.file? k' .processJson).isSome = true := fun h => by
      have hmem := Disk.mem_names.mpr h
      rw [hempty] at hmem
      cases hmem
    exact (Option.not_isSome_iff_eq_none.mp hnone).symm
  · rfl

theorem Removable.rmdir (h : Removable forgets k s) (hempty : s.disk.names k = []) :
    Removable forgets k (s.setDisk fun d => d.rmdir k) := by
  cases forgets with
  | true => exact h
  | false => exact (record?_rmdir hempty k).trans h

/-- Whatever entry is unlinked, if any. -/
theorem Removable.unlink_some (hs : Removable forgets k s) (o : Option FileName) :
    Removable forgets k (match o with
      | none => ((.ok (), s) : Except Failure Unit × Site β)
      | some name => (.ok (), s.setDisk fun d => d.unlink k name)).2 := by
  cases o with
  | none => exact hs
  | some name => exact hs.unlink name

variable [Inhabited β] {a : ℕ} {k : Key} {id : String}

theorem safe_removeEntry :
    Safe codec forgets (Removable forgets k) (removeEntry k) (fun _ => Removable forgets k)
      (Removable forgets k) := by
  refine Safe.call (fun env s _ hs => ?_) (fun env s _ _ hs _ => hs.unlink_some _)
    (fun env s e _ h => ?_) fun env s _ hs => ⟨hs, hs.unlink_some _⟩
  · split
    · exact .refl
    · exact .single (hs.move_unlink _)
  · split at h <;> cases h

theorem safe_removeDir :
    Safe codec forgets (Removable forgets k) (removeDir k) (fun _ => Removable forgets k)
      (Removable forgets k) := by
  refine Safe.call (fun _ s _ hs => ?_) (fun _ s _ _ hs _ => ?_) (fun _ s e _ h => ?_)
    fun _ s _ hs => ⟨hs, ?_⟩
  · split_ifs with hempty
    · exact .single (.draft (record?_rmdir hempty))
    · exact .refl
  · split_ifs with hempty
    · exact hs.rmdir hempty
    · exact hs
  · split_ifs at h
    cases h
    exact trivial
  · split_ifs with hempty
    · exact hs.rmdir hempty
    · exact hs

theorem safe_removeAll :
    Safe codec forgets (Removable forgets k) (removeAll k) (fun _ => Removable forgets k)
      (Removable forgets k) := by
  refine Safe.bind (K := fun _ => Removable forgets k) (Safe.look fun _ _ h => h) fun count => ?_
  -- An error of one entry is kept for the end.
  have hentries : Safe codec forgets (Removable forgets k)
      (attempt (forAll (List.range count) fun _ => removeEntry k))
      (fun r s => (∀ e, r = some e → e.Proper) ∧ Removable forgets k s) (Removable forgets k) := by
    refine (Safe.attempt (Safe.forAll fun _ => safe_removeEntry)).conseq (fun _ h => h)
      (fun r s h => ?_) fun _ h => h
    cases r with
    | none => exact ⟨fun _ h => (nomatch h), h⟩
    | some e => exact ⟨fun e' h' => Option.some.inj h' ▸ h.1, h.2⟩
  refine hentries.bind fun err => Safe.assuming (fun _ h => h.1) fun herr => ?_
  refine Safe.bind (Safe.attempt (safe_removeDir.conseq (fun _ h => h.2) (fun _ _ h => h)
    fun _ h => h)) fun dirErr => ?_
  cases dirErr with
  | none => exact Safe.pure fun _ h => h
  | some e =>
    refine Safe.assuming (fun _ h => h.1) fun he => Safe.raise ?_ fun _ h => h.2
    cases err with
    | none => exact he
    | some e' => exact herr e' rfl

/-! ### `forgetProcesses` -/

theorem safe_nextDir {E : Site β → Prop} :
    Safe codec forgets (Forgetting id) (nextDir id)
      (fun r s => Forgetting id s ∧ ∀ k, r = some k → k.1 = id) E := by
  refine Safe.atomic (fun _ _ _ _ => .refl) (fun env s r _ hs h => ⟨hs, fun k hk => ?_⟩)
    fun _ _ _ _ _ h => nomatch h
  cases h
  exact of_decide_eq_true (List.mem_filter.mp (List.mem_of_getElem? hk)).2

theorem safe_removeHistory :
    Safe codec true (Forgetting id) (removeHistory id) (fun _ => Forgetting id) (Forgetting id) := by
  refine Safe.bind (K := fun _ => Forgetting id) (Safe.look fun _ _ h => h) fun count => ?_
  refine Safe.forAll fun _ => safe_nextDir.bind fun r => ?_
  cases r with
  | none => exact Safe.pure fun _ h => h.1
  | some k =>
    refine Safe.assuming (fun _ h => h.2 k rfl) fun hk => ?_
    subst hk
    exact safe_removeAll.conseq (fun _ h => h.1) (fun _ _ h => h) fun _ h => h

/-- Records leave the registry; those in the heap stay. -/
theorem safe_unregister {E : Site β → Prop} :
    Safe codec forgets P (update fun _ s => s.unregister id) (fun _ => Always) E :=
  Safe.update (fun _ _ hs _ => .single (.memory hs.object)) fun _ _ _ _ => trivial

theorem safe_forgetProcesses :
    Safe codec true (fun s => s.managed id = false) (forgetProcesses id) (fun _ => Always)
      Always := by
  refine Safe.bind (K := fun _ => Forgetting id) (Safe.update (fun _ _ _ _ => .single (.forget rfl))
    fun _ s _ hs => ⟨hs, s.log, rfl⟩) fun _ => ?_
  refine (safe_removeHistory.conseq (fun _ h => h) (fun _ _ h => h) fun _ _ => trivial).bind fun _ => ?_
  exact safe_unregister

/-! ### `Delete` and `Reconcile` -/

/-- `load` says that a container is not found only if it is not there. -/
theorem safe_optional_load :
    Safe codec forgets P (optional (load id))
      (fun r s => P s ∧ (r = none → s.managed id = false)) P := by
  have hload : Does Adversary.any (Move codec forgets) (fun s => Sound codec s ∧ P s)
      (load id : Op β Unit) (fun _ s => Sound codec s ∧ P s)
      fun e s => (Sound codec s ∧ e.Proper ∧ P s) ∧ (e = .err .notFound → s.managed id = false) := by
    unfold load query call
    refine Does.atomic (fun s env _ _ => ?_) (fun s env _ hs _ h => ?_) fun s env e hs _ h => ?_
    · cases env.fault with
      | none => exact .refl
      | some fault =>
        dsimp only
        split_ifs <;> exact .refl
    · cases hfault : env.fault with
      | none => exact hs
      | some fault => rw [hfault] at h; exact nomatch h
    · cases hfault : env.fault with
      | none =>
        rw [hfault] at h
        dsimp only at h
        split_ifs at h with hmanaged
        cases h
        exact ⟨⟨hs.1, trivial, hs.2⟩, fun _ => Bool.eq_false_iff.mpr hmanaged⟩
      | some fault =>
        rw [hfault] at h
        cases h
        dsimp only
        rw [ite_self]
        exact ⟨⟨hs.1, trivial, hs.2⟩, fun h => nomatch h⟩
  refine Does.rescue (Does.bind hload fun _ => Does.pure fun s hs => ⟨hs.1, hs.2, fun h => nomatch h⟩)
    fun e => ?_
  split_ifs with he
  · exact Does.pure fun s hs => ⟨hs.1.1, hs.1.2.2, fun _ => hs.2 he⟩
  · exact Does.raise fun s hs => hs.1

theorem safe_settleProcesses : Safe codec forgets P (settleProcesses id) (fun _ => P) P := by
  refine Safe.query (fun _ _ _ h _ => h) (fun s e h => ?_) fun _ h => h
  split_ifs at h
  cases h
  exact trivial

theorem safe_deleteTask :
    Safe codec forgets Always (deleteTask id) (fun _ => Always) Always := by
  have hremove : Safe codec forgets Always (call fun _ s => (.ok (), s.removeTask id))
      (fun _ => Always) Always :=
    safe_containerd (fun s => ⟨_, Containerd.later_removeTask id, rfl⟩) (fun _ _ h => nomatch h)
      fun _ _ h => h
  exact (safe_taskStatus.bind fun _ => hremove).ifNotFound (Safe.pure fun _ h => h)

theorem safe_stop : Safe codec forgets Always (stop id) (fun _ => Always) Always := by
  have hstatus : Safe codec forgets Always (optional (taskStatus id)) (fun _ => Always) Always :=
    safe_taskStatus.optional fun _ h => h
  refine safe_load.bind fun _ => hstatus.bind fun status => ?_
  cases status with
  | none => exact Safe.pure fun _ h => h
  | some _ =>
    exact safe_settleProcesses.bind fun _ => safe_deleteTask.bind fun _ => safe_settleProcesses

/-- After `c.Delete` there is no container. -/
theorem safe_deleteContainer :
    Safe codec forgets Always (deleteContainer id) (fun _ s => s.managed id = false) Always := by
  refine Safe.call (fun _ s _ _ => ?_) (fun _ s _ _ _ h => ?_) (fun _ s e _ h => ?_)
    fun _ _ _ _ => ⟨trivial, trivial⟩
  · split
    · exact .refl
    · rename_i htask
      exact .single (.containerd (Containerd.later_removeContainer htask))
  · split at h
    · exact nomatch h
    · have hnone : (s.containerd.containers.erase id).find? id = none := Table.find?_erase_self _ _
      have hne : (s.containerd.containers.erase id).find? id ≠ some true := by
        rw [hnone]
        exact (Option.some_ne_none true).symm
      exact decide_eq_false hne
  · split at h <;> cases h
    trivial

theorem safe_delete : Safe codec true Always (delete id) (fun _ => Always) Always := by
  refine safe_optional_load.bind fun r => ?_
  cases r with
  | none =>
    refine Safe.bind (K := fun _ s => s.managed id = false)
      (Safe.query (fun _ _ _ h _ => h.2 rfl) (fun s e h => ?_) fun _ _ => trivial) fun _ => ?_
    · split at h <;> cases h
      trivial
    · exact (safe_settleProcesses.conseq (fun _ h => h) (fun _ _ h => h) fun _ _ => trivial).bind
        fun _ => safe_forgetProcesses
  | some _ =>
    exact (safe_stop.conseq (fun _ _ => trivial) (fun _ _ h => h) fun _ h => h).bind fun _ =>
      safe_deleteContainer.bind fun _ => safe_forgetProcesses

theorem safe_cleanupRecord :
    Safe codec forgets Always (cleanupRecord a) (fun _ => Always) Always := by
  refine Safe.bind (K := fun _ => Always) (Safe.look fun _ _ _ => trivial) fun r => ?_
  cases r with
  | none => exact Safe.pure fun _ h => h
  | some p =>
    refine Safe.when (fun _ => ?_) fun _ _ h => h
    refine Safe.ifNotFound (safe_execState.bind fun state => ?_) (Safe.pure fun _ h => h)
    exact Safe.when (fun _ => safe_deleteExec fun _ _ h => h) fun _ _ h => h

theorem safe_reconcileHistory :
    Safe codec true Always (reconcileHistory id) (fun _ => Always) Always := by
  refine Safe.when (fun _ => safe_optional_load.bind fun r => ?_) fun _ _ h => h
  cases r with
  | some _ => exact Safe.pure fun _ _ => trivial
  | none =>
    refine Safe.bind (safe_settleProcesses.conseq (fun _ h => h.2 rfl) (fun _ _ h => h)
      fun _ _ => trivial) fun _ => safe_forgetProcesses

theorem safe_reconcile : Safe codec true Always (reconcile : Op β Unit) (fun _ => Always) Always := by
  have hcleanup : Safe codec true Always (cleanupProcessRecords : Op β Unit) (fun _ => Always)
      Always :=
    Safe.bind (K := fun _ => Always) (Safe.look fun _ _ _ => trivial) fun ps =>
      Safe.forEach fun _ => safe_cleanupRecord
  refine hcleanup.bind fun _ => Safe.bind (K := fun _ => Always)
    (Safe.query (fun _ _ _ _ _ => trivial) (fun _ _ h => nomatch h) fun _ h => h) fun homes => ?_
  exact Safe.forEach fun _ => safe_reconcileHistory

/-! ### Recovery -/

/-- A directory is removed only if it has no `process.json`. -/
theorem safe_sweepDir : Safe codec false Always (sweepDir k) (fun _ => Always) Always := by
  refine Safe.when (fun _ => ?_) fun _ _ h => h
  refine Safe.bind (K := fun found s => found = false → s.record? k = none)
    (Safe.query (fun s found _ _ h hfound => ?_) (fun _ _ h => nomatch h) fun _ h => h) fun found => ?_
  · cases h
    exact Option.isNone_iff_eq_none.mp (by rw [← Option.not_isSome, hfound]; rfl)
  · refine Safe.when (fun hfound => ?_) fun _ _ _ => trivial
    exact safe_removeAll.conseq (fun _ h => h hfound) (fun _ _ _ => trivial) fun _ _ => trivial

theorem safe_loadProcess :
    Safe codec forgets (At a k) (loadProcess a k) (fun _ => At a k) (At a k) :=
  safe_load.bind fun _ => safe_taskStatus.bind fun _ => safe_execState.bind fun _ => safe_attach

theorem safe_reattach {terminal : Bool} {state : ExecState} :
    Safe codec forgets (At a k) (reattach codec a k terminal state) (fun _ => At a k) (At a k) := by
  have hdelete : Safe codec forgets (At a k) (deleteExec k false) (fun _ => At a k) (At a k) :=
    safe_deleteExec fun _ _ h => h
  cases state with
  | created =>
    refine Safe.bind (safe_save_at fun _ _ => rfl) fun _ => ?_
    exact hdelete.ignoring.bind fun _ => safe_closeDone
  | stopped code time =>
    unfold reattach
    split_ifs
    · exact (hdelete.ifNotFound (Safe.pure fun _ h => h)).bind fun _ => safe_closeDone
    · exact Safe.pure fun _ h => h
  | running => exact safe_save_at fun _ _ => rfl

omit [Inhabited β] in
/-- What recovery reads was written by `saveProcess` for this directory, so it finds the record of
this process in it. -/
theorem Sound.decode (hs : Sound codec s) {file : File β} (hfile : s.record? k = some file) :
    ∃ info, codec.decode file.content = some info ∧ Valid info ∧ info.key = k := by
  obtain ⟨-, info, returned, hmem, hkey, hcontent⟩ := hs.record k file hfile
  obtain ⟨info', hdecode, hkey'⟩ := codec.decode_encode info
  refine ⟨info', hcontent ▸ hdecode, (hs.valid info returned hmem).of_key hkey', hkey'.trans hkey⟩

theorem safe_recoverProcess :
    Safe codec forgets Always (recoverProcess codec k) (fun _ => Always) Always := by
  refine Safe.bind (K := fun b _ => ∃ info, codec.decode b = some info ∧ Valid info ∧ info.key = k)
    (Safe.query (fun s b hs _ h => ?_) (fun s e h => ?_) fun _ h => h) fun b => ?_
  · cases hfile : s.record? k with
    | none => rw [hfile] at h; exact nomatch h
    | some file =>
      rw [hfile] at h
      cases h
      exact hs.decode hfile
  · cases hfile : s.record? k with
    | none => rw [hfile] at h; cases h; trivial
    | some file => rw [hfile] at h; exact nomatch h
  refine Safe.assuming (fun _ h => h) fun hb => ?_
  obtain ⟨info, hdecode, hvalid, hkey⟩ := hb
  rw [hdecode]
  dsimp only
  refine Safe.bind (K := fun _ => Always)
    (Safe.when (fun hinvalid => absurd ⟨hvalid.1, hvalid.2, hkey⟩ hinvalid) fun _ _ _ => trivial)
    fun _ => ?_
  refine Safe.bind (K := fun a s => s.memory.heap.length = a) (Safe.look fun _ _ _ => rfl) fun a => ?_
  have henroll : Safe codec forgets (fun s => s.memory.heap.length = a)
      (update fun _ s => s.enroll info) (fun _ => At a k) Always :=
    safe_enroll (fun _ => hvalid) fun _ => hkey
  refine henroll.bind fun _ => ?_
  have hload : Safe codec forgets (At a k) (optional (loadProcess a k)) (fun _ => At a k) (At a k) :=
    safe_loadProcess.optional fun _ h => h
  refine Safe.always (Q := fun _ => At a k) (hload.bind fun found => ?_)
  cases found with
  | some _ => exact safe_execState.bind fun state => safe_reattach
  | none =>
    refine Safe.bind (Safe.when (fun _ => safe_save_at fun _ _ => rfl) fun _ _ h => h) fun _ => ?_
    exact safe_closeDone

/-- **Recovery** makes no move that removes a `process.json`, and raises no error about its
content. -/
theorem safe_recoverProcesses :
    Safe codec false Always (recoverProcesses codec) (fun _ => Always) Always := by
  refine safe_query_ok.bind fun _ => ?_
  refine Safe.bind (K := fun _ => Always) (Safe.look fun _ _ h => h) fun dirs => ?_
  refine Safe.bind (Safe.forEach fun _ => safe_sweepDir) fun _ => ?_
  refine Safe.bind (K := fun _ => Always) (Safe.look fun _ _ h => h) fun paths => ?_
  refine Safe.bind (K := fun _ => Always)
    (Safe.update (fun _ _ hs _ => .single (.memory hs.object)) fun _ _ _ h => h) fun _ => ?_
  exact Safe.forEach fun _ => safe_recoverProcess

theorem safe_boot : Safe codec true Always (boot codec) (fun _ => Always) Always := by
  refine safe_recoverProcesses.mono.bind fun _ => safe_reconcile.bind fun _ => ?_
  exact Safe.update (fun _ _ hs _ => .single (.memory hs.object)) fun _ _ _ h => h

end Sandcube.Metadata
