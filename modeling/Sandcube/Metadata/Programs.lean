import Sandcube.Metadata.Steps

/-!
# The programs make only moves

One lemma for each program: it is `Safe`, with what its callers need to know of the state it
leaves.
-/

namespace Sandcube.Metadata

open Adapter (Key ProcessInfo ExecRequest ExecState Host validID validProcessID failedInfo globOrder)
open Prog (Does raise rescue forEach when)
open Relation

variable {β : Type} {codec : Codec β} {forgets : Bool}
variable {s : Site β} {k : Key} {n : ℕ} {file : File β} {P E : Site β → Prop} {id : String}

/-! ### `saveProcess` -/

section Saving

variable (codec) (info : ProcessInfo) (m : Memory)

/-- A call of `saveProcess` is under way. -/
def Saving (s : Site β) : Prop := s.memory = m ∧ ∃ es, s.log = .save info false :: es

/-- Its new file is this one. -/
def Drafted (n : ℕ) (file : File β) (s : Site β) : Prop :=
  Saving info m s ∧ s.disk.file? info.key (.pending n) = some file

/-- Its rename has happened. -/
def Published (s : Site β) : Prop :=
  Saving info m s ∧ s.record? info.key = some ⟨codec.encode info, true⟩

end Saving

/-- A file under another name is not `process.json`. -/
theorem record?_put {name : FileName} (hname : name ≠ .processJson) (file : File β) (k' : Key) :
    (s.disk.put k name file).file? k' .processJson = s.record? k' :=
  Disk.file?_put_of_ne _ file hname.symm

theorem record?_unlink {name : FileName} (hname : name ≠ .processJson) (k' : Key) :
    (s.disk.unlink k name).file? k' .processJson = s.record? k' :=
  Disk.file?_unlink_of_ne _ hname.symm

/-- A file that was put into a directory that exists. -/
theorem file?_put_self {d : Disk Key FileName β} (hdir : d.HasDir k) (name : FileName)
    (file : File β) : (d.put k name file).file? k name = some file := by
  obtain ⟨files, hfiles⟩ := Option.isSome_iff_exists.mp hdir
  rw [Disk.file?_put, if_pos ⟨rfl, rfl⟩, hfiles, Option.map_some]

section Saving

variable [Inhabited β] {info : ProcessInfo} {m : Memory}

theorem safe_createTemp :
    Safe codec forgets (Saving info m) (createTemp info.key)
      (fun n s => ∃ file, Drafted info m n file s) (Saving info m) := by
  refine Safe.call (fun env s _ hP => ?_) (fun env s n _ hP h => ?_) (fun env s e _ h => ?_)
    fun env s _ hP => ⟨hP, ?_⟩
  · split_ifs
    · exact .refl
    · exact .single (.draft (record?_put (by simp) _))
    · exact .refl
  · split_ifs at h ⊢ with hdir hfile
    cases h
    exact ⟨_, hP, file?_put_self hdir _ _⟩
  · split_ifs at h <;> cases h <;> trivial
  · split_ifs <;> exact hP

theorem safe_write (b : β) :
    Safe codec forgets (Drafted info m n file) (write info.key n b)
      (fun _ => Drafted info m n ⟨b, false⟩) (Saving info m) := by
  refine Safe.atomic (fun env s _ _ => ?_) (fun env s _ _ hP h => ?_) fun env s e _ hP h => ?_
  · cases env.fault with
    | none | some fault => exact .single (.draft (record?_put (by simp) _))
  · cases hfault : env.fault with
    | none => exact ⟨hP.1, file?_put_self (Disk.hasDir_of_file? hP.2) _ _⟩
    | some fault => rw [hfault] at h; exact nomatch h
  · cases hfault : env.fault with
    | none => rw [hfault] at h; exact nomatch h
    | some fault =>
      rw [hfault] at h
      cases h
      exact ⟨trivial, hP.1⟩

theorem safe_sync :
    Safe codec forgets (Drafted info m n file) (sync info.key n)
      (fun _ => Drafted info m n { file with synced := true }) (Saving info m) := by
  refine Safe.call (fun env s _ hP => ?_) (fun env s _ _ hP h => ?_) (fun env s e hP h => ?_)
    fun env s _ hP => ⟨hP.1, ?_⟩ <;> rw [hP.2] at *
  · exact .single (.draft (record?_put (by simp) _))
  · exact ⟨hP.1, file?_put_self (Disk.hasDir_of_file? hP.2) _ _⟩
  · exact nomatch h
  · exact hP.1

theorem safe_rename :
    Safe codec forgets (Drafted info m n ⟨codec.encode info, true⟩) (rename info.key n)
      (fun _ => Published codec info m) (Saving info m) := by
  have hrecord : ∀ s, Drafted info m n ⟨codec.encode info, true⟩ s → ∀ k,
      (s.disk.rename info.key (.pending n) .processJson).file? k .processJson =
        if k = info.key then some ⟨codec.encode info, true⟩ else s.record? k := by
    intro s hP k
    split_ifs with hkey
    · subst hkey
      exact Disk.file?_rename_self _ hP.2
    · exact Disk.file?_rename_of_ne _ (fun h => hkey h.1) (by simp)
  refine Safe.call (fun env s _ hP => ?_) (fun env s _ _ hP h => ?_) (fun env s e hP h => ?_)
    fun env s _ hP => ⟨hP.1, ?_⟩
  · obtain ⟨es, hlog⟩ := hP.1.2
    rw [hP.2]
    exact .single (.publish hlog (hrecord s hP))
  · rw [hP.2]
    exact ⟨hP.1, (hrecord s hP info.key).trans (if_pos rfl)⟩
  · rw [hP.2] at h
    exact nomatch h
  · rw [hP.2]
    exact hP.1

/-- The removal of the new file, of which nothing depends any more. -/
theorem safe_removeTemp {k : Key} {n : ℕ} {P : Site β → Prop}
    (hP : ∀ s disk, P s → (∀ k, disk.file? k .processJson = s.record? k) →
      P { s with disk := disk }) :
    Safe codec forgets P (removeTemp k n) (fun _ => P) P := by
  have hrecord : ∀ (s : Site β) k', (s.disk.unlink k (.pending n)).file? k' .processJson = s.record? k' :=
    fun s => record?_unlink (by simp)
  refine Safe.call (fun env s _ _ => ?_) (fun env s _ _ hs _ => ?_) (fun env s e _ h => ?_)
    fun env s _ hs => ⟨hs, ?_⟩
  · split
    · exact .refl
    · exact .single (.draft (hrecord s))
  · split
    · exact hs
    · exact hP s _ hs (hrecord s)
  · split at h <;> cases h
    trivial
  · split
    · exact hs
    · exact hP s _ hs (hrecord s)

/-- A question that every state answers. -/
theorem safe_query_ok : Safe codec forgets P (query fun _ => .ok ()) (fun _ => P) P :=
  Safe.query (fun _ _ _ hP _ => hP) (fun _ _ h => nomatch h) fun _ hP => hP

theorem safe_close :
    Safe codec forgets P (attempt (query fun _ => .ok ()))
      (fun r s => (∀ e, r = some e → e.Proper) ∧ P s) E := by
  refine (Safe.attempt safe_query_ok).conseq (fun _ h => h) (fun r s h => ?_) fun _ h => h
  cases r with
  | none => exact ⟨fun _ h => (nomatch h), h⟩
  | some e => exact ⟨fun e' h' => Option.some.inj h' ▸ h.1, h.2⟩

/-- From the write to the sync of the directory. -/
theorem safe_replace :
    Safe codec forgets (Drafted info m n file)
      (do
        let err ← attempt (do write info.key n (codec.encode info); sync info.key n)
        let closeErr ← attempt (query fun _ => .ok ())
        check err
        check closeErr
        rename info.key n
        query fun _ => .ok ()
        query fun _ => .ok ())
      (fun _ => Published codec info m) (Saving info m) := by
  have hwrite : Safe codec forgets (Drafted info m n file)
      (do write info.key n (codec.encode info); sync info.key n)
      (fun _ => Drafted info m n ⟨codec.encode info, true⟩) (Saving info m) :=
    (safe_write (codec.encode info)).bind fun _ => safe_sync
  refine hwrite.attempt.bind fun err => safe_close.bind fun closeErr => ?_
  refine Safe.bind (K := fun _ s => (∀ e, closeErr = some e → e.Proper) ∧
    Drafted info m n ⟨codec.encode info, true⟩ s) (Safe.check fun s hs => ?_) fun _ => ?_
  · cases err with
    | none => exact hs
    | some e => exact hs.2
  refine Safe.bind (K := fun _ => Drafted info m n ⟨codec.encode info, true⟩)
    (Safe.check fun s hs => ?_) fun _ => ?_
  · cases closeErr with
    | none => exact hs.2
    | some e => exact ⟨hs.1 e rfl, hs.2.1⟩
  -- Once the rename has happened an error of the directory changes nothing.
  have hdir : Safe codec forgets (Published codec info m) (query fun _ => .ok ())
      (fun _ => Published codec info m) (Saving info m) :=
    safe_query_ok.conseq (fun _ h => h) (fun _ _ h => h) fun _ h => h.1
  exact safe_rename.bind fun _ => hdir.bind fun _ => hdir

theorem safe_atomicJSON :
    Safe codec forgets (Saving info m) (atomicJSON info.key (codec.encode info))
      (fun _ => Published codec info m) (Saving info m) := by
  refine safe_createTemp.bind fun n => Safe.of_exists fun file => ?_
  refine Safe.deferring safe_replace (safe_removeTemp fun s disk hs hdisk => ?_)
    (safe_removeTemp fun s disk hs _ => hs)
  exact ⟨hs.1, (hdisk info.key).trans hs.2⟩

/-- `saveProcess` of a record with valid identifiers.  When it returns nil there is a
`process.json`. -/
theorem safe_saveProcess (hvalid : Valid info) :
    Safe codec forgets (fun s => s.memory = m) (saveProcess codec info)
      (fun _ s => s.memory = m ∧ s.record? info.key ≠ none) (fun s => s.memory = m) := by
  refine Safe.bind (K := fun _ => Saving info m)
    (Safe.update (fun _ _ _ _ => .single (.save hvalid)) fun _ s _ hs => ⟨hs, s.log, rfl⟩) fun _ => ?_
  refine (safe_atomicJSON.conseq (fun _ h => h) (fun _ _ h => h) fun _ h => h.1).bind fun _ => ?_
  have hreturned : ∀ s : Site β, Published codec info m s → ∃ es,
      s.log = .save info false :: es ∧ s.acknowledge = { s with log := .save info true :: es } := by
    intro s hs
    obtain ⟨es, hlog⟩ := hs.1.2
    refine ⟨es, hlog, ?_⟩
    unfold Site.acknowledge
    rw [hlog]
  refine Safe.update (fun _ s _ hs => ?_) fun _ s _ hs => ?_
  · obtain ⟨es, hlog, h⟩ := hreturned s hs
    rw [h]
    exact .single (.returned hlog hs.2)
  · obtain ⟨es, hlog, h⟩ := hreturned s hs
    rw [h]
    exact ⟨hs.1.1, hs.2.trans_ne (Option.some_ne_none _)⟩

end Saving

/-! ### Records in memory -/

/-- The record at `a` is about this process. -/
def At (a : ℕ) (k : Key) (s : Site β) : Prop := ∃ p, s.memory.heap[a]? = some p ∧ p.info.key = k

section Records

variable {a : ℕ} {k : Key}

/-- A change of a record that keeps its identifiers. -/
theorem Sound.valid_modify (hs : Sound codec s) (a : ℕ) {f : Object → Object}
    (hf : ∀ p, (f p).info.key = p.info.key) : ∀ p ∈ s.memory.heap.modify a f, Valid p.info := by
  intro p hp
  obtain ⟨i, hi⟩ := List.mem_iff_getElem?.mp hp
  rw [List.getElem?_modify] at hi
  obtain ⟨q, hq, rfl⟩ := Option.map_eq_some_iff.mp hi
  have hvalid := hs.object q (List.mem_of_getElem? hq)
  split_ifs
  · exact hvalid.of_key (hf q)
  · exact hvalid

theorem At.modify (h : At a k s) {f : Object → Object} (hf : ∀ p, (f p).info.key = p.info.key) :
    At a k (s.setObject a f) := by
  obtain ⟨p, hp, hkey⟩ := h
  refine ⟨f p, ?_, (hf p).trans hkey⟩
  show (s.memory.heap.modify a f)[a]? = some (f p)
  rw [List.getElem?_modify, hp, Option.map_eq_map, Option.map_some, if_pos rfl]

variable [Inhabited β]

theorem safe_setObject {f : Time → Object → Object} (hf : ∀ now p, (f now p).info.key = p.info.key)
    {E : Site β → Prop} :
    Safe codec forgets (At a k) (update fun now s => s.setObject a (f now)) (fun _ => At a k) E :=
  Safe.update (fun now _ hs _ => .single (.memory (hs.valid_modify a (hf now))))
    fun now _ _ h => h.modify (hf now)

theorem safe_attach : Safe codec forgets (At a k) (attach a) (fun _ => At a k) E :=
  safe_setObject (f := fun _ p => { p with proc := true }) fun _ _ => rfl

theorem safe_closeDone : Safe codec forgets (At a k) (closeDone a) (fun _ => At a k) E :=
  safe_setObject (f := fun _ p => { p with done := true }) fun _ _ => rfl

/-- A save of the record at `a`. -/
theorem safe_save {f : Time → ProcessInfo → ProcessInfo} (hf : ∀ now info, (f now info).key = info.key) :
    Safe codec forgets (At a k) (save codec a f) (fun _ s => At a k s ∧ s.record? k ≠ none)
      (At a k) := by
  refine (safe_setObject fun now p => hf now p.info).bind fun _ => ?_
  refine Safe.bind (K := fun r s => ∃ m, s.memory = m ∧ ∃ p, r = some p ∧ m.heap[a]? = some p ∧
    p.info.key = k ∧ Valid p.info) (Safe.look fun s hs h => ?_) fun r => Safe.of_exists fun m => ?_
  · obtain ⟨p, hp, hkey⟩ := h
    exact ⟨s.memory, rfl, p, hp, hp, hkey, hs.object p (List.mem_of_getElem? hp)⟩
  refine Safe.assuming (fun _ h => h.2) fun hr => ?_
  obtain ⟨p, rfl, hp, rfl, hvalid⟩ := hr
  have hat : ∀ s : Site β, s.memory = m → At a p.info.key s := fun s h => ⟨p, h ▸ hp, rfl⟩
  exact (safe_saveProcess hvalid).conseq (fun _ h => h.1) (fun _ s h => ⟨hat s h.1, h.2⟩) hat

theorem safe_save_at {f : Time → ProcessInfo → ProcessInfo}
    (hf : ∀ now info, (f now info).key = info.key) :
    Safe codec forgets (At a k) (save codec a f) (fun _ => At a k) (At a k) :=
  (safe_save hf).conseq (fun _ h => h) (fun _ _ h => h.1) fun _ h => h

end Records

/-! ### containerd -/

namespace Containerd

variable {c : Containerd}

theorem Later.refl (c : Containerd) : c.Later c := ⟨fun _ hk => ⟨hk, fun h => h⟩, fun h => h⟩

/-- Execs change or go. -/
theorem later_execs {execs : Table Key ExecState}
    (h : ∀ k, execs.find? k ≠ none → c.execs.find? k ≠ none) : c.Later { c with execs := execs } :=
  ⟨fun k hk => ⟨h k hk, fun h => h⟩, fun h => h⟩

theorem later_eraseExec (k : Key) : c.Later { c with execs := c.execs.erase k } :=
  later_execs fun _ hk hnone => hk ((c.execs.sub_erase k).find?_eq_none hnone)

theorem later_modifyExec (k : Key) (f : ExecState → ExecState) :
    c.Later { c with execs := c.execs.modify k f } := by
  refine later_execs fun k' hk hnone => hk ?_
  rw [Table.find?_modify, hnone]
  split_ifs <;> rfl

theorem later_removeTask (id : String) :
    c.Later { c with tasks := c.tasks.erase id, execs := c.execs.eraseWhere fun k => k.1 = id } where
  exec k hk := by
    have hk : (c.execs.eraseWhere fun k => k.1 = id).find? k ≠ none := hk
    rw [Table.find?_eraseWhere] at hk
    split_ifs at hk with hid
    · exact absurd rfl hk
    · have hid : k.1 ≠ id := fun h => hid (decide_eq_true h)
      exact ⟨hk, fun h => (Table.find?_erase_of_ne _ hid).trans_ne h⟩
  task h id' hid := h id' fun hnone => hid ((c.tasks.sub_erase id).find?_eq_none hnone)

theorem later_removeContainer (hid : c.tasks.find? id = none) :
    c.Later { c with containers := c.containers.erase id } where
  exec _ hk := ⟨hk, fun h => h⟩
  task h id' hid' := by
    have hne : id' ≠ id := fun h => hid' (h ▸ hid)
    exact (Table.find?_erase_of_ne _ hne).trans (h id' hid')

end Containerd

section Calls

variable [Inhabited β] {a : ℕ} {k : Key} {P : Site β → Prop}

/-- A call that changes at most containerd. -/
theorem safe_containerd {f : Site β → Except Failure Unit × Site β}
    (hf : ∀ s, ∃ c, s.containerd.Later c ∧ (f s).2 = { s with containerd := c })
    (herr : ∀ s e, (f s).1 = .error e → e.Proper)
    (hP : ∀ s c, P s → P { s with containerd := c }) :
    Safe codec forgets P (call fun _ => f) (fun _ => P) P := by
  have hkept : ∀ s, P s → P (f s).2 := by
    intro s hs
    obtain ⟨c, -, h⟩ := hf s
    rw [h]
    exact hP s c hs
  refine Safe.call (fun _ s _ _ => ?_) (fun _ s _ _ hs _ => hkept s hs) (fun _ s e _ h => herr s e h)
    fun _ s _ hs => ⟨hs, hkept s hs⟩
  obtain ⟨c, hlater, h⟩ := hf s
  rw [h]
  exact .single (.containerd hlater)

theorem safe_startExec (hP : ∀ s c, P s → P { s with containerd := c }) :
    Safe codec forgets P (startExec k) (fun _ => P) P := by
  refine safe_containerd (fun s => ?_) (fun s e h => ?_) hP
  · split
    · exact ⟨_, Containerd.later_modifyExec k _, rfl⟩
    · exact ⟨_, .refl _, rfl⟩
  · split at h <;> cases h
    trivial

theorem safe_deleteExec {kill : Bool} (hP : ∀ s c, P s → P { s with containerd := c }) :
    Safe codec forgets P (deleteExec k kill) (fun _ => P) P := by
  refine safe_containerd (fun s => ?_) (fun s e h => ?_) hP
  · split
    · exact ⟨_, .refl _, rfl⟩
    · split_ifs
      · exact ⟨_, .refl _, rfl⟩
      · exact ⟨_, Containerd.later_eraseExec k, rfl⟩
  · split at h
    · cases h
      trivial
    · split_ifs at h
      cases h
      trivial

theorem safe_execState : Safe codec forgets P (execState k) (fun _ => P) P := by
  refine Safe.query (fun _ _ _ h _ => h) (fun s e h => ?_) fun _ h => h
  cases hk : s.containerd.execs.find? k with
  | none => rw [hk] at h; cases h; trivial
  | some _ => rw [hk] at h; exact nomatch h

theorem safe_taskStatus : Safe codec forgets P (taskStatus id) (fun _ => P) P := by
  refine Safe.query (fun _ _ _ h _ => h) (fun s e h => ?_) fun _ h => h
  cases hid : s.containerd.tasks.find? id with
  | none => rw [hid] at h; cases h; trivial
  | some _ => rw [hid] at h; exact nomatch h

theorem safe_load : Safe codec forgets P (load id) (fun _ => P) P := by
  refine Safe.query (fun _ _ _ h _ => h) (fun s e h => ?_) fun _ h => h
  split_ifs at h
  cases h
  exact trivial

theorem safe_discardExec (hP : ∀ s c, P s → P { s with containerd := c }) :
    Safe codec forgets P (discardExec k) (fun _ => P) E := by
  have hstate : Safe codec forgets P (do return some (← execState k)) (fun _ => P) P :=
    safe_execState.bind fun _ => Safe.pure fun _ h => h
  exact (hstate.rescue fun _ _ => Safe.pure fun _ h => h).bind fun _ =>
    (safe_deleteExec hP).ignoring

/-- An exec is created only once its record is there. -/
theorem safe_createExec :
    Safe codec forgets (fun s => At a k s ∧ s.record? k ≠ none) (createExec k) (fun _ => At a k)
      (At a k) := by
  refine Safe.call (fun _ s _ hs => ?_) (fun _ s _ _ hs _ => ?_) (fun _ s e _ h => ?_)
    fun _ s _ hs => ⟨hs.1, ?_⟩
  · split
    · exact .refl
    · exact .refl
    · rename_i htask _
      exact .single (.createExec hs.2 (htask.trans_ne (Option.some_ne_none _)))
  · split <;> exact hs.1
  · split at h <;> cases h <;> trivial
  · split <;> exact hs.1

/-! ### `StartProcess` -/

theorem safe_mkfifo {name : String} :
    Safe codec forgets (fun s => At a k s ∧ s.record? k ≠ none) (mkfifo k name)
      (fun _ s => At a k s ∧ s.record? k ≠ none) (At a k) := by
  have hrecord : ∀ (s : Site β) file k', (s.disk.put k (.file name) file).file? k' .processJson =
      s.record? k' := fun s => record?_put (by simp)
  refine Safe.call (fun _ s _ hs => ?_) (fun _ s _ _ hs _ => ?_) (fun _ s e _ h => ?_)
    fun _ s _ hs => ⟨hs.1, ?_⟩
  · split_ifs
    · exact .refl
    · exact .single (.draft (hrecord s _))
    · exact .refl
  · split_ifs
    · exact hs
    · exact ⟨hs.1, (hrecord s _ k).trans_ne hs.2⟩
    · exact hs
  · split_ifs at h <;> cases h <;> trivial
  · split_ifs <;> exact hs.1

theorem safe_mkdir :
    Safe codec forgets (At a k) (call fun _ s => (.ok (), s.setDisk fun d => d.mkdir k))
      (fun _ => At a k) (At a k) :=
  Safe.call (fun _ s _ _ => .single (.draft fun k' => Disk.file?_mkdir s.disk k k' _))
    (fun _ _ _ _ h _ => h) (fun _ _ _ _ h => nomatch h) fun _ _ _ h => ⟨h, h⟩

theorem safe_begin :
    Safe codec forgets (At a k) (begin codec a k) (fun _ => At a k) (At a k) := by
  have hcontainerd : ∀ (s : Site β) c, At a k s → At a k { s with containerd := c } :=
    fun _ _ h => h
  have hask : Safe codec forgets (fun s => At a k s ∧ s.record? k ≠ none) (query fun _ => .ok ())
      (fun _ s => At a k s ∧ s.record? k ≠ none) (At a k) :=
    safe_query_ok.conseq (fun _ h => h) (fun _ _ h => h) fun _ h => h.1
  refine safe_mkdir.bind fun _ => (safe_save fun _ _ => rfl).bind fun _ => ?_
  refine safe_mkfifo.bind fun _ => safe_mkfifo.bind fun _ => hask.bind fun _ => hask.bind fun _ => ?_
  refine safe_createExec.bind fun _ => safe_attach.bind fun _ => ?_
  refine (safe_startExec hcontainerd).rescue fun e he => ?_
  exact (safe_discardExec hcontainerd).bind fun _ => Safe.raise he fun _ h => h

theorem safe_bringUp :
    Safe codec forgets (At a k) (bringUp codec a k) (fun _ => Always) Always := by
  refine Safe.bind (K := fun _ => At a k) (safe_begin.rescue fun e he => ?_) fun _ => ?_
  · refine Safe.bind (Safe.ignoring (safe_save_at fun _ _ => rfl)) fun _ => ?_
    exact safe_closeDone.bind fun _ => Safe.raise he fun _ _ => trivial
  · exact Safe.conseq (safe_save_at fun _ _ => rfl) (fun _ h => h) (fun _ _ _ => trivial)
      fun _ _ => trivial

/-- A new record with valid identifiers. -/
theorem safe_enroll {info : Time → ProcessInfo} (hvalid : ∀ now, Valid (info now))
    (hkey : ∀ now, (info now).key = k) :
    Safe codec forgets (fun s => s.memory.heap.length = a) (update fun now s => s.enroll (info now))
      (fun _ => At a k) E := by
  refine Safe.update (fun now s hs _ => .single (.memory fun p hp => ?_)) fun now s _ hlen => ?_
  · rcases List.mem_append.mp hp with hp | hp
    · exact hs.object p hp
    · rw [List.mem_singleton.mp hp]
      exact hvalid now
  · refine ⟨⟨info now, false, false⟩, ?_, hkey now⟩
    show (s.memory.heap ++ [_])[a]? = _
    rw [← hlen]
    exact List.getElem?_concat_length

theorem safe_startProcess (host : Host) {draw : String} (req : ExecRequest)
    (hid : validID id = true) (hdraw : validProcessID draw = true) :
    Safe codec forgets Always (startProcess codec host id req draw) (fun _ => Always) Always := by
  refine safe_load.bind fun _ => ?_
  -- The identifier of the process is one that was checked, or the drawn one.
  refine Safe.bind (K := fun _ _ => ¬ (req.requestId ≠ "" ∧ ¬ validProcessID req.requestId = true))
    (Safe.when (fun _ => Safe.raise trivial fun _ _ => trivial) fun h _ _ => h) fun _ => ?_
  refine Safe.assuming (fun _ h => h) fun hreq => ?_
  have hpid : validProcessID (if req.requestId = "" then draw else req.requestId) = true := by
    split_ifs with hempty
    · exact hdraw
    · by_contra h
      exact hreq ⟨hempty, h⟩
  refine Safe.bind (K := fun _ => Always) (Safe.look fun _ _ _ => trivial) fun known => ?_
  cases known with
  | some info =>
    dsimp only
    split_ifs
    · exact Safe.pure fun _ h => h
    · exact Safe.raise trivial fun _ h => h
  | none =>
    have hstatus : Safe codec forgets Always
        (ifNotFound (taskStatus id) (raise (.err .failedPrecondition))) (fun _ => Always) Always :=
      safe_taskStatus.ifNotFound (Safe.raise trivial fun _ h => h)
    refine hstatus.bind fun status => ?_
    refine Safe.bind (K := fun _ => Always)
      (Safe.when (fun _ => Safe.raise trivial fun _ h => h) fun _ _ h => h) fun _ => ?_
    refine safe_query_ok.bind fun _ => ?_
    refine Safe.bind (K := fun a s => s.memory.heap.length = a) (Safe.look fun _ _ _ => rfl)
      fun a => ?_
    set pid := if req.requestId = "" then draw else req.requestId
    have hvalid : ∀ now, Valid (Adapter.World.newInfo host id req pid now) := fun _ => ⟨hid, hpid⟩
    have hkey : ∀ now, (Adapter.World.newInfo host id req pid now).key = (id, pid) := fun _ => rfl
    exact Safe.bind (safe_enroll hvalid hkey) fun _ => safe_bringUp

/-! ### `watchProcess` -/

/-- What a turn of the watcher makes of the state of its exec. -/
theorem safe_watchState {state : Option ExecState} :
    Safe codec forgets (At a k)
      (match state with
      | none => do
        save codec a fun now info => Adapter.World.lost info now
        closeDone a
      | some (.stopped code time) => do
        let complete ← look fun s => (s.disk.file? k (.file "logs.done")).isSome
        save codec a fun now info => Adapter.World.exited info complete code (time.getD now)
        ignoring (deleteExec k false)
        closeDone a
      | some _ =>
        update fun now s => s.setObject a fun p =>
          { p with
            info :=
              if Adapter.World.late p.info now then { p.info with timedOut := true } else p.info })
      (fun _ => At a k) (At a k) := by
  match state with
  | none => exact Safe.bind (safe_save_at fun _ _ => rfl) fun _ => safe_closeDone
  | some (.stopped code time) =>
    refine Safe.bind (K := fun _ => At a k) (Safe.look fun _ _ h => h) fun complete => ?_
    refine Safe.bind (safe_save_at fun _ _ => rfl) fun _ => ?_
    exact (safe_deleteExec fun _ _ h => h).ignoring.bind fun _ => safe_closeDone
  | some .created | some .running =>
    refine safe_setObject fun now p => ?_
    dsimp only
    split_ifs <;> rfl

theorem safe_watchProcess :
    Safe codec forgets Always (watchProcess codec a) (fun _ => Always) Always := by
  refine Safe.bind (K := fun r s => ∀ p, r = some p → At a p.info.key s)
    (Safe.look fun s _ _ p hp => ⟨p, hp, rfl⟩) fun r => ?_
  cases r with
  | none => exact Safe.pure fun _ _ => trivial
  | some p =>
    have hturn : Safe codec forgets (At a p.info.key) (optional (execState p.info.key))
        (fun _ => At a p.info.key) (At a p.info.key) := safe_execState.optional fun _ h => h
    exact Safe.conseq (hturn.bind fun _ => safe_watchState) (fun _ h => h p rfl)
      (fun _ _ _ => trivial) fun _ _ => trivial

end Calls

end Sandcube.Metadata
