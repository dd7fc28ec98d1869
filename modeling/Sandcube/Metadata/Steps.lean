import Sandcube.Metadata.Model

/-!
# What the file operations do to the records

Every step of every program is one of a few moves (`Move`), and every move keeps what a state has
to satisfy (`Sound`): `process.json` is always a complete record, the log tells which one, and an
exec has its record.

A move that removes `process.json` needs a call of `forgetProcesses` that has begun, for a sandbox
without a container.  The programs of recovery make no such move, which is what the parameter
`forgets` is for.
-/

namespace Sandcube.Metadata

open Adapter (Key ProcessInfo ExecRequest ExecState Host validID validProcessID failedInfo globOrder)
open Prog (Does raise rescue forEach when)
open Relation

variable {β : Type}

/-! ### What a state satisfies -/

/-- The identifiers of a record are valid. -/
def Valid (info : ProcessInfo) : Prop := validID info.sandboxId ∧ validProcessID info.id

theorem Valid.of_key {info info' : ProcessInfo} (h : Valid info) (hkey : info'.key = info.key) :
    Valid info' := by
  have hid : info'.sandboxId = info.sandboxId := congrArg Prod.fst hkey
  have hpid : info'.id = info.id := congrArg Prod.snd hkey
  rw [Valid, hid, hpid]
  exact h

/-- What the log says about `process.json`: it has the content of the newest save that returned
nil, or of a later save that did not, unless the sandbox was forgotten since. -/
def Current (codec : Codec β) (k : Key) (content : Option β) : List Event → Prop
  | [] => True
  | .save info returned :: es =>
    (info.key = k ∧ content = some (codec.encode info)) ∨
      ((info.key = k → returned = false) ∧ Current codec k content es)
  | .forget id :: es => id = k.1 ∨ Current codec k content es

/-- The invariant. -/
structure Sound (codec : Codec β) (s : Site β) : Prop where
  record : ∀ k file, s.record? k = some file → file.synced = true ∧
    ∃ info returned, Event.save info returned ∈ s.log ∧ info.key = k ∧
      file.content = codec.encode info
  valid : ∀ info returned, Event.save info returned ∈ s.log → Valid info
  current : ∀ k, Current codec k ((s.record? k).map File.content) s.log
  exec : ∀ k, s.containerd.execs.find? k ≠ none →
    s.record? k ≠ none ∧ s.containerd.tasks.find? k.1 ≠ none
  task : ∀ id, s.containerd.tasks.find? id ≠ none → s.managed id = true
  object : ∀ p ∈ s.memory.heap, Valid p.info

/-! ### Moves -/

/-- What `containerd` may become: no new execs, and tasks only in containers of the adapter. -/
structure Containerd.Later (c c' : Containerd) : Prop where
  exec : ∀ k, c'.execs.find? k ≠ none → c.execs.find? k ≠ none ∧
    (c.tasks.find? k.1 ≠ none → c'.tasks.find? k.1 ≠ none)
  task : (∀ id, c.tasks.find? id ≠ none → c.containers.find? id = some true) →
    ∀ id, c'.tasks.find? id ≠ none → c'.containers.find? id = some true

/-- One step of a program. -/
inductive Move (codec : Codec β) (forgets : Bool) (s : Site β) : Site β → Prop
  /-- A change of files that leaves every `process.json` as it is. -/
  | draft {disk} (hdisk : ∀ k, disk.file? k .processJson = s.record? k) :
    Move codec forgets s { s with disk := disk }
  /-- The rename of `saveProcess`. -/
  | publish {disk info es} (hlog : s.log = .save info false :: es)
    (hdisk : ∀ k, disk.file? k .processJson =
      if k = info.key then some ⟨codec.encode info, true⟩ else s.record? k) :
    Move codec forgets s { s with disk := disk }
  /-- `forgetProcesses` removes a `process.json`. -/
  | withdraw {disk k es} (hforgets : forgets = true) (hlog : s.log = .forget k.1 :: es)
    (hgone : s.managed k.1 = false)
    (hdisk : ∀ k', disk.file? k' .processJson = if k' = k then none else s.record? k') :
    Move codec forgets s { s with disk := disk }
  /-- `saveProcess` is called. -/
  | save {info} (hvalid : Valid info) : Move codec forgets s { s with log := .save info false :: s.log }
  /-- `saveProcess` returns nil. -/
  | returned {info es} (hlog : s.log = .save info false :: es)
    (hrecord : s.record? info.key = some ⟨codec.encode info, true⟩) :
    Move codec forgets s { s with log := .save info true :: es }
  /-- `forgetProcesses` is called. -/
  | forget {id} (hforgets : forgets = true) : Move codec forgets s { s with log := .forget id :: s.log }
  | createExec {k} (hrecord : s.record? k ≠ none) (htask : s.containerd.tasks.find? k.1 ≠ none) :
    Move codec forgets s (s.setExecs fun execs => execs.put k .created)
  | containerd {c} (hlater : s.containerd.Later c) : Move codec forgets s { s with containerd := c }
  | memory {m} (hvalid : ∀ p ∈ m.heap, Valid p.info) : Move codec forgets s { s with memory := m }

variable {codec : Codec β} {forgets : Bool}
variable {s s' : Site β} {k : Key}

theorem Move.mono (h : Move codec false s s') : Move codec true s s' := by
  cases h with
  | draft hdisk => exact .draft hdisk
  | publish hlog hdisk => exact .publish hlog hdisk
  | withdraw hforgets => exact nomatch hforgets
  | save hvalid => exact .save hvalid
  | returned hlog hrecord => exact .returned hlog hrecord
  | forget hforgets => exact nomatch hforgets
  | createExec hrecord htask => exact .createExec hrecord htask
  | containerd hlater => exact .containerd hlater
  | memory hvalid => exact .memory hvalid

/-- What recovery does never removes a `process.json`. -/
theorem Move.record_kept (h : Move codec false s s') (hk : s.record? k ≠ none) :
    s'.record? k ≠ none := by
  cases h with
  | draft hdisk => exact (hdisk k).trans_ne hk
  | publish _ hdisk =>
    refine (hdisk k).trans_ne ?_
    split_ifs
    · exact Option.some_ne_none _
    · exact hk
  | withdraw hforgets | forget hforgets => exact nomatch hforgets
  | save _ | returned _ _ | createExec _ _ | containerd _ | memory _ => exact hk

/-! ### The moves keep the invariant -/

/-- A change of files: it is enough to look at the `process.json` that changed. -/
theorem Sound.of_disk {s : Site β} (hs : Sound codec s) {disk : Disk Key FileName β}
    (hrecord : ∀ k, disk.file? k .processJson = s.record? k ∨
      (∃ info, Event.save info false ∈ s.log ∧ info.key = k ∧
        disk.file? k .processJson = some ⟨codec.encode info, true⟩) ∨
      (s.containerd.execs.find? k = none ∧ disk.file? k .processJson = none))
    (hcurrent : ∀ k, disk.file? k .processJson ≠ s.record? k →
      Current codec k ((disk.file? k .processJson).map File.content) s.log) :
    Sound codec { s with disk := disk } where
  record k file hfile := by
    have hfile : disk.file? k .processJson = some file := hfile
    rcases hrecord k with h | ⟨info, hmem, hkey, h⟩ | ⟨-, h⟩
    · exact hs.record k file (h.symm.trans hfile)
    · obtain rfl : (⟨codec.encode info, true⟩ : File β) = file := Option.some.inj (h.symm.trans hfile)
      exact ⟨rfl, info, false, hmem, hkey, rfl⟩
    · exact nomatch h.symm.trans hfile
  valid := hs.valid
  current k := by
    by_cases h : disk.file? k .processJson = s.record? k
    · exact (congrArg (fun r => Current codec k (r.map File.content) s.log) h).mpr (hs.current k)
    · exact hcurrent k h
  exec k hk := by
    refine ⟨?_, (hs.exec k hk).2⟩
    rcases hrecord k with h | ⟨info, -, -, h⟩ | ⟨h, -⟩
    · exact h.trans_ne (hs.exec k hk).1
    · exact h.trans_ne (Option.some_ne_none _)
    · exact absurd h hk
  task := hs.task
  object := hs.object

/-- A longer log. -/
theorem Sound.of_log {s : Site β} (hs : Sound codec s) {log : List Event}
    (hlog : ∀ info returned, Event.save info returned ∈ s.log →
      ∃ returned, Event.save info returned ∈ log)
    (hvalid : ∀ info returned, Event.save info returned ∈ log → Valid info)
    (hcurrent : ∀ k, Current codec k ((s.record? k).map File.content) log) :
    Sound codec { s with log := log } where
  record k file hfile := by
    obtain ⟨hsynced, info, returned, hmem, hkey, hcontent⟩ := hs.record k file hfile
    obtain ⟨returned, hmem⟩ := hlog info returned hmem
    exact ⟨hsynced, info, returned, hmem, hkey, hcontent⟩
  valid := hvalid
  current := hcurrent
  exec := hs.exec
  task := hs.task
  object := hs.object

theorem Sound.publish {s : Site β} (hs : Sound codec s) {disk : Disk Key FileName β}
    {info : ProcessInfo} {es : List Event} (hlog : s.log = .save info false :: es)
    (hdisk : ∀ k, disk.file? k .processJson =
      if k = info.key then some ⟨codec.encode info, true⟩ else s.record? k) :
    Sound codec { s with disk := disk } := by
  refine hs.of_disk (fun k => ?_) fun k hk => ?_
  · rw [hdisk k]
    split_ifs with hkey
    · exact .inr (.inl ⟨info, hlog ▸ List.mem_cons_self .., hkey.symm, rfl⟩)
    · exact .inl rfl
  · rw [hdisk k] at hk ⊢
    split_ifs at hk ⊢ with hkey
    · rw [hlog]
      exact .inl ⟨hkey.symm, rfl⟩
    · exact absurd rfl hk

theorem Sound.withdraw (hs : Sound codec s) {disk : Disk Key FileName β} {es : List Event}
    (hlog : s.log = .forget k.1 :: es) (hgone : s.managed k.1 = false)
    (hdisk : ∀ k', disk.file? k' .processJson = if k' = k then none else s.record? k') :
    Sound codec { s with disk := disk } := by
  -- Without a container there is no task, and without a task no exec.
  have hexec : s.containerd.execs.find? k = none := by
    by_contra hexec
    have hmanaged := hs.task k.1 (hs.exec k hexec).2
    exact nomatch hgone.symm.trans hmanaged
  refine hs.of_disk (fun k' => ?_) fun k' hk' => ?_
  · rw [hdisk k']
    split_ifs with hkey
    · exact .inr (.inr ⟨hkey ▸ hexec, rfl⟩)
    · exact .inl rfl
  · rw [hdisk k'] at hk' ⊢
    split_ifs at hk' ⊢ with hkey
    · rw [hlog]
      exact .inl (congrArg Prod.fst hkey).symm
    · exact absurd rfl hk'

theorem Sound.returned (hs : Sound codec s) {info : ProcessInfo} {es : List Event}
    (hlog : s.log = .save info false :: es)
    (hrecord : s.record? info.key = some ⟨codec.encode info, true⟩) :
    Sound codec { s with log := .save info true :: es } := by
  have hmem : ∀ e ∈ es, e ∈ s.log := fun e he => hlog ▸ List.mem_cons_of_mem _ he
  refine hs.of_log (fun info' returned h => ?_) (fun info' returned h => ?_) fun k => ?_
  · rw [hlog] at h
    rcases List.mem_cons.mp h with h | h
    · cases h
      exact ⟨true, List.mem_cons_self ..⟩
    · exact ⟨returned, List.mem_cons_of_mem _ h⟩
  · rcases List.mem_cons.mp h with h | h
    · cases h
      exact hs.valid info false (hlog ▸ List.mem_cons_self ..)
    · exact hs.valid info' returned (hmem _ h)
  · by_cases hkey : info.key = k
    · subst hkey
      exact .inl ⟨rfl, congrArg (Option.map File.content) hrecord⟩
    · have hcurrent := hs.current k
      rw [hlog] at hcurrent
      rcases hcurrent with ⟨h, -⟩ | ⟨-, h⟩
      · exact absurd h hkey
      · exact .inr ⟨fun h' => absurd h' hkey, h⟩

theorem Sound.createExec (hs : Sound codec s) (hrecord : s.record? k ≠ none)
    (htask : s.containerd.tasks.find? k.1 ≠ none) :
    Sound codec (s.setExecs fun execs => execs.put k .created) :=
  { hs with
    exec := fun k' hk' => by
      by_cases hkey : k' = k
      · subst hkey
        exact ⟨hrecord, htask⟩
      · have hfind : (s.containerd.execs.put k .created).find? k' = s.containerd.execs.find? k' :=
          Table.find?_put_of_ne _ hkey _
        exact hs.exec k' (hfind.symm.trans_ne hk') }

/-- **Every move keeps the invariant.** -/
theorem Move.sound (h : Move codec forgets s s') (hs : Sound codec s) : Sound codec s' := by
  cases h with
  | draft hdisk => exact hs.of_disk (fun k => .inl (hdisk k)) fun k hk => absurd (hdisk k) hk
  | publish hlog hdisk => exact hs.publish hlog hdisk
  | withdraw _ hlog hgone hdisk => exact hs.withdraw hlog hgone hdisk
  | save hvalid =>
    refine hs.of_log (fun info returned h => ⟨returned, List.mem_cons_of_mem _ h⟩)
      (fun info returned h => ?_) fun k => .inr ⟨fun _ => rfl, hs.current k⟩
    rcases List.mem_cons.mp h with h | h
    · cases h
      exact hvalid
    · exact hs.valid info returned h
  | returned hlog hrecord => exact hs.returned hlog hrecord
  | forget _ =>
    refine hs.of_log (fun info returned h => ⟨returned, List.mem_cons_of_mem _ h⟩)
      (fun info returned h => ?_) fun k => .inr (hs.current k)
    rcases List.mem_cons.mp h with h | h
    · exact nomatch h
    · exact hs.valid info returned h
  | createExec hrecord htask => exact hs.createExec hrecord htask
  | containerd hlater =>
    have htask := hlater.task fun id hid => of_decide_eq_true (hs.task id hid)
    refine { hs with exec := fun k hk => ?_, task := fun id hid => decide_eq_true (htask id hid) }
    obtain ⟨hexec, hkept⟩ := hlater.exec k hk
    exact ⟨(hs.exec k hexec).1, hkept (hs.exec k hexec).2⟩
  | memory hvalid => exact { hs with object := hvalid }

theorem Sound.of_moves (hs : Sound codec s) (h : ReflTransGen (Move codec forgets) s s') :
    Sound codec s' := by
  induction h with
  | refl => exact hs
  | tail _ hstep ih => exact hstep.sound ih

/-- A crash leaves every `process.json` as it is. -/
theorem Sound.record?_die (hs : Sound codec s) (loss : Key → FileName → β) (k : Key) :
    (s.die loss).record? k = s.record? k :=
  Disk.file?_crash_of_synced loss fun file hfile => (hs.record k file hfile).1

theorem Sound.die (hs : Sound codec s) (loss : Key → FileName → β) : Sound codec (s.die loss) := by
  have hdisk : Move codec false s { s with disk := s.disk.crash loss } :=
    .draft fun k => hs.record?_die loss k
  have hmemory : Move codec false { s with disk := s.disk.crash loss } (s.die loss) :=
    .memory fun p hp => nomatch hp
  exact hmemory.sound (hdisk.sound hs)

/-! ### Rules for programs -/

/-- Not an error about the content of a file. -/
def Failure.Proper : Failure → Prop
  | .err _ => True
  | .corrupt _ | .invalid _ => False

variable {α : Type} [Inhabited β]

/-- From a sound state with `P` the program makes only moves.  It ends in a state with `Q`, or it
raises a proper error in a state with `E`. -/
def Safe (codec : Codec β) (forgets : Bool) (P : Site β → Prop) (p : Op β α)
    (Q : α → Site β → Prop) (E : Site β → Prop) : Prop :=
  Does Adversary.any (Move codec forgets) (fun s => Sound codec s ∧ P s) p
    (fun a s => Sound codec s ∧ Q a s) fun e s => Sound codec s ∧ e.Proper ∧ E s

/-- Nothing is asked of the state. -/
def Always (_ : Site β) : Prop := True

namespace Safe

variable {P P' : Site β → Prop} {Q Q' : α → Site β → Prop} {E E' : Site β → Prop}

theorem mono {p : Op β α} (h : Safe codec false P p Q E) : Safe codec true P p Q E :=
  Does.mono h fun _ _ => Move.mono

theorem conseq {p : Op β α} (h : Safe codec forgets P' p Q' E') (hP : ∀ s, P s → P' s)
    (hQ : ∀ a s, Q' a s → Q a s) (hE : ∀ s, E' s → E s) : Safe codec forgets P p Q E :=
  Does.conseq h (fun s hs => ⟨hs.1, hP s hs.2⟩) (fun a s hs => ⟨hs.1, hQ a s hs.2⟩)
    fun _ s hs => ⟨hs.1, hs.2.1, hE s hs.2.2⟩

/-- What the program leaves does not matter. -/
theorem always {p : Op β α} (h : Safe codec forgets P p Q E) :
    Safe codec forgets P p (fun _ => Always) Always :=
  h.conseq (fun _ h => h) (fun _ _ _ => trivial) fun _ _ => trivial

theorem assuming {C : Prop} {p : Op β α} (hC : ∀ s, P s → C) (h : C → Safe codec forgets P p Q E) :
    Safe codec forgets P p Q E :=
  Does.assuming (fun s hs => hC s hs.2) h

theorem of_exists {ι : Type} {P : ι → Site β → Prop} {p : Op β α}
    (h : ∀ i, Safe codec forgets (P i) p Q E) : Safe codec forgets (fun s => ∃ i, P i s) p Q E :=
  fun s fs hfs hs => hs.2.elim fun i hi => h i s fs hfs ⟨hs.1, hi⟩

theorem pure {a : α} (h : ∀ s, P s → Q a s) : Safe codec forgets P (Pure.pure a) Q E :=
  Does.pure fun s hs => ⟨hs.1, h s hs.2⟩

theorem raise {e : Failure} (he : e.Proper) (h : ∀ s, P s → E s) :
    Safe codec forgets P (Prog.raise e : Op β α) Q E :=
  Does.raise fun s hs => ⟨hs.1, he, h s hs.2⟩

theorem bind {γ : Type} {p : Op β α} {f : α → Op β γ} {K : α → Site β → Prop}
    {Q : γ → Site β → Prop} (hp : Safe codec forgets P p K E)
    (hf : ∀ a, Safe codec forgets (K a) (f a) Q E) : Safe codec forgets P (p >>= f) Q E :=
  Does.bind hp hf

theorem rescue {p : Op β α} {handler : Failure → Op β α} (hp : Safe codec forgets P p Q E')
    (hh : ∀ e : Failure, e.Proper → Safe codec forgets E' (handler e) Q E) :
    Safe codec forgets P (Prog.rescue p handler) Q E := by
  refine Does.rescue hp fun e => Does.assuming (fun s hs => hs.2.1) fun he => ?_
  exact Does.conseq (hh e he) (fun s hs => ⟨hs.1, hs.2.2⟩) (fun _ _ h => h) fun _ _ h => h

/-- An atomic step.  The state after it is reached by moves, so it is sound. -/
theorem atomic {step : Env β → Site β → Except Failure α × Site β}
    (hmoves : ∀ env s, Sound codec s → P s →
      ReflTransGen (Move codec forgets) s (step env s).2)
    (hok : ∀ env s a, Sound codec s → P s → (step env s).1 = .ok a → Q a (step env s).2)
    (herr : ∀ env s e, Sound codec s → P s → (step env s).1 = .error e →
      e.Proper ∧ E (step env s).2) : Safe codec forgets P (Prog.atomic step) Q E := by
  have hsound : ∀ env s, Sound codec s → P s → Sound codec (step env s).2 := fun env s hs hP =>
    hs.of_moves (hmoves env s hs hP)
  refine Does.atomic (fun s env hs _ => hmoves env s hs.1 hs.2) (fun s env a hs _ h => ?_)
    fun s env e hs _ h => ?_
  · exact ⟨hsound env s hs.1 hs.2, hok env s a hs.1 hs.2 h⟩
  · exact ⟨hsound env s hs.1 hs.2, herr env s e hs.1 hs.2 h⟩

/-- A call.  When it fails its effect may have happened or not. -/
theorem call {f : Env β → Site β → Except Failure α × Site β}
    (hmoves : ∀ env s, Sound codec s → P s → ReflTransGen (Move codec forgets) s (f env s).2)
    (hok : ∀ env s a, Sound codec s → P s → (f env s).1 = .ok a → Q a (f env s).2)
    (herr : ∀ env s e, P s → (f env s).1 = .error e → e.Proper)
    (hE : ∀ env s, Sound codec s → P s → E s ∧ E (f env s).2) :
    Safe codec forgets P (Metadata.call f) Q E := by
  refine atomic (fun env s hs hP => ?_) (fun env s a hs hP h => ?_) fun env s e hs hP h => ?_
  · cases env.fault with
    | none => exact hmoves env s hs hP
    | some fault =>
      dsimp only
      split_ifs
      · exact hmoves env s hs hP
      · exact .refl
  · cases hfault : env.fault with
    | none =>
      rw [hfault] at h
      exact hok env s a hs hP h
    | some fault => rw [hfault] at h; exact nomatch h
  · cases hfault : env.fault with
    | none =>
      rw [hfault] at h
      exact ⟨herr env s e hP h, (hE env s hs hP).2⟩
    | some fault =>
      rw [hfault] at h
      cases h
      refine ⟨trivial, ?_⟩
      dsimp only
      split_ifs
      · exact (hE env s hs hP).2
      · exact (hE env s hs hP).1

theorem query {f : Site β → Except Failure α} (hok : ∀ s a, Sound codec s → P s → f s = .ok a → Q a s)
    (herr : ∀ s e, f s = .error e → e.Proper) (hE : ∀ s, P s → E s) :
    Safe codec forgets P (Metadata.query f) Q E :=
  call (fun _ _ _ _ => .refl) (fun _ s a hs hP h => hok s a hs hP h)
    (fun _ s e _ h => herr s e h) fun _ s _ hP => ⟨hE s hP, hE s hP⟩

theorem look {f : Site β → α} (h : ∀ s, Sound codec s → P s → Q (f s) s) :
    Safe codec forgets P (Metadata.look f) Q E :=
  Does.read
    (fun s a hs ha => by
      cases ha
      exact ⟨hs.1, h s hs.1 hs.2⟩)
    fun s e _ he => nomatch he

theorem update {f : Time → Site β → Site β} {Q : Unit → Site β → Prop}
    (hmoves : ∀ now s, Sound codec s → P s → ReflTransGen (Move codec forgets) s (f now s))
    (hok : ∀ now s, Sound codec s → P s → Q () (f now s)) :
    Safe codec forgets P (Metadata.update f) Q E :=
  atomic (fun env s hs hP => hmoves env.now s hs hP) (fun env s _ hs hP _ => hok env.now s hs hP)
    fun _ _ _ _ _ h => nomatch h

theorem when {c : Prop} [Decidable c] {p : Op β Unit} {Q : Unit → Site β → Prop}
    (hp : c → Safe codec forgets P p Q E) (hskip : ¬ c → ∀ s, P s → Q () s) :
    Safe codec forgets P (Prog.when c p) Q E :=
  Does.when hp fun hc s hs => ⟨hs.1, hskip hc s hs.2⟩

/-- A loop whose turns keep `P`. -/
theorem forEach {ι : Type} {l : List ι} {body : ι → Op β Unit}
    (h : ∀ i, Safe codec forgets P (body i) (fun _ => P) E) :
    Safe codec forgets P (Prog.forEach l body) (fun _ => P) E :=
  Does.forEach (I := fun _ s => Sound codec s ∧ P s) fun i _ _ => h i

/-- The part either ended well, or with a proper error. -/
theorem attempt {p : Op β Unit} {Q : Unit → Site β → Prop} (hp : Safe codec forgets P p Q E') :
    Safe codec forgets P (Metadata.attempt p)
      (fun r s => match r with
        | none => Q () s
        | some e => e.Proper ∧ E' s) E :=
  rescue (bind hp fun _ => pure fun _ h => h) fun _ he => pure fun _ h => ⟨he, h⟩

theorem check {e : Option Failure} {Q : Unit → Site β → Prop}
    (h : ∀ s, P s → match e with
      | none => Q () s
      | some e => e.Proper ∧ E s) : Safe codec forgets P (Metadata.check e) Q E := by
  cases e with
  | none => exact pure h
  | some e => exact Does.raise fun s hs => ⟨hs.1, h s hs.2⟩

theorem ignoring {p : Op β Unit} {K : Site β → Prop} (hp : Safe codec forgets P p (fun _ => K) K) :
    Safe codec forgets P (Metadata.ignoring p) (fun _ => K) E :=
  rescue hp fun _ _ => pure fun _ h => h

/-- The cleanup keeps what the part left. -/
theorem deferring {cleanup p : Op β Unit} {Q : Site β → Prop}
    (hp : Safe codec forgets P p (fun _ => Q) E)
    (hQ : Safe codec forgets Q cleanup (fun _ => Q) Q)
    (hE : Safe codec forgets E cleanup (fun _ => E) E) :
    Safe codec forgets P (Metadata.deferring cleanup p) (fun _ => Q) E := by
  refine bind (attempt hp) fun r => ?_
  cases r with
  | none => exact bind (ignoring hQ) fun _ => check fun _ h => h
  | some e =>
    refine Does.assuming (fun s hs => hs.2.1) fun he => ?_
    refine bind (P := fun s => e.Proper ∧ E s) (K := fun _ => E)
      (conseq (ignoring (E := E) hE) (fun _ h => h.2) (fun _ _ h => h) fun _ h => h) fun _ => ?_
    exact check fun _ h => ⟨he, h⟩

theorem ifNotFound {p q : Op β α} (hp : Safe codec forgets P p Q E)
    (hq : Safe codec forgets E q Q E) : Safe codec forgets P (Metadata.ifNotFound p q) Q E := by
  refine rescue hp fun e he => ?_
  split_ifs
  · exact hq
  · exact raise he fun _ h => h

theorem optional {p : Op β α} {Q : Option α → Site β → Prop}
    (hp : Safe codec forgets P p (fun a => Q (some a)) E) (hnone : ∀ s, E s → Q none s) :
    Safe codec forgets P (Metadata.optional p) Q E :=
  ifNotFound (bind hp fun _ => pure fun _ h => h) (pure hnone)

/-- Every turn keeps `P`, whether it fails or not. -/
theorem forAll {ι : Type} {l : List ι} {body : ι → Op β Unit}
    (h : ∀ i, Safe codec forgets P (body i) (fun _ => P) P) :
    Safe codec forgets P (Metadata.forAll l body) (fun _ => P) P := by
  induction l with
  | nil => exact pure fun _ h => h
  | cons i is ih =>
    refine bind (attempt (h i)) fun r => ?_
    cases r with
    | none => exact bind ih fun _ => check fun _ h => h
    | some e =>
      refine Does.assuming (fun s hs => hs.2.1) fun he => ?_
      exact bind (conseq ih (fun _ h => h.2) (fun _ _ h => h) fun _ h => h) fun _ =>
        check fun _ h => ⟨he, h⟩

end Safe

end Sandcube.Metadata
