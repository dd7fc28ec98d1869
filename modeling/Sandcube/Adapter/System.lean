import Sandcube.Adapter.Steps.Lifecycle
import Sandcube.Transition.Basic

/-!
# The adapter as a system

The requests that the HTTP layer accepts, the start of the adapter, its crashes, and the steps
beside them.  Requests come one after the other (`server.lock`); a crash can come between any two
steps of a request or of the start.

`Reachable.induct` is the induction every invariant below uses: what holds initially, after a
crash and after every move holds in every reachable state.
-/

open Relation

namespace Sandcube.Adapter

variable {id : String} {P I : World → Prop} {kinds : List Kind} {w w' : World}

/-! ### Requests -/

/-- The requests of `ServeHTTP` for sandboxes and processes.  `polls` is how often `reclaimQuota`
looks before its context ends, `draw` the identifier that `newProcessID` draws. -/
inductive Request where
  | create (spec : Spec) (polls : ℕ)
  | start (id : String)
  | stop (id : String)
  | delete (id : String) (polls : ℕ)
  | inspect (id : String)
  | startProcess (id : String) (req : ExecRequest) (draw : String)
  | exec (id : String) (req : ExecRequest) (draw : String)
  | processes (id : String)
  | process (id pid : String)
  | processLogs (id pid : String)
  | killProcess (id pid : String)
  | reconcile (polls : ℕ)

/-- An exec without a timeout gets the default. -/
def ExecRequest.withDefault (req : ExecRequest) : ExecRequest :=
  if req.timeout = 0 then { req with timeout := 30 } else req

/-- The answer is not part of the state. -/
def ignore {α : Type} (p : Op α) : Op Unit := do let _ ← p

/-- What the adapter does for a request. -/
def Request.run (host : Host) : Request → Op Unit
  | .create spec polls => ignore (Adapter.create host spec polls)
  | .start id => ignore (Adapter.start host id)
  | .stop id => ignore (Adapter.stop host id)
  | .delete id polls => Adapter.delete host id polls
  | .inspect id => ignore (Adapter.inspect host id)
  | .startProcess id req draw => ignore (Adapter.startProcess host id req draw)
  | .exec id req draw => prepareExec host id req.withDefault draw
  | .processes id => ignore (Adapter.processes host id)
  | .process id pid => ignore (Adapter.process host id pid)
  | .processLogs id pid => ignore (Adapter.processLogs host id pid)
  | .killProcess id pid => ignore (Adapter.killProcess host id pid)
  | .reconcile polls => Adapter.reconcile host polls

/-- The limits that `POST /containers` checks. -/
def acceptedSpec (spec : Spec) : Bool :=
  (16 ≤ spec.diskMb && spec.diskMb ≤ 1048576) && validID spec.id && spec.image ≠ "" &&
    (spec.command.head?.any fun arg => arg ≠ "") && (1 ≤ spec.cpu && spec.cpu ≤ 64) &&
    (16 ≤ spec.memoryMb && spec.memoryMb ≤ 262144) && (1 ≤ spec.pids && spec.pids ≤ 65536)

/-- The command and the working directory of a process. -/
def acceptedCommand (req : ExecRequest) : Bool :=
  (req.command.head?.any fun arg => arg ≠ "") && (req.cwd = "" || req.cwd.toList.head? = some '/')

/-- The request gets past the checks of the HTTP layer. -/
def Request.accepted : Request → Bool
  | .create spec _ => acceptedSpec spec
  | .start id | .stop id | .delete id _ | .inspect id | .processes id | .process id _
  | .processLogs id _ | .killProcess id _ => validID id
  | .startProcess id req _ => validID id && acceptedCommand req && req.timeout = 0
  | .exec id req _ =>
    validID id && acceptedCommand req.withDefault &&
      (1 ≤ req.withDefault.timeout && req.withDefault.timeout ≤ 3600)
  | .reconcile _ => true

/-- An identifier that is drawn is new. -/
def Request.Fresh (w : World) : Request → Prop
  | .startProcess _ _ draw | .exec _ _ draw => w.Unused draw
  | _ => True

/-! ### The transition system -/

/-- One step of the system. -/
inductive Act where
  | boot (polls : ℕ) (fates : List (Fate Env))
  | crash
  | back (b : Back)
  | request (r : Request) (fates : List (Fate Env))

/-- The state after a step.  An adapter whose start fails exits. -/
def next (host : Host) (w : World) : Act → World
  | .boot polls fates =>
    match (boot host polls w fates).outcome with
    | .ok _ => (boot host polls w fates).state
    | .raised _ | .crashed => (boot host polls w fates).state.die
  | .crash => w.die
  | .back b => w.back host b
  | .request r fates =>
    match (r.run host w fates).outcome with
    | .ok _ | .raised _ => (r.run host w fates).state
    | .crashed => (r.run host w fates).state.die

/-- The surroundings of the adapter: its host, what goes on beside it and which requests come. -/
structure Setting where
  host : Host
  May : Back → Prop
  Accepts : Request → Prop

/-- The step can be taken. -/
def Setting.Ok (S : Setting) (w : World) : Act → Prop
  | .boot _ fates => w.memory.serving = false ∧ (within S.May).Allows fates
  | .crash => True
  | .back b => S.May b
  | .request r fates =>
    w.memory.serving = true ∧ r.accepted = true ∧ S.Accepts r ∧ r.Fresh w ∧
      (within S.May).Allows fates

/-- Nothing has happened. -/
def Trace.empty : Trace := ⟨[], [], fun _ => none, [], [], []⟩

/-- A host on which the adapter has never run. -/
structure Init (w : World) : Prop where
  foreign : ∀ id c, w.containerd.containers.find? id = some c → c.managed = false
  taskless : w.containerd.tasks = .empty
  execless : w.containerd.execs = .empty
  unlabelled : ∀ key s, w.containerd.snapshots.find? key = some s → s.managed = false
  numbered : ∀ key s, w.containerd.snapshots.find? key = some s → s.number ∈ w.quota.directories
  bounded : ∀ n ∈ w.quota.directories, n < w.containerd.nextSnapshot
  distinct : ∀ key key' s, w.containerd.snapshots.find? key = some s →
    ∀ s', w.containerd.snapshots.find? key' = some s' → s.number = s'.number → key = key'
  history : w.history = ⟨[], .empty⟩
  memory : w.memory = .fresh
  net : ∃ foreign, w.net = ⟨.empty, .empty, .empty, [], [], [], foreign⟩
  unlimited : ∀ n, w.quota.limits n = .zero
  unclaimed : w.quota.journals = .empty
  trace : w.trace = .empty

/-- The states the system can reach. -/
def Reachable (S : Setting) (w : World) : Prop := Transition.Reach (next S.host) S.Ok Init w

/-- `w'` comes after `w`. -/
def Setting.Later (S : Setting) (w w' : World) : Prop := Transition.Later (next S.host) S.Ok w w'

/-! ### The moves of a request -/

/-- The moves that a request can make. -/
def Request.scope : Request → Scope
  | .create spec _ => .onKinds [.create, .drop, .quota] spec.id
  | .start id => .onKinds [.net, .setup, .task] id
  | .stop id => .onKinds [.net, .task] id
  | .delete id _ => .onKinds [.net, .task, .drop, .quota, .erase, .forget] id
  | .startProcess id req draw => .onKinds [.register (req.pid draw), .start] id
  | .exec id req draw => .onKinds [.register (req.withDefault.pid draw), .start] id
  | .inspect _ | .processes _ | .process _ _ | .processLogs _ _ | .killProcess _ _ =>
    fun _ _ => False
  | .reconcile _ => .sweep

/-- The moves of the start. -/
def Scope.booting : Scope := fun kind id => kind = .boot ∨ Scope.sweep kind id

/-- The moves of one step of the system. -/
def Act.scope : Act → Scope
  | .boot _ _ => .booting
  | .request r _ => r.scope
  | .crash | .back _ => fun _ _ => False

/-- The moves that a setting allows. -/
def Setting.scope (S : Setting) : Scope := fun kind id =>
  Scope.booting kind id ∨ ∃ r, S.Accepts r ∧ r.scope kind id

/-- Only `Delete` erases a container. -/
theorem Act.erase_scope {a : Act} (h : a.scope .erase id) :
    ∃ polls fates, a = .request (.delete id polls) fates := by
  have hsweep : ¬ Scope.sweep .erase id := by unfold Scope.sweep; decide
  cases a with
  | boot polls fates =>
    rcases h with h | h
    · cases h
    · exact absurd h hsweep
  | crash | back b => exact h.elim
  | request r fates =>
    cases r with
    | delete id' polls =>
      obtain rfl : id = id' := h.2
      exact ⟨polls, fates, rfl⟩
    | create | start | stop | startProcess | exec =>
      have hmem := h.1
      simp at hmem
    | inspect | processes | process | processLogs | killProcess => exact h.elim
    | reconcile => exact absurd h hsweep

/-- A request finds the adapter like this. -/
structure Request.Pre (r : Request) (w : World) : Prop where
  rest : w.AtRest
  serving : w.memory.serving = true
  fresh : r.Fresh w

section Moves

variable {host : Host} {May : Back → Prop}

theorem runs_ignore {α : Type} {scope : Scope} {p : Op α} {Q : World → Prop}
    {R : Err → World → Prop} (h : Runs host May scope P p (fun _ => Q) R) :
    Runs host May scope P (ignore p) (fun _ => Q) R :=
  .bind h fun _ => .pure fun _ hw => hw

/-- A request that works on no record of a process. -/
theorem runs_restful {scope : Scope} {p : Op Unit} {Q : Unit → World → Prop}
    (h : Runs host May scope P p Q unknown) (hscope : scope.Restful) (hP : ∀ w, w.AtRest → P w) :
    Runs host May scope World.AtRest p (fun _ => World.AtRest) (fun _ => World.AtRest) :=
  (h.keepRest hscope).conseq
    (fun w hw => ⟨hP w hw, hw⟩) (fun _ _ hw => hw.2) fun _ _ hw => hw.2

theorem Scope.restful_onKinds (h : ∀ kind ∈ kinds, kind.works = false) :
    (Scope.onKinds kinds id).Restful :=
  fun kind _ ⟨hkind, _⟩ => h kind hkind

theorem Scope.wanes_onKinds (h : ∀ kind ∈ kinds, kind.wanes = true) :
    (Scope.onKinds kinds id).Wanes :=
  fun kind _ ⟨hkind, _⟩ => h kind hkind

/-- What is left after `Delete`, of the sandbox and the snapshot it had. -/
theorem runs_deleted (id : String) (polls : ℕ) (key : String) :
    Runs host May (Request.delete id polls).scope (fun w => w.AtRest ∧ w.snapshotOf id = key)
      (delete host id polls) (fun _ w => Forgotten id w ∧ Cleared id key w) unknown :=
  runs_delete ⟨by decide, rfl⟩ ⟨by decide, rfl⟩ ⟨by decide, rfl⟩ ⟨by decide, rfl⟩
    ⟨by decide, rfl⟩ ⟨by decide, rfl⟩ (Scope.restful_onKinds (by decide))
      (Scope.wanes_onKinds (by decide)) polls key

/-- **The moves of a request.**  Every request consists of moves in its scope and leaves the records
at rest. -/
theorem runs_request (r : Request) :
    Runs host May r.scope r.Pre (r.run host) (fun _ => World.AtRest) (fun _ => World.AtRest) := by
  have hreads : ∀ {α : Type} {p : Op α}, Runs host May (fun _ _ => False) World.AtRest p
      (fun _ => World.AtRest) (fun _ => World.AtRest) → Runs host May (fun _ _ => False) r.Pre
      (ignore p) (fun _ => World.AtRest) (fun _ => World.AtRest) :=
    fun h => (runs_ignore h).pre fun _ hw => hw.rest
  have hwork : ∀ {scope : Scope} {p : Op Unit}, Runs host May scope World.AtRest p
      (fun _ => World.AtRest) (fun _ => World.AtRest) → Runs host May scope r.Pre p
      (fun _ => World.AtRest) (fun _ => World.AtRest) :=
    fun h => h.pre fun _ hw => hw.rest
  have hdecide : ∀ {kind : Kind} {kinds : List Kind} {id : String}, kind ∈ kinds →
      Scope.onKinds kinds id kind id := fun h => ⟨h, rfl⟩
  cases r with
  | create spec polls =>
    exact hwork (runs_restful (runs_ignore (runs_create (hdecide (by decide)) (hdecide (by decide))
      (hdecide (by decide)) polls))
      (Scope.restful_onKinds (by decide)) fun _ _ => trivial)
  | start id =>
    exact hwork (runs_restful (runs_ignore (runs_start (hdecide (by decide)) (hdecide (by decide))
      (hdecide (by decide))))
      (Scope.restful_onKinds (by decide)) fun _ _ => trivial)
  | stop id =>
    exact hwork (runs_restful (runs_ignore (runs_stop (hdecide (by decide)) (hdecide (by decide))))
      (Scope.restful_onKinds (by decide)) fun _ _ => trivial)
  | delete id polls =>
    have hdelete : Runs host May (Request.delete id polls).scope
        (fun w => ∃ key, w.AtRest ∧ w.snapshotOf id = key) (delete host id polls)
        (fun _ _ => True) unknown :=
      .of_exists fun key => (runs_deleted id polls key).post fun _ _ _ => trivial
    exact hwork (runs_restful hdelete (Scope.restful_onKinds (by decide)) fun w hw => ⟨_, hw, rfl⟩)
  | inspect id => exact hreads (.bind (runs_query steady_atRest) fun _ => runs_describe steady_atRest)
  | startProcess id req draw =>
    exact (runs_ignore (runs_startProcess (hdecide List.mem_cons_self)
      (hdecide (List.mem_cons_of_mem _ List.mem_cons_self)))).pre fun w hw => ⟨hw.rest, hw.serving, hw.fresh⟩
  | exec id req draw =>
    exact (runs_prepareExec (hdecide List.mem_cons_self)
      (hdecide (List.mem_cons_of_mem _ List.mem_cons_self))).pre fun w hw => ⟨hw.rest, hw.serving, hw.fresh⟩
  | processes id => exact hreads (.bind (runs_query steady_atRest) fun _ => runs_look steady_atRest)
  | process id pid => exact hreads (runs_process steady_atRest)
  | processLogs id pid => exact hreads (.bind (runs_process steady_atRest) fun _ => runs_query steady_atRest)
  | killProcess id pid => exact hreads (runs_killProcess steady_atRest)
  | reconcile polls =>
    exact hwork (runs_restful (runs_sweep polls) Scope.restful_sweep fun _ hw => hw)

end Moves

/-! ### Induction over runs -/

/-- Between two requests nobody works on a record, and before the start there are none. -/
structure Standing (w : World) : Prop where
  rest : w.AtRest
  down : w.memory.serving = false → w.memory.heap = []

theorem World.object?_die (w : World) (a : ℕ) : w.die.object? a = none := rfl

theorem standing_die (w : World) : Standing w.die := by
  refine ⟨fun a p hp => ?_, fun _ => rfl⟩
  rw [World.object?_die] at hp
  cases hp

section Induction

variable {S : Setting}

/-- What one step of the system does: a chain of moves of that step, perhaps with a crash at its
end. -/
theorem Setting.Ok.chain {a : Act} (hw : Standing w) (ha : S.Ok w a) :
    ∃ w', ReflTransGen (Move S.host S.May a.scope) w w' ∧
      (next S.host w a = w'.die ∨ next S.host w a = w' ∧ Standing w') := by
  cases a with
  | crash => exact ⟨w, .refl, .inl rfl⟩
  | back b =>
    refine ⟨w.back S.host b, .single (.back ha), .inr ⟨rfl, steady_atRest w b ha hw.rest, ?_⟩⟩
    intro hdown
    have hbeside : Beside S.host w (w.back S.host b) := .back b
    rw [hbeside.serving] at hdown
    rw [← List.length_eq_zero_iff, hbeside.length, hw.down hdown]
    rfl
  | boot polls fates =>
    obtain ⟨hdown, hfates⟩ := ha
    have hruns : Runs S.host S.May .booting Starting (boot S.host polls)
        (fun _ w => w.AtRest ∧ w.memory.serving = true) unknown :=
      runs_boot (fun _ => .inl rfl) (fun _ _ h => .inr h) polls
    have hstart : Starting w := ⟨hdown, hw.down hdown⟩
    refine ⟨(boot S.host polls w fates).state, hruns.steps hfates hstart, ?_⟩
    simp only [next]
    cases ho : (boot S.host polls w fates).outcome with
    | ok _ =>
      obtain ⟨hrest, hserving⟩ := hruns.ok hfates hstart ho
      refine .inr ⟨rfl, hrest, fun hdown' => ?_⟩
      rw [hserving] at hdown'
      cases hdown'
    | raised e | crashed => exact .inl rfl
  | request r fates =>
    obtain ⟨hserving, -, -, hfresh, hfates⟩ := ha
    have hruns : Runs S.host S.May r.scope r.Pre (r.run S.host) (fun _ => World.AtRest)
        (fun _ => World.AtRest) := runs_request r
    have hpre : r.Pre w := ⟨hw.rest, hserving, hfresh⟩
    have hsteps := hruns.steps hfates hpre
    -- The socket is open, also when the request is over.
    have hopen : (r.run S.host w fates).state.memory.serving = true := by
      have hkept : ∀ w', ReflTransGen (Move S.host S.May r.scope) w w' →
          w'.memory.serving = true := by
        intro w' hw'
        induction hw' with
        | refl => exact hserving
        | tail _ hm ih => exact hm.serving ih
      exact hkept _ hsteps
    have hstanding : (r.run S.host w fates).state.AtRest → Standing (r.run S.host w fates).state :=
      fun hrest => ⟨hrest, fun hdown => by rw [hopen] at hdown; cases hdown⟩
    refine ⟨(r.run S.host w fates).state, hsteps, ?_⟩
    simp only [next]
    cases ho : (r.run S.host w fates).outcome with
    | ok _ => exact .inr ⟨rfl, hstanding (hruns.ok hfates hpre ho)⟩
    | raised e => exact .inr ⟨rfl, hstanding (hruns.raised hfates hpre ho)⟩
    | crashed => exact .inl rfl

theorem Setting.Ok.scope_le {a : Act} (ha : S.Ok w a) :
    ∀ kind id, a.scope kind id → S.scope kind id := by
  intro kind id h
  cases a with
  | boot polls fates => exact .inl h
  | request r fates => exact .inr ⟨r, ha.2.2.1, h⟩
  | crash | back b => exact h.elim

theorem Setting.Ok.moves {a : Act} (hw : Standing w) (ha : S.Ok w a) :
    ∃ w', ReflTransGen (Move S.host S.May S.scope) w w' ∧
      (next S.host w a = w'.die ∨ next S.host w a = w' ∧ Standing w') := by
  obtain ⟨w', hsteps, hend⟩ := ha.chain hw
  exact ⟨w', ReflTransGen.mono (fun _ _ => Move.mono ha.scope_le) _ _ hsteps, hend⟩

theorem Init.standing (h : Init w) : Standing w := by
  have hfresh : w.memory = Memory.fresh := h.memory
  refine ⟨fun a p hp => ?_, fun _ => by rw [hfresh]; rfl⟩
  rw [World.object?, hfresh] at hp
  cases hp

theorem Setting.Ok.standing {a : Act} (hw : Standing w) (ha : S.Ok w a) :
    Standing (next S.host w a) := by
  obtain ⟨w', -, hnext | ⟨hnext, hstanding⟩⟩ := ha.moves hw
  · rw [hnext]; exact standing_die w'
  · rw [hnext]; exact hstanding

theorem Reachable.standing (h : Reachable S w) : Standing w :=
  Transition.Reach.invariant (fun _ hw => hw.standing) (fun _ _ hw ha => ha.standing hw) h

/-- A property that moves and crashes keep is kept by every step of the system. -/
theorem Setting.Ok.keeps (hdie : ∀ w, I w → I w.die)
    (hmove : ∀ w w', I w → Move S.host S.May S.scope w w' → I w') {a : Act} (hw : Standing w)
    (ha : S.Ok w a) (hI : I w) : I (next S.host w a) := by
  obtain ⟨w', hsteps, hnext⟩ := ha.moves hw
  have hkept : I w' := by
    clear hnext
    induction hsteps with
    | refl => exact hI
    | tail _ hm ih => exact hmove _ _ ih hm
  rcases hnext with hnext | ⟨hnext, -⟩
  · rw [hnext]; exact hdie w' hkept
  · rw [hnext]; exact hkept

/-- **Induction over runs.**  What holds initially and is kept by every move and every crash holds
in every reachable state. -/
theorem Reachable.induct (hinit : ∀ w, Init w → I w) (hdie : ∀ w, I w → I w.die)
    (hmove : ∀ w w', I w → Move S.host S.May S.scope w w' → I w') (h : Reachable S w) : I w := by
  suffices hboth : Standing w ∧ I w from hboth.2
  exact Transition.Reach.invariant (I := fun w => Standing w ∧ I w)
    (fun w hw => ⟨hw.standing, hinit w hw⟩)
    (fun w a hw ha => ⟨ha.standing hw.1, ha.keeps hdie hmove hw.1 hw.2⟩) h

theorem Setting.Later.standing (hw : Standing w) (h : S.Later w w') : Standing w' := by
  induction h with
  | refl => exact hw
  | tail _ hlast ih =>
    obtain ⟨a, ha, rfl⟩ := hlast
    exact ha.standing ih

/-- What moves and crashes keep holds in every later state. -/
theorem Setting.Later.induct (hdie : ∀ w, I w → I w.die)
    (hmove : ∀ w w', I w → Move S.host S.May S.scope w w' → I w') (hw : Standing w)
    (h : S.Later w w') (hI : I w) : I w' := by
  induction h with
  | refl => exact hI
  | tail hbefore hlast ih =>
    obtain ⟨a, ha, rfl⟩ := hlast
    exact ha.keeps hdie hmove (Setting.Later.standing hw hbefore) ih

end Induction

/-! ### Runs that can be computed -/

/-- A setting whose limits can be decided. -/
def Setting.of (host : Host) (may : Back → Bool) (accepts : Request → Bool) : Setting where
  host := host
  May b := may b = true
  Accepts r := accepts r = true

section Computed

variable (host : Host) (may : Back → Bool) (accepts : Request → Bool)

/-- The fate is within the limits. -/
def allowedFate : Fate Env → Bool
  | .go env | .crashAfter env => env.background.all may
  | .crash => true

/-- An identifier that is drawn is new. -/
def Request.isFresh (w : World) : Request → Bool
  | .startProcess _ _ draw | .exec _ _ draw =>
    validProcessID draw && (w.memory.registry.find? draw).isNone
  | _ => true

/-- The step can be taken. -/
def allowedAct (w : World) : Act → Bool
  | .boot _ fates => !w.memory.serving && fates.all (allowedFate may)
  | .crash => true
  | .back b => may b
  | .request r fates =>
    w.memory.serving && r.accepted && accepts r && r.isFresh w && fates.all (allowedFate may)

/-- Every step of the list can be taken where it is taken. -/
def allowedRun (w : World) : List Act → Bool
  | [] => true
  | a :: as => allowedAct may accepts w a && allowedRun (next host w a) as

variable {host may accepts}

theorem allows_of_all {fates : List (Fate Env)} (h : fates.all (allowedFate may) = true) :
    (within fun b => may b = true).Allows fates := by
  intro t ht
  have hfate := List.all_eq_true.mp h t ht
  cases t with
  | go env => exact List.all_eq_true.mp hfate
  | crash => trivial
  | crashAfter env => exact List.all_eq_true.mp hfate

theorem Request.fresh_of_isFresh {r : Request} (h : r.isFresh w = true) : r.Fresh w := by
  have hunused : ∀ draw, (validProcessID draw && (w.memory.registry.find? draw).isNone) = true →
      w.Unused draw := by
    intro draw hdraw
    rw [Bool.and_eq_true] at hdraw
    exact ⟨hdraw.1, Option.isNone_iff_eq_none.mp hdraw.2⟩
  cases r with
  | startProcess id req draw | exec id req draw => exact hunused draw h
  | create | start | stop | delete | inspect | processes | process | processLogs | killProcess
  | reconcile => trivial

theorem ok_of_allowedAct {a : Act} (h : allowedAct may accepts w a = true) :
    (Setting.of host may accepts).Ok w a := by
  cases a with
  | boot polls fates =>
    simp only [allowedAct, Bool.and_eq_true, Bool.not_eq_true'] at h
    exact ⟨h.1, allows_of_all h.2⟩
  | crash => trivial
  | back b => exact h
  | request r fates =>
    simp only [allowedAct, Bool.and_eq_true] at h
    obtain ⟨⟨⟨⟨hserving, haccepted⟩, haccepts⟩, hfresh⟩, hfates⟩ := h
    exact ⟨hserving, haccepted, haccepts, Request.fresh_of_isFresh hfresh, allows_of_all hfates⟩

theorem admissible_of_allowedRun {as : List Act} (h : allowedRun host may accepts w as = true) :
    Transition.Admissible (next host) (Setting.of host may accepts).Ok w as := by
  induction as generalizing w with
  | nil => trivial
  | cons a as ih =>
    simp only [allowedRun, Bool.and_eq_true] at h
    exact ⟨ok_of_allowedAct h.1, ih h.2⟩

end Computed

/-- A host on which nothing was ever done. -/
def World.pristine : World where
  containerd := ⟨.empty, .empty, .empty, .empty, 1⟩
  history := ⟨[], .empty⟩
  memory := .fresh
  net := ⟨.empty, .empty, .empty, [], [], [], fun _ => false⟩
  quota := ⟨[], fun _ => .zero, fun _ => .zero, [], .empty⟩
  trace := .empty

theorem init_pristine : Init World.pristine where
  foreign _ _ h := nomatch h
  taskless := rfl
  execless := rfl
  unlabelled _ _ h := nomatch h
  numbered _ _ h := nomatch h
  bounded := nofun
  distinct _ _ _ h := nomatch h
  history := rfl
  memory := rfl
  net := ⟨fun _ => false, rfl⟩
  unlimited _ := rfl
  unclaimed := rfl
  trace := rfl

/-- The state after some steps on a host where nothing was ever done. -/
abbrev runFrom (host : Host) (as : List Act) : World := Transition.run (next host) .pristine as

theorem reachable_run {host : Host} {may : Back → Bool} {accepts : Request → Bool} {as : List Act}
    (h : allowedRun host may accepts .pristine as = true) :
    Reachable (.of host may accepts) (runFrom host as) :=
  Transition.Reach.run (.init init_pristine) (admissible_of_allowedRun h)

/-- Names stand for their own hashes. -/
def Host.plain : Host where
  requestHash req := String.intercalate " " (req.requestId :: req.command)
  configHash spec := spec.id
  networkName id := id
  networkStart _ := 0
  snapshots := ["snapshots"]

/-- A small sandbox. -/
def sampleSpec (id : String) : Spec := ⟨id, "busybox", ["sh"], 1, 16, 16, 16⟩

/-- The start of the adapter, then a sandbox that is created and started. -/
def startedActs : List Act :=
  [.boot 1 [], .request (.create (sampleSpec "sbx_a") 1) [], .request (.start "sbx_a") []]

/-- An identifier for processes. -/
def samplePid : String := "proc_00000000000000000000000000000000"

/-- A request for a process under that identifier. -/
def sampleRequest : ExecRequest := ⟨samplePid, ["true"], "", [], 0⟩

/-- A sandbox in which a process was started. -/
def launchedActs : List Act :=
  startedActs ++ [.request (.startProcess "sbx_a" sampleRequest samplePid) []]

end Sandcube.Adapter
