import Sandcube.Reliability.Steps
import Sandcube.Runtime.Containers
import Sandcube.Transition.Basic

/-!
# The system

The API process comes and goes; the journal and the runtime stay.  An action of the system
is a whole operation of the process, run against the fates the environment chose for it, or
a step of the environment: the process is started or killed, the image side works, the
runtime changes by itself.

A `Setting` says what the environment may do.  `Setting.Keeps` collects what an invariant
has to survive, and `System.Reachable.invariant` is the induction over runs, done once.
-/

open Relation

namespace Sandcube

/-- What survives a crash, and the process if one runs. -/
structure System (ρ : Type) where
  world : World ρ
  /-- The budgets the running process was started with. -/
  api : Option Capacity

/-- An action of the system. -/
inductive Act (ρ ψ : Type) where
  /-- `src/main.cr` starts a process, with or without the image API. -/
  | boot (cap : Capacity) (imageApi : Bool)
  /-- The process is killed between two operations. -/
  | halt
  | request (r : Request) (fates : List (Fate (Env ψ)))
  | reconcile (sweep : Sweep) (fates : List (Fate (Env ψ)))
  /-- The image side takes a step between two operations. -/
  | image (step : ImageStep)
  /-- The runtime changes by itself. -/
  | drift (runtime : ρ)

namespace System

variable {ρ ψ : Type} [Inhabited ψ]

/-- Before the first start. -/
structure Start (s : System ρ) : Prop where
  journal : s.world.journal = .empty
  fibers : s.world.fibers = .none
  sent : s.world.sent = []
  last : s.world.last = none
  api : s.api = none

/-- The start of a process: the lock on the data directory, `Reliability.new`, and
`ImageManager.new` when the image API is enabled. -/
def boot (s : System ρ) (cap : Capacity) (imageApi : Bool) : System ρ :=
  match s.api with
  | some _ => s
  | none =>
    match cap.configure s.world.journal with
    | .error _ => s
    | .ok j =>
      ⟨s.world.die.withJournal fun _ => if imageApi then ImageStore.interruptedBuilds j else j,
        some cap⟩

/-- The system after an operation; a crash takes the process with it. -/
def after {α : Type} (s : System ρ) (result : Result (World ρ) (Env ψ) Ex α) : System ρ :=
  match result.outcome with
  | .crashed => ⟨result.state.die, none⟩
  | _ => ⟨result.state.done, s.api⟩

/-- The effect of an action. -/
def next (codec : Codec) (R : Runtime ρ ψ) (s : System ρ) : Act ρ ψ → System ρ
  | .boot cap imageApi => s.boot cap imageApi
  | .halt => ⟨s.world.die, none⟩
  | .request r fates =>
    match s.api with
    | some cap => s.after (Reliability.request codec R cap r s.world fates)
    | none => s
  | .reconcile sweep fates =>
    match s.api with
    | some _ => s.after (Reliability.reconcile R sweep s.world fates)
    | none => s
  | .image step =>
    match s.api with
    | some _ => ⟨s.world.image step, s.api⟩
    | none => s
  | .drift runtime => ⟨{ s.world with runtime := runtime }, s.api⟩

end System

/-! ### Settings -/

/-- What the environment may do: the fates of operations, the operations it may ask for, and
the changes of the runtime. -/
structure Setting (ρ ψ : Type) [Inhabited ψ] where
  rules : Rules ψ
  job : Job → World ρ → Prop
  drift : World ρ → ρ → Prop

variable {ρ ψ : Type} [Inhabited ψ]

namespace Setting

/-- Everything is possible that the rules allow. -/
def free (rules : Rules ψ) : Setting ρ ψ := ⟨rules, fun _ _ => True, fun _ _ => True⟩

/-- Everything is possible. -/
def any : Setting ρ ψ := .free .any

/-- The actions a setting allows in a state. -/
def Ok (S : Setting ρ ψ) (codec : Codec) (s : System ρ) : Act ρ ψ → Prop
  | .boot _ _ | .halt => True
  | .request r fates => S.rules.adversary.Allows fates ∧
      ∀ cap, s.api = some cap → S.job (Reliability.requestJob codec cap r s.world) s.world
  | .reconcile sweep fates => S.rules.adversary.Allows fates ∧
      S.job (.sweep sweep.clock) s.world
  | .image step => S.rules.image step
  | .drift runtime => S.drift s.world runtime

end Setting

/-- A request is served with the budgets of the host. -/
def Job.Funded (job : Job) (w : World ρ) : Prop :=
  ∀ cap newId fingerprint key, job = .request cap newId fingerprint key →
    w.journal.hostCapacity = some cap

theorem Job.funded_retry (w : World ρ) : Job.retry.Funded w := fun _ _ _ _ h => nomatch h

/-- What an invariant has to survive in a setting. -/
structure Setting.Keeps (S : Setting ρ ψ) (R : Runtime ρ ψ) (I : World ρ → Prop) : Prop where
  call : ∀ {job x f c} {w : World ρ}, I w → S.job job w → S.rules.choice f →
    Due job x (w.row? x) w.last c → I (w.called R f c)
  write : ∀ {job x j} {w : World ρ}, I w → S.job job w → job.Funded w →
    Write job x w.last w.journal j → I (w.withJournal fun _ => j)
  image : ∀ {step} {w : World ρ}, I w → S.rules.image step → I (w.image step)
  /-- What was assumed when the operation began is true until it ends. -/
  job : ∀ {job x} {w w' : World ρ}, I w → S.job job w → Move R S.rules job x w w' → S.job job w'
  done : ∀ {w : World ρ}, I w → I w.done
  die : ∀ {w : World ρ}, I w → I w.die
  configure : ∀ {cap} {w : World ρ}, I w →
    w.journal.hostCapacity = none ∨ w.journal.hostCapacity = some cap →
    I (w.withJournal fun j => { j with hostCapacity := some cap })
  builds : ∀ {w : World ρ}, I w → w.fibers = .none → I (w.withJournal ImageStore.interruptedBuilds)
  drift : ∀ {runtime} {w : World ρ}, I w → w.last = none → S.drift w runtime →
    I { w with runtime := runtime }

namespace Setting.Keeps

variable {S : Setting ρ ψ} {R : Runtime ρ ψ} {I : World ρ → Prop}

theorem move (h : S.Keeps R I) {job : Job} {x : String} {w w' : World ρ} (hI : I w)
    (hjob : S.job job w) (hfunded : job.Funded w) (hmove : Move R S.rules job x w w') : I w' := by
  cases hmove with
  | image may => exact h.image hI may
  | call may due => exact h.call hI hjob may due
  | write write => exact h.write hI hjob hfunded write

end Setting.Keeps

theorem Write.hostCapacity_eq {job : Job} {x : String} {last : Option (Call × Reply)}
    {j j' : Journal} (h : Write job x last j j') : j'.hostCapacity = j.hostCapacity := by
  cases h with
  | accept _ _ _ accepted => cases accepted <;> assumption
  | row found step => rfl
  | complete found pending whole answer done =>
    rw [Journal.complete_of_find? found, Except.ok.injEq] at done
    rw [← done]
  | compensate found pending launch answer | count name | dropImage sweeping gone answer => rfl

theorem Move.hostCapacity_eq {R : Runtime ρ ψ} {rules : Rules ψ} {job : Job} {x : String}
    {w w' : World ρ} (h : Move R rules job x w w') :
    w'.journal.hostCapacity = w.journal.hostCapacity := by
  cases h with
  | image may => exact (w.image_journal _).2.2
  | call may due => rfl
  | write write => exact write.hostCapacity_eq

theorem moves_exists {R : Runtime ρ ψ} {rules : Rules ψ} {job : Job} {x : String} {w w' : World ρ}
    (h : ReflTransGen (Move R rules job x) w w') :
    ReflTransGen (fun u u' => ∃ x, Move R rules job x u u') w w' :=
  ReflTransGen.mono (fun _ _ hmove => ⟨x, hmove⟩) _ _ h

/-- No operation changes the budgets. -/
theorem hostCapacity_of_moves {R : Runtime ρ ψ} {rules : Rules ψ} {job : Job} {w w' : World ρ}
    (h : ReflTransGen (fun u u' => ∃ x, Move R rules job x u u') w w') :
    w'.journal.hostCapacity = w.journal.hostCapacity := by
  induction h with
  | refl => rfl
  | tail _ hmove ih =>
    obtain ⟨x, hmove⟩ := hmove
    rw [hmove.hostCapacity_eq, ih]

namespace Setting.Keeps

variable {S : Setting ρ ψ} {R : Runtime ρ ψ} {I : World ρ → Prop}

/-- An invariant survives a whole operation. -/
theorem moves (h : S.Keeps R I) {job : Job} {w w' : World ρ} (hI : I w) (hjob : S.job job w)
    (hfunded : job.Funded w)
    (hmoves : ReflTransGen (fun w w' => ∃ x, Move R S.rules job x w w') w w') :
    I w' ∧ S.job job w' ∧ job.Funded w' := by
  induction hmoves with
  | refl => exact ⟨hI, hjob, hfunded⟩
  | tail _ hmove ih =>
    obtain ⟨x, hmove⟩ := hmove
    obtain ⟨hI, hjob, hfunded⟩ := ih
    refine ⟨h.move hI hjob hfunded hmove, h.job hI hjob hmove, fun cap n fp key hj => ?_⟩
    rw [hmove.hostCapacity_eq]
    exact hfunded cap n fp key hj

end Setting.Keeps

/-! ### Runs -/

namespace System

variable {codec : Codec} {R : Runtime ρ ψ} {S : Setting ρ ψ} {I : World ρ → Prop}
variable {x : String} {w w' : World ρ} {rules : Rules ψ} {s : System ρ} {init : ρ → Prop}

/-- The states of the runs of a setting, from a fresh installation. -/
def Reachable (codec : Codec) (R : Runtime ρ ψ) (S : Setting ρ ψ) (init : ρ → Prop) :
    System ρ → Prop :=
  Transition.Reach (next codec R) (S.Ok codec) fun s => s.Start ∧ init s.world.runtime

/-- What is true between operations: a running process has the budgets of the host, and no
answer is outstanding. -/
structure Settled (s : System ρ) : Prop where
  funded : ∀ cap, s.api = some cap → s.world.journal.hostCapacity = some cap
  last : s.world.last = none

theorem after_keeps {α : Type} (h : S.Keeps R I) {result : Result (World ρ) (Env ψ) Ex α}
    (hI : I result.state)
    (hcap : ∀ cap, s.api = some cap → result.state.journal.hostCapacity = some cap) :
    I (s.after result).world ∧ (s.after result).Settled := by
  unfold after
  cases result.outcome with
  | ok a | raised e => exact ⟨h.done hI, hcap, rfl⟩
  | crashed => exact ⟨h.die hI, nofun, rfl⟩

/-- An operation as a step of the system, when its moves are known. -/
theorem operation_keeps {α : Type} (h : S.Keeps R I) {job : Job} (hI : I s.world) (hs : s.Settled)
    (hjob : S.job job s.world) (hfunded : job.Funded s.world)
    {result : Result (World ρ) (Env ψ) Ex α}
    (hmoves : ReflTransGen (fun u u' => ∃ x, Move R S.rules job x u u') s.world result.state) :
    I (s.after result).world ∧ (s.after result).Settled := by
  refine after_keeps h (h.moves hI hjob hfunded hmoves).1 fun cap hcap => ?_
  rw [hostCapacity_of_moves hmoves]
  exact hs.funded cap hcap

theorem requestJob_funded {s : System ρ} {cap : Capacity} (hs : s.Settled)
    (hcap : s.api = some cap) (r : Request) :
    (Reliability.requestJob codec cap r s.world).Funded s.world := by
  intro cap' n fp key hj
  unfold Reliability.requestJob at hj
  split_ifs at hj
  obtain ⟨rfl, -⟩ := Job.request.inj hj
  exact hs.funded _ hcap

/-- One step of the system keeps an invariant. -/
theorem next_keeps (h : S.Keeps R I) {a : Act ρ ψ} (hI : I s.world) (hs : s.Settled)
    (hok : S.Ok codec s a) : I (s.next codec R a).world ∧ (s.next codec R a).Settled := by
  cases a with
  | boot cap imageApi =>
    simp only [next, boot]
    cases hapi : s.api with
    | some cap' => exact ⟨hI, hs⟩
    | none =>
      cases hconf : cap.configure s.world.journal with
      | error e => exact ⟨hI, hs⟩
      | ok j =>
        obtain ⟨rfl, hold⟩ := Capacity.configure_eq_ok hconf
        have hI' : I (s.world.die.withJournal fun _ =>
            { s.world.journal with hostCapacity := some cap }) := h.configure (h.die hI) hold
        cases imageApi with
        | false => exact ⟨hI', fun _ hc => hc, rfl⟩
        | true => exact ⟨h.builds hI' rfl, fun _ hc => hc, rfl⟩
  | halt => exact ⟨h.die hI, nofun, rfl⟩
  | request r fates =>
    simp only [next]
    cases hapi : s.api with
    | none => exact ⟨hI, hs⟩
    | some cap =>
      obtain ⟨x, hmoves⟩ := Reliability.request_moves codec R cap r s.world hok.1
      exact operation_keeps h hI hs (hok.2 cap hapi) (requestJob_funded hs hapi r)
        (moves_exists hmoves)
  | reconcile sweep fates =>
    simp only [next]
    cases hapi : s.api with
    | none => exact ⟨hI, hs⟩
    | some cap =>
      exact operation_keeps h hI hs hok.2 nofun
        ((Reliability.does_reconcile sweep fun _ => False).steps hok.1 fun _ h => h.elim)
  | image step =>
    simp only [next]
    cases hapi : s.api with
    | none => exact ⟨hI, hs⟩
    | some cap =>
      refine ⟨h.image hI hok, fun cap' hc => ?_, hs.last⟩
      rw [(s.world.image_journal step).2.2]
      exact hs.funded cap' (hapi.trans hc)
  | drift runtime => exact ⟨h.drift hI hs.last hok, hs.funded, hs.last⟩

/-- **Induction over runs.** -/
theorem Reachable.invariant (h : S.Keeps R I)
    (hinit : ∀ s : System ρ, s.Start → init s.world.runtime → I s.world)
    (hs : s.Reachable codec R S init) : I s.world ∧ s.Settled := by
  refine Transition.Reach.invariant (I := fun s => I s.world ∧ s.Settled) ?_ ?_ hs
  · rintro s ⟨hstart, hruntime⟩
    exact ⟨hinit s hstart hruntime, fun cap hcap => by simp [hstart.api] at hcap, hstart.last⟩
  · rintro s a ⟨hI, hc⟩ hok
    exact next_keeps h hI hc hok

/-- The states that come after `s` in the runs of a setting. -/
def Later (codec : Codec) (R : Runtime ρ ψ) (S : Setting ρ ψ) : System ρ → System ρ → Prop :=
  Transition.Later (next codec R) (S.Ok codec)

/-- **Induction over the continuation of a run.** -/
theorem Later.invariant (h : S.Keeps R I) {t : System ρ} (ht : Later codec R S s t) (hI : I s.world)
    (hs : s.Settled) : I t.world ∧ t.Settled := by
  induction ht with
  | refl => exact ⟨hI, hs⟩
  | tail _ hstep ih =>
    obtain ⟨a, hok, rfl⟩ := hstep
    exact next_keeps h ih.1 ih.2 hok

/-- Whatever a setting allows, the setting without restrictions allows. -/
theorem Reachable.any (hs : s.Reachable codec R S init) :
    s.Reachable codec R .any fun _ => True := by
  refine Transition.Reach.mono (fun s h => ⟨h.1, trivial⟩) (fun s a _ => ?_) hs
  cases a with
  | boot cap imageApi | halt => trivial
  | request r fates => exact ⟨Rules.allows_any fates, fun _ _ => trivial⟩
  | reconcile sweep fates => exact ⟨Rules.allows_any fates, trivial⟩
  | image step | drift runtime => trivial

theorem Reachable.settled (hs : s.Reachable codec R S init) : s.Settled := by
  have hkeeps : (Setting.any : Setting ρ ψ).Keeps R fun _ => True := by
    constructor <;> intros <;> trivial
  exact (hs.any.invariant hkeeps fun _ _ _ => trivial).2

end System

/-! ### A small installation

Concrete runs are evaluated on this host: every body parses to the same create request, and a
text is its own digest. -/

namespace Sample

/-- The library functions. -/
def codec : Codec where
  hexdigest := id
  decode _ := .ok (.obj [("image", .str "busybox"), ("command", .arr [.str "sh"]),
    ("ttl_seconds", .int 60)])
  render r := r.id

/-- The budgets. -/
def capacity : Capacity := ⟨4, 1024, 4096, by decide⟩

/-- The host before the first start. -/
def host : System Containers := ⟨⟨.empty, .none, .empty, [], none⟩, none⟩

/-- The state after some actions. -/
def run (acts : List (Act Containers Fault)) : System Containers :=
  Transition.run (System.next codec Containers.runtime) host acts

/-- `POST /v1/sandboxes` at time zero; the sandbox will be `sbx_1`. -/
def create : Request := ⟨"POST", "/v1/sandboxes", some "", some "k", "1", 0⟩

/-- A sweep one second later. -/
def sweep : Sweep := ⟨fun _ => 1000, id, fun _ => .refl _⟩

theorem reachable {S : Setting Containers Fault} (acts : List (Act Containers Fault))
    (h : Transition.Admissible (System.next codec Containers.runtime) (S.Ok codec) host acts) :
    (run acts).Reachable codec Containers.runtime S (· = .empty) :=
  Transition.Reach.run (.init ⟨⟨rfl, rfl, rfl, rfl, rfl⟩, rfl⟩) h

end Sample

end Sandcube
