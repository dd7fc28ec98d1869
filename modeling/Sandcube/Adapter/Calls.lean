import Sandcube.Adapter.Background

/-!
# The steps of the adapter's operations

An operation looks at or changes the memory of the adapter (`look`, `update`), or makes a call
to containerd, the kernel or the file system (`call`), which can fail with or without its
effect.  Before each step other things may happen.
-/

namespace Sandcube.Adapter

open Prog (raise rescue)

/-- What the environment decides for one step of an operation. -/
structure Env where
  background : List Back
  fault : Option Fault
  now : Time

instance : Inhabited Env := ⟨⟨[], none, 0⟩⟩

/-- An operation of the adapter, or a part of one. -/
abbrev Op (α : Type) := Prog World Env Err α

section Steps

variable (host : Host) {α : Type}

/-- A call out of the process. -/
def call (f : Time → World → Except Err α × World) : Op α :=
  Prog.atomic fun env w =>
    match env.fault with
    | none => f env.now (w.pass host env.background)
    | some fault => (.error (.other fault.message),
        if fault.late then (f env.now (w.pass host env.background)).2
        else w.pass host env.background)

/-- A call that only asks. -/
def query (f : World → Except Err α) : Op α := call host fun _ w => (f w, w)

/-- A call that succeeds unless something is in its way. -/
def effect (f : World → World) : Op Unit := call host fun _ w => (.ok (), f w)

/-- A question whose answer is noted when it arrives. -/
def observe (f : World → Except Err α) (g : Except Err α → World → World) : Op α :=
  Prog.atomic fun env w =>
    match env.fault with
    | some fault => (.error (.other fault.message), w.pass host env.background)
    | none =>
      (f (w.pass host env.background),
        g (f (w.pass host env.background)) (w.pass host env.background))

/-- A look at the memory. -/
def look (f : World → α) : Op α :=
  Prog.atomic fun env w => (.ok (f (w.pass host env.background)), w.pass host env.background)

/-- A change of the memory. -/
def update (f : Time → World → World) : Op Unit :=
  Prog.atomic fun env w => (.ok (), f env.now (w.pass host env.background))

/-- Wait for something, until the request is cancelled. -/
def await (ready : World → Bool) (message : String) : Op Unit :=
  Prog.atomic fun env w =>
    (if ready (w.pass host env.background) then .ok () else .error (.other message),
      w.pass host env.background)

/-- Change the record at `a` and save it, under its mutex.  The caller decides what an error
means. -/
def save (a : ℕ) (f : Time → ProcessInfo → ProcessInfo) : Op (Option Err) :=
  Prog.atomic fun env w =>
    match (w.pass host env.background).object? a with
    | none => (.ok none, w.pass host env.background)
    | some p =>
      (.ok ((w.pass host env.background).store a (f env.now p.info) env.fault).1,
        ((w.pass host env.background).store a (f env.now p.info) env.fault).2)

end Steps

/-- `if errdefs.IsNotFound(err)`: what to do instead. -/
def ifNotFound {α : Type} (p q : Op α) : Op α :=
  rescue p fun e => if e = .notFound then q else raise e

/-- An error that nobody looks at. -/
def ignoring (p : Op Unit) : Op Unit := rescue p fun _ => pure ()

/-- An error of a save that ends the operation. -/
def check (e : Option Err) : Op Unit :=
  match e with
  | none => pure ()
  | some e => raise e

/-! ### Containers and tasks -/

namespace World

/-- A process of the sandbox is not settled. -/
def unsettled (w : World) (id : String) : Bool :=
  w.memory.heap.any fun p => p.info.sandboxId = id && p.stage ≠ .done

/-- The task goes, and its execs with it. -/
def removeTask (w : World) (id : String) : World :=
  { (if w.unsettled id then w.note (.unsettled id) else w) with
    containerd :=
      { w.containerd with
        tasks := w.containerd.tasks.erase id
        execs := w.containerd.execs.eraseWhere fun k => k.1 = id } }

end World

section Containerd

variable (host : Host)

/-- `LoadContainer` -/
def loadContainer (id : String) : Op Container :=
  query host fun w => (w.containerd.containers.find? id).elim (.error .notFound) .ok

/-- `load`: a container of the adapter. -/
def load (id : String) : Op Container :=
  query host fun w => (w.managed? id).elim (.error .notFound) .ok

/-- `c.Task` and `t.Status` -/
def taskStatus (id : String) : Op TaskStatus :=
  query host fun w => (w.containerd.tasks.find? id).elim (.error .notFound) .ok

/-- The task is deleted, killed before that if it runs. -/
def killTask (id : String) : Op Unit :=
  call host fun _ w =>
    match w.containerd.tasks.find? id with
    | some _ => (.ok (), w.removeTask id)
    | none => (.error .notFound, w)

/-- `deleteTask` -/
def deleteTask (id : String) : Op Unit :=
  ifNotFound
    (do
      let _ ← taskStatus host id
      killTask host id)
    (pure ())

/-- `describe`: whether the sandbox runs. -/
def describe (id : String) : Op Bool :=
  query host fun w =>
    match w.containerd.containers.find? id with
    | some _ => .ok (w.containerd.tasks.find? id = some .running)
    | none => .error .notFound

/-- `Inspect` -/
def inspect (id : String) : Op Bool := do
  let _ ← load host id
  describe host id

end Containerd

end Sandcube.Adapter
