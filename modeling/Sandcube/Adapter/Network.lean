import Sandcube.Adapter.Calls

/-!
# Networks

`network.go`: the network of a sandbox, set up before its task starts and removed after it is
gone.  The journal record comes before the first kernel object and goes after the last.
-/

namespace Sandcube.Adapter

open Prog (raise rescue forEach when)

/-! ### Addresses -/

/-- The subnet at a place of the pool `198.18.0.0/15`. -/
def subnetAt (place : ℕ) : Address :=
  let v := place % 32768 * 4
  ⟨198, 18 + v / 65536, v / 256 % 256, v % 256⟩

/-- The address of the host in a subnet. -/
def gatewayOf (subnet : Address) : Address := { subnet with d := subnet.d + 1 }

/-- The address of the sandbox in a subnet. -/
def guestOf (subnet : Address) : Address := { subnet with d := subnet.d + 2 }

/-- `198.18.0.0/15` contains the address. -/
def inPool (address : Address) : Bool := address.a = 198 && (address.b = 18 || address.b = 19)

namespace Net

/-- `ip route show exact`: somebody routes the subnet. -/
def routed (n : Net) (subnet : Address) : Bool :=
  n.foreign subnet ||
    n.links.rows.any fun row => row.2.up && row.2.gateway = some (gatewayOf subnet)

/-- The guest addresses in the ruleset. -/
def filtered (n : Net) : List Address := n.tables.rows.map Prod.snd

end Net

/-! ### The commands of `setupNetwork` -/

/-- The commands, in the order in which they are issued. -/
inductive NetCommand where
  | netnsAdd | linkAdd | addrAdd | sysctl | guestAddrAdd | loUp | guestUp | guestRoute | linkUp
  deriving DecidableEq

/-- The list `commands`. -/
def setupCommands : List NetCommand :=
  [.netnsAdd, .linkAdd, .addrAdd, .sysctl, .guestAddrAdd, .loUp, .guestUp, .guestRoute, .linkUp]

/-- A command fails when its object is not there, or is there already. -/
def NetCommand.run (command : NetCommand) (r : NetworkRecord) (n : Net) : Except Err Unit × Net :=
  match command with
  | .netnsAdd =>
    if r.name ∈ n.namespaces then (.error (.other "File exists"), n)
    else (.ok (), { n with namespaces := r.name :: n.namespaces })
  | .linkAdd =>
    match n.links.find? r.name with
    | some _ => (.error (.other "File exists"), n)
    | none =>
      if r.name ∈ n.namespaces then
        (.ok (), { n with links := n.links.put r.name ⟨none, none, false⟩ })
      else (.error (.other "Invalid netns value"), n)
  | .addrAdd => onLink n fun link => { link with gateway := some r.gateway }
  | .guestAddrAdd => onLink n fun link => { link with guest := some r.guest }
  | .linkUp => onLink n fun link => { link with up := true }
  | .sysctl | .loUp | .guestUp | .guestRoute =>
    if r.name ∈ n.namespaces then (.ok (), n) else (.error (.other "Cannot open namespace"), n)
where
  /-- A command on the link. -/
  onLink (n : Net) (f : Link → Link) : Except Err Unit × Net :=
    match n.links.find? r.name with
    | some _ => (.ok (), { n with links := n.links.modify r.name f })
    | none => (.error (.other "Cannot find device"), n)

section Programs

variable (host : Host)

/-- A command on the network objects. -/
def command (f : Net → Except Err Unit × Net) : Op Unit :=
  call host fun _ w => ((f w.net).1, w.withNet fun _ => (f w.net).2)

/-- A command that succeeds unless something is in its way. -/
def netEffect (f : Net → Net) : Op Unit := effect host fun w => w.withNet f

/-! ### Removal -/

/-- `clearConntrack`: the entries of both directions. -/
def clearConntrack (guest : Address) : Op Unit := do
  if inPool guest then
    forEach [false, true] fun inbound =>
      netEffect host fun n =>
        { n with conntrack := n.conntrack.filter fun e => ¬ (e.guest = guest ∧ e.inbound = inbound) }
  else raise (.other "invalid sandbox conntrack address")

/-- An object is deleted if the listing has it. -/
def deleteListed (listed : Net → Bool) (f : Net → Net) : Op Unit := do
  let there ← query host fun w => .ok (listed w.net)
  when (there = true) (netEffect host f)

/-- `removeNetworkLocked` with the record. -/
def teardown (id : String) (r : NetworkRecord) : Op Unit := do
  -- Link first: cleanup errors must leave the firewall in place.
  deleteListed host (fun n => (n.links.find? r.name).isSome) fun n =>
    { n with links := n.links.erase r.name }
  deleteListed host (fun n => decide (host.networkName id ∈ n.namespaces)) fun n =>
    { n with namespaces := n.namespaces.filter (· ≠ r.name) }
  clearConntrack host r.guest
  deleteListed host (fun n => (n.tables.find? r.name).isSome) fun n =>
    { n with tables := n.tables.erase r.name }
  netEffect host fun n => { n with resolvers := n.resolvers.filter (· ≠ id) }
  netEffect host fun n => { n with records := n.records.erase id }

/-- `removeNetworkLocked` -/
def removeNetworkLocked (id : String) : Op Unit := do
  match ← query host fun w => .ok (w.net.records.find? id) with
  | none => pure ()
  | some r =>
    if r.id = id ∧ r.name = host.networkName id then teardown host id r
    else raise (.other "corrupt network ownership record")

/-- `removeNetwork` -/
def removeNetwork (id : String) : Op Unit := do
  -- networkLock
  query host fun _ => .ok ()
  removeNetworkLocked host id

/-! ### Setup -/

/-- The search for a free subnet, with so many places left to try. -/
def findSubnet (id : String) (filtered : List Address) (start : ℕ) : ℕ → Op NetworkRecord
  | 0 => raise (.other "sandbox network address pool exhausted")
  | left + 1 => do
    let subnet := subnetAt (start + (32768 - (left + 1)))
    let routed ← query host fun w => .ok (w.net.routed subnet)
    if routed ∨ guestOf subnet ∈ filtered then findSubnet id filtered start left
    else return ⟨id, host.networkName id, guestOf subnet, gatewayOf subnet, subnet⟩

/-- `setupNetwork` -/
def setupNetwork (id : String) : Op Unit := do
  -- networkLock
  query host fun _ => .ok ()
  removeNetworkLocked host id
  -- os.MkdirAll of the journal's directory
  query host fun _ => .ok ()
  let filtered ← query host fun w => .ok w.net.filtered
  let r ← findSubnet host id filtered (host.networkStart id) 32768
  -- Durable ownership precedes every kernel mutation, including firewall setup.
  netEffect host fun n => { n with records := n.records.put id r }
  netEffect host fun n => { n with tables := n.tables.put r.name r.guest }
  forEach setupCommands fun c => command host (c.run r)
  netEffect host fun n =>
    { n with resolvers := if id ∈ n.resolvers then n.resolvers else id :: n.resolvers }
  -- os.WriteFile of resolv.conf
  query host fun _ => .ok ()

/-- The turn of one record in `reconcileNetworks`. -/
def reconcileNetwork (id : String) : Op Unit := do
  if validID id then
    let running ← ifNotFound (inspect host id) (pure false)
    if running then pure () else removeNetwork host id
  else raise (.other "invalid network journal filename")

/-- `reconcileNetworks` -/
def reconcileNetworks : Op Unit := do
  let ids ← query host fun w => .ok w.net.records.keys
  forEach ids (reconcileNetwork host)

end Programs

end Sandcube.Adapter
