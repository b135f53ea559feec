import BoardNets.Design.Basic

/-! Wires between the pins of all parts. Ancillaries that are wired in series put a pin of their own
in the place of the pins they attach to: such a replaced pin is masked, and later wires that would
end at it end at its replacement. -/
namespace BoardNets

/-- Wires laid so far. -/
structure Wires where
  graph : Graph ComponentPin
  /-- Replaced pins with their replacements. -/
  masks : SortedMap ComponentPin ComponentPin := ∅
  /-- Replacements with the pin at the start of their chain. -/
  chainStarts : SortedMap ComponentPin ComponentPin := ∅

/-- Active pins of one logical network on a bus. -/
structure NetworkPins where
  /-- Whether an interface at a source uses the network's requesting side. -/
  requested : Bool := false
  pins : SortedSet ComponentPin := ∅

namespace Circuit

/-- Pins of the parts of the tree. -/
def partPins (c : Circuit) : List ComponentPin :=
  (c.parts root).flatMap fun id =>
    (c.component? id).elim [] fun part => part.pins.map fun pin => ⟨id, pin.id⟩

/-- The ancillaries on parts of the tree, in pre-order. -/
def ancillaries (c : Circuit) : List (NodeId × Ancillary) :=
  (c.parts root).filterMap fun id => do
    let part ← c.component? id
    return (id, ← part.ancillary)

/-- Adds one active interface pin of a physical interface to its network. -/
def addToNetwork (c : Circuit) (family : FamilyKey) (interface : ComponentInterface)
    (requesting : Bool) (networks : SortedMap LogicalNetwork NetworkPins)
    (slot : InterfacePinId) : Result (SortedMap LogicalNetwork NetworkPins) := do
  let network ← c.catalog.logicalNetwork family slot requesting
  return networks.update network {} fun n => {
    requested := n.requested || (requesting && slot ∈ network.requesting)
    pins := n.pins ∪ interface.activePins (some slot) none }

def addInterface (c : Circuit) (bus : Bus) (family : FamilyKey)
    (networks : SortedMap LogicalNetwork NetworkPins) (i : InterfaceRef) :
    Result (SortedMap LogicalNetwork NetworkPins) := do
  let interface ← c.interface i
  interface.activeInterfacePins.toList.foldlM
    (c.addToNetwork family interface (i ∈ bus.sourceInterfaces c)) networks

def busNetworks (c : Circuit) (bus : Bus) : Result (SortedMap LogicalNetwork NetworkPins) := do
  let family ← bus.family c
  (bus.physicalInterfaces c).toList.foldlM (c.addInterface bus family.key) ∅

end Circuit

namespace Wires

/-- All pins and no wires. -/
def bare (c : Circuit) : Wires := { graph := c.partPins.foldl Graph.addNode ∅ }

variable (w : Wires)

/-- The pin that stands for `p` in new wires. -/
def masked (p : ComponentPin) : ComponentPin := (w.masks.find? p).getD p

/-- The pin at the start of the chain of replacements that leads to `p`. -/
def chainStart (p : ComponentPin) : ComponentPin := (w.chainStarts.find? p).getD p

def connect (a b : ComponentPin) : Wires :=
  let (a, b) := (w.masked a, w.masked b)
  if a = b then w else { w with graph := w.graph.addEdge a b }

def mask (p replacement : ComponentPin) : Wires where
  graph := w.graph
  masks := w.masks.insert p replacement
  chainStarts := w.chainStarts.insert replacement (w.chainStart p)

/-- Carries out an ancillary's connections, then its replacements. -/
def apply (a : Application) : Wires :=
  let w := a.connections.toList.foldl (fun w p => w.connect p.first p.second) w
  a.masks.toList.foldl (fun w m => w.mask m.1 m.2) w

def connectAll (pins : SortedSet ComponentPin) : Wires :=
  match pins.toList with
  | [] => w
  | first :: rest => rest.foldl (fun w p => w.connect first p) w

/-- Applies interface and pins ancillaries in their order. -/
def applyLocal (c : Circuit) : Result Wires :=
  (Ancillary.sort (c.ancillaries.filter (·.2.isLocal))).foldlM
    (fun w (id, a) => return w.apply (← a.apply c id)) w

/-- Applies a bus ancillary to a network, by the connections that attach to its requesting pins. -/
def applyToNetwork (c : Circuit) (network : LogicalNetwork) (pins : SortedSet ComponentPin)
    (id : NodeId) (a : Ancillary) : Result Wires :=
  (a.connections.filter fun n => n.interfacePin?.any (· ∈ network.requesting)).foldlM
    (fun w n => return w.apply (← n.applyTo c id a pins)) w

/-- Connects the pins of a network, with the bus ancillaries on it first. -/
def connectNetwork (c : Circuit) (ancillaries : List (NodeId × Ancillary))
    (network : LogicalNetwork) (n : NetworkPins) : Result Wires := do
  let w ← if n.requested then
    ancillaries.foldlM (fun w (id, a) => w.applyToNetwork c network n.pins id a) w
  else pure w
  return w.connectAll n.pins

def connectBus (d : Design) (bus : Bus) : Result Wires := do
  let networks ← d.circuit.busNetworks bus
  let parts ← d.busAncillaries bus none
  let ancillaries := Ancillary.sort (d.circuit.ancillaries.filter (·.1 ∈ parts))
  networks.toList.foldlM (fun w (network, n) => w.connectNetwork d.circuit ancillaries network n) w

/-- The wires of a design over its buses. -/
def ofDesign (d : Design) (buses : List Bus) : Result Wires := do
  let w ← (bare d.circuit).applyLocal d.circuit
  buses.foldlM (·.connectBus d ·) w

end Wires
end BoardNets
