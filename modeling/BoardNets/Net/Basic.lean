import BoardNets.Net.Shape

/-! Nets: connected pins on one board, and their order. -/
namespace BoardNets

structure Net where
  pins : SortedSet ComponentPin
  /-- Empty for pins that no bus connects. -/
  bus : Bus
  board : Option NodeId
  shape : NetShape
  firstPin : Option RankedPin
  /-- Single pins have no name. -/
  name : Option String := none
  deriving DecidableEq

namespace Net

def ofPins (c : Circuit) (pins : SortedSet ComponentPin) (bus : Bus) (board : Option NodeId)
    (shape : NetShape) : Result Net := do
  return { pins, bus, board, shape, firstPin := ← c.lowestPin pins }

def firstPinOrder : Option RankedPin → Option RankedPin → Ordering
  | none, none => .eq
  | none, some _ => .lt
  | some _, none => .gt
  | some a, some b => a.order b

/-- By board, template, identifier and first pin. -/
def order (a b : Net) : Ordering :=
  (compare a.board b.board).then <| (compare a.shape.template b.shape.template).then <|
    (compare a.shape.identifier b.shape.identifier).then (firstPinOrder a.firstPin b.firstPin)

def sort (nets : List Net) : List Net := nets.mergeSort fun a b => (order a b).isLE

def contains (n : Net) (p : ComponentPin) : Bool := p ∈ n.pins

def components (n : Net) : SortedSet NodeId := .ofList (n.pins.toList.map ComponentPin.component)

/-- Interface pins that the net's pins are actively used as. -/
def interfacePins (n : Net) (c : Circuit) : Result (SortedSet InterfacePinId) := do
  return .ofList ((← n.pins.toList.mapM c.assignedInterfacePin).filterMap id)

end Net
end BoardNets
