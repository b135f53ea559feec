import BoardNets.Net.Basic
import BoardNets.Net.Wires

/-! Groups of connected pins, each with the bus that connects it. A pin belongs to the last bus on
whose physical interfaces it is active, and a replacement belongs with the pin it stands in for. -/
namespace BoardNets

structure PinGroup where
  pins : SortedSet ComponentPin
  /-- Empty for single pins, and for pins that no bus connects. -/
  bus : Bus := {}

abbrev BusOwners := SortedMap ComponentPin Nat

namespace Circuit

def busOwners (c : Circuit) (buses : List Bus) : Result BusOwners := do
  let pins ← buses.mapM fun bus => bus.physicalPins c
  return pins.zipIdx.foldl (fun owners (pins, index) =>
    owners.insertAll (pins.toList.map (·, index))) ∅

end Circuit

namespace Wires

variable (w : Wires)

/-- The bus of a pin: that of the pin it stands in for, or else its own. -/
def owner (owners : BusOwners) (p : ComponentPin) : Option Nat :=
  (owners.find? (w.chainStart p)).or (owners.find? p)

def owners (owners : BusOwners) (pins : SortedSet ComponentPin) : SortedSet Nat :=
  .ofList (pins.toList.filterMap (w.owner owners))

def unbussed (c : Circuit) (pins : SortedSet ComponentPin) : Error :=
  .unbussedPins (c.describePins pins)

/-- Finds the bus of connected pins. Pins without a bus are refused only if that is asked for. -/
def group (d : Design) (buses : List Bus) (owners : BusOwners) (pins : SortedSet ComponentPin) :
    Result PinGroup := do
  if let some p := pins.toList.find? fun p => !d.circuit.isPart p.component then
    throw (.nonPartPin (d.circuit.pinLabel p))
  if pins.size ≤ 1 then return { pins }
  match (w.owners owners pins).toList with
  | [] => if d.options.strict then throw (unbussed d.circuit pins) else return { pins }
  | [index] => return { pins, bus := buses.getD index {} }
  | _ => throw (.multipleBuses (d.circuit.describePins pins))

def groups (d : Design) (buses : List Bus) : Result (List PinGroup) := do
  let owners ← d.circuit.busOwners buses
  w.graph.components.mapM (w.group d buses owners)

end Wires

namespace PinGroup

def warning? (g : PinGroup) (c : Circuit) : Option String :=
  if 1 < g.pins.size ∧ g.bus.isEmpty then some (Wires.unbussed c g.pins).message else none

/-- The net of those pins of a group that are on a board. -/
def net (g : PinGroup) (d : Design) (shape : NetShape) (board : Option NodeId) : Result Net :=
  let pins := g.pins.toList.filter fun p => d.board? p.component = board
  Net.ofPins d.circuit (.ofList pins) g.bus board shape

/-- The nets of a group: one for each board, or one in all. -/
def nets (g : PinGroup) (d : Design) : Result (List Net) := do
  let shape ← d.circuit.netShape g.pins g.bus
  if d.options.splitByBoard then
    let boards := SortedSet.ofList (g.pins.toList.map fun p => d.board? p.component)
    boards.toList.mapM (g.net d shape)
  else return [← Net.ofPins d.circuit g.pins g.bus none shape]

end PinGroup
end BoardNets
