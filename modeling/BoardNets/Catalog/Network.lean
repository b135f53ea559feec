import BoardNets.Catalog.Basic
import BoardNets.Graph

/-! Logical networks of a family: the connected components of the graph that joins every pin of a
requesting type, on the requesting side, with its compatible pins on the receiving side. -/
namespace BoardNets
namespace Catalog

variable (c : Catalog)

def addTypePairs (g : Graph SidedPin) (type : InterfaceTypeId) :
    Except CatalogError (Graph SidedPin) := do
  let type ← c.interfaceType type
  if !type.canBeRequired then return g
  type.pins.foldlM (fun g pin => do
    let pin ← c.interfacePin pin
    return pin.compatiblePins.toList.foldl (fun g o => g.addEdge ⟨pin.id, true⟩ ⟨o, false⟩) g) g

def pairGraph (f : Family) : Except CatalogError (Graph SidedPin) :=
  f.types.foldlM c.addTypePairs ∅

def networkOf (nodes : SortedSet SidedPin) : Except CatalogError LogicalNetwork := do
  let pins ← nodes.toList.mapM fun n => do return (n, (← c.interfacePin n.pin).reference)
  let side := fun requesting =>
    (pins.filter fun p => p.1.requesting = requesting).map fun p => (p.1.pin, p.2)
  return .ofPins (side true) (side false)

/-- The logical networks of a family, in order. -/
def logicalNetworks (key : FamilyKey) : Except CatalogError (List LogicalNetwork) := do
  let networks ← (← c.pairGraph (← c.family key)).components.mapM c.networkOf
  return networks.mergeSort fun a b => (compare a b).isLE

/-- The network that holds `pin` on the given side. A pin that no network holds on that side is
looked up on either side, where exactly one network must hold it. -/
def logicalNetwork (key : FamilyKey) (pin : InterfacePinId) (requesting : Bool) :
    Except CatalogError LogicalNetwork := do
  let networks ← c.logicalNetworks key
  match networks.find? (·.hasNode pin requesting) with
  | some network => return network
  | none =>
    match networks.filter (·.contains pin) with
    | [network] => return network
    | [] => throw (.noLogicalNetwork key (c.pinLabel pin) requesting)
    | several => throw (.ambiguousLogicalNetwork key pin several.length)

end Catalog
end BoardNets
