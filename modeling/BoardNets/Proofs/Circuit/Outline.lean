import BoardNets.Proofs.Circuit.Building

/-! What deduction looks at. A node's outline is what it offers: its pins and interfaces, or its
candidates. Deduction answers from outlines alone, errors included, so what changes uses, places in
the tree and links makes no difference to it. -/
namespace BoardNets

def ComponentInterface.idle (i : ComponentInterface) : ComponentInterface :=
  { i with uses := ∅, active := false }

/-- What a component offers. -/
def Component.outline (p : Component) : Component where
  reference := p.reference
  function := p.function
  kind := p.kind
  connectivity := p.connectivity
  pins := p.pins
  interfaces := p.interfaces.map ComponentInterface.idle
  parent := none

/-- What a filter stands for. -/
def Filter.outline (f : Filter) : Filter where
  reference := f.reference
  function := f.function
  connectivity := f.connectivity
  feasible := f.feasible
  parent := none

def Node.outline : Node → Node
  | .component p => .component p.outline
  | .filter f => .filter f.outline

namespace Circuit

/-- The circuit with the outlines of its nodes and without fragments. -/
def outline (c : Circuit) : Circuit where
  catalog := c.catalog
  nodes := c.nodes.map Node.outline
  fragments := #[]

variable {c c' : Circuit}

@[simp] theorem catalog_outline : c.outline.catalog = c.catalog := rfl

theorem node?_outline (x : NodeId) : c.outline.node? x = (c.node? x).map Node.outline :=
  Array.getElem?_map

theorem outline_eq_of_nodes (hcatalog : c'.catalog = c.catalog)
    (hnodes : ∀ x, (c'.node? x).map Node.outline = (c.node? x).map Node.outline) :
    c'.outline = c.outline := by
  have harray : c'.nodes.map Node.outline = c.nodes.map Node.outline := by
    refine Array.ext_getElem? fun k => ?_
    rw [Array.getElem?_map, Array.getElem?_map]
    exact hnodes ⟨k⟩
  rw [outline, outline, hcatalog, harray]

theorem node_outline (x : NodeId) : c.outline.node x = Node.outline <$> c.node x := by
  rw [node, node, node?_outline]
  cases c.node? x <;> rfl

theorem component_outline (x : NodeId) :
    c.outline.component x = Component.outline <$> c.component x := by
  rw [component, component, node_outline]
  cases c.node x with
  | error e => rfl
  | ok n => cases n <;> rfl

theorem reference_outline (x : NodeId) : c.outline.reference x = c.reference x := by
  rw [reference, reference, node?_outline]
  cases c.node? x with
  | none => rfl
  | some n => cases n <;> rfl

theorem matching_outline (p : Component) (name : String) (type : InterfaceTypeId) :
    matching p.outline name type = matching p name type := by
  rw [matching, matching, Component.outline, List.zipIdx_map, List.filterMap_map]
  rfl

theorem interfaceNamed_outline (x : NodeId) (name : String) (type : InterfaceTypeId) :
    c.outline.interfaceNamed x name type = c.interfaceNamed x name type := by
  rw [interfaceNamed, interfaceNamed, component_outline]
  cases c.component x with
  | error e => rfl
  | ok p =>
    simp only [Functor.map, Except.map, bind, Except.bind, matching_outline]
    rfl

theorem interfaceNamed?_outline (x : NodeId) (name : String) (type : InterfaceTypeId) :
    c.outline.interfaceNamed? x name type = c.interfaceNamed? x name type := by
  rw [interfaceNamed?, interfaceNamed?, interfaceNamed_outline]

theorem interface_outline (i : InterfaceRef) :
    c.outline.interface i = ComponentInterface.idle <$> c.interface i := by
  rw [interface, interface, component_outline]
  cases c.component i.component with
  | error e => rfl
  | ok p =>
    change ((p.interfaces.map _)[i.index]?).elim _ pure = _ <$> (p.interfaces[i.index]?).elim _ pure
    rw [List.getElem?_map]
    cases p.interfaces[i.index]? <;> rfl

theorem pin_outline (p : ComponentPin) : c.outline.pin p = c.pin p := by
  rw [pin, pin, component_outline]
  cases c.component p.component <;> rfl

theorem pinUses_outline (i : InterfaceRef) (a : PinAssignment) (slot : InterfacePinId) :
    c.outline.pinUses i a slot = c.pinUses i a slot := by
  simp only [pinUses, componentPin, pin_outline]

theorem interfaceCandidates_outline (x : NodeId) :
    c.outline.interfaceCandidates x = c.interfaceCandidates x := by
  rw [interfaceCandidates, interfaceCandidates, node_outline]
  cases c.node x with
  | error e => rfl
  | ok n =>
    cases n with
    | filter f => rfl
    | component p =>
      have hoffered : p.outline.interfaces.map (fun i => (i.name, i.interface.type)) =
          p.interfaces.map fun i => (i.name, i.interface.type) := List.map_map
      exact congrArg Except.ok hoffered

end Circuit

namespace Fragment

variable (f : Fragment) (c : Circuit)

theorem describe_outline : f.describe c.outline = f.describe c := by
  simp only [describe, describeEnd, Circuit.reference_outline]

theorem singleType_outline (side : Side) (name : String) (candidates : SortedSet InterfaceTypeId) :
    f.singleType c.outline side name candidates = f.singleType c side name candidates := by
  simp only [singleType, describe_outline, Circuit.reference_outline]

theorem requiredName_outline (side : Side) :
    f.requiredName c.outline side = f.requiredName c side := by
  simp only [requiredName, describe_outline]

theorem namedTypes_outline (side : Side) (name : String) :
    f.namedTypes c.outline side name = f.namedTypes c side name := by
  simp only [namedTypes, Circuit.interfaceCandidates_outline]

theorem sourceType_outline : f.sourceType c.outline = f.sourceType c := by
  simp only [sourceType, requiredName_outline, namedTypes_outline, singleType_outline,
    Circuit.catalog_outline]

theorem targetType_outline : f.targetType c.outline = f.targetType c := by
  simp only [targetType, sourceType_outline, requiredName_outline, namedTypes_outline,
    singleType_outline, Circuit.catalog_outline]

theorem interface_outline (side : Side) : f.interface c.outline side = f.interface c side := by
  have htype : f.interfaceType c.outline side = f.interfaceType c side := by
    cases side
    · exact f.sourceType_outline c
    · exact f.targetType_outline c
  simp only [interface, htype, Circuit.interfaceNamed?_outline]

theorem reference_outline : f.reference c.outline = f.reference c := by
  simp only [reference, sourceType_outline, Circuit.catalog_outline, Circuit.reference_outline]

theorem targetComponent?_outline : f.targetComponent? c.outline = f.targetComponent? c := by
  have hconnectivity (x : NodeId) : (do return (← c.outline.component x).connectivity) =
      (do return (← c.component x).connectivity : Result (Option ConnectivityId)) := by
    rw [Circuit.component_outline]
    cases c.component x <;> rfl
  simp only [targetComponent?, Circuit.node_outline, hconnectivity]
  cases c.node f.target.node with
  | error e => rfl
  | ok n => cases n <;> rfl

theorem pair_outline (sourceType targetType : InterfaceTypeId) (source target : Placed) :
    f.pair c.outline sourceType targetType source target =
      f.pair c sourceType targetType source target := by
  have hcompatible : pairCompatible c.outline source target = pairCompatible c source target := by
    funext p a
    simp only [pairCompatible, Circuit.pinUses_outline, Circuit.catalog_outline]
  have hequal : f.pairEqual c.outline source target = f.pairEqual c source target := by
    funext p a
    simp only [pairEqual, Circuit.pinUses_outline, Circuit.catalog_outline, describe_outline]
  have hsingle : pairSingle c.outline sourceType targetType source target =
      pairSingle c sourceType targetType source target := by
    simp only [pairSingle, Circuit.pinUses_outline, Circuit.catalog_outline]
  simp only [pair, hcompatible, hequal, hsingle, Circuit.catalog_outline]

theorem checkPairing_outline (p : Pairing) :
    f.checkPairing c.outline p = f.checkPairing c p := by
  simp only [checkPairing, describe_outline]

theorem wire_outline (sourceType targetType : InterfaceTypeId) (source target : InterfaceRef) :
    f.wire c.outline sourceType targetType source target =
      f.wire c sourceType targetType source target := by
  simp only [wire, Circuit.interface_outline, pair_outline, checkPairing_outline]
  cases c.interface source with
  | error e => rfl
  | ok x => cases c.interface target <;> rfl

theorem deduce_outline (sourceNode : NodeId) :
    f.deduce c.outline sourceNode = f.deduce c sourceNode := by
  simp only [deduce, deduceNamed, sourceType_outline, targetType_outline, targetComponent?_outline,
    Circuit.interfaceNamed?_outline, wire_outline]

end Fragment
end BoardNets
