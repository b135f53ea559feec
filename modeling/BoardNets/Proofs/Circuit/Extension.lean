import BoardNets.Bus.Basic
import BoardNets.Proofs.Circuit.Arena

/-! Circuits that extend others. Nodes of the smaller circuit are those of the larger one but for
their children and ancillary roles, and there may be more of them. Whatever does not look at either
answers at nodes of the smaller circuit as it did before. -/
namespace BoardNets

/-- Nodes that differ in their children and their ancillary role only. -/
inductive Node.Like : Node → Node → Prop
  | component {p : Component} (children : List NodeId) (ancillary : Option Ancillary) :
      Like (.component p) (.component { p with children, ancillary })
  | filter (f : Filter) : Like (.filter f) (.filter f)

namespace Node.Like

theorem refl (n : Node) : n.Like n := by
  cases n with
  | component p => exact .component p.children p.ancillary
  | filter f => exact .filter f

theorem trans {n n' n'' : Node} (h : n.Like n') (h' : n'.Like n'') : n.Like n'' := by
  cases h with
  | component _ _ =>
    cases h' with
    | component children ancillary => exact .component children ancillary
  | filter f => exact h'

end Node.Like

namespace Circuit

/-- All nodes of `c` are like those of `c'`, over one catalog and the same fragments. -/
structure Extends (c c' : Circuit) : Prop where
  catalog : c'.catalog = c.catalog
  fragments : c'.fragments = c.fragments
  nodes : ∀ x n, c.node? x = some n → ∃ n', c'.node? x = some n' ∧ n.Like n'

def Has (c : Circuit) (x : NodeId) : Prop := (c.node? x).isSome = true

instance (c : Circuit) (x : NodeId) : Decidable (c.Has x) := inferInstanceAs (Decidable (_ = true))

variable {c c' : Circuit}

theorem has_of_component? {x : NodeId} {p : Component} (h : c.component? x = some p) : c.Has x := by
  rw [Has, component?_eq_some.1 h]
  rfl

theorem has_of_interface {i : InterfaceRef} {x : ComponentInterface} (h : c.interface i = .ok x) :
    c.Has i.component := by
  obtain ⟨p, hp, _⟩ := bind_eq_ok.1 h
  exact has_of_component? (component_eq_ok.1 hp)

theorem has_of_pin {p : ComponentPin} {pin : Pin} (h : c.pin p = .ok pin) : c.Has p.component := by
  obtain ⟨part, hpart, _⟩ := bind_eq_ok.1 h
  exact has_of_component? (component_eq_ok.1 hpart)

namespace Extends

theorem trans {c'' : Circuit} (h : c.Extends c') (h' : c'.Extends c'') : c.Extends c'' where
  catalog := h'.catalog.trans h.catalog
  fragments := h'.fragments.trans h.fragments
  nodes := by
    intro x n hn
    obtain ⟨n', hn', hlike⟩ := h.nodes x n hn
    obtain ⟨n'', hn'', hlike'⟩ := h'.nodes x n' hn'
    exact ⟨n'', hn'', hlike.trans hlike'⟩

theorem pushNode (n : Node) : c.Extends (c.pushNode n) where
  catalog := rfl
  fragments := rfl
  nodes := fun _ m hm => ⟨m, node?_pushNode_of_some hm, .refl m⟩

theorem editComponent {id : NodeId} {g : Component → Component}
    (hg : ∀ p, ∃ children ancillary, g p = { p with children, ancillary }) :
    c.Extends (c.editComponent id g) where
  catalog := catalog_editComponent id g
  fragments := fragments_editComponent id g
  nodes := by
    intro x n hn
    rw [Circuit.editComponent]
    cases hid : c.component? id with
    | none => exact ⟨n, hn, .refl n⟩
    | some p =>
      rw [Option.elim_some, node?_setNode]
      split
      · rename_i hx
        obtain rfl := Option.some.inj ((component?_eq_some.1 hid).symm.trans (hx ▸ hn))
        obtain ⟨children, ancillary, hgp⟩ := hg p
        rw [hn, Option.map_some, hgp]
        exact ⟨_, rfl, .component children ancillary⟩
      · exact ⟨n, hn, .refl n⟩

variable (h : c.Extends c')
include h

theorem at_node {x : NodeId} (hx : c.Has x) :
    ∃ n n', c.node? x = some n ∧ c'.node? x = some n' ∧ n.Like n' := by
  obtain ⟨n, hn⟩ := Option.isSome_iff_exists.1 hx
  obtain ⟨n', hn', hlike⟩ := h.nodes x n hn
  exact ⟨n, n', hn, hn', hlike⟩

theorem has {x : NodeId} (hx : c.Has x) : c'.Has x := by
  obtain ⟨_, _, _, hn', _⟩ := h.at_node hx
  rw [Has, hn']
  rfl

theorem fragment (id : FragmentId) : c'.fragment id = c.fragment id := by
  rw [Circuit.fragment, Circuit.fragment, h.fragments]

theorem component {x : NodeId} {p : Component} (hp : c.component? x = some p) :
    ∃ children ancillary, c'.component? x = some { p with children, ancillary } := by
  obtain ⟨n', hn', hlike⟩ := h.nodes x _ (component?_eq_some.1 hp)
  cases hlike with
  | component children ancillary => exact ⟨children, ancillary, component?_eq_some.2 hn'⟩

theorem reference {x : NodeId} (hx : c.Has x) : c'.reference x = c.reference x := by
  obtain ⟨n, n', hn, hn', hlike⟩ := h.at_node hx
  rw [Circuit.reference, Circuit.reference, hn, hn']
  cases hlike <;> rfl

theorem isPart {x : NodeId} (hx : c.Has x) : c'.isPart x = c.isPart x := by
  obtain ⟨n, n', hn, hn', hlike⟩ := h.at_node hx
  rw [Circuit.isPart, Circuit.isPart, component?, component?, hn, hn']
  cases hlike <;> rfl

theorem interface {i : InterfaceRef} (hi : c.Has i.component) : c'.interface i = c.interface i := by
  obtain ⟨n, n', hn, hn', hlike⟩ := h.at_node hi
  simp only [Circuit.interface, Circuit.component, node, hn, hn']
  cases hlike <;> rfl

theorem pin {p : ComponentPin} (hp : c.Has p.component) : c'.pin p = c.pin p := by
  obtain ⟨n, n', hn, hn', hlike⟩ := h.at_node hp
  simp only [Circuit.pin, Circuit.component, node, hn, hn']
  cases hlike <;> rfl

theorem componentPin {id : NodeId} {pin : PinId} (hid : c.Has id) :
    c'.componentPin id pin = c.componentPin id pin := by
  rw [Circuit.componentPin, Circuit.componentPin, h.pin hid]

theorem interfaceNamed? {id : NodeId} {name : String} {type : InterfaceTypeId} (hid : c.Has id) :
    c'.interfaceNamed? id name type = c.interfaceNamed? id name type := by
  obtain ⟨n, n', hn, hn', hlike⟩ := h.at_node hid
  simp only [Circuit.interfaceNamed?, Circuit.interfaceNamed, Circuit.component, node, hn, hn',
    h.catalog]
  cases hlike <;> rfl

theorem interfaceCandidates {id : NodeId} (hid : c.Has id) :
    c'.interfaceCandidates id = c.interfaceCandidates id := by
  obtain ⟨n, n', hn, hn', hlike⟩ := h.at_node hid
  simp only [Circuit.interfaceCandidates, node, hn, hn', h.catalog]
  cases hlike <;> rfl

end Extends
end Circuit

namespace Fragment

def Anchored (f : Fragment) (c : Circuit) : Prop := ∀ side, c.Has (f.endpoint side).node

variable {f : Fragment} {c c' : Circuit}

theorem describe_extends (h : c.Extends c') (hf : f.Anchored c) : f.describe c' = f.describe c := by
  rw [describe, describe, describeEnd, describeEnd, describeEnd, describeEnd,
    h.reference (hf .source), h.reference (hf .target)]

theorem requiredName_extends (h : c.Extends c') (hf : f.Anchored c) (side : Side) :
    f.requiredName c' side = f.requiredName c side := by
  rw [requiredName, requiredName, describe_extends h hf]

theorem singleType_extends (h : c.Extends c') (hf : f.Anchored c) (side : Side) (name : String)
    (candidates : SortedSet InterfaceTypeId) :
    f.singleType c' side name candidates = f.singleType c side name candidates := by
  rw [singleType, singleType, describe_extends h hf, h.reference (hf side)]

theorem namedTypes_extends (h : c.Extends c') (hf : f.Anchored c) (side : Side) (name : String) :
    f.namedTypes c' side name = f.namedTypes c side name := by
  rw [namedTypes, namedTypes, h.interfaceCandidates (hf side)]

theorem sourceType_extends (h : c.Extends c') (hf : f.Anchored c) :
    f.sourceType c' = f.sourceType c := by
  simp only [sourceType, requiredName_extends h hf, namedTypes_extends h hf,
    singleType_extends h hf, h.catalog]

theorem targetType_extends (h : c.Extends c') (hf : f.Anchored c) :
    f.targetType c' = f.targetType c := by
  simp only [targetType, requiredName_extends h hf, namedTypes_extends h hf,
    singleType_extends h hf, sourceType_extends h hf, h.catalog]

theorem interface_extends (h : c.Extends c') (hf : f.Anchored c) (side : Side) :
    f.interface c' side = f.interface c side := by
  have htype : f.interfaceType c' side = f.interfaceType c side := by
    cases side
    · exact sourceType_extends h hf
    · exact targetType_extends h hf
  simp only [interface, htype, h.interfaceNamed? (hf side)]

theorem reference_extends (h : c.Extends c') (hf : f.Anchored c) :
    f.reference c' = f.reference c := by
  have hsource : c'.reference f.source.node = c.reference f.source.node := h.reference (hf .source)
  simp only [reference, sourceType_extends h hf, h.catalog, hsource]

end Fragment
end BoardNets
