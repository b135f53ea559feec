import BoardNets.Net.Wires
import BoardNets.Proofs.Circuit.Resolution

/-! What a circuit is without its fragments. The frame of a circuit is its tree with what the nodes
offer, without uses, links and requirements. Adding components and giving them ancillary roles
neither looks at more than the frame nor changes anything else, so these steps do the same to a
circuit's frame as to the circuit. -/
namespace BoardNets

def Component.frame (p : Component) : Component :=
  { p with interfaces := p.interfaces.map ComponentInterface.idle, requirements := [] }

def Node.frame : Node → Node
  | .component p => .component p.frame
  | .filter f => .filter { f with links := [], requirements := [] }

theorem Node.frame_unused (n : Node) : n.unused.frame = n.frame := by
  cases n with
  | component p => simp [unused, frame, Component.frame, Function.comp_def, ComponentInterface.idle]
  | filter f => rfl

theorem Node.outline_frame (n : Node) : n.frame.outline = n.outline := by
  cases n with
  | component p =>
    simp [outline, frame, Component.frame, Component.outline, Function.comp_def,
      ComponentInterface.idle]
  | filter f => rfl

namespace Circuit

/-- The circuit without fragments and what they leave in its nodes. -/
def frame (c : Circuit) : Circuit where
  catalog := c.catalog
  nodes := c.nodes.map Node.frame
  fragments := #[]

variable {α β : Type} {c c' : Circuit}

theorem node?_frame (x : NodeId) : c.frame.node? x = (c.node? x).map Node.frame :=
  Array.getElem?_map

theorem component?_frame (x : NodeId) :
    c.frame.component? x = (c.component? x).map Component.frame := by
  rw [component?, component?, node?_frame]
  cases c.node? x with
  | none => rfl
  | some n => cases n <;> rfl

theorem frame_eq_of_nodes (hcatalog : c'.catalog = c.catalog)
    (hnodes : ∀ x, (c'.node? x).map Node.frame = (c.node? x).map Node.frame) :
    c'.frame = c.frame := by
  have harray : c'.nodes.map Node.frame = c.nodes.map Node.frame := by
    refine Array.ext_getElem? fun k => ?_
    rw [Array.getElem?_map, Array.getElem?_map]
    exact hnodes ⟨k⟩
  rw [frame, frame, hcatalog, harray]

theorem SameTree.frame (h : c.SameTree c') : c'.frame = c.frame := by
  refine frame_eq_of_nodes h.catalog fun x => ?_
  have hframe (n : Option Node) : n.map Node.frame = (n.map Node.unused).map Node.frame := by
    rw [Option.map_map]
    exact Option.map_congr fun m _ => (Node.frame_unused m).symm
  rw [hframe, hframe (c.node? x)]
  exact congrArg _ (h.nodes x)

theorem frame_setNode {x : NodeId} {n m : Node} (hx : c.node? x = some n)
    (h : m.frame = n.frame) : (c.setNode x m).frame = c.frame :=
  frame_eq_of_nodes rfl (view_setNode hx (congrArg some h))

section Reads

/-- What is read off an element, if there is one, stays the same under a map that it cannot see. -/
theorem read_map {F : Option α → β} {f : α → α} (hF : ∀ a, F (some (f a)) = F (some a))
    (a? : Option α) : F (a?.map f) = F a? := by
  cases a? with
  | none => rfl
  | some a => exact hF a

variable (h : c'.frame = c.frame)
include h

theorem catalog_of_frame : c'.catalog = c.catalog := (Circuit.mk.inj h).1

theorem size_of_frame : c'.nodes.size = c.nodes.size := by
  have hsize := congrArg (·.nodes.size) h
  simpa [frame] using hsize

/-- What is read off a node is the same if uses, links and requirements make no difference. -/
theorem read_of_frame {F : Option Node → β} (hF : ∀ n, F (some (Node.frame n)) = F (some n))
    (x : NodeId) : F (c'.node? x) = F (c.node? x) := by
  rw [← read_map hF, ← read_map hF (c.node? x), ← node?_frame, ← node?_frame, h]

theorem outline_of_frame : c'.outline = c.outline :=
  outline_eq_of_nodes (catalog_of_frame h) <|
    read_of_frame h fun n => congrArg some (Node.outline_frame n)

theorem parent?_of_frame (x : NodeId) : c'.parent? x = c.parent? x :=
  read_of_frame h (F := fun n => n >>= Node.parent) (fun n => by cases n <;> rfl) x

theorem component_of_frame {F : Option Component → β}
    (hF : ∀ p, F (some (Component.frame p)) = F (some p)) (x : NodeId) :
    F (c'.component? x) = F (c.component? x) := by
  rw [← read_map hF, ← read_map hF (c.component? x), ← component?_frame, ← component?_frame, h]

theorem children_of_frame (x : NodeId) : c'.children x = c.children x :=
  component_of_frame h (F := fun p? => p?.elim [] Component.children) (fun _ => rfl) x

theorem isPart_of_frame (x : NodeId) : c'.isPart x = c.isPart x :=
  component_of_frame h (F := fun p? => p?.any Component.isPart) (fun _ => rfl) x

theorem below_of_frame (x : NodeId) : c'.below x = c.below x := by
  have hwalk (depth : Nat) (x : NodeId) : c'.walk depth x = c.walk depth x := by
    induction depth generalizing x with
    | zero => rfl
    | succ depth ih => simp only [walk, children_of_frame h, ih]
  rw [below, below, hwalk, size_of_frame h]

theorem subtree_of_frame (x : NodeId) : c'.subtree x = c.subtree x := by
  rw [subtree, subtree, below_of_frame h]

theorem parts_of_frame (x : NodeId) : c'.parts x = c.parts x := by
  rw [parts, parts, subtree_of_frame h]
  exact List.filter_congr fun y _ => isPart_of_frame h y

theorem partPins_of_frame : c'.partPins = c.partPins := by
  rw [partPins, partPins, parts_of_frame h]
  refine List.flatMap_congr fun id _ => ?_
  exact component_of_frame h (F := fun p? => p?.elim [] fun part =>
    part.pins.map fun pin => (⟨id, pin.id⟩ : ComponentPin)) (fun _ => rfl) id

theorem ancillaries_of_frame : c'.ancillaries = c.ancillaries := by
  rw [ancillaries, ancillaries, parts_of_frame h]
  refine List.filterMap_congr fun id _ => ?_
  exact component_of_frame h (F := fun p? => do
    let part ← p?
    return (id, ← part.ancillary)) (fun _ => rfl) id

theorem reference_of_frame (x : NodeId) : c'.reference x = c.reference x :=
  read_of_frame h (F := fun n => n.elim "?" Node.reference) (fun n => by cases n <;> rfl) x

theorem find_of_frame (reference : String) : c'.find reference = c.find reference := by
  rw [find, find, subtree_of_frame h]
  simp only [reference_of_frame h]

theorem isFilter_of_frame (x : NodeId) : c'.isFilter x = c.isFilter x := by
  have hframe (c : Circuit) : c.frame.isFilter x = c.isFilter x := by
    rw [isFilter, isFilter, node?_frame]
    cases c.node? x with
    | none => rfl
    | some n => cases n <;> rfl
  rw [← hframe c', h, hframe]

theorem checkResolved_of_frame (x : NodeId) : c'.checkResolved x = c.checkResolved x := by
  rw [checkResolved, checkResolved, unresolvedFilters, unresolvedFilters, subtree_of_frame h,
    funext (isFilter_of_frame h), funext (reference_of_frame h)]

theorem ancestors_of_frame (x : NodeId) (includeSelf : Bool) :
    c'.ancestors x includeSelf = c.ancestors x includeSelf := by
  have hclimb (steps : Nat) (x : NodeId) : c'.climb steps x = c.climb steps x := by
    induction steps generalizing x with
    | zero => rfl
    | succ steps ih => simp only [climb, parent?_of_frame h, ih]
  rw [ancestors, ancestors, hclimb, size_of_frame h]

end Reads

theorem component_frame (x : NodeId) :
    c.frame.component x = Component.frame <$> c.component x := by
  rw [component, component, node, node, node?_frame]
  cases c.node? x with
  | none => rfl
  | some n => cases n <;> rfl

theorem childReference_frame (parent : NodeId) (name : String) :
    c.frame.childReference parent name = c.childReference parent name := by
  rw [childReference, childReference, component_frame]
  cases c.component parent <;> rfl

theorem frame_pushNode (n : Node) : (c.pushNode n).frame = c.frame.pushNode n.frame := by
  simp [frame, pushNode]

theorem frame_editComponent {x : NodeId} {g : Component → Component}
    (hg : ∀ p, (g p).frame = g p.frame) :
    (c.editComponent x g).frame = c.frame.editComponent x g := by
  rw [editComponent, editComponent, component?_frame]
  cases hx : c.component? x with
  | none => rfl
  | some p =>
    simp only [Option.elim_some, Option.map_some, setNode, frame, Array.map_setIfInBounds]
    rw [Node.frame, hg]

/-- A step answers on the frame as on the circuit, and leaves the frame of what it leaves. -/
def Framed (b : Build α) : Prop := ∀ c : Circuit, c.frame.run b = ((c.run b).1, (c.run b).2.frame)

namespace Framed

theorem pure (a : α) : Framed (Pure.pure a) := fun _ => rfl

theorem bind {x : Build α} {f : α → Build β} (hx : Framed x) (hf : ∀ a, Framed (f a)) :
    Framed (x >>= f) := by
  intro c
  rw [run_bind, run_bind, hx c]
  cases hrun : c.run x with
  | mk result c' =>
    cases result with
    | error e => rfl
    | ok a => exact hf a c'

/-- A question may be answered from the frame by something else that comes to the same. -/
theorem ask_bind {question : Circuit → Result α} {k : α → α} {f : α → Build β}
    (hquestion : ∀ c : Circuit, question c.frame = k <$> question c) (hk : ∀ a, f (k a) = f a)
    (hf : ∀ a, Framed (f a)) : Framed (ask question >>= f) := by
  intro c
  rw [run_ask_bind, run_ask_bind, hquestion]
  cases question c with
  | error e => rfl
  | ok a =>
    change c.frame.run (f (k a)) = _
    rw [hk]
    exact hf a c

theorem changeComponent (x : NodeId) {g : Component → Component}
    (hg : ∀ p, (g p).frame = g p.frame) : Framed (changeComponent x g) := by
  intro c
  rw [run_changeComponent, run_changeComponent, component_frame]
  cases c.component x with
  | error e => rfl
  | ok p => exact congrArg _ (frame_editComponent hg).symm

theorem addChild {n : Node} (hn : n.frame = n) : Framed (addChild n) := by
  have hnode : Framed (addNode n) := by
    intro c
    rw [run_addNode, run_addNode, frame_pushNode, hn, nextNode, nextNode]
    simp [frame]
  rw [Circuit.addChild]
  refine hnode.bind fun id => ?_
  split
  · rename_i parent _
    have hchange : Framed (Circuit.changeComponent parent fun p =>
        { p with children := p.children ++ [id] }) := changeComponent parent fun _ => rfl
    exact hchange.bind fun _ => .pure id
  · exact .pure id

theorem addComponent (parent : NodeId) (name function : String) (kind : ComponentKind)
    (connectivity : Option ConnectivityId) :
    Framed (addComponent parent name function kind connectivity) := by
  intro c
  rw [Circuit.addComponent, run_ask_bind, run_ask_bind, childReference_frame]
  cases c.childReference parent name with
  | error e => rfl
  | ok reference =>
    dsimp only
    rw [run_ask_bind, run_ask_bind]
    have hnew : c.frame.newComponent parent reference function kind connectivity =
        c.newComponent parent reference function kind connectivity := rfl
    rw [hnew]
    cases hp : c.newComponent parent reference function kind connectivity with
    | error e => rfl
    | ok p =>
      have hframe : (Node.component p).frame = .component p := by
        have hfresh := (newComponent_eq_ok hp).2.2.2
        have hidle : p.interfaces.map ComponentInterface.idle = p.interfaces := by
          refine (List.map_congr_left fun i hi => ?_).trans (List.map_id _)
          obtain ⟨huses, hactive⟩ := hfresh.1 i hi
          rw [ComponentInterface.idle, ← huses, ← hactive]
          rfl
        rw [Node.frame, Component.frame, hidle, ← hfresh.2.2.1]
      exact addChild hframe c

theorem setAncillary (x : NodeId) (a : Ancillary) : Framed (setAncillary x a) := by
  have hchange : Framed (Circuit.changeComponent x fun n => { n with ancillary := some a }) :=
    changeComponent x fun _ => rfl
  rw [Circuit.setAncillary]
  split
  · refine ask_bind (k := Node.frame) (fun c => ?_) (fun _ => rfl) fun _ => hchange
    rw [node, node, node?_frame]
    cases c.node? _ <;> rfl
  · exact hchange

theorem addAncillary (parent : NodeId) (name function : String) (connectivity : ConnectivityId)
    (a : Ancillary) : Framed (addAncillary parent name function connectivity a) := by
  rw [Circuit.addAncillary]
  refine (addComponent parent name function .part (some connectivity)).bind fun x => ?_
  exact (setAncillary x a).bind fun _ => .pure x

end Framed
end Circuit
end BoardNets
