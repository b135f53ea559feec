import BoardNets.Circuit.Build
import BoardNets.Proofs.Traversal

/-! What is where in a circuit, before and after a change of its arenas. Building steps change nodes
and fragments at their places and append new ones; each change is a function of the circuit here,
with what it does to every lookup, and the building monad only decides which changes are made. -/
namespace BoardNets

attribute [ext] NodeId FragmentId InterfaceRef

namespace Circuit

variable {α : Type}

def fragment? (c : Circuit) (id : FragmentId) : Option Fragment := c.fragments[id.index]?

def interface? (c : Circuit) (i : InterfaceRef) : Option ComponentInterface :=
  (c.component? i.component).bind fun p => p.interfaces[i.index]?

variable {c : Circuit}

theorem elim_throw_eq_ok {o : Option α} {e : Error} {a : α} :
    o.elim (throw e) pure = (.ok a : Result α) ↔ o = some a := by
  cases o with
  | none => simp [throw_ne_ok]
  | some b => simp [pure_eq_ok]

theorem lift_eq_ok {x : Except CatalogError α} {a : α} :
    (liftM x : Result α) = .ok a ↔ x = .ok a := by
  cases x <;> simp [liftM, monadLift, MonadLift.monadLift, Except.mapError]

theorem node_eq_ok {id : NodeId} {n : Node} : c.node id = .ok n ↔ c.node? id = some n :=
  elim_throw_eq_ok

theorem component?_eq_some {id : NodeId} {p : Component} :
    c.component? id = some p ↔ c.node? id = some (.component p) := by
  rw [component?]
  split
  · rename_i q hq
    simp [hq]
  · rename_i hne
    simpa using fun h => hne p h

theorem component_eq_ok {id : NodeId} {p : Component} :
    c.component id = .ok p ↔ c.component? id = some p := by
  rw [component, component?_eq_some, bind_eq_ok]
  constructor
  · rintro ⟨n, hn, h⟩
    rw [node_eq_ok] at hn
    cases n with
    | component q => rw [hn, pure_eq_ok.1 h]
    | filter f => exact absurd h throw_ne_ok
  · intro h
    exact ⟨_, node_eq_ok.2 h, rfl⟩

theorem filter_eq_ok {id : NodeId} {f : Filter} :
    c.filter id = .ok f ↔ c.node? id = some (.filter f) := by
  rw [filter, bind_eq_ok]
  constructor
  · rintro ⟨n, hn, h⟩
    rw [node_eq_ok] at hn
    cases n with
    | component q => exact absurd h throw_ne_ok
    | filter g => rw [hn, pure_eq_ok.1 h]
  · intro h
    exact ⟨_, node_eq_ok.2 h, rfl⟩

theorem fragment_eq_ok {id : FragmentId} {f : Fragment} :
    c.fragment id = .ok f ↔ c.fragment? id = some f :=
  elim_throw_eq_ok

theorem interface_eq_ok {i : InterfaceRef} {x : ComponentInterface} :
    c.interface i = .ok x ↔ c.interface? i = some x := by
  rw [interface, interface?, bind_eq_ok, Option.bind_eq_some_iff]
  simp only [component_eq_ok, elim_throw_eq_ok]

def setNode (c : Circuit) (id : NodeId) (n : Node) : Circuit :=
  { c with nodes := c.nodes.setIfInBounds id.index n }

def pushNode (c : Circuit) (n : Node) : Circuit := { c with nodes := c.nodes.push n }

/-- The place of the next node. -/
def nextNode (c : Circuit) : NodeId := ⟨c.nodes.size⟩

def pushFragment (c : Circuit) (f : Fragment) : Circuit :=
  { c with fragments := c.fragments.push f }

/-- The place of the next fragment. -/
def nextFragment (c : Circuit) : FragmentId := ⟨c.fragments.size⟩

def editFragment (c : Circuit) (id : FragmentId) (g : Fragment → Fragment) : Circuit :=
  { c with fragments := c.fragments.modify id.index g }

def editComponent (c : Circuit) (id : NodeId) (g : Component → Component) : Circuit :=
  (c.component? id).elim c fun p => c.setNode id (.component (g p))

def editInterface (c : Circuit) (i : InterfaceRef) (g : ComponentInterface → ComponentInterface) :
    Circuit :=
  c.editComponent i.component fun p => { p with interfaces := p.interfaces.modify i.index g }

@[simp] theorem node?_pushFragment (f : Fragment) (x : NodeId) :
    (c.pushFragment f).node? x = c.node? x := rfl

@[simp] theorem catalog_editComponent (id : NodeId) (g : Component → Component) :
    (c.editComponent id g).catalog = c.catalog := by
  rw [editComponent]
  cases c.component? id <;> rfl

@[simp] theorem fragments_editComponent (id : NodeId) (g : Component → Component) :
    (c.editComponent id g).fragments = c.fragments := by
  rw [editComponent]
  cases c.component? id <;> rfl

@[simp] theorem size_editComponent (id : NodeId) (g : Component → Component) :
    (c.editComponent id g).nodes.size = c.nodes.size := by
  rw [editComponent]
  cases c.component? id <;> simp [setNode]

theorem node?_setNode {id x : NodeId} {n : Node} :
    (c.setNode id n).node? x = if x = id then (c.node? x).map fun _ => n else c.node? x := by
  simp only [node?, setNode, Array.getElem?_setIfInBounds]
  by_cases h : x = id
  · subst h
    by_cases hlt : x.index < c.nodes.size <;> simp [hlt]
  · have hindex : id.index ≠ x.index := fun heq => h (NodeId.ext heq.symm)
    simp [h, hindex]

theorem node?_pushNode {x : NodeId} {n : Node} :
    (c.pushNode n).node? x = if x = c.nextNode then some n else c.node? x := by
  simp only [node?, pushNode, Array.getElem?_push, nextNode, NodeId.ext_iff]

theorem node?_nextNode : c.node? c.nextNode = none := by
  simp [node?, nextNode]

theorem node?_pushNode_of_some {x : NodeId} {n m : Node} (h : c.node? x = some n) :
    (c.pushNode m).node? x = some n := by
  rw [node?_pushNode, if_neg, h]
  rintro rfl
  rw [node?_nextNode] at h
  cases h

theorem component?_setNode {id x : NodeId} {p q : Component} (hx : c.component? id = some p) :
    (c.setNode id (.component q)).component? x = if x = id then some q else c.component? x := by
  rw [component?_eq_some] at hx
  by_cases h : x = id
  · subst h
    simp [component?, node?_setNode, hx]
  · simp [component?, node?_setNode, h]

theorem component?_editComponent {id x : NodeId} {g : Component → Component} :
    (c.editComponent id g).component? x =
      if x = id then (c.component? x).map g else c.component? x := by
  rw [editComponent]
  cases hid : c.component? id with
  | none =>
    by_cases h : x = id
    · subst h
      simp [hid]
    · simp [h]
  | some p =>
    rw [Option.elim_some, component?_setNode hid]
    by_cases h : x = id
    · subst h
      simp [hid]
    · simp [h]

section View

variable {β : Type} {V : Option Node → β}

theorem view_setNode {id : NodeId} {n m : Node} (hid : c.node? id = some n)
    (hV : V (some m) = V (some n)) (x : NodeId) : V ((c.setNode id m).node? x) = V (c.node? x) := by
  rw [node?_setNode]
  split
  · rename_i hx
    rw [hx, hid]
    exact hV
  · rfl

theorem view_editComponent {id : NodeId} {g : Component → Component}
    (hV : ∀ p, V (some (.component (g p))) = V (some (.component p))) (x : NodeId) :
    V ((c.editComponent id g).node? x) = V (c.node? x) := by
  rw [editComponent]
  cases hp : c.component? id with
  | none => rfl
  | some p => exact view_setNode (component?_eq_some.1 hp) (hV p) x

theorem view_pushNode {n : Node} (hV : V (some n) = V none) (x : NodeId) :
    V ((c.pushNode n).node? x) = V (c.node? x) := by
  rw [node?_pushNode]
  split
  · rename_i hx
    rw [hx, node?_nextNode]
    exact hV
  · rfl

end View

theorem interface?_editInterface {i j : InterfaceRef}
    {g : ComponentInterface → ComponentInterface} :
    (c.editInterface i g).interface? j =
      if j = i then (c.interface? j).map g else c.interface? j := by
  rw [editInterface, interface?, interface?, component?_editComponent]
  by_cases hcomp : j.component = i.component
  · rw [if_pos hcomp]
    cases c.component? j.component with
    | none => simp
    | some p =>
      by_cases hindex : j.index = i.index
      · have hji : j = i := InterfaceRef.ext hcomp hindex
        simp [hji]
      · have hji : j ≠ i := fun h => hindex (h ▸ rfl)
        simp [hji, Ne.symm hindex]
  · have hji : j ≠ i := fun h => hcomp (h ▸ rfl)
    simp [hcomp, hji]

theorem fragment?_editFragment {id x : FragmentId} {g : Fragment → Fragment} :
    (c.editFragment id g).fragment? x =
      if x = id then (c.fragment? x).map g else c.fragment? x := by
  simp only [fragment?, editFragment, Array.getElem?_modify]
  by_cases h : x = id
  · subst h
    simp
  · have hindex : id.index ≠ x.index := fun heq => h (FragmentId.ext heq.symm)
    simp [h, hindex]

theorem fragment?_nextFragment : c.fragment? c.nextFragment = none :=
  Array.getElem?_eq_none (Nat.le_refl _)

theorem fragment?_pushFragment {x : FragmentId} {f : Fragment} :
    (c.pushFragment f).fragment? x = if x = c.nextFragment then some f else c.fragment? x := by
  simp only [fragment?, pushFragment, Array.getElem?_push, nextFragment, FragmentId.ext_iff]

theorem fragment?_of_push {c' : Circuit} {f : Fragment} (h : c'.fragments = c.fragments.push f)
    {x : FragmentId} : c'.fragment? x = if x = c.nextFragment then some f else c.fragment? x := by
  rw [← fragment?_pushFragment]
  exact congrArg (fun fragments : Array Fragment => fragments[x.index]?) h

end Circuit
end BoardNets
