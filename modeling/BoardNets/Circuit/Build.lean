import BoardNets.Circuit.Tree
import BoardNets.Fragment.Deduction

/-! Building a circuit step by step. A step that fails keeps the changes it made before it failed,
so building carries the circuit through failures. -/
namespace BoardNets

abbrev Build := ExceptT Error (StateM Circuit)

namespace Circuit

def ask {α : Type} (question : Circuit → Result α) : Build α :=
  ExceptT.mk fun c => (question c, c)

def run {α : Type} (c : Circuit) (b : Build α) : Except Error α × Circuit := b c

def putNode (id : NodeId) (n : Node) : Build Unit :=
  modify fun c => { c with nodes := c.nodes.setIfInBounds id.index n }

def changeComponent (id : NodeId) (f : Component → Component) : Build Unit := do
  let component ← ask (·.component id)
  putNode id (.component (f component))

def changeInterface (i : InterfaceRef) (f : ComponentInterface → ComponentInterface) :
    Build Unit := do
  let _ ← ask (·.interface i)
  changeComponent i.component fun n => { n with interfaces := n.interfaces.modify i.index f }

def changeFragment (id : FragmentId) (f : Fragment → Fragment) : Build Unit :=
  modify fun c => { c with fragments := c.fragments.modify id.index f }

/-- The filter at an index. -/
def filter (c : Circuit) (id : NodeId) : Result Filter := do
  match ← c.node id with
  | .filter f => return f
  | .component n => throw (.invalidReference (n.reference ++ " is not a component filter"))

/-- The reference of a new child: the parent's reference goes in front, unless that is the root. -/
def childReference (c : Circuit) (parent : NodeId) (name : String) : Result String :=
  if name = "" ∨ '.' ∈ name.toList then throw (.invalidReference name)
  else if parent = root then pure name
  else return (← c.component parent).reference ++ "." ++ name

def addNode (n : Node) : Build NodeId := do
  let id : NodeId := ⟨(← get).nodes.size⟩
  modify fun c => { c with nodes := c.nodes.push n }
  return id

def addChild (n : Node) : Build NodeId := do
  let id ← addNode n
  if let some parent := n.parent then
    changeComponent parent fun p => { p with children := p.children ++ [id] }
  return id

/-- A component with the pins and interfaces of its connectivity. -/
def newComponent (c : Circuit) (parent : NodeId) (reference function : String)
    (kind : ComponentKind) (connectivity : Option ConnectivityId) : Result Component := do
  let bare : Component := { reference, function, kind, connectivity, parent := some parent }
  match connectivity with
  | none => return bare
  | some id =>
    let connectivity ← c.catalog.connectivity id
    let interfaces ← connectivity.realise c.catalog
    return { bare with pins := connectivity.pins, interfaces }

def addComponent (parent : NodeId) (name function : String) (kind : ComponentKind)
    (connectivity : Option ConnectivityId) : Build NodeId := do
  let reference ← ask (·.childReference parent name)
  let component ← ask (·.newComponent parent reference function kind connectivity)
  addChild (.component component)

def addPart (parent : NodeId) (name function : String) (connectivity : ConnectivityId) :
    Build NodeId :=
  addComponent parent name function .part (some connectivity)

def addSubcircuit (parent : NodeId) (name function : String)
    (connectivity : Option ConnectivityId) : Build NodeId :=
  addComponent parent name function .subcircuit connectivity

def addFilter (parent : NodeId) (name function : String) (connectivity : Option ConnectivityId) :
    Build NodeId := do
  let reference ← ask (·.childReference parent name)
  if let some id := connectivity then
    let _ ← ask fun c => (c.catalog.connectivity id : Except CatalogError Connectivity)
  addChild (.filter { reference, function, connectivity, parent := some parent })

def addCandidate (filter : NodeId) (connectivity : ConnectivityId) : Build NodeId := do
  let f ← ask (·.filter filter)
  let parent := f.parent.getD root
  let component ← ask (·.newComponent parent f.reference f.function .part (some connectivity))
  let id ← addNode (.component component)
  let f ← ask (·.filter filter)
  putNode filter (.filter { f with feasible := f.feasible ++ [id] })
  return id

def linkTo (filter other : NodeId) : Build Unit := do
  let f ← ask (·.filter filter)
  if other ∉ f.links then putNode filter (.filter { f with links := f.links ++ [other] })

def linkFilters (a b : NodeId) : Build Unit := do
  linkTo a b
  linkTo b a

def setAncillary (component : NodeId) (ancillary : Ancillary) : Build Unit := do
  if let some parent := ancillary.binding.parent? then
    let _ ← ask (·.node parent)
  changeComponent component fun n => { n with ancillary := some ancillary }

def addAncillary (parent : NodeId) (name function : String) (connectivity : ConnectivityId)
    (ancillary : Ancillary) : Build NodeId := do
  let id ← addPart parent name function connectivity
  setAncillary id ancillary
  return id

def activate (i : InterfaceRef) (connections : Connections) : Build Unit :=
  changeInterface i (·.activate connections)

def deactivate (key : InterfacePinId) (use : PinUse) : Build Unit :=
  changeInterface use.interface (·.release key use)

/-- Deduces the connections of a fragment whose source is a component, and activates both ends. -/
def tryDeduce (id : FragmentId) : Build Unit := do
  let f ← ask (·.fragment id)
  match ← ask (·.node f.source.node) with
  | .filter _ => return
  | .component _ =>
    match ← ask fun c => f.deduce c f.source.node with
    | .deferred _ => return
    | .resolved w =>
      activate w.sourceInterface w.pairing.source
      activate w.targetInterface w.pairing.target
      changeFragment id fun f => { f with
        source.connections := f.source.connections.insertAll w.pairing.source.toList
        target.connections := f.target.connections.insertAll w.pairing.target.toList }

/-- The adapted counterpart of an interface: other type, other slots, same pins. -/
def adaptedInterface (c : Circuit) (f : Fragment) (pins : SortedMap InterfacePinId InterfacePinId)
    (type : InterfaceTypeId) (base : ComponentInterface) : Result ComponentInterface := do
  let assignments ← base.interface.assignments.mapM fun a =>
    match pins.find? a.interfacePin with
    | some slot => pure { a with interfacePin := slot }
    | none => throw (.invalidFragment ("adapter of " ++ f.describe c ++
        " has no mapping for interface pin " ++ toString a.interfacePin))
  return { name := base.name, interface := { base.interface with type, assignments } }

/-- Adds the adapted counterpart of a fragment's interface to its component, unless it is there. -/
def adaptInterface (f : Fragment) (side : Side) (a : Adaptation) : Build Unit := do
  let id := (f.endpoint side).node
  match ← ask (·.node id) with
  | .filter _ => return
  | .component _ =>
    let name ← ask fun c => (f.endpoint side).interface.elim
      (throw (.invalidFragment (f.describe c ++ " needs an interface name on the " ++ side.name ++
        " side to be adapted"))) pure
    let type ← ask fun c => f.interfaceType c side
    if (← ask (·.interfaceNamed? id name type)).isSome then return
    let base ← ask (·.interfaceNamed id name (a.base.getD type))
    let base ← ask (·.interface base)
    let adapted ← ask (·.adaptedInterface f a.pins type base)
    changeComponent id fun n => { n with interfaces := n.interfaces ++ [adapted] }

/-- Records a fragment at its source and deduces its connections when both ends are known. -/
def addFragment (f : Fragment) : Build FragmentId := do
  let _ ← ask (·.node f.target.node)
  if let some a := f.adapter then
    adaptInterface f .source a.source
    adaptInterface f .target a.target
  let id : FragmentId := ⟨(← get).fragments.size⟩
  modify fun c => { c with fragments := c.fragments.push f }
  let owner ← ask (·.node f.source.node)
  putNode f.source.node (owner.require id)
  tryDeduce id
  return id

def require (r : Requirement) : Build FragmentId := do
  let f ← ask fun _ => r.fragment
  addFragment f

/-- Drops the connections of a fragment that lie on a component it no longer ends at. -/
def forgetStale (id : FragmentId) : Build Unit := do
  let f ← ask (·.fragment id)
  let ends := [f.source.node, f.target.node]
  let stale := (f.source.connections.uses ++ f.target.connections.uses).any fun u =>
    u.interface.component ∉ ends
  if stale then
    changeFragment id fun f => { f with source.connections := ∅, target.connections := ∅ }
    (f.source.connections.toList ++ f.target.connections.toList).forM fun (key, uses) =>
      uses.forM (deactivate key)

/-- Works out again what a fragment lost when one of its ends changed. -/
def repair (id : FragmentId) : Build Unit := do
  forgetStale id
  let f ← ask (·.fragment id)
  if f.source.connections.isEmpty then tryDeduce id

def replace (filter candidate : NodeId) (id : NodeId) : NodeId :=
  if id = filter then candidate else id

/-- Replaces a filter at the ends of a fragment. -/
def retarget (filter candidate : NodeId) (f : Fragment) : Fragment :=
  { f with
    source.node := replace filter candidate f.source.node
    target.node := replace filter candidate f.target.node }

def relink (filter candidate link : NodeId) : Build Unit :=
  modify fun c =>
    match c.node? link with
    | some (.filter f) =>
      let f := { f with links := f.links.map (replace filter candidate) }
      { c with nodes := c.nodes.setIfInBounds link.index (.filter f) }
    | _ => c

def touching (c : Circuit) (id : NodeId) : List FragmentId :=
  ((List.range c.fragments.size).map FragmentId.mk).filter fun f =>
    (c.fragments[f.index]?).any fun f => f.source.node = id ∨ f.target.node = id

def filterOf (c : Circuit) (filter candidate : NodeId) : Result Filter := do
  let f ← c.filter filter
  if candidate ∈ f.feasible then return f
  else throw (.notACandidate f.reference (c.reference candidate))

/-- Puts a candidate in the place of its filter. Fragments that ended at the filter now end at the
candidate, and their connections are worked out again where they were not made with it. -/
def resolveFilter (filter candidate : NodeId) : Build Unit := do
  let f ← ask (·.filterOf filter candidate)
  if let some parent := f.parent then
    changeComponent parent fun p => { p with children := p.children.map (replace filter candidate) }
  f.links.forM (relink filter candidate)
  let touched := (← get).touching filter
  modify fun c => { c with fragments := c.fragments.map (retarget filter candidate) }
  changeComponent candidate fun n =>
    { n with parent := f.parent, requirements := n.requirements ++ f.requirements }
  touched.forM repair

/-- A building step with its arguments. -/
inductive Instruction where
  | part (parent : NodeId) (name function : String) (connectivity : ConnectivityId)
  | subcircuit (parent : NodeId) (name function : String) (connectivity : Option ConnectivityId)
  | filter (parent : NodeId) (name function : String) (connectivity : Option ConnectivityId)
  | candidate (filter : NodeId) (connectivity : ConnectivityId)
  | link (a b : NodeId)
  | resolve (filter candidate : NodeId)
  | ancillary (parent : NodeId) (name function : String) (connectivity : ConnectivityId)
      (ancillary : Ancillary)
  | setAncillary (component : NodeId) (ancillary : Ancillary)
  | require (requirement : Requirement)
  deriving DecidableEq

/-- What a building step adds to the circuit. -/
inductive Addition where
  | node (id : NodeId)
  | fragment (id : FragmentId)
  | nothing
  deriving DecidableEq

def Instruction.perform (i : Instruction) : Build Addition :=
  match i with
  | .part parent name function connectivity =>
    .node <$> addPart parent name function connectivity
  | .subcircuit parent name function connectivity =>
    .node <$> addSubcircuit parent name function connectivity
  | .filter parent name function connectivity =>
    .node <$> addFilter parent name function connectivity
  | .candidate place connectivity => .node <$> addCandidate place connectivity
  | .link a b => linkFilters a b *> pure .nothing
  | .resolve place choice => resolveFilter place choice *> pure .nothing
  | .ancillary parent name function connectivity role =>
    .node <$> addAncillary parent name function connectivity role
  | .setAncillary component role => Circuit.setAncillary component role *> pure .nothing
  | .require requirement => .fragment <$> Circuit.require requirement

/-- The circuit after a list of building steps, whether they succeed or not. -/
def after (c : Circuit) (steps : List Instruction) : Circuit :=
  steps.foldl (fun c step => (c.run step.perform).2) c

/-- Circuits that building steps make out of the root alone. -/
def Reachable (c : Circuit) : Prop := ∃ catalog steps, c = (new catalog).after steps

end Circuit
end BoardNets
