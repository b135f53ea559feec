import BoardNets.Circuit.Basic

/-! The tree of a circuit. Children stand later in the arena than their parents, so the number of
nodes bounds the length of every path; a walk is cut off there. -/
namespace BoardNets
namespace Circuit

variable (c : Circuit)

/-- Pairs of parent and child below a node, in pre-order, down to the given depth. -/
def walk : (depth : Nat) → NodeId → List (NodeId × NodeId)
  | 0, _ => []
  | depth + 1, id => (c.children id).flatMap fun child => (id, child) :: walk depth child

def below (id : NodeId) : List (NodeId × NodeId) := c.walk (c.nodes.size + 1) id

/-- Pairs of parent and node from a node downwards, in pre-order. -/
def iterate (id : NodeId) (includeRoot : Bool) : List (Option NodeId × NodeId) :=
  (if includeRoot then [(c.parent? id, id)] else []) ++ (c.below id).map fun p => (some p.1, p.2)

def subtree (id : NodeId) : List NodeId := id :: (c.below id).map (·.2)

def components (id : NodeId) : List NodeId := (c.subtree id).filter fun n => (c.component? n).isSome

def parts (id : NodeId) : List NodeId := (c.subtree id).filter c.isPart

def unresolvedFilters (id : NodeId) : List NodeId := (c.subtree id).filter c.isFilter

def isFullyResolved (id : NodeId) : Bool := (c.unresolvedFilters id).isEmpty

/-- Refuses a subtree with a filter. -/
def checkResolved (id : NodeId) : Result Unit :=
  (c.unresolvedFilters id).head?.elim (pure ()) fun f => throw (.unresolvedFilter (c.reference f))

def atomicComponents (id : NodeId) : Result (List NodeId) := do
  c.checkResolved id
  return c.parts id

/-- The nodes above a node, the nearest first, up to the given number of steps. -/
def climb : (steps : Nat) → NodeId → List NodeId
  | 0, _ => []
  | steps + 1, id => (c.parent? id).elim [] fun parent => parent :: climb steps parent

def ancestors (id : NodeId) (includeSelf : Bool) : List NodeId :=
  (if includeSelf then [id] else []) ++ c.climb (c.nodes.size + 1) id

def find (reference : String) : Result NodeId :=
  ((c.subtree root).find? fun id => c.reference id = reference).elim
    (throw (.unknownComponent reference)) pure

/-- The next free reference with a label among the children of a node. -/
def nextReference (parent : NodeId) (label : String) : String :=
  BoardNets.nextReference label ((c.children parent).map c.reference)

/-- References handed out so far: by label, and by the reference they stand for. -/
structure Flat where
  taken : SortedMap String (List String) := ∅
  references : SortedMap String String := ∅

def Flat.add (flat : Flat) (reference : String) : Result Flat := do
  let label ← referenceLabel reference
  let next := BoardNets.nextReference label ((flat.taken.find? label).getD [])
  return ⟨flat.taken.update label [] (· ++ [next]), flat.references.insert reference next⟩

/-- References without hierarchy for all parts below a node, numbered within their labels. -/
def flattenedReferences (id : NodeId) : Result (SortedMap String String) := do
  let flat ← ((c.parts id).map c.reference).foldlM Flat.add {}
  return flat.references

end Circuit
end BoardNets
