import BoardNets.Circuit.Tree

/-! The tree of a circuit drawn as text, a line for each node. -/
namespace BoardNets
namespace Circuit

variable (c : Circuit)

def treeLabel (id : NodeId) : Result String := do
  match ← c.node id with
  | .component n =>
    let role := n.ancillary.elim "" fun a => ", " ++ a.type.name
    return n.reference ++ " (" ++ n.function ++ role ++ ")"
  | .filter f => return f.reference ++ " (" ++ f.function ++ ", unresolved)"

/-- The lines below a node, down to the given depth, behind the lines of its ancestors. -/
def branches : (depth : Nat) → (margin : String) → NodeId → Result (List String)
  | 0, _, _ => return []
  | depth + 1, margin, id => do
    let children := c.children id
    let blocks ← children.zipIdx.mapM fun (child, i) => do
      let last := i + 1 = children.length
      let label ← c.treeLabel child
      let lines ← branches depth (margin ++ if last then "    " else "│   ") child
      return (margin ++ (if last then "└── " else "├── ") ++ label) :: lines
    return blocks.flatten

def drawTree (id : NodeId) : Result String := do
  let lines := (← c.treeLabel id) :: (← c.branches (c.nodes.size + 1) "" id)
  return String.join (lines.map (· ++ "\n"))

end Circuit
end BoardNets
