import BoardNets.Sorted.Set

/-! Undirected graphs in the order of their construction, and their connected components. Components
come from merging the classes at the two ends of each edge, starting from single nodes; a merged
class keeps the place of its earlier part, so components stand in the order of their first nodes. -/
namespace BoardNets

open Std

/-- Nodes, without repetition, and edges, each in the order of insertion. -/
structure Graph (α : Type) where
  nodes : List α
  edges : List (α × α)

namespace Graph

variable {α : Type}

def empty : Graph α := ⟨[], []⟩

instance : EmptyCollection (Graph α) := ⟨empty⟩

variable [DecidableEq α]

def addNode (g : Graph α) (a : α) : Graph α :=
  if a ∈ g.nodes then g else ⟨g.nodes ++ [a], g.edges⟩

def addEdge (g : Graph α) (a b : α) : Graph α :=
  let g := (g.addNode a).addNode b
  ⟨g.nodes, g.edges ++ [(a, b)]⟩

/-- Puts the classes that hold `a` or `b` together, at the place of the first of them. -/
def join (a b : α) : List (List α) → List (List α)
  | [] => []
  | c :: cs =>
    if a ∈ c ∨ b ∈ c then
      (c ++ (cs.filter fun d => a ∈ d ∨ b ∈ d).flatten) :: cs.filter fun d => ¬(a ∈ d ∨ b ∈ d)
    else c :: join a b cs

def classes (g : Graph α) : List (List α) :=
  g.edges.foldl (fun cs e => join e.1 e.2 cs) (g.nodes.map ([·]))

def components [Ord α] [TransOrd α] (g : Graph α) : List (SortedSet α) :=
  g.classes.map SortedSet.ofList

/-- The nodes that a finite path of edges, taken in either direction, joins. -/
inductive Linked (g : Graph α) : α → α → Prop
  | refl {a : α} : a ∈ g.nodes → Linked g a a
  | step {a b c : α} : Linked g a b → (b, c) ∈ g.edges ∨ (c, b) ∈ g.edges → Linked g a c

end Graph
end BoardNets
