import BoardNets.Net.Group
import BoardNets.Net.Naming

/-! Netlists: the named nets of a design in their order, with the labels they are shown under. -/
namespace BoardNets

structure Netlist where
  nets : List Net
  labels : SortedMap ComponentPin String
  boardLabels : SortedMap (Option NodeId) String
  /-- Pins replaced downstream by a pin of an ancillary. -/
  masks : SortedMap ComponentPin ComponentPin
  /-- Pins of ancillaries with the pin at the start of the chain of replacements. -/
  chainStarts : SortedMap ComponentPin ComponentPin
  deriving DecidableEq

namespace Netlist

variable (n : Netlist)

def size : Nat := n.nets.length

def isEmpty : Bool := n.nets.isEmpty

def netNamed? (name : String) : Option Net := n.nets.find? fun net => net.name = some name

def onBoard (board : Option NodeId) : List Net := n.nets.filter fun net => net.board = board

def byBus : SortedMap (List FragmentId) (Bus × List Net) :=
  (n.nets.filter fun net => !net.bus.isEmpty).foldl (fun groups net =>
    groups.update net.bus.fragments (net.bus, []) fun (bus, nets) => (bus, nets ++ [net])) ∅

def pairs : List (Net × ComponentPin) :=
  n.nets.flatMap fun net => net.pins.toList.map (net, ·)

def netsAt (p : ComponentPin) : List Net := n.nets.filter (·.contains p)

def components : SortedSet NodeId := .ofList (n.nets.flatMap fun net => net.components.toList)

def pinLabels (net : Net) : List String :=
  (net.pins.toList.map fun p => (n.labels.find? p).getD "").mergeSort fun a b => (compare a b).isLE

def named : SortedMap String (List String) :=
  .ofList (n.nets.filterMap fun net => net.name.map (·, n.pinLabels net))

def line (net : Net) : String :=
  net.name.getD "-" ++ ": " ++ ", ".intercalate (n.pinLabels net)

def heading (board : Option NodeId) : String :=
  "[" ++ (n.boardLabels.find? board).getD "?" ++ "]"

/-- Lines of nets after those of a board, if any, with a heading wherever the board changes. -/
def lines : (board : Option (Option NodeId)) → List Net → List String
  | _, [] => []
  | board, net :: rest =>
    let heading := if board = some net.board then [] else [n.heading net.board]
    heading ++ n.line net :: lines (some net.board) rest

/-- One line for each net, under the boards' headings. -/
def render : String := String.join ((n.lines none n.nets).map (· ++ "\n"))

end Netlist
end BoardNets
