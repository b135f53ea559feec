import BoardNets.Netlist.Basic

/-! From a design to its netlist. Wires are laid for local ancillaries first and then bus by bus;
connected pins form groups, which are split by board into nets, put into order and named. -/
namespace BoardNets
namespace Design

/-- The netlist of a fully resolved design, with the warnings that it deserves. -/
def netlist (d : Design) : Result (Netlist × List String) := do
  d.circuit.checkResolved Circuit.root
  let buses ← d.circuit.flattenedBuses Circuit.root
  let wires ← Wires.ofDesign d buses
  let groups ← wires.groups d buses
  let nets := Net.sort (← groups.mapM (·.nets d)).flatten
  return ({
    nets := Net.assignNames nets
    labels := .ofList ((nets.flatMap (·.pins.toList)).map fun p => (p, d.circuit.pinLabel p))
    boardLabels := .ofList (nets.map fun n => (n.board, d.boardReference n.board))
    masks := wires.masks
    chainStarts := wires.chainStarts },
    groups.filterMap (·.warning? d.circuit) ++ Net.clashes nets)

/-- Makes the netlist and keeps the warnings. -/
def synthesize (d : Design) : Result (Design × Netlist) := do
  let (netlist, warnings) ← d.netlist
  return (d.warnAll warnings, netlist)

end Design

/-- Where synthesis from scratch went wrong. -/
inductive Stage where
  | options (path : String)
  | boards
  | nets
  deriving DecidableEq

def Stage.message : Stage → String
  | .options path => "Failed to load synthesis config " ++ path
  | .boards => "Failed to declare boards"
  | .nets => "Failed to synthesize nets"

structure Failure where
  stage : Stage
  error : Error
  deriving DecidableEq

def Failure.message (f : Failure) : String := f.stage.message ++ ": " ++ f.error.message

/-- Synthesizes a circuit with the options in a file, if one is given by its path and what it holds,
and with the boards of the given references. -/
def Circuit.synthesize (c : Circuit) (options : Option (String × Option String))
    (boards : List String) : Except Failure (Design × Netlist) := do
  let options ← match options with
    | none => pure {}
    | some (path, text?) =>
      (text?.elim (throw .missingOptions) Options.parse).mapError (Failure.mk (.options path))
  let design ← ((Design.new c options).withBoards boards).mapError (Failure.mk .boards)
  design.synthesize.mapError (Failure.mk .nets)

end BoardNets
