import BoardNets.Ancillary.Basic
import BoardNets.Design.Options

/-! A design: a circuit with its boards and options, and the warnings on the way to nets. -/
namespace BoardNets

structure Design where
  circuit : Circuit
  boards : List NodeId := []
  mainBoardReference : String
  warnings : SortedSet String := ∅
  options : Options
  deriving DecidableEq

namespace Design

def new (circuit : Circuit) (options : Options) : Design :=
  { circuit, mainBoardReference := options.mainBoard, options }

def addBoard (d : Design) (reference : String) : Result Design := do
  let id ← d.circuit.find reference
  if d.circuit.parent? id ≠ some Circuit.root then throw (.invalidBoard reference)
  return if id ∈ d.boards then d else { d with boards := d.boards ++ [id] }

def withBoards (d : Design) (references : List String) : Result Design :=
  references.foldlM addBoard d

def warn (d : Design) (warning : String) : Design :=
  { d with warnings := d.warnings.insert warning }

def warnAll (d : Design) (warnings : List String) : Design := warnings.foldl warn d

variable (d : Design)

def isBoard (id : NodeId) : Bool := id ∈ d.boards

/-- The nearest board above a component or the component itself. -/
def board? (id : NodeId) : Option NodeId := (d.circuit.ancestors id true).find? d.isBoard

def mainBoard? : Option NodeId :=
  d.boards.find? fun id => d.circuit.reference id = d.mainBoardReference

/-- The reference of a board; what is on no board belongs to the main one. -/
def boardReference (board : Option NodeId) : String :=
  board.elim d.mainBoardReference d.circuit.reference

def ancillaryParts (test : Ancillary → Result Bool) : Result (List NodeId) := do
  (← d.circuit.atomicComponents Circuit.root).filterM fun id => do
    match (← d.circuit.component id).ancillary with
    | none => return false
    | some a => test a

/-- Ancillary parts on a bus, or only those that serve an interface pin. -/
def busAncillaries (bus : Bus) (interfacePin : Option InterfacePinId) : Result (List NodeId) :=
  d.ancillaryParts fun a =>
    match a.binding with
    | .bus _ => a.accepts { interfacePin, bus := some bus }
    | _ => pure false

/-- Interface ancillaries of a parent, or only those of one interface and one interface pin. -/
def interfaceAncillaries (parent : NodeId) (interface : Option InterfaceRef)
    (interfacePin : Option InterfacePinId) : Result (List NodeId) :=
  d.ancillaryParts fun a =>
    match a.binding with
    | .interface p own =>
      if p = parent then a.accepts { interfacePin, interface := interface.or (some own) }
      else pure false
    | _ => pure false

def pinAncillaries (parent : NodeId) (pin : PinId) : Result (List NodeId) :=
  d.ancillaryParts fun a =>
    match a.binding with
    | .pins p => if p = parent then a.accepts { pin := some pin } else pure false
    | _ => pure false

def flattenedReferences : Result (SortedMap String String) :=
  d.circuit.flattenedReferences Circuit.root

end Design
end BoardNets
