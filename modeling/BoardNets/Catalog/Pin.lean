import BoardNets.Id.Keyed
import BoardNets.Text.Natural

/-! Physical pins of parts. -/
namespace BoardNets

inductive PinType where
  | digital
  | analog
  | power
  | gnd
  | nc
  | generic
  deriving DecidableEq

def PinType.name : PinType → String
  | .digital => "digital"
  | .analog => "analog"
  | .power => "power"
  | .gnd => "gnd"
  | .nc => "nc"
  | .generic => "generic"

def PinType.all : List PinType := [.digital, .analog, .power, .gnd, .nc, .generic]

/-- Which reference pin of a signal pin is meant. -/
inductive ReferenceKind where
  | voltage
  | ground
  deriving DecidableEq

def ReferenceKind.name : ReferenceKind → String
  | .voltage => "voltage"
  | .ground => "ground"

structure Pin where
  id : PinId
  type : PinType
  name : String
  number : String
  voltageReference : Option PinId := none
  groundReference : Option PinId := none
  deriving DecidableEq

namespace Pin

def reference (p : Pin) : ReferenceKind → Option PinId
  | .voltage => p.voltageReference
  | .ground => p.groundReference

def label (p : Pin) : String := p.type.name ++ " " ++ p.name ++ " (#" ++ p.number ++ ")"

/-- By number, naturally, then by name. -/
def order (p q : Pin) : Ordering :=
  (Text.naturalOrder p.number q.number).then (compare p.name q.name)

end Pin
end BoardNets
