import BoardNets.Json.Value

/-! Reading records. A record is an object, whose unknown members are ignored and whose known
members occur at most once, or an array of the known members in order, where trailing ones may be
left out. -/
namespace BoardNets.Json

def member? (name : String) (members : List (Option String × Json)) : Option Json :=
  members.lookup (some name)

/-- The members with the given names, in the order of the names. -/
def fields? (names : List String) : Json → Option (List (Option Json))
  | .object members =>
    if members.any (·.1.isNone) || names.any fun n => 1 < members.countP (·.1 == some n) then none
    else some (names.map (member? · members))
  | .array items =>
    if names.length < items.length then none
    else some (items.map some ++ List.replicate (names.length - items.length) none)
  | _ => none

def required {α : Type} (read : Json → Option α) (field : Option Json) : Option α := field >>= read

def orDefault {α : Type} (default : α) (read : Json → Option α) : Option Json → Option α
  | none => some default
  | some j => read j

def nullable {α : Type} (read : Json → Option α) : Json → Option (Option α)
  | .null => some none
  | j => (read j).map some

def string? : Json → Option String
  | .string text => text
  | _ => none

def bool? : Json → Option Bool
  | .bool b => some b
  | _ => none

def list? {α : Type} (read : Json → Option α) : Json → Option (List α)
  | .array items => items.mapM read
  | _ => none

def nat? : Json → Option Nat
  | .number literal =>
    if literal.all Char.isDigit then some (Nat.ofDigitChars 10 literal 0) else none
  | _ => none

/-- One of the named values, given by its name or as an object that maps the name to null. -/
def choice? {α : Type} (values : List (String × α)) : Json → Option α
  | .string (some name) => values.lookup name
  | .object [(some name, .null)] => values.lookup name
  | _ => none

end BoardNets.Json
