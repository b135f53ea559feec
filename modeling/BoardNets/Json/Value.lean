import BoardNets.Text.Hex

/-! JSON values and their indented text. -/
namespace BoardNets

/-- Objects keep the order and repetition of their members. The text of a string is `none` when the
string was written with an escape for half of a surrogate pair: it is well formed, but there is no
such text. Numbers keep the way they are written. -/
inductive Json where
  | null
  | bool (b : Bool)
  | number (literal : List Char)
  | string (text : Option String)
  | array (items : List Json)
  | object (members : List (Option String × Json))

namespace Json

def ofString (s : String) : Json := .string (some s)

def ofNat (n : Nat) : Json := .number (Nat.toDigits 10 n)

def record (members : List (String × Option Json)) : Json :=
  .object (members.filterMap fun m => m.2.map (some m.1, ·))

/-- Only quotes, backslashes and control characters are escaped. -/
def escape (c : Char) : List Char :=
  if c = '"' then ['\\', '"']
  else if c = '\\' then ['\\', '\\']
  else if c = '\x08' then ['\\', 'b']
  else if c = '\t' then ['\\', 't']
  else if c = '\n' then ['\\', 'n']
  else if c = '\x0c' then ['\\', 'f']
  else if c = '\r' then ['\\', 'r']
  else if c.toNat < 32 then
    ['\\', 'u', '0', '0', Text.hexDigit (c.toNat / 16), Text.hexDigit (c.toNat % 16)]
  else [c]

def halfPair : List Char := ['\\', 'u', 'd', '8', '0', '0']

def quote (text : Option String) : List Char :=
  '"' :: (text.elim halfPair fun s => s.toList.flatMap escape) ++ ['"']

/-- A line break and two blanks for each enclosing array or object. -/
def newline (depth : Nat) : List Char := '\n' :: List.replicate (2 * depth) ' '

mutual

def render (depth : Nat) : Json → List Char
  | .null => ['n', 'u', 'l', 'l']
  | .bool true => ['t', 'r', 'u', 'e']
  | .bool false => ['f', 'a', 'l', 's', 'e']
  | .number literal => literal
  | .string text => quote text
  | .array [] => ['[', ']']
  | .array (item :: items) =>
    '[' :: newline (depth + 1) ++ render (depth + 1) item ++ renderItems (depth + 1) items ++
      newline depth ++ [']']
  | .object [] => ['\x7b', '\x7d']
  | .object ((name, value) :: members) =>
    '\x7b' :: newline (depth + 1) ++ quote name ++ [':', ' '] ++ render (depth + 1) value ++
      renderMembers (depth + 1) members ++ newline depth ++ ['\x7d']

def renderItems (depth : Nat) : List Json → List Char
  | [] => []
  | item :: items => ',' :: newline depth ++ render depth item ++ renderItems depth items

def renderMembers (depth : Nat) : List (Option String × Json) → List Char
  | [] => []
  | (name, value) :: members =>
    ',' :: newline depth ++ quote name ++ [':', ' '] ++ render depth value ++
      renderMembers depth members

end

def toText (j : Json) : String := String.ofList (render 0 j)

end Json
end BoardNets
