import BoardNets.Text.Hex

/-! Flat TOML documents: one `key = value` to a line, with strings and booleans for values.
Documents that hold anything else are refused as a whole. -/
namespace BoardNets.Toml

inductive Value where
  | string (s : String)
  | bool (b : Bool)
  deriving DecidableEq

def isBlank (c : Char) : Bool := c = ' ' || c = '\t'

def skipBlanks (cs : List Char) : List Char := cs.dropWhile isBlank

/-- Characters allowed in comments and strings: tabs and all that is not a control character. -/
def isPlain (c : Char) : Bool := c = '\t' || (32 ≤ c.toNat && c.toNat ≠ 127)

def newline? : List Char → Option (List Char)
  | '\n' :: rest => some rest
  | '\r' :: '\n' :: rest => some rest
  | _ => none

/-- What follows the end of a line, after blanks and a comment. -/
def lineEnd (cs : List Char) : Option (List Char) :=
  let rest := match skipBlanks cs with
    | '#' :: rest => rest.dropWhile isPlain
    | rest => rest
  if rest.isEmpty then some [] else newline? rest

def scalar? (digits : List Char) : Option Char := do
  let n ← Text.readHex digits
  if n.isValidChar then some (Char.ofNat n) else none

def escape? : List Char → Option (Char × List Char)
  | 'b' :: rest => some ('\x08', rest)
  | 't' :: rest => some ('\t', rest)
  | 'n' :: rest => some ('\n', rest)
  | 'f' :: rest => some ('\x0c', rest)
  | 'r' :: rest => some ('\r', rest)
  | '"' :: rest => some ('"', rest)
  | '\\' :: rest => some ('\\', rest)
  | 'u' :: rest =>
    if rest.length < 4 then none else (scalar? (rest.take 4)).map (·, rest.drop 4)
  | 'U' :: rest =>
    if rest.length < 8 then none else (scalar? (rest.take 8)).map (·, rest.drop 8)
  | _ => none

/-- What follows the line break, and further blanks and line breaks, behind a backslash. -/
def joinedLine? (cs : List Char) : Option (List Char) := do
  let rest ← newline? (skipBlanks cs)
  return skipLines rest.length rest
where
  skipLines : Nat → List Char → List Char
    | 0, cs => cs
    | fuel + 1, cs =>
      match newline? (skipBlanks cs) with
      | some rest => skipLines fuel rest
      | none => skipBlanks cs

def basic : (fuel : Nat) → List Char → Option (List Char × List Char)
  | 0, _ => none
  | fuel + 1, cs =>
    match cs with
    | '"' :: rest => some ([], rest)
    | '\\' :: rest => do
      let (c, rest) ← escape? rest
      let (text, rest) ← basic fuel rest
      return (c :: text, rest)
    | c :: rest =>
      if isPlain c then (basic fuel rest).map fun (text, rest) => (c :: text, rest) else none
    | [] => none

def literal : List Char → Option (List Char × List Char)
  | '\'' :: rest => some ([], rest)
  | c :: rest =>
    if isPlain c then (literal rest).map fun (text, rest) => (c :: text, rest) else none
  | [] => none

/-- Closes a text in triple quotes. Up to two more quotes right before the closing ones belong to
the text. -/
def closing (quote : Char) (cs : List Char) : Option (List Char × List Char) :=
  let quotes := cs.takeWhile (· = quote)
  if 3 ≤ quotes.length ∧ quotes.length ≤ 5 then
    some (quotes.drop 3, cs.dropWhile (· = quote))
  else none

/-- The text up to three closing double quotes, on any number of lines. -/
def multiBasic : (fuel : Nat) → List Char → Option (List Char × List Char)
  | 0, _ => none
  | fuel + 1, cs =>
    match cs with
    | '"' :: '"' :: '"' :: _ => closing '"' cs
    | '\\' :: rest =>
      match joinedLine? rest with
      | some rest => multiBasic fuel rest
      | none => do
        let (c, rest) ← escape? rest
        let (text, rest) ← multiBasic fuel rest
        return (c :: text, rest)
    | c :: rest =>
      match newline? cs with
      | some rest => (multiBasic fuel rest).map fun (text, rest) => ('\n' :: text, rest)
      | none =>
        if isPlain c then (multiBasic fuel rest).map fun (text, rest) => (c :: text, rest) else none
    | [] => none

/-- The text up to three closing single quotes, on any number of lines. -/
def multiLiteral : (fuel : Nat) → List Char → Option (List Char × List Char)
  | 0, _ => none
  | fuel + 1, cs =>
    match cs with
    | '\'' :: '\'' :: '\'' :: _ => closing '\'' cs
    | c :: rest =>
      match newline? cs with
      | some rest => (multiLiteral fuel rest).map fun (text, rest) => ('\n' :: text, rest)
      | none =>
        if isPlain c then (multiLiteral fuel rest).map fun (text, rest) => (c :: text, rest)
        else none
    | [] => none

/-- Drops a line break right behind opening triple quotes. -/
def afterOpening (cs : List Char) : List Char := (newline? cs).getD cs

def value (cs : List Char) : Option (Value × List Char) :=
  let text := fun (read : Option (List Char × List Char)) =>
    read.map fun (text, rest) => (Value.string (String.ofList text), rest)
  let fuel := cs.length + 1
  match cs with
  | 't' :: 'r' :: 'u' :: 'e' :: rest => some (.bool true, rest)
  | 'f' :: 'a' :: 'l' :: 's' :: 'e' :: rest => some (.bool false, rest)
  | '"' :: '"' :: '"' :: rest => text (multiBasic fuel (afterOpening rest))
  | '\'' :: '\'' :: '\'' :: rest => text (multiLiteral fuel (afterOpening rest))
  | '"' :: rest => text (basic fuel rest)
  | '\'' :: rest => text (literal rest)
  | _ => none

def isBareKeyChar (c : Char) : Bool := c.isAlphanum || c = '_' || c = '-'

def key (cs : List Char) : Option (List Char × List Char) :=
  match cs with
  | '"' :: rest => basic (cs.length + 1) rest
  | '\'' :: rest => literal rest
  | _ =>
    match cs.takeWhile isBareKeyChar with
    | [] => none
    | bare => some (bare, cs.dropWhile isBareKeyChar)

def entry (cs : List Char) : Option ((String × Value) × List Char) := do
  let (key, rest) ← key cs
  match skipBlanks rest with
  | '=' :: rest =>
    let (value, rest) ← value (skipBlanks rest)
    let rest ← lineEnd rest
    return ((String.ofList key, value), rest)
  | _ => none

def entries : (fuel : Nat) → List Char → Option (List (String × Value))
  | 0, _ => none
  | fuel + 1, cs =>
    match skipBlanks cs with
    | [] => some []
    | cs =>
      match lineEnd cs with
      | some rest => entries fuel rest
      | none => do
        let (first, rest) ← entry cs
        return first :: (← entries fuel rest)

/-- The entries of a document whose keys differ. A byte order mark may stand in front. -/
def parse? (s : String) : Option (List (String × Value)) := do
  let cs := match s.toList with
    | '\ufeff' :: rest => rest
    | cs => cs
  let table ← entries (cs.length + 1) cs
  if (table.map (·.1)).Nodup then some table else none

end BoardNets.Toml
