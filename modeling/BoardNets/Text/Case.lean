import BoardNets.Text.CaseTable
import BoardNets.Text.CharClass

/-! Letter case of whole texts. A letter may become several, and a capital sigma at the end of a
word becomes a final one. -/
namespace BoardNets.Text

def expand (table : List (Nat × List Nat)) (runs : List CaseRun) (c : Char) : List Char :=
  match table.lookup c.toNat with
  | some image => image.map Char.ofNat
  | none => [(runs.findSome? (·.image? c)).getD c]

def upperChar : Char → List Char := expand upperExpansions upperRuns

def lowerChar : Char → List Char := expand lowerExpansions lowerRuns

def upper (s : String) : String := String.ofList (s.toList.flatMap upperChar)

/-- Whether the next letter, past marks and signs, has case. -/
def casedAhead (cs : List Char) : Bool :=
  match cs.dropWhile (inRanges caseIgnorableRanges) with
  | [] => false
  | c :: _ => inRanges casedRanges c

/-- `before` holds the letters already passed, last first. -/
def lowerFrom (before : List Char) : List Char → List Char
  | [] => []
  | c :: cs =>
    let image :=
      if c = 'Σ' then [if casedAhead before && !casedAhead cs then 'ς' else 'σ'] else lowerChar c
    image ++ lowerFrom (c :: before) cs

def lower (s : String) : String := String.ofList (lowerFrom [] s.toList)

end BoardNets.Text
