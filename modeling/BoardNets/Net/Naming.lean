import BoardNets.Net.Basic

/-! Names of nets, in three steps. A net that reaches several components takes the name its template
gives, with an index where several identifiers of the board share the template. The other nets take
that name with `_S`, numbered where several of them would share it. Names that still clash on a
board get a numeric ending and a warning. -/
namespace BoardNets
namespace Net

/-- Each key with the number of equal keys before it and in all. -/
def tally {κ : Type} [BEq κ] (keys : List κ) : List (κ × Nat × Nat) :=
  keys.zipIdx.map fun (k, i) => (k, (keys.take i).count k, keys.count k)

/-- Identifiers of the nets of a board that share a template. -/
def identifiers (nets : List Net) (board : Option NodeId) (template : NameTemplate) :
    SortedSet String :=
  .ofList ((nets.filter fun n => n.board = board ∧ n.shape.template = some template).map
    (·.shape.identifier))

/-- The name a net has, or would have if it reached several components. -/
def globalName (nets : List Net) (n : Net) : Option String :=
  n.shape.template.map fun template =>
    let ids := (identifiers nets n.board template).toList
    template.render (if 1 < ids.length then ids.idxOf? n.shape.identifier else none)

abbrev BoardName := Option NodeId × String

/-- The name that a net which does not reach several components has to share with others of its
kind. -/
def localName (n : Net) (name : Option String) : Option BoardName :=
  if n.shape.isGlobal then none else name.map (n.board, ·)

def draft (n : Net) (name : String) (before total : Nat) : String :=
  if n.shape.isGlobal then name
  else if total = 1 then name ++ "_S"
  else name ++ "_S" ++ toString before

def drafts (nets : List Net) : List (Option String) :=
  let names := nets.map fun n => (n, globalName nets n)
  List.zipWith (fun (n, name) (_, before, total) => name.map (draft n · before total)) names
    (tally (names.map fun (n, name) => localName n name))

/-- The drafts as names on boards, with the number of equal ones before each and in all. -/
def draftTally (nets : List Net) : List (Option BoardName × Nat × Nat) :=
  tally (List.zipWith (fun n name => name.map (n.board, ·)) nets (drafts nets))

def names (nets : List Net) : List (Option String) :=
  (draftTally nets).map fun (draft, before, total) => draft.map fun (_, name) =>
    if total < 2 then name else name ++ "_" ++ toString (before + 1)

def clashes (nets : List Net) : List String :=
  (draftTally nets).filterMap fun (draft, before, total) =>
    if before = 0 ∧ 2 ≤ total then
      draft.map fun (_, name) => "Net name " ++ name ++ " is shared by " ++ toString total ++
        " nets, adding numeric suffixes"
    else none

def assignNames (nets : List Net) : List Net :=
  List.zipWith (fun n name => { n with name }) nets (names nets)

end Net
end BoardNets
