import BoardNets.Circuit.Error
import BoardNets.Design.Toml

/-! Options of net synthesis, as read from TOML. -/
namespace BoardNets

structure Options where
  /-- Reference of the main board. -/
  mainBoard : String := "MAIN"
  /-- Whether connected pins are split into one net for each board. -/
  splitByBoard : Bool := true
  /-- Whether connected pins without a bus are a failure and not only a warning. -/
  strict : Bool := false
  deriving DecidableEq

namespace Options

def set? (o : Options) : String × Toml.Value → Option Options
  | ("main_board", .string mainBoard) => some { o with mainBoard }
  | ("split_by_board", .bool splitByBoard) => some { o with splitByBoard }
  | ("strict", .bool strict) => some { o with strict }
  | _ => none

/-- Options left out keep their defaults; unknown ones are refused. -/
def parse (text : String) : Result Options :=
  (Toml.parse? text >>= List.foldlM set? {}).elim (throw .invalidOptions) pure

end Options
end BoardNets
