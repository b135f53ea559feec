import BoardNets.Sorted.Order

/-! Latencies, which only their order matters of. They are double precision numbers in the total
order of such numbers: negative ones by falling magnitude, then positive ones, infinity and positive
NaN. -/
namespace BoardNets

open Std

structure Latency where
  bits : BitVec 64
  deriving DecidableEq

namespace Latency

def ofFloat (x : Float) : Latency := ⟨x.toBits.toBitVec⟩

def infinity : Latency := ⟨0x7FF0000000000000⟩

def nan : Latency := ⟨0x7FF8000000000000⟩

def isZero (l : Latency) : Bool := l.bits = 0 ∨ l.bits = 0x8000000000000000

/-- Magnitudes keep their order above zero and are reversed below. -/
def rank (l : Latency) : Int :=
  if l.bits.msb then -(l.bits.toNat : Int) else l.bits.toNat

instance : Ord Latency := ⟨fun a b => compare a.rank b.rank⟩

def limit : Option Latency → Latency
  | none => infinity
  | some l => if l.isZero then infinity else l

end Latency
end BoardNets
