import BoardNets.Net.Basic
import BoardNets.Proofs.Sorted.Listing
import BoardNets.Proofs.Text.Natural

/-! The order of nets. Pins are ranked by texts in the usual and in the natural order, and nets by
the boards, templates, identifiers and first pins they have, so sorting puts any two nets into the
order that they would have among others. -/
namespace BoardNets

open Std

theorem transCmp_by {α β : Type} {cmp : β → β → Ordering} [TransCmp cmp] (key : α → β) :
    TransCmp fun a b => cmp (key a) (key b) where
  eq_swap := OrientedCmp.eq_swap
  isLE_trans := TransCmp.isLE_trans

instance : TransCmp RankedPin.order :=
  have := @transCmp_by _ _ Text.naturalOrder _ RankedPin.number
  inferInstanceAs (TransCmp (compareLex (compareOn RankedPin.reference)
    (compareLex (fun a b => Text.naturalOrder a.number b.number) (compareOn RankedPin.name))))

namespace Net

instance : TransCmp firstPinOrder where
  eq_swap := by
    intro a b
    cases a <;> cases b
    case some.some a b => exact (OrientedCmp.eq_swap : a.order b = (b.order a).swap)
    all_goals rfl
  isLE_trans := by
    intro a b c hab hbc
    cases a <;> cases b <;> cases c <;> try rfl
    case some.some.some a b c =>
      have htrans : (a.order b).isLE → (b.order c).isLE → (a.order c).isLE := TransCmp.isLE_trans
      exact htrans hab hbc
    all_goals contradiction

instance : TransCmp order :=
  have := @transCmp_by _ _ firstPinOrder _ firstPin
  inferInstanceAs (TransCmp (compareLex (compareOn board)
    (compareLex (compareOn (·.shape.template)) (compareLex (compareOn (·.shape.identifier))
      fun a b => firstPinOrder a.firstPin b.firstPin))))

theorem sort_filter (nets : List Net) (keep : Net → Bool) :
    sort (nets.filter keep) = (sort nets).filter keep :=
  mergeSort_filter (fun _ _ _ => TransCmp.isLE_trans) isLE_total keep nets

end Net
end BoardNets
