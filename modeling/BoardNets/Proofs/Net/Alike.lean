import BoardNets.Proofs.Graph.Covers
import BoardNets.Proofs.Net.Edges

/-! Plans that come to the same. Between two replacements connections may be made in any order: the
same pins are joined, by the same edges. -/
namespace BoardNets
namespace Wires

/-- The same pins joined by the same edges, with the same replacements. -/
structure Same (w w' : Wires) : Prop where
  masks : w'.masks = w.masks
  chainStarts : w'.chainStarts = w.chainStarts
  nodes : ∀ p, p ∈ w'.graph.nodes ↔ p ∈ w.graph.nodes
  edges : ∀ e, e ∈ w'.graph.edges ↔ e ∈ w.graph.edges

theorem Same.refl (w : Wires) : Same w w := ⟨rfl, rfl, fun _ => .rfl, fun _ => .rfl⟩

variable {w w' : Wires}

theorem Same.masked (h : Same w w') (p : ComponentPin) : w'.masked p = w.masked p := by
  rw [Wires.masked, Wires.masked, h.masks]

def Alike (s t : List Step) : Prop := ∀ w w', Same w w' → Same (w.carry s) (w'.carry t)

theorem Alike.append {s s' t t' : List Step} (hs : Alike s s') (ht : Alike t t') :
    Alike (s ++ t) (s' ++ t') := by
  intro w w' h
  rw [carry_append, carry_append]
  exact ht _ _ (hs _ _ h)

theorem Alike.flatten {plans plans' : List (List Step)} (h : List.Forall₂ Alike plans plans') :
    Alike plans.flatten plans'.flatten := by
  induction h with
  | nil => exact fun _ _ h => h
  | cons hs _ ih => exact hs.append ih

theorem Alike.of_connects {s t : List Step} (hs : Connects s) (ht : Connects t)
    (hst : ∀ x, x ∈ t ↔ x ∈ s) : Alike s t := by
  intro w w' h
  have hlaid (e : ComponentPin × ComponentPin) : e ∈ w'.laid t ↔ e ∈ w.laid s := by
    rw [mem_laid_connects hs, mem_laid_connects ht]
    simp only [hst, h.masked]
  obtain ⟨hmasks, hstarts⟩ := masks_carry hs w
  obtain ⟨hmasks', hstarts'⟩ := masks_carry ht w'
  exact {
    masks := by rw [hmasks, hmasks', h.masks]
    chainStarts := by rw [hstarts, hstarts', h.chainStarts]
    nodes := fun p => by simp only [mem_nodes_carry_iff, h.nodes, hlaid]
    edges := fun e => by simp only [edges_carry, List.mem_append, h.edges, hlaid] }

theorem Same.mask (h : Same w w') (p replacement : ComponentPin) :
    Same (w.mask p replacement) (w'.mask p replacement) where
  masks := by rw [Wires.mask, Wires.mask, h.masks]
  chainStarts := by rw [Wires.mask, Wires.mask, chainStart, chainStart, h.chainStarts]
  nodes := h.nodes
  edges := h.edges

theorem Alike.refl (steps : List Step) : Alike steps steps := by
  induction steps with
  | nil => exact fun _ _ h => h
  | cons s steps ih =>
    have hone : Alike [s] [s] := by
      cases s with
      | connect a b =>
        have hs : Connects [.connect a b] := fun x hx => ⟨a, b, List.mem_singleton.1 hx⟩
        exact .of_connects hs hs fun _ => .rfl
      | mask p replacement => exact fun w w' h => h.mask p replacement
    exact hone.append ih

theorem Same.mem_components (h : Same w w') (hw : w.graph.WellFormed) (hw' : w'.graph.WellFormed)
    {pins : SortedSet ComponentPin} : pins ∈ w'.graph.components ↔ pins ∈ w.graph.components :=
  Graph.mem_components_congr hw hw' h.nodes h.edges

end Wires
end BoardNets
