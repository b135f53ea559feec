import BoardNets.Proofs.Circuit.Reordering

/-! Circuits that cannot be told apart when they are wired. They have one frame, their interfaces
have the same uses under the same keys, and their nodes require the same fragments. How often, under
which ids and of which origin a fragment is required is not looked at. -/
namespace BoardNets
namespace Fragment

/-- The fragment without its origin, at which nothing but deduction looks. -/
def unsigned (f : Fragment) : Fragment := { f with origin := .derived }

/-- What does not depend on the origin is the same for fragments that differ in nothing else. -/
theorem read_of_unsigned {β : Type} {f g : Fragment} (h : g.unsigned = f.unsigned)
    {F : Fragment → β} (hF : ∀ f, F f.unsigned = F f) : F g = F f := by
  rw [← hF g, h, hF]

end Fragment

namespace Circuit

variable {c c' : Circuit}

/-- A node requires the fragment, under some id and of some origin. -/
def Demands (c : Circuit) (x : NodeId) (f : Fragment) : Prop :=
  ∃ id g, id ∈ c.requirementsOf x ∧ c.fragment? id = some g ∧ g.unsigned = f.unsigned

/-- Circuits over one frame with the same uses of interfaces and the same required fragments. -/
structure Resembles (c c' : Circuit) : Prop where
  frame : c'.frame = c.frame
  uses : ∀ i key u, u ∈ (c'.usesOf i).under key ↔ u ∈ (c.usesOf i).under key
  demands : ∀ x f, c'.Demands x f ↔ c.Demands x f

namespace Resembles

theorem symm (h : c.Resembles c') : c'.Resembles c where
  frame := h.frame.symm
  uses := fun i key u => (h.uses i key u).symm
  demands := fun x f => (h.demands x f).symm

variable (h : c.Resembles c')
include h

theorem outline : c'.outline = c.outline := outline_of_frame h.frame

/-- An interface is the same but for how often and in which order it has its uses. -/
theorem interface {i : InterfaceRef} {x : ComponentInterface} (hx : c.interface i = .ok x) :
    ∃ y, c'.interface i = .ok y ∧ y.idle = x.idle ∧ ∀ u, u ∈ y.uses.uses ↔ u ∈ x.uses.uses := by
  have hidle := interface_outline (c := c') i
  rw [h.outline, interface_outline, hx] at hidle
  cases hy : c'.interface i with
  | error e =>
    rw [hy] at hidle
    cases hidle
  | ok y =>
    rw [hy] at hidle
    refine ⟨y, rfl, (Except.ok.inj hidle).symm, fun u => ?_⟩
    simp only [Connections.mem_uses, ← usesOf_of_interface hx, ← usesOf_of_interface hy, h.uses]

end Resembles

theorem Reordered.resembles (h : c.Reordered c') : c.Resembles c' := by
  have hdemands {c c' : Circuit} (h : c.Reordered c') {x : NodeId} {f : Fragment}
      (hf : c.Demands x f) : c'.Demands x f := by
    obtain ⟨id, g, hid, hg, hsame⟩ := hf
    obtain ⟨id', hg', hid'⟩ := h.requires hg hid
    exact ⟨id', g, hid', hg', hsame⟩
  exact ⟨h.frame, fun i key u => (h.perm_under i key).mem_iff,
    fun x f => ⟨hdemands h.symm, hdemands h⟩⟩

end Circuit
end BoardNets
