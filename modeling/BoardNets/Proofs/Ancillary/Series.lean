import BoardNets.Proofs.Fragment.Pairing
import BoardNets.Proofs.Graph.Relocated
import BoardNets.Proofs.Net.Edges
import Mathlib.Data.List.Permutation

/-! Parts in series before a pin. Each of them joins what stands for the pin to its input and then
stands for the pin by its output, so together they are a chain that starts at the pin. -/
namespace BoardNets

/-- A part in the role of an ancillary, with the pins that are its input and its output. -/
structure SeriesPart where
  part : NodeId
  role : Ancillary
  input : PinId
  output : PinId

namespace SeriesPart

def entry (r : SeriesPart) : NodeId × Ancillary := (r.part, r.role)

def inputPin (r : SeriesPart) : ComponentPin := ⟨r.part, r.input⟩

def outputPin (r : SeriesPart) : ComponentPin := ⟨r.part, r.output⟩

/-- The role is bound to a pin, by an input and an output on different pins that both target it. -/
structure At (r : SeriesPart) (p : ComponentPin) : Prop where
  binding : r.role.binding = .pins p.component
  distinct : r.input ≠ r.output
  connections : r.role.connections.Perm
    [⟨r.input, .input, .pin p.pin⟩, ⟨r.output, .output, .pin p.pin⟩]

variable {c : Circuit} {r : SeriesPart} {p : ComponentPin} {done : Application}

theorem apply_two {n m : AncillaryConnection} (h : r.role.connections = [n, m])
    (hdone : r.role.apply c r.part = .ok done) : ∃ x y, n.apply c r.part r.role = .ok x ∧
      m.apply c r.part r.role = .ok y ∧ done = (Application.merge {} x).merge y := by
  rw [Ancillary.apply, h, List.foldlM_cons] at hdone
  obtain ⟨_, hfirst, hdone⟩ := bind_eq_ok.1 hdone
  obtain ⟨x, hx, hfirst⟩ := bind_eq_ok.1 hfirst
  obtain rfl := pure_eq_ok.1 hfirst
  obtain ⟨_, hsecond, hdone⟩ := bind_eq_ok.1 hdone
  obtain ⟨y, hy, hsecond⟩ := bind_eq_ok.1 hsecond
  obtain rfl := pure_eq_ok.1 hsecond
  exact ⟨x, y, hx, hy, (pure_eq_ok.1 hdone).symm⟩

namespace At

variable (h : r.At p)
include h

theorem isLocal : r.role.isLocal = true := by
  rw [Ancillary.isLocal, h.binding]

theorem applyTo {n : AncillaryConnection} (hto : n.attachment = .pin p.pin)
    (hn : n.apply c r.part r.role = .ok done) :
    n.applyTo c r.part r.role (.ofList [p]) = .ok done := by
  obtain ⟨pins, hpins, hn⟩ := bind_eq_ok.1 hn
  rw [h.binding, AncillaryConnection.inputPins, hto] at hpins
  obtain ⟨q, hq, hpins⟩ := bind_eq_ok.1 hpins
  obtain rfl := Circuit.componentPin_eq_ok hq
  obtain rfl := pure_eq_ok.1 hpins
  exact hn

theorem apply_input
    (hn : AncillaryConnection.apply ⟨r.input, .input, .pin p.pin⟩ c r.part r.role = .ok done) :
    done = { connections := .ofList [⟨p, r.inputPin⟩] } ∧ ∃ pin, c.pin r.inputPin = .ok pin := by
  obtain ⟨own, hown, hn⟩ := bind_eq_ok.1 (h.applyTo rfl hn)
  obtain ⟨pin, hpin, hown⟩ := bind_eq_ok.1 hown
  obtain rfl := pure_eq_ok.1 hown
  exact ⟨(pure_eq_ok.1 hn).symm, pin, hpin⟩

theorem apply_output
    (hn : AncillaryConnection.apply ⟨r.output, .output, .pin p.pin⟩ c r.part r.role = .ok done) :
    done = { masks := .ofList [(p, r.outputPin)] } ∧ ∃ pin, c.pin r.outputPin = .ok pin := by
  obtain ⟨own, hown, hn⟩ := bind_eq_ok.1 (h.applyTo rfl hn)
  obtain ⟨pin, hpin, hown⟩ := bind_eq_ok.1 hown
  obtain rfl := pure_eq_ok.1 hown
  exact ⟨(pure_eq_ok.1 hn).symm, pin, hpin⟩

/-- Whatever its listing, the role joins its input to the pin, and then its output takes over. -/
theorem steps_apply (hdone : r.role.apply c r.part = .ok done) :
    done.steps = [.connect p r.inputPin, .mask p r.outputPin] ∧
      (∃ pin, c.pin r.inputPin = .ok pin) ∧ ∃ pin, c.pin r.outputPin = .ok pin := by
  rcases List.perm_pair.1 h.connections with hlist | hlist
  · obtain ⟨x, y, hx, hy, rfl⟩ := apply_two hlist hdone
    obtain ⟨rfl, hinput⟩ := h.apply_input hx
    obtain ⟨rfl, houtput⟩ := h.apply_output hy
    exact ⟨rfl, hinput, houtput⟩
  · obtain ⟨x, y, hx, hy, rfl⟩ := apply_two hlist hdone
    obtain ⟨rfl, houtput⟩ := h.apply_output hx
    obtain ⟨rfl, hinput⟩ := h.apply_input hy
    exact ⟨rfl, hinput, houtput⟩

end At

def chainEnd : ComponentPin → List SeriesPart → ComponentPin
  | p, [] => p
  | _, r :: rs => chainEnd r.outputPin rs

/-- A pin under the name it has beyond the chain. -/
def renamed (p : ComponentPin) (rs : List SeriesPart) (q : ComponentPin) : ComponentPin :=
  if q = p then chainEnd p rs else q

/-- The pin with the first input, and each output with the next input. -/
def links : ComponentPin → List SeriesPart → List (ComponentPin × ComponentPin)
  | _, [] => []
  | p, r :: rs => (p, r.inputPin) :: links r.outputPin rs

/-- The steps of a chain. -/
def plan (p : ComponentPin) (rs : List SeriesPart) : List Wires.Step :=
  rs.flatMap fun r => [.connect p r.inputPin, .mask p r.outputPin]

/-- Different parts with different pins, apart from the component that the chain starts at. -/
structure Chain (a : ComponentPin) (rs : List SeriesPart) : Prop where
  nodup : (rs.map part).Nodup
  start : a.component ∉ rs.map part
  distinct : ∀ r ∈ rs, r.input ≠ r.output

variable {a x : ComponentPin} {rs : List SeriesPart}

/-- The pins of a chain are the ends of its links and the end of the chain. -/
theorem isEnd_or_chainEnd_iff : (∃ e ∈ links a rs, Graph.IsEnd e x) ∨ x = chainEnd a rs ↔
    x = a ∨ ∃ r ∈ rs, x = r.inputPin ∨ x = r.outputPin := by
  induction rs generalizing a with
  | nil => simp [links, chainEnd]
  | cons r rs ih =>
    simp only [links, chainEnd, List.mem_cons, exists_eq_or_imp, or_assoc, ih]
    simp only [Graph.IsEnd, or_assoc]

theorem component_of_isEnd {e : ComponentPin × ComponentPin} (he : e ∈ links a rs)
    (hx : Graph.IsEnd e x) : x = a ∨ x.component ∈ rs.map part := by
  refine (isEnd_or_chainEnd_iff.1 (.inl ⟨e, he, hx⟩)).imp_right ?_
  rintro ⟨r, hr, rfl | rfl⟩ <;> exact List.mem_map_of_mem hr

theorem component_chainEnd (a : ComponentPin) (rs : List SeriesPart) :
    chainEnd a rs = a ∨ (chainEnd a rs).component ∈ rs.map part := by
  refine (isEnd_or_chainEnd_iff.1 (.inr rfl)).imp_right ?_
  rintro ⟨r, hr, h | h⟩ <;> exact h ▸ List.mem_map_of_mem hr

namespace Chain

theorem tail {r : SeriesPart} (h : Chain a (r :: rs)) : Chain r.outputPin rs where
  nodup := (List.nodup_cons.1 h.nodup).2
  start := (List.nodup_cons.1 h.nodup).1
  distinct := fun s hs => h.distinct s (List.mem_cons_of_mem r hs)

theorem first_apart {r : SeriesPart} (h : Chain a (r :: rs)) {x : ComponentPin}
    (hx : x = r.outputPin ∨ x.component ∈ rs.map part) : ¬Graph.IsEnd (a, r.inputPin) x := by
  obtain ⟨hr, _⟩ := List.nodup_cons.1 h.nodup
  have hstart := h.start
  rw [List.map_cons, List.mem_cons, not_or] at hstart
  rintro (rfl | rfl)
  · rcases hx with rfl | hx
    · exact hstart.1 rfl
    · exact hstart.2 hx
  · rcases hx with hx | hx
    · exact h.distinct r List.mem_cons_self (congrArg ComponentPin.pin hx)
    · exact hr hx

theorem not_isEnd_chainEnd (h : Chain a rs) {e : ComponentPin × ComponentPin}
    (he : e ∈ links a rs) : ¬Graph.IsEnd e (chainEnd a rs) := by
  induction rs generalizing a with
  | nil => cases he
  | cons r rs ih =>
    rcases List.mem_cons.1 he with rfl | he
    · exact h.first_apart (component_chainEnd r.outputPin rs)
    · exact ih h.tail he

theorem eq_of_isEnd (h : Chain a rs) {d e : ComponentPin × ComponentPin} (hd : d ∈ links a rs)
    (he : e ∈ links a rs) {x : ComponentPin} (hdx : Graph.IsEnd d x) (hex : Graph.IsEnd e x) :
    d = e := by
  induction rs generalizing a with
  | nil => cases hd
  | cons r rs ih =>
    rcases List.mem_cons.1 hd with rfl | hd <;> rcases List.mem_cons.1 he with rfl | he
    · rfl
    · exact absurd hdx (h.first_apart (component_of_isEnd he hex))
    · exact absurd hex (h.first_apart (component_of_isEnd hd hdx))
    · exact ih h.tail hd he

/-- After one part its output stands for the pin, and nothing else changes. -/
theorem masked_link (w : Wires) (r : SeriesPart) (p q : ComponentPin) :
    ((w.connect p r.inputPin).mask p r.outputPin).masked q =
      if q = p then r.outputPin else w.masked q := by
  rw [Wires.masked, Wires.mask, SortedMap.find?_insert, Wires.masks_connect]
  split <;> rfl

/-- A chain lays its links, and after it its end stands for the pin. -/
theorem carry_plan {w : Wires} {p : ComponentPin} (h : Chain (w.masked p) rs)
    (hp : p.component ∉ rs.map part) (hw : ∀ r ∈ rs, w.masked r.inputPin = r.inputPin) :
    w.laid (plan p rs) = links (w.masked p) rs ∧
      ∀ q, (w.carry (plan p rs)).masked q =
        if q = p then chainEnd (w.masked p) rs else w.masked q := by
  induction rs generalizing w with
  | nil =>
    refine ⟨rfl, fun q => ?_⟩
    split
    · rename_i hq
      rw [hq]
      rfl
    · rfl
  | cons r rs ih =>
    rw [List.map_cons, List.mem_cons, not_or] at hp
    obtain ⟨hr, hw⟩ := List.forall_mem_cons.1 hw
    have hne : w.masked p ≠ r.inputPin := fun heq =>
      h.start (by rw [heq]; exact List.mem_cons_self)
    set next := (w.connect p r.inputPin).mask p r.outputPin
    have hmasked : ∀ q, next.masked q = if q = p then r.outputPin else w.masked q :=
      masked_link w r p
    have hstart : next.masked p = r.outputPin := by rw [hmasked, if_pos rfl]
    have hkeep : ∀ s ∈ rs, next.masked s.inputPin = s.inputPin := by
      intro s hs
      rw [hmasked, if_neg, hw s hs]
      rintro rfl
      exact hp.2 (List.mem_map_of_mem hs)
    -- the rest of the chain starts at this output, which now stands for the pin
    obtain ⟨hlaid, hend⟩ := ih (hstart ▸ h.tail) hp.2 hkeep
    have hadded : w.added (.connect p r.inputPin) = [(w.masked p, r.inputPin)] := by
      rw [Wires.added, hr, if_neg hne]
    constructor
    · change w.added (.connect p r.inputPin) ++ next.laid (plan p rs) = _
      rw [hadded, hlaid, hstart]
      rfl
    · intro q
      change (next.carry (plan p rs)).masked q = _
      rw [hend, hstart, hmasked]
      split <;> rfl

end Chain

end SeriesPart
end BoardNets
