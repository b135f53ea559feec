import BoardNets.Proofs.Net.Plan

/-! Edges that a plan lays. A connection becomes an edge between the pins that stand for its ends at
that time, so which edges there are is read off the plan, step by step, and the graph is what was
there before with these edges added. -/
namespace BoardNets
namespace Wires

variable {w : Wires}

def added (w : Wires) : Step → List (ComponentPin × ComponentPin)
  | .connect a b => if w.masked a = w.masked b then [] else [(w.masked a, w.masked b)]
  | .mask _ _ => []

/-- The edges of a plan, each laid over the wires of its time. -/
def laid (w : Wires) : List Step → List (ComponentPin × ComponentPin)
  | [] => []
  | s :: steps => w.added s ++ (w.take s).laid steps

theorem carry_cons (w : Wires) (s : Step) (steps : List Step) :
    w.carry (s :: steps) = (w.take s).carry steps := rfl

@[simp] theorem laid_nil (w : Wires) : w.laid [] = [] := rfl

theorem laid_cons (w : Wires) (s : Step) (steps : List Step) :
    w.laid (s :: steps) = w.added s ++ (w.take s).laid steps := rfl

theorem laid_append (w : Wires) (s t : List Step) :
    w.laid (s ++ t) = w.laid s ++ (w.carry s).laid t := by
  induction s generalizing w with
  | nil => rfl
  | cons step s ih => rw [List.cons_append, laid_cons, laid_cons, ih, List.append_assoc, carry_cons]

theorem mem_added {a b : ComponentPin} {e : ComponentPin × ComponentPin} :
    e ∈ w.added (.connect a b) ↔
      w.masked a ≠ w.masked b ∧ e = (w.masked a, w.masked b) := by
  rw [added]
  split
  · rename_i h
    simp [h]
  · rename_i h
    simp [h]

/-- Every edge comes from a connection and joins what stands for its ends then. -/
theorem mem_laid_iff {steps : List Step} {e : ComponentPin × ComponentPin} :
    e ∈ w.laid steps ↔ ∃ before a b after, steps = before ++ .connect a b :: after ∧
      e ∈ (w.carry before).added (.connect a b) := by
  induction steps generalizing w with
  | nil => simp
  | cons s steps ih =>
    rw [laid_cons, List.mem_append, ih]
    constructor
    · rintro (h | ⟨before, a, b, after, rfl, h⟩)
      · cases s with
        | connect a b => exact ⟨[], a, b, steps, rfl, h⟩
        | mask p replacement => cases h
      · exact ⟨s :: before, a, b, after, rfl, h⟩
    · rintro ⟨before, a, b, after, hsteps, h⟩
      cases before with
      | nil =>
        obtain ⟨rfl, rfl⟩ := List.cons.inj hsteps
        exact .inl h
      | cons t before =>
        obtain ⟨rfl, rfl⟩ := List.cons.inj hsteps
        exact .inr ⟨before, a, b, after, rfl, h⟩

theorem edges_take (w : Wires) (s : Step) :
    (w.take s).graph.edges = w.graph.edges ++ w.added s := by
  cases s with
  | connect a b =>
    rw [take, graph_connect, added]
    split
    · simp
    · exact Graph.edges_addEdge
  | mask p replacement => simp [take, mask, added]

theorem edges_carry (w : Wires) (steps : List Step) :
    (w.carry steps).graph.edges = w.graph.edges ++ w.laid steps := by
  induction steps generalizing w with
  | nil => simp [carry]
  | cons s steps ih => rw [carry_cons, ih, edges_take, laid_cons, List.append_assoc]

theorem mem_nodes_take_iff {s : Step} {x : ComponentPin} : x ∈ (w.take s).graph.nodes ↔
    x ∈ w.graph.nodes ∨ ∃ e ∈ w.added s, x = e.1 ∨ x = e.2 := by
  cases s with
  | connect a b =>
    rw [take, graph_connect, added]
    split
    · simp
    · rw [Graph.mem_nodes_addEdge]
      simp
  | mask p replacement => simp [take, mask, added]

theorem mem_nodes_carry_iff {steps : List Step} {x : ComponentPin} :
    x ∈ (w.carry steps).graph.nodes ↔
      x ∈ w.graph.nodes ∨ ∃ e ∈ w.laid steps, x = e.1 ∨ x = e.2 := by
  induction steps generalizing w with
  | nil => simp [carry]
  | cons s steps ih =>
    rw [carry_cons, ih, mem_nodes_take_iff, laid_cons, or_assoc]
    simp only [List.mem_append, or_and_right, exists_or]

theorem masks_connect (w : Wires) (a b : ComponentPin) : (w.connect a b).masks = w.masks := by
  rw [connect]
  split <;> rfl

theorem chainStarts_connect (w : Wires) (a b : ComponentPin) :
    (w.connect a b).chainStarts = w.chainStarts := by
  rw [connect]
  split <;> rfl

/-- A plan that connects only. -/
def Connects (steps : List Step) : Prop := ∀ s ∈ steps, ∃ a b, s = .connect a b

theorem connects_star (pins : SortedSet ComponentPin) : Connects (star pins) := by
  intro s hs
  obtain ⟨first, _, _, p, _, rfl⟩ := mem_star.1 hs
  exact ⟨first, p, rfl⟩

theorem Connects.flatten {plans : List (List Step)} (h : ∀ steps ∈ plans, Connects steps) :
    Connects plans.flatten := by
  intro s hs
  obtain ⟨steps, hsteps, hs⟩ := List.mem_flatten.1 hs
  exact h steps hsteps s hs

theorem masks_carry {steps : List Step} (h : Connects steps) (w : Wires) :
    (w.carry steps).masks = w.masks ∧ (w.carry steps).chainStarts = w.chainStarts := by
  induction steps generalizing w with
  | nil => exact ⟨rfl, rfl⟩
  | cons s steps ih =>
    obtain ⟨⟨a, b, rfl⟩, hsteps⟩ := List.forall_mem_cons.1 h
    obtain ⟨hmasks, hstarts⟩ := ih hsteps (w.connect a b)
    exact ⟨hmasks.trans (masks_connect w a b), hstarts.trans (chainStarts_connect w a b)⟩

/-- Without new replacements the order of connections does not matter to what each of them lays. -/
theorem mem_laid_connects {steps : List Step} (h : Connects steps) {w : Wires}
    {e : ComponentPin × ComponentPin} : e ∈ w.laid steps ↔ ∃ a b, .connect a b ∈ steps ∧
      w.masked a ≠ w.masked b ∧ e = (w.masked a, w.masked b) := by
  induction steps generalizing w with
  | nil => simp
  | cons s steps ih =>
    obtain ⟨⟨x, y, rfl⟩, hsteps⟩ := List.forall_mem_cons.1 h
    have hmasked (p : ComponentPin) : (w.connect x y).masked p = w.masked p := by
      rw [masked, masks_connect, masked]
    have hrest := ih hsteps (w := w.connect x y)
    simp only [hmasked] at hrest
    rw [laid_cons, List.mem_append, mem_added]
    change _ ∨ e ∈ (w.connect x y).laid steps ↔ _
    rw [hrest]
    constructor
    · rintro (hxy | ⟨a, b, hab, hlaid⟩)
      · exact ⟨x, y, List.mem_cons_self, hxy⟩
      · exact ⟨a, b, List.mem_cons_of_mem _ hab, hlaid⟩
    · rintro ⟨a, b, hab, hlaid⟩
      rcases List.mem_cons.1 hab with heq | hab
      · obtain ⟨rfl, rfl⟩ := Step.connect.inj heq
        exact .inl hlaid
      · exact .inr ⟨a, b, hab, hlaid⟩

end Wires
end BoardNets
