import BoardNets.Proofs.Circuit.Forest
import BoardNets.Proofs.Circuit.Steady

/-! What steps make of fragments. A deduction that fails leaves its fragment alone, and a repair
that fails has forgotten what was out of date. A resolution that succeeds puts the candidate in the
place of its filter and works out again the fragments that ended there, each on its own: deduction
looks at outlines, which no resolution changes, so none of these fragments has a say in what becomes
of another one. -/
namespace BoardNets
namespace Fragment

/-- The fragment without connections that are out of date. -/
def current (f : Fragment) : Fragment := if f.Stale then f.bare else f

/-- The fragment with the connections that are deduced for it. -/
def completed (f : Fragment) (c : Circuit) : Result Fragment := do
  match ← c.node f.source.node with
  | .filter _ => return f
  | .component _ =>
    match ← f.deduce c f.source.node with
    | .deferred _ => return f
    | .resolved w => return f.holding w.pairing

/-- The fragment with connections that are worked out again where it has none. -/
def mended (f : Fragment) (c : Circuit) : Result Fragment :=
  if f.current.source.connections.isEmpty then f.current.completed c else return f.current

def attempted (f : Fragment) (c : Circuit) : Fragment := (f.completed c).toOption.getD f

def repaired (f : Fragment) (c : Circuit) : Fragment :=
  if f.current.source.connections.isEmpty then f.current.attempted c else f.current

/-- The fragment after a filter has been resolved to a candidate. -/
def moved (f : Fragment) (c : Circuit) (F x : NodeId) : Result Fragment :=
  if f.source.node = F ∨ f.target.node = F then (Circuit.retarget F x f).mended c else return f

variable {f g : Fragment} {c c' : Circuit}

theorem completed_congr (h : c'.outline = c.outline) : f.completed c' = f.completed c := by
  have houtline (c : Circuit) : f.completed c.outline = f.completed c := by
    rw [completed, completed, Circuit.node_outline, deduce_outline]
    cases c.node f.source.node with
    | error e => rfl
    | ok n => cases n <;> rfl
  rw [← houtline, h, houtline]

theorem mended_congr (h : c'.outline = c.outline) : f.mended c' = f.mended c := by
  rw [mended, mended, completed_congr h]

theorem attempted_congr (h : c'.outline = c.outline) : f.attempted c' = f.attempted c := by
  rw [attempted, attempted, completed_congr h]

theorem repaired_congr (h : c'.outline = c.outline) : f.repaired c' = f.repaired c := by
  rw [repaired, repaired, attempted_congr h]

theorem repaired_eq : f.repaired c = (f.mended c).toOption.getD f.current := by
  rw [repaired, mended]
  split <;> rfl

theorem moved_congr (h : c'.outline = c.outline) (F x : NodeId) :
    f.moved c' F x = f.moved c F x := by
  rw [moved, moved, mended_congr h]

theorem current_eq_self (h : f.entries = []) : f.current = f := by
  refine if_neg ?_
  rintro ⟨e, he, _⟩
  rw [h] at he
  cases he

/-- A fragment is completed with what is deduced for it, if anything is. -/
theorem completed_cases (h : f.completed c = .ok g) :
    g = f ∨ ∃ w, (c.component? f.source.node).isSome ∧
      f.deduce c f.source.node = .ok (.resolved w) ∧ g = f.holding w.pairing := by
  obtain ⟨n, hn, h⟩ := bind_eq_ok.1 h
  split at h
  · exact .inl (pure_eq_ok.1 h).symm
  · obtain ⟨answer, hanswer, h⟩ := bind_eq_ok.1 h
    split at h
    · exact .inl (pure_eq_ok.1 h).symm
    · refine .inr ⟨_, ?_, hanswer, (pure_eq_ok.1 h).symm⟩
      rw [Circuit.component?_eq_some.2 (Circuit.node_eq_ok.1 hn)]
      rfl

theorem attempted_cases : f.attempted c = f ∨
    ∃ w, f.deduce c f.source.node = .ok (.resolved w) ∧ f.attempted c = f.holding w.pairing := by
  rw [attempted]
  cases h : f.completed c with
  | error e => exact .inl rfl
  | ok g =>
    have hcases := completed_cases h
    rcases hcases with hsame | ⟨w, _, hdeduce, hholding⟩
    · exact .inl hsame
    · exact .inr ⟨w, hdeduce, hholding⟩

theorem completed_of_deduce {w : Wiring} (hsource : (c.component? f.source.node).isSome)
    (h : f.deduce c f.source.node = .ok (.resolved w)) :
    f.completed c = .ok (f.holding w.pairing) := by
  obtain ⟨p, hp⟩ := Option.isSome_iff_exists.1 hsource
  have hnode := Circuit.node_eq_ok.2 (Circuit.component?_eq_some.1 hp)
  exact bind_eq_ok.2 ⟨_, hnode, bind_eq_ok.2 ⟨_, h, rfl⟩⟩

theorem ends_completed (h : f.completed c = .ok g) :
    g.source.node = f.source.node ∧ g.target.node = f.target.node := by
  obtain rfl | ⟨w, _, _, rfl⟩ := completed_cases h
  · exact ⟨rfl, rfl⟩
  · exact ⟨rfl, rfl⟩

theorem ends_mended (h : f.mended c = .ok g) :
    g.source.node = f.source.node ∧ g.target.node = f.target.node := by
  have hcurrent : f.current.source.node = f.source.node ∧
      f.current.target.node = f.target.node := by
    rw [current]
    split <;> exact ⟨rfl, rfl⟩
  rw [mended] at h
  split at h
  · rw [← hcurrent.1, ← hcurrent.2]
    exact ends_completed h
  · exact pure_eq_ok.1 h ▸ hcurrent

end Fragment

theorem Requirement.adapter_fragment {r : Requirement} {f : Fragment} (h : r.fragment = .ok f)
    (hr : r.adapter = none) : f.adapter = none := by
  rw [Requirement.fragment] at h
  split at h
  · exact absurd h throw_ne_ok
  · obtain rfl := pure_eq_ok.1 h
    rw [hr]
    rfl

/-- The node without uses of its interfaces and without links. -/
def Node.unused : Node → Node
  | .component p => .component { p with interfaces := p.interfaces.map ComponentInterface.idle }
  | .filter f => .filter { f with links := [] }

theorem Node.outline_unused (n : Node) : n.unused.outline = n.outline := by
  cases n with
  | component p => simp [unused, outline, Component.outline, ComponentInterface.idle]
  | filter f => rfl

namespace Circuit

variable {α β : Type} {c c' c'' : Circuit}

def unused (c : Circuit) (x : NodeId) : Option Node := (c.node? x).map Node.unused

/-- The circuits are over one catalog, and have the same nodes but for uses and links. -/
structure SameTree (c c' : Circuit) : Prop where
  catalog : c'.catalog = c.catalog
  nodes : ∀ x, c'.unused x = c.unused x

namespace SameTree

theorem refl (c : Circuit) : c.SameTree c := ⟨rfl, fun _ => rfl⟩

theorem trans (h : c.SameTree c') (h' : c'.SameTree c'') : c.SameTree c'' where
  catalog := h'.catalog.trans h.catalog
  nodes := fun x => (h'.nodes x).trans (h.nodes x)

theorem outline (h : c.SameTree c') : c'.outline = c.outline := by
  refine outline_eq_of_nodes h.catalog fun x => ?_
  have houtline (n : Option Node) : n.map Node.outline = (n.map Node.unused).map Node.outline := by
    rw [Option.map_map]
    exact Option.map_congr fun m _ => (Node.outline_unused m).symm
  rw [houtline, houtline (c.node? x)]
  exact congrArg _ (h.nodes x)

theorem editInterface {i : InterfaceRef} {g : ComponentInterface → ComponentInterface}
    (hg : ∀ x, (g x).idle = x.idle) : c.SameTree (c.editInterface i g) where
  catalog := catalog_editComponent _ _
  nodes := view_editComponent fun p => by
    have hinterfaces := congrArg Component.interfaces
      (Component.outline_modify (p := p) (k := i.index) hg)
    exact congrArg (fun interfaces => some (Node.component { p with interfaces })) hinterfaces

theorem activate (i : InterfaceRef) (more : Connections) :
    c.SameTree (c.editInterface i (·.activate more)) :=
  editInterface fun _ => rfl

theorem release (e : InterfacePinId × PinUse) : c.SameTree (c.release e) :=
  editInterface fun _ => rfl

theorem fragments (c : Circuit) (fragments : Array Fragment) :
    c.SameTree { c with fragments } := ⟨rfl, fun _ => rfl⟩

theorem wired (id : FragmentId) (w : Wiring) : c.SameTree (c.wired id w) :=
  ((activate _ _).trans (activate _ _)).trans (fragments _ _)

theorem releaseAll (entries : List (InterfacePinId × PinUse)) :
    c.SameTree (entries.foldl Circuit.release c) := by
  induction entries generalizing c with
  | nil => exact .refl c
  | cons e entries ih => exact (release e).trans ih

theorem unwired (id : FragmentId) (f : Fragment) : c.SameTree (c.unwired id f) :=
  (fragments c _).trans (releaseAll f.entries)

end SameTree

theorem run_bind_eq_ok {x : Build α} {f : α → Build β} {b : β} :
    c.run (x >>= f) = (.ok b, c') ↔
      ∃ a c₁, c.run x = (.ok a, c₁) ∧ c₁.run (f a) = (.ok b, c') := by
  rw [run_bind]
  cases hrun : c.run x with
  | mk result c₁ =>
    cases result with
    | error e => simp
    | ok a => simp

theorem run_ask_bind_eq_ok {question : Circuit → Result α} {f : α → Build β} {b : β} :
    c.run (ask question >>= f) = (.ok b, c') ↔
      ∃ a, question c = .ok a ∧ c.run (f a) = (.ok b, c') := by
  rw [run_ask_bind]
  cases question c <;> simp

theorem eq_of_run_pure {a b : α} (h : c.run (pure a) = (.ok b, c')) : c' = c :=
  (congrArg Prod.snd h).symm

structure Renews (c c' : Circuit) (id : FragmentId) (g : Fragment) : Prop where
  tree : c.SameTree c'
  fragments : ∀ j, c'.fragment? j = if j = id then some g else c.fragment? j

theorem Renews.refl {id : FragmentId} {f : Fragment} (hf : c.fragment? id = some f) :
    c.Renews c id f where
  tree := .refl c
  fragments := by
    intro j
    split
    · rename_i hj
      rw [hj, hf]
    · rfl

theorem Renews.trans {id : FragmentId} {f g : Fragment} (h : c.Renews c' id f)
    (h' : c'.Renews c'' id g) : c.Renews c'' id g where
  tree := h.tree.trans h'.tree
  fragments := by
    intro j
    rw [h'.fragments, h.fragments]
    split <;> rfl

theorem renews_attempted {id : FragmentId} {f : Fragment} {answer : Result Fragment}
    (h : f.completed c = answer) (hrenews : c.Renews c' id (answer.toOption.getD f)) :
    c.Renews c' id (f.attempted c) := by
  rw [Fragment.attempted, h]
  exact hrenews

theorem run_tryDeduce {id : FragmentId} {f : Fragment} (hf : c.fragment? id = some f) :
    ∃ c', c.run (tryDeduce id) = ((f.completed c).map fun _ => ⟨⟩, c') ∧
      c.Renews c' id (f.attempted c) := by
  rw [tryDeduce, run_ask_bind, fragment_eq_ok.2 hf]
  dsimp only
  rw [run_ask_bind]
  cases hn : c.node f.source.node with
  | error e =>
    have hcompleted : f.completed c = .error e := by
      rw [Fragment.completed, hn]
      rfl
    rw [hcompleted]
    exact ⟨c, rfl, renews_attempted hcompleted (.refl hf)⟩
  | ok n =>
    cases n with
    | filter g =>
      have hcompleted : f.completed c = .ok f := by
        rw [Fragment.completed, hn]
        rfl
      rw [hcompleted]
      exact ⟨c, rfl, renews_attempted hcompleted (.refl hf)⟩
    | component p =>
      dsimp only
      rw [run_ask_bind]
      cases hdeduce : f.deduce c f.source.node with
      | error e =>
        have hcompleted : f.completed c = .error e := by
          rw [Fragment.completed, hn, hdeduce]
          rfl
        rw [hcompleted]
        exact ⟨c, rfl, renews_attempted hcompleted (.refl hf)⟩
      | ok answer =>
        cases answer with
        | deferred why =>
          have hcompleted : f.completed c = .ok f :=
            bind_eq_ok.2 ⟨_, hn, bind_eq_ok.2 ⟨_, hdeduce, rfl⟩⟩
          rw [hcompleted]
          exact ⟨c, rfl, renews_attempted hcompleted (.refl hf)⟩
        | resolved w =>
          have hcompleted : f.completed c = .ok (f.holding w.pairing) :=
            bind_eq_ok.2 ⟨_, hn, bind_eq_ok.2 ⟨_, hdeduce, rfl⟩⟩
          have hsound := Fragment.sound_of_deduce hdeduce
          have htarget := (grows_activate w.sourceInterface w.pairing.source).interface_isSome
            hsound.target
          dsimp only
          rw [run_bind, run_activate hsound.source]
          dsimp only
          rw [run_bind, run_activate htarget, hcompleted]
          refine ⟨c.wired id w, rfl, renews_attempted hcompleted ⟨.wired id w, fun j => ?_⟩⟩
          rw [fragment?_wired]
          split
          · rename_i hj
            rw [hj, hf, Option.map_some]
            rfl
          · rfl

/-- What is done along with an answer that is given is done to the answer. -/
theorem Renews.of_run {x : Build α} {id : FragmentId} {f : Fragment} {answer : Result Fragment}
    {a b : α} {c₀ c₁ : Circuit} (hrun : c.run x = (answer.map fun _ => a, c₁))
    (hrenews : c₀.Renews c₁ id (answer.toOption.getD f)) (h : c.run x = (.ok b, c')) :
    a = b ∧ ∃ g, answer = .ok g ∧ c₀.Renews c' id g := by
  rw [hrun] at h
  obtain ⟨hanswer, rfl⟩ := Prod.mk.inj h
  cases answer with
  | error e => cases hanswer
  | ok g => exact ⟨Except.ok.inj hanswer, g, rfl, hrenews⟩

theorem renews_forgetStale (hc : c.Base) {id : FragmentId} {f : Fragment}
    (hf : c.fragment? id = some f) :
    ∃ c', c.run (forgetStale id) = (.ok ⟨⟩, c') ∧ c.Renews c' id f.current := by
  refine ⟨_, run_forgetStale hc hf, ?_⟩
  by_cases hstale : f.Stale
  · rw [if_pos hstale, Fragment.current, if_pos hstale]
    refine ⟨.unwired id f, fun j => ?_⟩
    rw [fragment?_unwired]
    split
    · rename_i hj
      rw [hj, hf, Option.map_some]
    · rfl
  · rw [if_neg hstale, Fragment.current, if_neg hstale]
    exact .refl hf

/-- A repair mends its fragment, or fails when the fragment is up to date. -/
theorem run_repair (hc : c.Base) {id : FragmentId} {f : Fragment} (hf : c.fragment? id = some f) :
    ∃ c', c.run (repair id) = ((f.mended c).map fun _ => ⟨⟩, c') ∧
      c.Renews c' id (f.repaired c) := by
  obtain ⟨c₁, hrun, hforgotten⟩ := renews_forgetStale hc hf
  have hcurrent : c₁.fragment? id = some f.current := by rw [hforgotten.fragments, if_pos rfl]
  rw [repair, run_bind, hrun]
  dsimp only
  rw [run_ask_bind, fragment_eq_ok.2 hcurrent]
  dsimp only
  rw [Fragment.mended, Fragment.repaired]
  by_cases hempty : f.current.source.connections.isEmpty = true
  · obtain ⟨c', hdeduce, hrenews⟩ := run_tryDeduce hcurrent
    rw [if_pos hempty, if_pos hempty, if_pos hempty, hdeduce,
      Fragment.completed_congr hforgotten.tree.outline]
    rw [Fragment.attempted_congr hforgotten.tree.outline] at hrenews
    exact ⟨c', rfl, hforgotten.trans hrenews⟩
  · rw [if_neg hempty, if_neg hempty, if_neg hempty]
    exact ⟨c₁, rfl, hforgotten⟩

theorem renews_repair (hc : c.Base) {id : FragmentId} {f : Fragment}
    (hf : c.fragment? id = some f) (h : c.run (repair id) = (.ok ⟨⟩, c')) :
    ∃ g, f.mended c = .ok g ∧ c.Renews c' id g := by
  obtain ⟨c₁, hrun, hrenews⟩ := run_repair hc hf
  rw [Fragment.repaired_eq] at hrenews
  exact (Renews.of_run hrun hrenews h).2

/-- Fragments become what a step makes of each, and nothing else changes but uses. -/
structure Evolves (c c' : Circuit) (step : FragmentId → Fragment → Result Fragment) : Prop where
  some : ∀ j f, c.fragment? j = some f → ∃ g, c'.fragment? j = some g ∧ step j f = .ok g
  none : ∀ j, c.fragment? j = none → c'.fragment? j = none

theorem Evolves.nextFragment {step : FragmentId → Fragment → Result Fragment}
    (h : c.Evolves c' step) : c'.nextFragment = c.nextFragment := by
  have hout {d : Circuit} (k : Nat) : d.fragment? ⟨k⟩ = Option.none ↔ d.fragments.size ≤ k :=
    Array.getElem?_eq_none_iff
  refine congrArg FragmentId.mk (Nat.le_antisymm ((hout _).1 (h.none _ ((hout _).2 le_rfl))) ?_)
  by_contra hlt
  cases hf : c.fragment? ⟨c'.fragments.size⟩ with
  | none => exact hlt ((hout _).1 hf)
  | some f =>
    obtain ⟨g, hg, _⟩ := h.some _ f hf
    rw [(hout _).2 le_rfl] at hg
    cases hg

theorem evolves_repairs (hc : c.Base) {ids : List FragmentId} (hids : ids.Nodup)
    (hall : ∀ id ∈ ids, (c.fragment? id).isSome) (h : c.run (ids.forM repair) = (.ok ⟨⟩, c')) :
    c.SameTree c' ∧ c.Evolves c' fun j f => if j ∈ ids then f.mended c else return f := by
  induction ids generalizing c with
  | nil =>
    obtain rfl := eq_of_run_pure h
    exact ⟨.refl _, fun j f hf => ⟨f, hf, if_neg List.not_mem_nil⟩, fun _ hj => hj⟩
  | cons id ids ih =>
    obtain ⟨hid, hids⟩ := List.nodup_cons.1 hids
    obtain ⟨hsome, hrest⟩ := List.forall_mem_cons.1 hall
    obtain ⟨f, hf⟩ := Option.isSome_iff_exists.1 hsome
    obtain ⟨⟨⟩, c₁, hfirst, h⟩ := run_bind_eq_ok.1 h
    obtain ⟨g, hg, hrenews⟩ := renews_repair hc hf hfirst
    have hbase : c₁.Base := by
      have hedits := hc.edits (edits_repair id c hc)
      rwa [hfirst] at hedits
    have hmended (f : Fragment) : f.mended c₁ = f.mended c :=
      Fragment.mended_congr hrenews.tree.outline
    obtain ⟨htree, hevolves⟩ := ih hbase hids (fun j hj => by
      rw [hrenews.fragments]
      split
      · rfl
      · exact hrest j hj) h
    refine ⟨hrenews.tree.trans htree, fun j k hk => ?_, fun j hj => ?_⟩
    · by_cases hj : j = id
      · -- the first fragment is mended, and not looked at again
        subst hj
        obtain rfl := Option.some.inj (hf.symm.trans hk)
        have hkept : c₁.fragment? j = Option.some g := by rw [hrenews.fragments, if_pos rfl]
        obtain ⟨l, hl, hstep⟩ := hevolves.some j g hkept
        rw [if_neg hid] at hstep
        exact ⟨l, hl, by rw [if_pos List.mem_cons_self, hg, ← hstep]; rfl⟩
      · have hkept : c₁.fragment? j = Option.some k := by rw [hrenews.fragments, if_neg hj, hk]
        obtain ⟨l, hl, hstep⟩ := hevolves.some j k hkept
        refine ⟨l, hl, ?_⟩
        simpa only [List.mem_cons, hj, false_or, hmended] using hstep
    · have hne : j ≠ id := by
        rintro rfl
        rw [hf] at hj
        cases hj
      exact hevolves.none j (by rw [hrenews.fragments, if_neg hne, hj])

theorem mem_touching {F : NodeId} {id : FragmentId} : id ∈ c.touching F ↔
    ∃ f, c.fragment? id = some f ∧ (f.source.node = F ∨ f.target.node = F) := by
  obtain ⟨k⟩ := id
  simp only [touching, List.mem_filter, List.mem_map, List.mem_range, FragmentId.mk.injEq,
    exists_eq_right, Option.any_eq_true, decide_eq_true_eq, fragment?]
  refine and_iff_right_of_imp ?_
  rintro ⟨f, hf, _⟩
  exact (Array.getElem?_eq_some_iff.1 hf).1

theorem nodup_touching (F : NodeId) : (c.touching F).Nodup := by
  refine List.Nodup.filter _ ((List.nodup_map_iff_inj_on List.nodup_range).2 ?_)
  intro a _ b _ h
  exact congrArg FragmentId.index h

theorem retarget_of_away {F x : NodeId} {f : Fragment}
    (h : ¬(f.source.node = F ∨ f.target.node = F)) : retarget F x f = f := by
  rw [not_or] at h
  rw [retarget, replace, replace, if_neg h.1, if_neg h.2]

theorem catalog_resolved (F x : NodeId) (f : Filter) :
    (c.resolved F x f).catalog = c.catalog := by
  rw [resolved, inherited, catalog_editComponent]
  exact ((grows_swapped f.parent F x).trans (grows_relinkAll F x f.links)).catalog

theorem outline_resolved (F x : NodeId) (f : Filter) :
    (c.resolved F x f).outline = c.outline := by
  refine outline_eq_of_nodes (catalog_resolved F x f) fun y => ?_
  have hreplaced := view_replaced (c := c) (V := Option.map Node.outline) (fun _ _ => rfl)
    (fun _ _ => rfl) f.parent F x f.links y
  exact (view_editComponent (fun _ => by rfl) y).trans hreplaced

end Circuit

/-- A node after a filter has been resolved, by its place. -/
def Node.reseated (F x : NodeId) (f : Filter) (y : NodeId) : Node → Node
  | .component p => .component { p with
      parent := if y = x then f.parent else p.parent
      children := if f.parent = some y then p.children.map (Circuit.replace F x) else p.children
      requirements := if y = x then p.requirements ++ f.requirements else p.requirements }
  | .filter g => .filter g

def Node.onComponent (g : Component → Component) : Node → Node
  | .component p => .component (g p)
  | .filter f => .filter f

namespace Circuit

variable {c c' : Circuit}

theorem unused_editComponent {id : NodeId} {g : Component → Component}
    (hg : ∀ p : Component, (Node.component (g p)).unused = (Node.component p).unused.onComponent g)
    (y : NodeId) : (c.editComponent id g).unused y =
      if y = id then (c.unused y).map (Node.onComponent g) else c.unused y := by
  rw [unused, unused, editComponent]
  cases hid : c.component? id with
  | none =>
    rw [Option.elim_none]
    split
    · rename_i hy
      subst hy
      cases hn : c.node? y with
      | none => rfl
      | some n =>
        cases n with
        | filter f => rfl
        | component p =>
          rw [component?_eq_some.2 hn] at hid
          cases hid
    · rfl
  | some p =>
    rw [Option.elim_some, node?_setNode]
    split
    · rename_i hy
      rw [hy, component?_eq_some.1 hid]
      exact congrArg some (hg p)
    · rfl

theorem unused_swapped (parent : Option NodeId) (F x y : NodeId) :
    (c.swapped parent F x).unused y = if parent = some y then
      (c.unused y).map (Node.onComponent fun p =>
        { p with children := p.children.map (replace F x) })
      else c.unused y := by
  cases parent with
  | none => rfl
  | some parent =>
    rw [swapped, Option.elim_some, unused_editComponent fun _ => rfl]
    by_cases h : y = parent
    · rw [if_pos h, if_pos (congrArg some h.symm)]
    · rw [if_neg h, if_neg fun heq => h (Option.some.inj heq).symm]

theorem unused_resolved (F x : NodeId) (f : Filter) (y : NodeId) :
    (c.resolved F x f).unused y = (c.unused y).map (Node.reseated F x f y) := by
  have hswapped : ((f.links.foldl (relinked F x)
      (c.swapped f.parent F x)).retargeted F x).unused y = (c.swapped f.parent F x).unused y :=
    view_relinkAll (V := Option.map Node.unused) (fun _ _ => rfl) F x f.links y
  rw [resolved, inherited, unused_editComponent fun _ => rfl, hswapped, unused_swapped]
  cases c.unused y with
  | none => simp
  | some n =>
    cases n with
    | filter g => split <;> split <;> rfl
    | component p =>
      rw [Option.map_some, Option.map_some, Node.reseated]
      split_ifs <;> rfl

/-- A resolution that succeeds replaces the filter and mends the fragments that ended there. -/
structure Resolves (c c' : Circuit) (F x : NodeId) (f : Filter) : Prop where
  filter : c.node? F = some (.filter f)
  candidate : x ∈ f.feasible
  catalog : c'.catalog = c.catalog
  outline : c'.outline = c.outline
  nodes : ∀ y, c'.unused y = (c.unused y).map (Node.reseated F x f y)
  fragments : c.Evolves c' fun _ g => g.moved c F x

theorem resolves_of_run (hc : c.Base) {F x : NodeId}
    (h : c.run (resolveFilter F x) = (.ok ⟨⟩, c')) : ∃ f, c.Resolves c' F x f := by
  have hok := h
  rw [resolveFilter, run_ask_bind_eq_ok] at hok
  obtain ⟨f, hf, -⟩ := hok
  obtain ⟨hfilter, hx⟩ := filterOf_eq_ok.1 hf
  rw [run_resolveFilter hc hfilter hx] at h
  have hmoved (j : FragmentId) : (c.resolved F x f).fragment? j =
      (c.fragment? j).map (retarget F x) := fragment?_resolved
  obtain ⟨htree, hevolves⟩ := evolves_repairs (hc.edit (.resolve hfilter hx)) (nodup_touching F)
    (fun id hid => by
      obtain ⟨g, hg, _⟩ := mem_touching.1 hid
      rw [hmoved, hg, Option.map_some]
      rfl) h
  refine ⟨f, hfilter, hx, htree.catalog.trans (catalog_resolved F x f),
    htree.outline.trans (outline_resolved F x f), fun y => ?_, fun j g hg => ?_, fun j hj => ?_⟩
  · rw [htree.nodes, unused_resolved]
  · obtain ⟨k, hk, hstep⟩ := hevolves.some j (retarget F x g) (by rw [hmoved, hg, Option.map_some])
    refine ⟨k, hk, ?_⟩
    have htouching : j ∈ c.touching F ↔ g.source.node = F ∨ g.target.node = F := by
      rw [mem_touching, hg]
      simp
    rw [Fragment.moved]
    simp only [htouching] at hstep
    split at hstep
    · rename_i htouches
      rw [if_pos htouches, ← Fragment.mended_congr (outline_resolved F x f)]
      exact hstep
    · rename_i haway
      rw [retarget_of_away haway] at hstep
      rw [if_neg haway]
      exact hstep
  · exact hevolves.none j (by rw [hmoved, hj, Option.map_none])

/-- The circuit with a new fragment on the list of its source. -/
def recorded (c : Circuit) (f : Fragment) (owner : Node) : Circuit :=
  (c.pushFragment f).setNode f.source.node (owner.require c.nextFragment)

theorem outline_recorded {f : Fragment} {owner : Node} (h : c.node? f.source.node = some owner) :
    (c.recorded f owner).outline = c.outline :=
  outline_setNode (c := c.pushFragment f) h (by cases owner <;> rfl)

theorem fragment?_recorded {f : Fragment} {owner : Node} :
    (c.recorded f owner).fragment? c.nextFragment = some f := by
  change (c.pushFragment f).fragment? c.nextFragment = some f
  rw [fragment?_pushFragment, if_pos rfl]

/-- A fragment is put on the list of its source, and then there is an attempt to complete it. If
there is no source, the fragment stays all the same. -/
theorem run_record (f : Fragment) :
    (∃ e, c.node? f.source.node = none ∧ c.run (record f) = (.error e, c.pushFragment f)) ∨
    ∃ owner c', c.node? f.source.node = some owner ∧
      (c.recorded f owner).Renews c' c.nextFragment (f.attempted c) ∧
      c.run (record f) = ((f.completed c).map fun _ => c.nextFragment, c') := by
  rw [record, run_bind, run_get]
  dsimp only
  rw [run_bind, run_modify]
  change (∃ e, _ ∧ (c.pushFragment f).run (ask (·.node f.source.node) >>= _) = _) ∨
    ∃ owner c', _ ∧ _ ∧ (c.pushFragment f).run (ask (·.node f.source.node) >>= _) = _
  rw [run_ask_bind]
  have hnode : (c.pushFragment f).node f.source.node = c.node f.source.node := rfl
  rw [hnode]
  cases hn : c.node? f.source.node with
  | none =>
    refine .inl ⟨.unknownComponent ("#" ++ toString f.source.node.index), rfl, ?_⟩
    rw [node, hn]
    rfl
  | some owner =>
    rw [node_eq_ok.2 hn]
    have hrecorded : (c.recorded f owner).fragment? c.nextFragment = some f := fragment?_recorded
    obtain ⟨c', hrun, hrenews⟩ := run_tryDeduce hrecorded
    rw [Fragment.attempted_congr (outline_recorded hn)] at hrenews
    rw [Fragment.completed_congr (outline_recorded hn)] at hrun
    refine .inr ⟨owner, c', rfl, hrenews, ?_⟩
    change (c.recorded f owner).run (tryDeduce c.nextFragment >>=
      fun _ => Pure.pure c.nextFragment) = _
    rw [run_bind, hrun]
    cases f.completed c <;> rfl

/-- A new fragment goes on the list of its source and is completed at once. -/
theorem renews_record {f : Fragment} {id : FragmentId} (h : c.run (record f) = (.ok id, c')) :
    id = c.nextFragment ∧ ∃ owner g, c.node? f.source.node = some owner ∧ f.completed c = .ok g ∧
      (c.recorded f owner).Renews c' c.nextFragment g := by
  rcases run_record (c := c) f with ⟨e, _, hrun⟩ | ⟨owner, c₁, howner, hrenews, hrun⟩
  · rw [hrun] at h
    cases h
  · obtain ⟨rfl, g, hg, hrenews⟩ := Renews.of_run hrun hrenews h
    exact ⟨rfl, owner, g, howner, hg, hrenews⟩

theorem evolves_record {f : Fragment} {id : FragmentId} (h : c.run (record f) = (.ok id, c')) :
    id = c.nextFragment ∧ c'.outline = c.outline ∧ ∃ g, f.completed c = .ok g ∧
      ∀ j, c'.fragment? j = if j = c.nextFragment then some g else c.fragment? j := by
  obtain ⟨hid, owner, g, howner, hg, hrenews⟩ := renews_record h
  refine ⟨hid, hrenews.tree.outline.trans (outline_recorded howner), g, hg, fun j => ?_⟩
  rw [hrenews.fragments]
  split
  · rfl
  · rename_i hj
    change (c.pushFragment f).fragment? j = _
    rw [fragment?_pushFragment, if_neg hj]

theorem record_of_require {r : Requirement} (hr : r.adapter = none) {id : FragmentId}
    (h : c.run (Circuit.require r) = (.ok id, c')) :
    ∃ f, r.fragment = .ok f ∧ c.run (record f) = (.ok id, c') := by
  rw [Circuit.require] at h
  obtain ⟨f, hf, h⟩ := run_ask_bind_eq_ok.1 h
  obtain ⟨_, _, h⟩ := run_ask_bind_eq_ok.1 h
  refine ⟨f, hf, ?_⟩
  rw [Requirement.adapter_fragment hf hr] at h
  exact h

end Circuit
end BoardNets
