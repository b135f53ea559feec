import BoardNets.Proofs.Bus.Extension
import BoardNets.Proofs.Circuit.Owners
import BoardNets.Proofs.Netlist.Partition

/-! Buses partition what is required. A bus is made of the fragments that touch one component of the
graph of their interfaces. No fragment leaves a component, as both of its ends are in the same one,
so a path of interfaces is a chain of fragments, and what is in different buses has nothing in
common. -/
namespace BoardNets

def joined (members : List BusMember) : Graph InterfaceRef :=
  members.foldl (fun g m => g.addEdge m.sourceInterface m.targetInterface) ∅

theorem wellFormed_joined (members : List BusMember) : (joined members).WellFormed := by
  have hfold {g : Graph InterfaceRef} (hg : g.WellFormed) : (members.foldl (fun g m =>
      g.addEdge m.sourceInterface m.targetInterface) g).WellFormed := by
    induction members generalizing g with
    | nil => exact hg
    | cons m members ih => exact ih (hg.addEdge _ _)
  exact hfold Graph.wellFormed_empty

theorem mem_edges_joined {members : List BusMember} {e : InterfaceRef × InterfaceRef} :
    e ∈ (joined members).edges ↔ ∃ m ∈ members, e = (m.sourceInterface, m.targetInterface) := by
  have hfold : e ∈ (joined members).edges ↔ e ∈ (∅ : Graph InterfaceRef).edges ∨
      ∃ m ∈ members, e = (m.sourceInterface, m.targetInterface) :=
    foldl_gathers (M := fun g => e ∈ Graph.edges g)
      (C := fun m : BusMember => e = (m.sourceInterface, m.targetInterface)) fun g m => by simp
  rw [hfold]
  simp [EmptyCollection.emptyCollection, Graph.empty]

namespace Circuit

variable {c : Circuit} {a : NodeId} {deep : Bool}

/-- The nodes whose requirements are asked for: the children of a node, or all below it. -/
def Considers (c : Circuit) (a : NodeId) (deep : Bool) (x : NodeId) : Prop :=
  if deep then ∃ y ∈ c.children a, c.InTree y x else x ∈ c.children a

def Requires (c : Circuit) (a : NodeId) (deep : Bool) (id : FragmentId) : Prop :=
  ∃ x, c.Considers a deep x ∧ id ∈ c.requirementsOf x

/-- The interface is what one end of the fragment has turned out to be. -/
def EndsAt (c : Circuit) (id : FragmentId) (i : InterfaceRef) : Prop :=
  ∃ f side, c.fragment? id = some f ∧ f.interface c side = .ok (some i)

def Adjoins (c : Circuit) (a : NodeId) (deep : Bool) (id id' : FragmentId) : Prop :=
  c.Requires a deep id ∧ c.Requires a deep id' ∧ ∃ i, c.EndsAt id i ∧ c.EndsAt id' i

theorem child_of_mem_walk {depth : Nat} {a p x : NodeId} (h : (p, x) ∈ c.walk depth a) :
    x ∈ c.children p := by
  induction depth generalizing a with
  | zero => cases h
  | succ depth ih =>
    obtain ⟨y, hy, h⟩ := List.mem_flatMap.1 h
    rcases List.mem_cons.1 h with h | h
    · obtain ⟨rfl, rfl⟩ := Prod.mk.inj h
      exact hy
    · exact ih h

theorem mem_descendants_iff {x : NodeId} :
    x ∈ c.descendants a deep ↔ c.Considers a deep x := by
  have hmem : x ∈ c.descendants a deep ↔ ∃ p, (p, x) ∈ c.below a ∧ (deep = true ∨ p = a) := by
    simp [descendants]
  rw [hmem, Considers]
  cases deep with
  | true =>
    simp only [true_or, and_true, if_true]
    rw [below, mem_walk_iff]
    constructor
    · rintro ⟨n, _, hpath⟩
      obtain ⟨y, hy, hyx⟩ := path_succ hpath
      exact ⟨y, hy, inTree_iff_path.2 ⟨n, hyx⟩⟩
    · rintro ⟨y, hy, hyx⟩
      obtain ⟨n, hn, hpath⟩ := exists_short_path hyx
      exact ⟨n, Nat.lt_succ_of_le hn, path_cons hy hpath⟩
  | false =>
    simp only [Bool.false_eq_true, false_or, if_false]
    constructor
    · rintro ⟨p, hp, rfl⟩
      exact child_of_mem_walk hp
    · intro hx
      exact ⟨a, List.mem_flatMap.2 ⟨x, hx, List.mem_cons_self⟩, rfl⟩

theorem fragment_of_busMember {id : FragmentId} {m : BusMember} (h : c.busMember id = .ok m) :
    m.fragment = id := by
  obtain ⟨_, _, _, _, _, _, rfl⟩ := busMember_eq_ok.1 h
  rfl

structure Gathers (c : Circuit) (a : NodeId) (deep : Bool) (members : List BusMember) : Prop where
  all : ∀ id, c.Requires a deep id → ∃ m ∈ members, m.fragment = id
  only : ∀ m ∈ members, c.Requires a deep m.fragment ∧ c.Knows m

theorem gathers_of_mapM {members : List (List BusMember)}
    (h : (c.descendants a deep).mapM (fun n => do
      (← c.component n).requirements.mapM c.busMember) = .ok members) :
    c.Gathers a deep members.flatten := by
  constructor
  case all =>
    rintro id ⟨x, hx, hid⟩
    obtain ⟨ms, hms⟩ := exists_mapM_iff.1 ⟨members, h⟩ x (mem_descendants_iff.2 hx)
    have hin := (mem_of_mapM h).2 ⟨x, mem_descendants_iff.2 hx, hms⟩
    obtain ⟨p, hp, hms⟩ := bind_eq_ok.1 hms
    rw [requirementsOf_eq (component?_eq_some.1 (component_eq_ok.1 hp))] at hid
    obtain ⟨m, hm⟩ := exists_mapM_iff.1 ⟨ms, hms⟩ id hid
    have hmem : m ∈ members.flatten :=
      List.mem_flatten.2 ⟨ms, hin, (mem_of_mapM hms).2 ⟨id, hid, hm⟩⟩
    exact ⟨m, hmem, fragment_of_busMember hm⟩
  case only =>
    intro m hm
    obtain ⟨ms, hms, hm⟩ := List.mem_flatten.1 hm
    obtain ⟨x, hx, hms⟩ := (mem_of_mapM h).1 hms
    obtain ⟨p, hp, hms⟩ := bind_eq_ok.1 hms
    obtain ⟨id, hid, hid'⟩ := (mem_of_mapM hms).1 hm
    refine ⟨⟨x, mem_descendants_iff.1 hx, ?_⟩, knows_of_busMember hid'⟩
    rw [requirementsOf_eq (component?_eq_some.1 (component_eq_ok.1 hp)),
      fragment_of_busMember hid']
    exact hid

theorem Knows.endsAt_iff {m : BusMember} (h : c.Knows m) {i : InterfaceRef} :
    c.EndsAt m.fragment i ↔ i = m.sourceInterface ∨ i = m.targetInterface := by
  obtain ⟨f, s, t, hf, hs, ht, hm⟩ := busMember_eq_ok.1 h
  have hsource : m.sourceInterface = s := congrArg BusMember.sourceInterface hm
  have htarget : m.targetInterface = t := congrArg BusMember.targetInterface hm
  rw [hsource, htarget]
  constructor
  · rintro ⟨g, side, hg, hi⟩
    obtain rfl := Option.some.inj (hf.symm.trans hg)
    cases side with
    | source => exact .inl (Option.some.inj (Except.ok.inj (hi.symm.trans hs)))
    | target => exact .inr (Option.some.inj (Except.ok.inj (hi.symm.trans ht)))
  · rintro (rfl | rfl)
    · exact ⟨f, .source, hf, hs⟩
    · exact ⟨f, .target, hf, ht⟩

theorem Knows.eq {m m' : BusMember} (h : c.Knows m) (h' : c.Knows m')
    (hfragment : m.fragment = m'.fragment) : m = m' := by
  rw [Knows, hfragment] at h
  exact Except.ok.inj (h.symm.trans h')

/-- Known members in their order are in the order of their fragments. -/
theorem Knows.index_lt {m m' : BusMember} (h : c.Knows m) (h' : c.Knows m')
    (hlt : compare m m' = .lt) : m.fragment.index < m'.fragment.index := by
  have hkey : compare m.key m'.key = .lt := hlt
  rcases Nat.lt_trichotomy m.fragment.index m'.fragment.index with hindex | hindex | hindex
  · exact hindex
  · rw [h.eq h' (FragmentId.ext hindex), Std.compare_self] at hlt
    cases hlt
  · have hgt : compare m.fragment.index m'.fragment.index = .gt := Nat.compare_eq_gt.2 hindex
    rw [BusMember.key, BusMember.key, List.compare_cons_cons, hgt] at hkey
    cases hkey

structure BusOf (members : List BusMember) (s : SortedSet InterfaceRef) (b : Bus) : Prop where
  component : s ∈ (joined members).components
  members : ∀ m, m ∈ b.members ↔ m ∈ members ∧ m.sourceInterface ∈ s

/-- A member that touches a component has both of its interfaces in it. -/
theorem target_mem_iff {members : List BusMember} {s : SortedSet InterfaceRef}
    (hs : s ∈ (joined members).components) {m : BusMember} (hm : m ∈ members) :
    m.sourceInterface ∈ s ↔ m.targetInterface ∈ s :=
  Graph.mem_component_iff_of_edge (wellFormed_joined members) hs
    (mem_edges_joined.2 ⟨m, hm, rfl⟩)

theorem busOf_ofMembers {members : List BusMember} {s : SortedSet InterfaceRef} {b : Bus}
    (hs : s ∈ (joined members).components) (h : Bus.ofMembers c (members.filter fun m =>
      m.sourceInterface ∈ s ∨ m.targetInterface ∈ s) = .ok b) : BusOf members s b := by
  refine ⟨hs, fun m => ?_⟩
  rw [members_ofMembers h, SortedSet.mem_ofList, List.mem_filter, decide_eq_true_eq]
  refine and_congr_right fun hm => ?_
  rw [← target_mem_iff hs hm, or_self]

namespace BusOf

variable {members : List BusMember} {s s' : SortedSet InterfaceRef} {b b' : Bus}
  {id id' : FragmentId}

theorem mem_fragments (hb : BusOf members s b) :
    id ∈ b.fragments ↔ ∃ m ∈ members, m.sourceInterface ∈ s ∧ m.fragment = id := by
  simp only [Bus.fragments, List.mem_map, ← SortedSet.mem_def, hb.members, and_assoc]

theorem mem_interfaces (hb : BusOf members s b) {i : InterfaceRef} (hi : i ∈ b.interfaces) :
    i ∈ s := by
  rw [Bus.interfaces, SortedSet.mem_ofList, List.mem_flatMap] at hi
  obtain ⟨m, hm, hi⟩ := hi
  obtain ⟨hm, hsource⟩ := (hb.members m).1 hm
  rw [List.mem_pair] at hi
  rcases hi with rfl | rfl
  · exact hsource
  · exact (target_mem_iff hb.component hm).1 hsource

theorem fragments_ne_nil (hb : BusOf members s b) : b.fragments ≠ [] := by
  obtain ⟨i, hi, hlinked⟩ := (Graph.mem_components_iff (wellFormed_joined members)).1 hb.component
  have his : i ∈ s := (hlinked i).2 (.refl hi)
  rcases mem_nodes_joined.1 hi with hi | ⟨m, hm, hend⟩
  · cases hi
  · have hsource : m.sourceInterface ∈ s := by
      rcases hend with rfl | rfl
      · exact his
      · exact (target_mem_iff hb.component hm).2 his
    exact List.ne_nil_of_mem (hb.mem_fragments.2 ⟨m, hm, hsource, rfl⟩)

variable (hmembers : c.Gathers a deep members)
include hmembers

theorem mem_fragments_of_requires (hb : BusOf members s b) (hid : c.Requires a deep id)
    {i : InterfaceRef} (hi : c.EndsAt id i) (his : i ∈ s) : id ∈ b.fragments := by
  obtain ⟨m, hm, rfl⟩ := hmembers.all id hid
  refine hb.mem_fragments.2 ⟨m, hm, ?_, rfl⟩
  rw [(hmembers.only m hm).2.endsAt_iff] at hi
  rcases hi with rfl | rfl
  · exact his
  · exact (target_mem_iff hb.component hm).2 his

theorem mem_of_endsAt (hb : BusOf members s b) (hid : id ∈ b.fragments) {i : InterfaceRef}
    (hi : c.EndsAt id i) : i ∈ s := by
  obtain ⟨m, hm, hsource, rfl⟩ := hb.mem_fragments.1 hid
  rcases ((hmembers.only m hm).2.endsAt_iff).1 hi with rfl | rfl
  · exact hsource
  · exact (target_mem_iff hb.component hm).1 hsource

theorem increasing (hb : BusOf members s b) :
    b.fragments.Pairwise fun id id' => id.index < id'.index := by
  rw [Bus.fragments, List.pairwise_map]
  refine b.members.increasing.imp_of_mem fun {m m'} hm hm' hlt => ?_
  have hknows := (hmembers.only m ((hb.members m).1 hm).1).2
  have hknows' := (hmembers.only m' ((hb.members m').1 hm').1).2
  exact hknows.index_lt hknows' hlt

theorem chain (hb : BusOf members s b) (hid : id ∈ b.fragments)
    (h : Relation.ReflTransGen (c.Adjoins a deep) id id') : id' ∈ b.fragments := by
  induction h with
  | refl => exact hid
  | tail _ hnext ih =>
    obtain ⟨_, hrequired, i, hi, hi'⟩ := hnext
    exact hb.mem_fragments_of_requires hmembers hrequired hi' (hb.mem_of_endsAt hmembers ih hi)

theorem interfaces_iff (hb : BusOf members s b) {i : InterfaceRef} :
    i ∈ b.interfaces ↔ ∃ id ∈ b.fragments, c.EndsAt id i := by
  rw [Bus.interfaces, SortedSet.mem_ofList, List.mem_flatMap]
  simp only [← SortedSet.mem_def, List.mem_pair]
  constructor
  · rintro ⟨m, hm, hi⟩
    obtain ⟨hm, hsource⟩ := (hb.members m).1 hm
    exact ⟨m.fragment, hb.mem_fragments.2 ⟨m, hm, hsource, rfl⟩,
      (hmembers.only m hm).2.endsAt_iff.2 hi⟩
  · rintro ⟨id, hid, hi⟩
    obtain ⟨m, hm, hsource, rfl⟩ := hb.mem_fragments.1 hid
    exact ⟨m, (hb.members m).2 ⟨hm, hsource⟩, (hmembers.only m hm).2.endsAt_iff.1 hi⟩

/-- Different components make buses without a common interface or fragment. -/
theorem apart (hb : BusOf members s b) (hb' : BusOf members s' b') (h : ∀ i ∈ s, i ∉ s') :
    (∀ i ∈ b.interfaces, i ∉ b'.interfaces) ∧ b.overlaps b' = false := by
  constructor
  · intro i hi hi'
    exact h i (hb.mem_interfaces hi) (hb'.mem_interfaces hi')
  · rw [Bus.overlaps, Bool.eq_false_iff, Ne, List.any_eq_true]
    rintro ⟨id, hid, hid'⟩
    obtain ⟨m, hm, hsource, rfl⟩ := hb.mem_fragments.1 hid
    have hend : c.EndsAt m.fragment m.sourceInterface :=
      (hmembers.only m hm).2.endsAt_iff.2 (.inl rfl)
    exact h _ hsource (hb'.mem_of_endsAt hmembers (of_decide_eq_true hid') hend)

end BusOf

section Paths

variable {members : List BusMember} (hmembers : c.Gathers a deep members)
include hmembers

theorem adjoins_of_endsAt {m m' : BusMember} (hm : m ∈ members) (hm' : m' ∈ members)
    {i : InterfaceRef} (hi : i = m.sourceInterface ∨ i = m.targetInterface)
    (hi' : i = m'.sourceInterface ∨ i = m'.targetInterface) :
    c.Adjoins a deep m.fragment m'.fragment := by
  obtain ⟨hrequired, hknows⟩ := hmembers.only m hm
  obtain ⟨hrequired', hknows'⟩ := hmembers.only m' hm'
  exact ⟨hrequired, hrequired', i, hknows.endsAt_iff.2 hi, hknows'.endsAt_iff.2 hi'⟩

/-- Each edge of a path is a fragment that shares an interface with the one before. -/
theorem chain_of_linked {i j : InterfaceRef} (h : (joined members).Linked i j) {m : BusMember}
    (hm : m ∈ members) (hi : i = m.sourceInterface ∨ i = m.targetInterface) {m' : BusMember}
    (hm' : m' ∈ members) (hj : j = m'.sourceInterface ∨ j = m'.targetInterface) :
    Relation.ReflTransGen (c.Adjoins a deep) m.fragment m'.fragment := by
  induction h generalizing m' with
  | refl _ => exact .single (adjoins_of_endsAt hmembers hm hm' hi hj)
  | @step j k _ hedge ih =>
    have hends : ∃ n ∈ members, (j = n.sourceInterface ∨ j = n.targetInterface) ∧
        (k = n.sourceInterface ∨ k = n.targetInterface) := by
      rcases hedge with hedge | hedge
      · obtain ⟨n, hn, hjk⟩ := mem_edges_joined.1 hedge
        obtain ⟨hj, hk⟩ := Prod.mk.inj hjk
        exact ⟨n, hn, .inl hj, .inr hk⟩
      · obtain ⟨n, hn, hkj⟩ := mem_edges_joined.1 hedge
        obtain ⟨hk, hj⟩ := Prod.mk.inj hkj
        exact ⟨n, hn, .inr hj, .inl hk⟩
    obtain ⟨n, hn, hjn, hkn⟩ := hends
    exact (ih hn hjn).tail (adjoins_of_endsAt hmembers hn hm' hkn hj)

theorem BusOf.chained {s : SortedSet InterfaceRef} {b : Bus} {id id' : FragmentId}
    (hb : BusOf members s b) (hid : id ∈ b.fragments) (hid' : id' ∈ b.fragments) :
    Relation.ReflTransGen (c.Adjoins a deep) id id' := by
  have hgraph := wellFormed_joined members
  obtain ⟨i, _, hlinked⟩ := (Graph.mem_components_iff hgraph).1 hb.component
  obtain ⟨m, hm, hsource, rfl⟩ := hb.mem_fragments.1 hid
  obtain ⟨m', hm', hsource', rfl⟩ := hb.mem_fragments.1 hid'
  have hpath : (joined members).Linked m.sourceInterface m'.sourceInterface :=
    Graph.linked_trans (Graph.linked_symm hgraph ((hlinked _).1 hsource)) ((hlinked _).1 hsource')
  exact chain_of_linked hmembers hpath hm (.inl rfl) hm' (.inl rfl)

end Paths

/-- What makes a list of buses the partition of the required fragments into chains. -/
structure Partitioned (c : Circuit) (a : NodeId) (deep : Bool) (buses : List Bus) : Prop where
  one : ∀ id, c.Requires a deep id → ∃! k : Nat, ∃ b : Bus, buses[k]? = some b ∧ id ∈ b.fragments
  only : ∀ b ∈ buses, ∀ id ∈ b.fragments, c.Requires a deep id
  nonempty : ∀ b ∈ buses, b.fragments ≠ []
  increasing : ∀ b ∈ buses, b.fragments.Pairwise fun id id' => id.index < id'.index
  chained : ∀ id id', c.Requires a deep id → c.Requires a deep id' →
    ((∃ b ∈ buses, id ∈ b.fragments ∧ id' ∈ b.fragments) ↔
      Relation.ReflTransGen (c.Adjoins a deep) id id')
  /-- The interfaces of a bus are those that its fragments end at, -/
  interfaces : ∀ b ∈ buses, ∀ i, i ∈ b.interfaces ↔ ∃ id ∈ b.fragments, c.EndsAt id i
  /-- and different buses share none of them. -/
  apart : buses.Pairwise fun b b' => (∀ i ∈ b.interfaces, i ∉ b'.interfaces) ∧
    b.overlaps b' = false

theorem exists_unique_index {buses : List Bus} (hpairwise : buses.Pairwise fun b b' =>
    b.overlaps b' = false) {id : FragmentId} (h : ∃ b ∈ buses, id ∈ b.fragments) :
    ∃! k : Nat, ∃ b : Bus, buses[k]? = some b ∧ id ∈ b.fragments := by
  obtain ⟨b, hb, hid⟩ := h
  obtain ⟨k, hk⟩ := List.mem_iff_getElem?.1 hb
  have hlt {j k : Nat} {b b' : Bus} (hj : buses[j]? = some b) (hk : buses[k]? = some b')
      (hid : id ∈ b.fragments) (hid' : id ∈ b'.fragments) : ¬j < k := by
    intro hjk
    obtain ⟨hjlt, rfl⟩ := List.getElem?_eq_some_iff.1 hj
    obtain ⟨hklt, rfl⟩ := List.getElem?_eq_some_iff.1 hk
    have hoverlap := List.pairwise_iff_getElem.1 hpairwise j k hjlt hklt hjk
    rw [Bus.overlaps, List.any_eq_false] at hoverlap
    exact hoverlap id hid (decide_eq_true hid')
  refine ⟨k, ⟨b, hk, hid⟩, fun j hj => ?_⟩
  obtain ⟨b', hj, hid'⟩ := hj
  exact Nat.le_antisymm (Nat.not_lt.1 (hlt hk hj hid hid')) (Nat.not_lt.1 (hlt hj hk hid' hid))

theorem mapM_of_buses {buses : List Bus} (h : c.buses a deep = .ok buses) :
    ∃ members, c.Gathers a deep members ∧ (joined members).components.mapM (fun s =>
      Bus.ofMembers c (members.filter fun m =>
        m.sourceInterface ∈ s ∨ m.targetInterface ∈ s)) = .ok buses := by
  obtain ⟨lists, hlists, h⟩ := bind_eq_ok.1 h
  exact ⟨lists.flatten, gathers_of_mapM hlists, h⟩

/-- Buses are made of the members of one graph, a bus for each of its components. -/
theorem exists_members {buses : List Bus} (h : c.buses a deep = .ok buses) :
    ∃ members, c.Gathers a deep members ∧ (∀ b ∈ buses, ∃ s, BusOf members s b) ∧
      (∀ m ∈ members, ∃ b ∈ buses, m ∈ b.members) ∧
      buses.Pairwise fun b b' => (∀ i ∈ b.interfaces, i ∉ b'.interfaces) ∧
        b.overlaps b' = false := by
  obtain ⟨members, hmembers, h⟩ := mapM_of_buses h
  refine ⟨members, hmembers, fun b hb => ?_, fun m hm => ?_, ?_⟩
  · obtain ⟨s, hs, hof⟩ := (mem_of_mapM h).1 hb
    exact ⟨s, busOf_ofMembers hs hof⟩
  · have hnode : m.sourceInterface ∈ (joined members).nodes :=
      mem_nodes_joined.2 (.inr ⟨m, hm, .inl rfl⟩)
    obtain ⟨s, hs, hsource⟩ := Graph.exists_component hnode
    obtain ⟨b, hof⟩ := exists_mapM_iff.1 ⟨buses, h⟩ s hs
    exact ⟨b, (mem_of_mapM h).2 ⟨s, hs, hof⟩, ((busOf_ofMembers hs hof).members m).2 ⟨hm, hsource⟩⟩
  · have hapart := Graph.pairwise_components (wellFormed_joined members)
    refine pairwise_of_mapM h (List.Pairwise.and_mem.1 hapart) ?_
    intro s b s' b' hof hof' hss
    exact (busOf_ofMembers hss.1 hof).apart hmembers (busOf_ofMembers hss.2.1 hof') hss.2.2

/-- The buses below a node are the chains of the fragments that are required there. -/
theorem buses_partition_requirements {buses : List Bus} (h : c.buses a deep = .ok buses) :
    c.Partitioned a deep buses := by
  obtain ⟨members, hmembers, hbus, hheld, hapart⟩ := exists_members h
  have hin {id : FragmentId} (hid : c.Requires a deep id) : ∃ b ∈ buses, id ∈ b.fragments := by
    obtain ⟨m, hm, rfl⟩ := hmembers.all id hid
    obtain ⟨b, hb, hmb⟩ := hheld m hm
    exact ⟨b, hb, List.mem_map_of_mem hmb⟩
  constructor
  case one => exact fun id hid => exists_unique_index (hapart.imp And.right) (hin hid)
  case only =>
    intro b hb id hid
    obtain ⟨s, hs⟩ := hbus b hb
    obtain ⟨m, hm, _, rfl⟩ := hs.mem_fragments.1 hid
    exact (hmembers.only m hm).1
  case nonempty =>
    intro b hb
    obtain ⟨s, hs⟩ := hbus b hb
    exact hs.fragments_ne_nil
  case increasing =>
    intro b hb
    obtain ⟨s, hs⟩ := hbus b hb
    exact hs.increasing hmembers
  case chained =>
    intro id id' hid hid'
    constructor
    · rintro ⟨b, hb, hmem, hmem'⟩
      obtain ⟨s, hs⟩ := hbus b hb
      exact hs.chained hmembers hmem hmem'
    · intro hchain
      obtain ⟨b, hb, hmem⟩ := hin hid
      obtain ⟨s, hs⟩ := hbus b hb
      exact ⟨b, hb, hmem, hs.chain hmembers hmem hchain⟩
  case interfaces =>
    intro b hb i
    obtain ⟨s, hs⟩ := hbus b hb
    exact hs.interfaces_iff hmembers
  case apart => exact hapart

end Circuit

namespace Specimen

def clockTo (source target : NodeId) : Circuit.Instruction :=
  .require {
    origin := .derived
    function := "clock"
    source := { node := source, interface := some "CK" }
    target := { node := target, interface := some "CK" } }

/-- One clock goes to two parts, and another one to a third part. -/
def clockTrees : Circuit := (Circuit.new catalog).after [
  .part Circuit.root "U1" "oscillator" oscillator,
  .part Circuit.root "U2" "oscillator" oscillator,
  .part Circuit.root "U3" "pll" consumer,
  .part Circuit.root "U4" "pll" consumer,
  .part Circuit.root "U5" "pll" consumer,
  clockTo ⟨1⟩ ⟨3⟩, clockTo ⟨2⟩ ⟨4⟩, clockTo ⟨1⟩ ⟨5⟩]

end Specimen

/-- The fragments of the two clocks are in a bus each. -/
theorem buses_partition_requirements_specimen : ∃ buses,
    Specimen.clockTrees.buses Circuit.root true = .ok buses ∧
    Specimen.clockTrees.Partitioned Circuit.root true buses ∧
    buses.map Bus.fragments = [[⟨0⟩, ⟨2⟩], [⟨1⟩]] := by
  have hfragments : (Specimen.clockTrees.buses Circuit.root true).toOption.map
      (·.map Bus.fragments) = some [[⟨0⟩, ⟨2⟩], [⟨1⟩]] := by decide +kernel
  cases h : Specimen.clockTrees.buses Circuit.root true with
  | error e =>
    rw [h] at hfragments
    cases hfragments
  | ok buses =>
    rw [h] at hfragments
    exact ⟨buses, rfl, Circuit.buses_partition_requirements h, Option.some.inj hfragments⟩

end BoardNets
