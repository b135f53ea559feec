import BoardNets.Proofs.Circuit.Instructions

/-! The books of a circuit. Fragments hold pin uses, and interfaces have them: every interface has
each use exactly as often as all fragments together hold it. Two fragments may hold the same use of
a shared interface, so it is counts that have to agree, not sets. -/
namespace BoardNets

/-- Changing one member of a list changes what is listed by that member's share. -/
theorem count_flatMap_modify {α β : Type} [BEq β] {l : List α} {k : Nat} {a : α} (g : α → α)
    (f : α → List β) (h : l[k]? = some a) (b : β) :
    ((l.modify k g).flatMap f).count b + (f a).count b =
      (l.flatMap f).count b + (f (g a)).count b := by
  induction l generalizing k with
  | nil => cases h
  | cons x l ih =>
    cases k with
    | zero =>
      obtain rfl := Option.some.inj h
      simp only [List.modify_zero_cons, List.flatMap_cons, List.count_append]
      omega
    | succ k =>
      have hl := ih h
      simp only [List.modify_succ_cons, List.flatMap_cons, List.count_append]
      omega

namespace Circuit

variable {c c' : Circuit}

/-- The uses of an interface; none where there is no interface. -/
def usesOf (c : Circuit) (i : InterfaceRef) : Connections :=
  (c.interface? i).elim ∅ ComponentInterface.uses

def usesAt (k : Nat) : Option Node → Connections
  | some (.component p) => (p.interfaces[k]?).elim ∅ ComponentInterface.uses
  | _ => ∅

theorem usesOf_eq (i : InterfaceRef) : c.usesOf i = usesAt i.index (c.node? i.component) := by
  rw [usesOf, interface?, component?]
  cases c.node? i.component with
  | none => rfl
  | some n => cases n <;> rfl

theorem usesOf_of_interface {i : InterfaceRef} {x : ComponentInterface}
    (h : c.interface i = .ok x) : c.usesOf i = x.uses := by
  rw [usesOf, interface_eq_ok.1 h]
  rfl

theorem usesAt_adapt {p : Component} {x : ComponentInterface} (hx : x.uses = ∅) (k : Nat) :
    usesAt k (some (.component { p with interfaces := p.interfaces ++ [x] })) =
      usesAt k (some (.component p)) := by
  simp only [usesAt, List.getElem?_append]
  split
  · rfl
  · rename_i hle
    rw [List.getElem?_eq_none (Nat.le_of_not_lt hle)]
    cases hk : [x][k - p.interfaces.length]? with
    | none => rfl
    | some y =>
      obtain rfl := List.mem_singleton.1 (List.mem_of_getElem? hk)
      exact hx

theorem usesAt_fresh {n : Node} (hn : n.Fresh) (k : Nat) : usesAt k (some n) = usesAt k none := by
  cases n with
  | filter f => rfl
  | component p =>
    obtain ⟨hidle, _⟩ := hn
    simp only [usesAt]
    cases hx : p.interfaces[k]? with
    | none => rfl
    | some x => exact (hidle x (List.mem_of_getElem? hx)).1

theorem usesOf_editInterface {i j : InterfaceRef} {g : ComponentInterface → ComponentInterface} :
    (c.editInterface i g).usesOf j =
      if j = i then (c.interface? j).elim ∅ fun x => (g x).uses else c.usesOf j := by
  rw [usesOf, interface?_editInterface]
  split
  · cases c.interface? j <;> rfl
  · rfl

theorem under_usesOf_activate {i j : InterfaceRef} {more : Connections} {key : InterfacePinId}
    (hi : (c.interface? i).isSome) :
    ((c.editInterface i (·.activate more)).usesOf j).under key =
      (c.usesOf j).under key ++ if j = i then more.under key else [] := by
  rw [usesOf_editInterface]
  by_cases h : j = i
  · obtain ⟨x, hx⟩ := Option.isSome_iff_exists.1 hi
    rw [if_pos h, if_pos h, usesOf, h, hx]
    exact x.under_activate more key
  · rw [if_neg h, if_neg h, List.append_nil]

theorem under_usesOf_release {e : InterfacePinId × PinUse} {j : InterfaceRef}
    {key : InterfacePinId} : ((c.release e).usesOf j).under key =
      if j = e.2.interface ∧ key = e.1 then ((c.usesOf j).under key).erase e.2
      else (c.usesOf j).under key := by
  rw [release, usesOf_editInterface]
  by_cases h : j = e.2.interface
  · rw [if_pos h, usesOf]
    cases c.interface? j with
    | none => simp
    | some x =>
      simp only [Option.elim_some, h, true_and]
      exact x.under_release e.1 key e.2
  · simp [h]

theorem usesAt_resolved (F x : NodeId) (f : Filter) (k : Nat) (y : NodeId) :
    usesAt k ((c.resolved F x f).node? y) = usesAt k (c.node? y) := by
  have hreplaced := view_replaced (c := c) (V := usesAt k) (fun _ _ => rfl) (fun _ _ => rfl)
    f.parent F x f.links y
  exact (view_editComponent (fun _ => by rfl) y).trans hreplaced

def tally (c : Circuit) (key : InterfacePinId) (u : PinUse) : Nat :=
  ((c.usesOf u.interface).under key).count u

def entries (c : Circuit) : List (InterfacePinId × PinUse) :=
  c.fragments.toList.flatMap Fragment.entries

/-- Interfaces have uses of their own pins, each as often as fragments hold it; and a fragment
holds uses under the same keys on both sides. -/
structure Balanced (c : Circuit) : Prop where
  on : ∀ i, (c.usesOf i).On i
  counts : ∀ key u, c.tally key u = c.entries.count (key, u)
  paired : ∀ id f, c.fragment? id = some f →
    f.source.connections.keys = f.target.connections.keys

theorem tally_release (e : InterfacePinId × PinUse) (key : InterfacePinId) (u : PinUse) :
    (c.release e).tally key u = c.tally key u - if e = (key, u) then 1 else 0 := by
  rw [tally, under_usesOf_release]
  by_cases h : e = (key, u)
  · subst h
    rw [if_pos ⟨rfl, rfl⟩, if_pos rfl, List.count_erase_self]
    rfl
  · rw [if_neg h, Nat.sub_zero]
    split
    · rename_i hsame
      have hne : e.2 ≠ u := fun hu => h (Prod.ext hsame.2.symm hu)
      exact List.count_erase_of_ne hne.symm
    · rfl

theorem tally_releaseAll (es : List (InterfacePinId × PinUse)) (key : InterfacePinId)
    (u : PinUse) : (es.foldl release c).tally key u = c.tally key u - es.count (key, u) := by
  induction es generalizing c with
  | nil => rfl
  | cons e es ih =>
    rw [List.foldl_cons, ih, tally_release, List.count_cons, Nat.sub_sub, Nat.add_comm]
    simp only [beq_iff_eq]

theorem mem_usesOf_releaseAll {es : List (InterfacePinId × PinUse)} {i : InterfaceRef} {u : PinUse}
    (hu : u ∈ ((es.foldl release c).usesOf i).uses) : u ∈ (c.usesOf i).uses := by
  induction es generalizing c with
  | nil => exact hu
  | cons e es ih =>
    obtain ⟨key, hkey⟩ := Connections.mem_uses.1 (ih hu)
    rw [under_usesOf_release] at hkey
    refine Connections.mem_uses.2 ⟨key, ?_⟩
    split at hkey
    · exact List.mem_of_mem_erase hkey
    · exact hkey

theorem entries_modify {id : FragmentId} {f : Fragment} (hf : c.fragment? id = some f)
    (g : Fragment → Fragment) (e : InterfacePinId × PinUse) :
    (c.editFragment id g).entries.count e + f.entries.count e =
      c.entries.count e + (g f).entries.count e := by
  have hl : c.fragments.toList[id.index]? = some f := by
    rw [Array.getElem?_toList]
    exact hf
  rw [entries, editFragment, Array.toList_modify]
  exact count_flatMap_modify g _ hl e

theorem entries_pushFragment {f : Fragment} (hsource : f.source.connections = ∅)
    (htarget : f.target.connections = ∅) : (c.pushFragment f).entries = c.entries := by
  rw [entries, pushFragment, Array.toList_push, List.flatMap_append, List.flatMap_singleton,
    entries_eq_nil hsource htarget, List.append_nil, entries]

theorem entries_resolved (F x : NodeId) (f : Filter) : (c.resolved F x f).entries = c.entries := by
  rw [entries, fragments_resolved, Array.toList_map, List.flatMap_map]
  rfl

theorem Balanced.congr (hc : c.Balanced)
    (hnodes : ∀ k x, usesAt k (c'.node? x) = usesAt k (c.node? x))
    (hentries : c'.entries = c.entries)
    (hpaired : ∀ id f, c'.fragment? id = some f →
      f.source.connections.keys = f.target.connections.keys) : c'.Balanced := by
  have huses (i : InterfaceRef) : c'.usesOf i = c.usesOf i := by
    rw [usesOf_eq, usesOf_eq, hnodes]
  refine ⟨fun i => huses i ▸ hc.on i, fun key u => ?_, hpaired⟩
  rw [tally, huses, hentries]
  exact hc.counts key u

theorem Balanced.target_eq_empty (hc : c.Balanced) {id : FragmentId} {f : Fragment}
    (hf : c.fragment? id = some f) (hsource : f.source.connections = ∅) :
    f.target.connections = ∅ := by
  have hkeys := hc.paired id f hf
  rw [hsource] at hkeys
  exact SortedMap.keys_eq_nil.1 hkeys.symm

theorem Balanced.paired_edit (hc : c.Balanced) (h : Edit c c') {id : FragmentId} {g : Fragment}
    (hg : c'.fragment? id = some g) :
    g.source.connections.keys = g.target.connections.keys := by
  rcases h.fragment hg with ⟨f, hf, hsource, htarget⟩ | ⟨hsource, htarget⟩ |
    ⟨f, w, hf, hsource, hdeduce, rfl⟩
  · rw [hsource, htarget]
    exact hc.paired id f hf
  · rw [hsource, htarget]
  · have htarget := hc.target_eq_empty hf hsource
    change (f.source.connections.insertAll _).keys = (f.target.connections.insertAll _).keys
    rw [hsource, htarget, SortedMap.empty_insertAll, SortedMap.empty_insertAll]
    exact (Fragment.sound_of_deduce hdeduce).keys

theorem count_under_on {m : Connections} {i : InterfaceRef} (hm : m.On i) (key : InterfacePinId)
    (u : PinUse) :
    (if u.interface = i then m.under key else []).count u = m.entries.count (key, u) := by
  split
  · exact (Connections.count_entries m key u).symm
  · rename_i hne
    rw [List.count_nil, eq_comm, List.count_eq_zero]
    exact fun hmem => hne (hm u (Connections.mem_uses_of_mem_entries hmem)).1

theorem under_usesOf_wired {id : FragmentId} {w : Wiring} {node : NodeId}
    (hw : Fragment.Sound c node w) (i : InterfaceRef) (key : InterfacePinId) :
    ((c.wired id w).usesOf i).under key = (c.usesOf i).under key ++
      (if i = w.sourceInterface then w.pairing.source.under key else []) ++
      (if i = w.targetInterface then w.pairing.target.under key else []) := by
  have htarget := (grows_activate w.sourceInterface w.pairing.source).interface_isSome hw.target
  exact (under_usesOf_activate htarget).trans (by rw [under_usesOf_activate hw.source])

theorem on_wired (hc : c.Balanced) {id : FragmentId} {w : Wiring} {node : NodeId}
    (hw : Fragment.Sound c node w) (i : InterfaceRef) : ((c.wired id w).usesOf i).On i := by
  intro u hu
  obtain ⟨key, hkey⟩ := Connections.mem_uses.1 hu
  rw [under_usesOf_wired hw, List.mem_append, List.mem_append] at hkey
  rcases hkey with (hold | hsource) | htarget
  · exact hc.on i u (Connections.mem_uses.2 ⟨key, hold⟩)
  · split at hsource
    · rename_i hi
      exact hi ▸ hw.on.source u (Connections.mem_uses.2 ⟨key, hsource⟩)
    · cases hsource
  · split at htarget
    · rename_i hi
      exact hi ▸ hw.on.target u (Connections.mem_uses.2 ⟨key, htarget⟩)
    · cases htarget

/-- Wiring adds to the books of the interfaces what it adds to those of the fragment. -/
theorem counts_wired (hc : c.Balanced) {id : FragmentId} {f : Fragment} {w : Wiring} {node : NodeId}
    (hf : c.fragment? id = some f) (hsource : f.source.connections = ∅)
    (hw : Fragment.Sound c node w) (key : InterfacePinId) (u : PinUse) :
    (c.wired id w).tally key u = (c.wired id w).entries.count (key, u) := by
  have htarget := hc.target_eq_empty hf hsource
  have hheld : (f.holding w.pairing).entries =
      w.pairing.source.entries ++ w.pairing.target.entries := by
    change Connections.entries (f.source.connections.insertAll _) ++
      Connections.entries (f.target.connections.insertAll _) = _
    rw [hsource, htarget, SortedMap.empty_insertAll, SortedMap.empty_insertAll]
  have hentries : (c.wired id w).entries = (c.editFragment id (·.holding w.pairing)).entries := by
    rw [entries, entries, fragments_wired, editFragment]
  have hmodify := entries_modify hf (·.holding w.pairing) (key, u)
  rw [entries_eq_nil hsource htarget, List.count_nil, hheld, List.count_append] at hmodify
  have hcounts := hc.counts key u
  rw [tally] at hcounts
  rw [tally, under_usesOf_wired hw, List.count_append, List.count_append,
    count_under_on hw.on.source, count_under_on hw.on.target, hentries]
  omega

/-- Unwiring takes from the books of the interfaces what it takes from those of the fragment. -/
theorem counts_unwired (hc : c.Balanced) {id : FragmentId} {f : Fragment}
    (hf : c.fragment? id = some f) (key : InterfacePinId) (u : PinUse) :
    (c.unwired id f).tally key u = (c.unwired id f).entries.count (key, u) := by
  have hentries : (c.unwired id f).entries = (c.editFragment id Fragment.bare).entries := by
    rw [entries, entries, fragments_unwired, editFragment]
  have hmodify := entries_modify hf Fragment.bare (key, u)
  have hbare : f.bare.entries = [] := entries_eq_nil rfl rfl
  rw [hbare, List.count_nil] at hmodify
  have htally : (c.editFragment id Fragment.bare).tally key u = c.tally key u := rfl
  rw [unwired, tally_releaseAll, htally, hc.counts, ← unwired, hentries]
  omega

theorem Balanced.edit (hc : c.Balanced) (h : Edit c c') : c'.Balanced := by
  have hpaired : ∀ id g, c'.fragment? id = some g →
      g.source.connections.keys = g.target.connections.keys := fun _ _ => hc.paired_edit h
  cases h with
  | child _ _ hfresh _ =>
    refine hc.congr (fun k x => ?_) ?_ hpaired
    · have hpush := view_pushNode (c := c) (usesAt_fresh hfresh k) x
      exact (view_editComponent (fun _ => by rfl) x).trans hpush
    · rw [entries, fragments_editComponent]
      rfl
  | candidate hF _ _ _ hfresh =>
    refine hc.congr (fun k x => ?_) rfl hpaired
    have hpush := view_pushNode (c := c) (usesAt_fresh hfresh k) x
    exact (view_setNode (node?_pushNode_of_some hF) (by rfl) x).trans hpush
  | link hF => exact hc.congr (fun _ => view_setNode hF (by rfl)) rfl hpaired
  | ancillary =>
    refine hc.congr (fun _ => view_editComponent fun _ => by rfl) ?_ hpaired
    rw [entries, fragments_editComponent]
    rfl
  | adapt huses _ =>
    refine hc.congr (fun k => view_editComponent fun _ => usesAt_adapt huses k) ?_ hpaired
    rw [entries, fragments_editComponent]
    rfl
  | @require f owner hsource htarget howner =>
    refine hc.congr (fun k => ?_) (entries_pushFragment hsource htarget) hpaired
    exact view_setNode (c := c.pushFragment f) howner (by cases owner <;> rfl)
  | stray hsource htarget _ =>
    exact hc.congr (fun _ _ => rfl) (entries_pushFragment hsource htarget) hpaired
  | wire hf hsource _ hdeduce =>
    have hsound := Fragment.sound_of_deduce hdeduce
    exact ⟨on_wired hc hsound, counts_wired hc hf hsource hsound, hpaired⟩
  | @unwire id f hf _ =>
    refine ⟨fun i u hu => ?_, counts_unwired hc hf, hpaired⟩
    rw [unwired] at hu
    have hbefore := mem_usesOf_releaseAll hu
    exact hc.on i u hbefore
  | @resolve F x f _ _ =>
    exact hc.congr (usesAt_resolved F x f) (entries_resolved F x f) hpaired

theorem usesOf_new (catalog : Catalog) (i : InterfaceRef) : (new catalog).usesOf i = ∅ := by
  obtain ⟨⟨k⟩, j⟩ := i
  cases k with
  | zero => rfl
  | succ k => rfl

theorem balanced_new (catalog : Catalog) : (new catalog).Balanced where
  on := by
    intro i
    rw [usesOf_new]
    exact Connections.on_empty i
  counts := by
    intro key u
    rw [tally, usesOf_new]
    rfl
  paired := by
    intro id f hf
    cases hf

theorem Reachable.balanced (hc : c.Reachable) : c.Balanced :=
  hc.induction balanced_new fun _ _ _ hbalanced hedit => hbalanced.edit hedit

theorem Balanced.component_of_activePins (hc : c.Balanced) {i : InterfaceRef}
    {x : ComponentInterface} (hx : c.interface i = .ok x) {slot : Option InterfacePinId}
    {assignment : Option PinAssignment} {p : ComponentPin}
    (hp : p ∈ x.activePins slot assignment) : p.component = i.component := by
  obtain ⟨u, hu, rfl⟩ := List.mem_map.1 (SortedSet.mem_ofList.1 hp)
  exact (hc.on i u (usesOf_of_interface hx ▸ (List.mem_filter.1 hu).1)).2

theorem Balanced.mem_usesOf (hc : c.Balanced) {id : FragmentId} {f : Fragment}
    (hf : c.fragment? id = some f) {key : InterfacePinId} {u : PinUse} (hu : (key, u) ∈ f.entries) :
    u ∈ (c.usesOf u.interface).uses := by
  have hmem : (key, u) ∈ c.entries :=
    List.mem_flatMap.2 ⟨f, Array.mem_toList_iff.2 (Array.mem_of_getElem? hf), hu⟩
  have hcount : 0 < c.tally key u := by
    rw [hc.counts]
    exact List.count_pos_iff.2 hmem
  exact Connections.mem_uses.2 ⟨key, List.count_pos_iff.1 hcount⟩

end Circuit
end BoardNets
