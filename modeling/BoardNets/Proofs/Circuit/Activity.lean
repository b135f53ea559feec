import BoardNets.Proofs.Circuit.Ledger
import BoardNets.Proofs.Netlist.Partition

/-! Activity of interfaces. Whether an interface is active is kept beside its uses, and both are
kept beside the connections of fragments. In reachable circuits all three say the same: an interface
is active exactly where it has uses, and it has just the uses that fragments hold on it. -/
namespace BoardNets
namespace Connections

theorem isSome_find?_add {c : Connections} {key k : InterfacePinId} {us : List PinUse} :
    ((c.add key us).find? k).isSome = true ↔ k = key ∨ (c.find? k).isSome = true := by
  rw [add, SortedMap.find?_update]
  by_cases h : k = key
  · simp [h]
  · simp [h]

theorem isSome_find?_addAll {c more : Connections} {k : InterfacePinId} :
    ((c.addAll more).find? k).isSome = true ↔
      (c.find? k).isSome = true ∨ ∃ e ∈ more.toList, k = e.1 :=
  foldl_gathers (M := fun c : Connections => (c.find? k).isSome = true)
    (C := fun e : InterfacePinId × List PinUse => k = e.1)
    (fun _ _ => isSome_find?_add.trans or_comm)

theorem addAll_ne_empty {c more : Connections} (h : more ≠ ∅) : c.addAll more ≠ ∅ := by
  have hkeys : more.toList ≠ [] := by
    intro hnil
    exact h (SortedMap.eq_empty_of_isEmpty (List.isEmpty_iff.2 hnil))
  obtain ⟨e, he⟩ := List.exists_mem_of_ne_nil _ hkeys
  have hfound : ((c.addAll more).find? e.1).isSome = true :=
    isSome_find?_addAll.2 (.inr ⟨e, he, rfl⟩)
  intro hempty
  rw [hempty] at hfound
  cases hfound

end Connections

namespace ComponentInterface

/-- The interface is active exactly where there are uses of it. -/
def Marked (x : ComponentInterface) : Prop := x.active = true ↔ x.uses ≠ ∅

theorem marked_idle {x : ComponentInterface} (huses : x.uses = ∅) (hactive : x.active = false) :
    x.Marked := by
  simp [Marked, huses, hactive]

theorem Marked.activate {more : Connections} (hmore : more ≠ ∅) (x : ComponentInterface) :
    (x.activate more).Marked := by
  have hne : x.uses.addAll more ≠ ∅ := Connections.addAll_ne_empty hmore
  simp [Marked, ComponentInterface.activate, hne]

theorem Marked.release {x : ComponentInterface} (hx : x.Marked) (key : InterfacePinId)
    (u : PinUse) : (x.release key u).Marked := by
  have hempty (m : Connections) : m.isEmpty = true ↔ m = ∅ := by
    constructor
    · exact SortedMap.eq_empty_of_isEmpty
    · rintro rfl
      rfl
  cases hactive : x.active with
  | false =>
    -- an idle interface has no use that could be taken from it
    have huses : x.uses = ∅ := by
      by_contra hne
      rw [hx.2 hne] at hactive
      cases hactive
    refine marked_idle ?_ ?_
    · simp only [ComponentInterface.release, huses]
      rfl
    · simp [ComponentInterface.release, hactive]
  | true =>
    simp only [Marked, ComponentInterface.release, hactive, Bool.true_and, Bool.not_eq_true', ne_eq]
    rw [← hempty, Bool.not_eq_true]

end ComponentInterface

namespace Circuit

variable {c c' : Circuit}

def markedAt : Option Node → Prop
  | some (.component p) => ∀ x ∈ p.interfaces, x.Marked
  | _ => True

def Marked (c : Circuit) : Prop := ∀ x, markedAt (c.node? x)

theorem Marked.interface (hc : c.Marked) {i : InterfaceRef} {x : ComponentInterface}
    (hx : c.interface? i = some x) : x.Marked := by
  obtain ⟨p, hp, hpx⟩ := Option.bind_eq_some_iff.1 hx
  have hmarked := hc i.component
  rw [component?_eq_some.1 hp] at hmarked
  exact hmarked x (List.mem_of_getElem? hpx)

theorem markedAt_fresh {n : Node} (hn : n.Fresh) : markedAt (some n) = markedAt none := by
  cases n with
  | filter f => rfl
  | component p =>
    have hidle : markedAt (some (.component p)) := fun x hx =>
      ComponentInterface.marked_idle (hn.1 x hx).1 (hn.1 x hx).2
    exact propext ⟨fun _ => trivial, fun _ => hidle⟩

theorem markedAt_adapt {x : ComponentInterface} (hx : x.Marked) (p : Component) :
    markedAt (some (.component { p with interfaces := p.interfaces ++ [x] })) =
      markedAt (some (.component p)) := by
  simp [markedAt, or_imp, forall_and, hx]

theorem markedAt_resolved (F x : NodeId) (f : Filter) (y : NodeId) :
    markedAt ((c.resolved F x f).node? y) = markedAt (c.node? y) := by
  have hreplaced := view_replaced (c := c) (V := markedAt) (fun _ _ => rfl) (fun _ _ => rfl)
    f.parent F x f.links y
  exact (view_editComponent (fun _ => by rfl) y).trans hreplaced

theorem Marked.editInterface (hc : c.Marked) (i : InterfaceRef)
    {g : ComponentInterface → ComponentInterface}
    (hg : ∀ x : ComponentInterface, x.Marked → (g x).Marked) : (c.editInterface i g).Marked := by
  intro y
  cases hn : (c.editInterface i g).node? y with
  | none => trivial
  | some n =>
    cases n with
    | filter f => trivial
    | component q =>
      intro x hx
      obtain ⟨k, hk⟩ := List.mem_iff_getElem?.1 hx
      have hq : (c.editInterface i g).interface? ⟨y, k⟩ = some x :=
        Option.bind_eq_some_iff.2 ⟨q, component?_eq_some.2 hn, hk⟩
      rw [interface?_editInterface] at hq
      split at hq
      · obtain ⟨z, hz, rfl⟩ := Option.map_eq_some_iff.1 hq
        exact hg z (hc.interface hz)
      · exact hc.interface hq

theorem Marked.wired (hc : c.Marked) {id : FragmentId} {w : Wiring}
    (hsource : w.pairing.source ≠ ∅) (htarget : w.pairing.target ≠ ∅) :
    (c.wired id w).Marked :=
  (hc.editInterface w.sourceInterface fun x _ => .activate hsource x).editInterface
    w.targetInterface fun x _ => .activate htarget x

theorem Marked.releaseAll (hc : c.Marked) (es : List (InterfacePinId × PinUse)) :
    (es.foldl release c).Marked := by
  induction es generalizing c with
  | nil => exact hc
  | cons e es ih => exact ih (hc.editInterface e.2.interface fun _ hx => hx.release e.1 e.2)

theorem Marked.edit (hc : c.Marked) (h : Edit c c') : c'.Marked := by
  have kept (hsame : ∀ y, markedAt (c'.node? y) = markedAt (c.node? y)) : c'.Marked := by
    intro y
    rw [hsame]
    exact hc y
  cases h with
  | child _ _ hfresh _ =>
    refine kept fun y => ?_
    have hpush := view_pushNode (c := c) (markedAt_fresh hfresh) y
    exact (view_editComponent (fun _ => by rfl) y).trans hpush
  | candidate hF _ _ _ hfresh =>
    refine kept fun y => ?_
    have hpush := view_pushNode (c := c) (markedAt_fresh hfresh) y
    exact (view_setNode (node?_pushNode_of_some hF) (by rfl) y).trans hpush
  | link hF => exact kept (view_setNode hF (by rfl))
  | ancillary => exact kept (view_editComponent fun _ => by rfl)
  | adapt huses hactive =>
    have hidle := ComponentInterface.marked_idle huses hactive
    exact kept (view_editComponent (markedAt_adapt hidle))
  | @require f owner _ _ howner =>
    exact kept (view_setNode (c := c.pushFragment f) howner (by cases owner <;> rfl))
  | stray _ _ _ => exact kept fun _ => rfl
  | wire _ _ _ hdeduce =>
    obtain ⟨hsource, htarget⟩ := Fragment.ne_empty_of_deduce hdeduce
    exact hc.wired hsource htarget
  | @unwire id f _ _ => exact Marked.releaseAll (c := c.editFragment id Fragment.bare) hc f.entries
  | @resolve F x f _ _ => exact kept (markedAt_resolved F x f)

theorem marked_new (catalog : Catalog) : (new catalog).Marked := by
  rintro ⟨k⟩
  cases k with
  | zero =>
    intro x hx
    cases hx
  | succ k => trivial

theorem Reachable.marked (hc : c.Reachable) : c.Marked :=
  hc.induction marked_new fun _ _ _ hmarked hedit => hmarked.edit hedit

/-- The uses of an interface that fragments hold under a key, on either side. -/
def heldOn (c : Circuit) (i : InterfaceRef) (key : InterfacePinId) : List PinUse :=
  (c.fragments.toList.flatMap fun f =>
    f.source.connections.under key ++ f.target.connections.under key).filter fun u =>
      u.interface = i

theorem count_entries (c : Circuit) (key : InterfacePinId) (u : PinUse) :
    c.entries.count (key, u) = (c.fragments.toList.flatMap fun f =>
      f.source.connections.under key ++ f.target.connections.under key).count u := by
  rw [entries, List.count_flatMap, List.count_flatMap]
  congr 1
  refine List.map_congr_left fun f _ => ?_
  simp only [Function.comp_apply, Fragment.entries, List.count_append, Connections.count_entries]

theorem Balanced.perm_heldOn (hc : c.Balanced) (i : InterfaceRef) (key : InterfacePinId) :
    ((c.usesOf i).under key).Perm (c.heldOn i key) := by
  rw [List.perm_iff_count]
  intro u
  by_cases hu : u.interface = i
  · have hcounts := hc.counts key u
    rw [tally, hu, count_entries] at hcounts
    rw [hcounts, heldOn, List.count_filter (by simpa using hu)]
  · have hleft : u ∉ (c.usesOf i).under key := fun hmem =>
      hu (hc.on i u (Connections.mem_uses.2 ⟨key, hmem⟩)).1
    have hright : u ∉ c.heldOn i key := fun hmem =>
      hu (by simpa using (List.mem_filter.1 hmem).2)
    rw [List.count_eq_zero.2 hleft, List.count_eq_zero.2 hright]

end Circuit

/-- In every reachable circuit fragments have the same keys on both sides; every interface has,
under every key, just the uses that all fragments hold on it under that key; and it is active
exactly where it has some. -/
theorem uses_mirror_fragments {c : Circuit} (hc : c.Reachable) :
    (∀ id f, c.fragment? id = some f → f.source.connections.keys = f.target.connections.keys) ∧
    ∀ i x, c.interface? i = some x →
      (∀ key, (x.uses.under key).Perm (c.heldOn i key)) ∧ (x.active = true ↔ x.uses ≠ ∅) := by
  refine ⟨hc.balanced.paired, fun i x hx => ⟨fun key => ?_, hc.marked.interface hx⟩⟩
  have huses : c.usesOf i = x.uses := by
    rw [Circuit.usesOf, hx]
    rfl
  exact huses ▸ hc.balanced.perm_heldOn i key

namespace Specimen

/-- The clock goes to a filter, which is resolved to another candidate than it was deduced with. -/
def rewiring : List Circuit.Instruction := [
  .part Circuit.root "U1" "oscillator" oscillator,
  .filter Circuit.root "U2" "pll" (some consumer),
  .candidate ⟨2⟩ consumer,
  .candidate ⟨2⟩ consumer,
  .require {
    origin := .persisted ⟨1⟩
    function := "clock"
    source := { node := ⟨1⟩, interface := some "CK" }
    target := { node := ⟨2⟩, interface := some "CK" } },
  .resolve ⟨2⟩ ⟨4⟩]

def rewired : Circuit := (Circuit.new catalog).after rewiring

end Specimen

/-- Both candidates of the specimen have had the use of the clock fragment, and one has it still. -/
theorem uses_mirror_fragments_specimen : ∃ x y,
    Specimen.rewired.interface? ⟨⟨3⟩, 0⟩ = some x ∧ Specimen.rewired.interface? ⟨⟨4⟩, 0⟩ = some y ∧
    x.active = false ∧ y.active = true ∧
    (y.uses.under Specimen.output).Perm (Specimen.rewired.heldOn ⟨⟨4⟩, 0⟩ Specimen.output) ∧
    Specimen.rewired.heldOn ⟨⟨4⟩, 0⟩ Specimen.output =
      [⟨⟨⟨4⟩, ⟨⟨8⟩⟩⟩, Specimen.input, ⟨⟨4⟩, 0⟩⟩] := by
  have hreachable : Specimen.rewired.Reachable := ⟨Specimen.catalog, Specimen.rewiring, rfl⟩
  have hall := (uses_mirror_fragments hreachable).2
  have hleft : (Specimen.rewired.interface? ⟨⟨3⟩, 0⟩).any (!·.active) = true := by decide +kernel
  have hright : (Specimen.rewired.interface? ⟨⟨4⟩, 0⟩).any (·.active) = true := by decide +kernel
  obtain ⟨x, hx, hidle⟩ := (Option.any_eq_true _ _).1 hleft
  obtain ⟨y, hy, hactive⟩ := (Option.any_eq_true _ _).1 hright
  exact ⟨x, y, hx, hy, by simpa using hidle, hactive, (hall _ y hy).1 Specimen.output,
    by decide +kernel⟩

end BoardNets
