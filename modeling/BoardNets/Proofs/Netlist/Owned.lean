import BoardNets.Proofs.Bus.Partition
import BoardNets.Proofs.Circuit.Ledger
import BoardNets.Proofs.Net.Networks

/-! Which bus a net belongs to. The owners of pins are a map that is filled bus by bus, so a pin
that is active on several buses counts for the last of them, and the output of an ancillary counts
for the bus of the pin it stands in for. Connected pins that count for different buses are refused.
Pins that are active on two buses are not, where all of them count for the same one. -/
namespace BoardNets

structure LastAt {α : Type} (xs : List α) (P : α → Prop) (k : Nat) : Prop where
  holds : ∃ x, xs[k]? = some x ∧ P x
  last : ∀ j x, xs[j]? = some x → P x → j ≤ k

namespace LastAt

variable {α β : Type} {P : α → Prop} {xs : List α}

theorem unique {j k : Nat} (hj : LastAt xs P j) (hk : LastAt xs P k) : j = k := by
  obtain ⟨x, hx, hPx⟩ := hj.holds
  obtain ⟨y, hy, hPy⟩ := hk.holds
  exact Nat.le_antisymm (hk.last j x hx hPx) (hj.last k y hy hPy)

theorem snoc_iff {x : α} {k : Nat} :
    LastAt (xs ++ [x]) P k ↔ (P x ∧ k = xs.length) ∨ (¬P x ∧ LastAt xs P k) := by
  have hlast : (xs ++ [x])[xs.length]? = some x := by simp
  have hbefore {j : Nat} (hj : j < xs.length) : (xs ++ [x])[j]? = xs[j]? :=
    List.getElem?_append_left hj
  have hlt {j : Nat} {y : α} (h : xs[j]? = some y) : j < xs.length :=
    (List.getElem?_eq_some_iff.1 h).1
  have hle {j : Nat} {y : α} (h : (xs ++ [x])[j]? = some y) : j ≤ xs.length := by
    have hj := (List.getElem?_eq_some_iff.1 h).1
    rw [List.length_append, List.length_singleton] at hj
    omega
  constructor
  · intro h
    obtain ⟨y, hy, hPy⟩ := h.holds
    by_cases hx : P x
    · exact .inl ⟨hx, Nat.le_antisymm (hle hy) (h.last _ x hlast hx)⟩
    · have hk : k < xs.length := by
        refine Nat.lt_of_le_of_ne (hle hy) ?_
        rintro rfl
        rw [hlast] at hy
        exact hx (Option.some.inj hy ▸ hPy)
      refine .inr ⟨hx, ⟨y, hbefore hk ▸ hy, hPy⟩, fun j z hz hPz => ?_⟩
      exact h.last j z (by rw [hbefore (hlt hz), hz]) hPz
  · rintro (⟨hx, rfl⟩ | ⟨hx, h⟩)
    · exact ⟨⟨x, hlast, hx⟩, fun j y hy _ => hle hy⟩
    · obtain ⟨y, hy, hPy⟩ := h.holds
      refine ⟨⟨y, by rw [hbefore (hlt hy), hy], hPy⟩, fun j z hz hPz => ?_⟩
      by_cases hj : j < xs.length
      · exact h.last j z (hbefore hj ▸ hz) hPz
      · obtain rfl : j = xs.length := Nat.le_antisymm (hle hz) (Nat.not_lt.1 hj)
        rw [hlast] at hz
        exact absurd (Option.some.inj hz ▸ hPz) hx

theorem exists_of_mem (h : ∃ x ∈ xs, P x) : ∃ k, LastAt xs P k := by
  induction xs using List.reverseRecOn with
  | nil => simp at h
  | append_singleton xs x ih =>
    by_cases hx : P x
    · exact ⟨_, snoc_iff.2 (.inl ⟨hx, rfl⟩)⟩
    · obtain ⟨y, hy, hPy⟩ := h
      rw [List.mem_append, List.mem_singleton] at hy
      have hy' : y ∈ xs := hy.resolve_right fun e => hx (e ▸ hPy)
      obtain ⟨k, hk⟩ := ih ⟨y, hy', hPy⟩
      exact ⟨k, snoc_iff.2 (.inr ⟨hx, hk⟩)⟩

theorem of_forall₂ {Q : β → Prop} {ys : List β} {R : α → β → Prop} (h : List.Forall₂ R xs ys)
    (hPQ : ∀ x y, R x y → (P x ↔ Q y)) {k : Nat} : LastAt xs P k ↔ LastAt ys Q k := by
  have hat (j : Nat) : (∃ x, xs[j]? = some x ∧ P x) ↔ ∃ y, ys[j]? = some y ∧ Q y := by
    induction h generalizing j with
    | nil => simp
    | @cons x y _ _ hxy _ ih =>
      cases j with
      | zero => simp [hPQ x y hxy]
      | succ j => simpa using ih j
  constructor
  · intro hk
    refine ⟨(hat k).1 hk.holds, fun j y hy hQy => ?_⟩
    obtain ⟨x, hx, hPx⟩ := (hat j).2 ⟨y, hy, hQy⟩
    exact hk.last j x hx hPx
  · intro hk
    refine ⟨(hat k).2 hk.holds, fun j x hx hPx => ?_⟩
    obtain ⟨y, hy, hQy⟩ := (hat j).1 ⟨x, hx, hPx⟩
    exact hk.last j y hy hQy

end LastAt

namespace SortedSet

variable {α : Type} [Ord α] [Std.TransOrd α]

theorem one_lt_size_iff {s : SortedSet α} : 1 < s.size ↔ ∃ a ∈ s, ∃ b ∈ s, a ≠ b := by
  have hnodup := s.nodup
  simp only [size, mem_def]
  generalize s.toList = l at hnodup
  match l, hnodup with
  | [], _ => simp
  | [a], _ => simp
  | a :: b :: rest, hnodup =>
    have hne : a ≠ b := (List.pairwise_cons.1 hnodup).1 b List.mem_cons_self
    refine iff_of_true (by simp) ⟨a, List.mem_cons_self, b, ?_, hne⟩
    exact List.mem_cons_of_mem _ List.mem_cons_self

end SortedSet

namespace Circuit

variable {c : Circuit} {buses : List Bus}

/-- A pin is in use on a physical interface of a bus. -/
def ActiveOn (c : Circuit) (bus : Bus) (p : ComponentPin) : Prop :=
  ∃ i ∈ bus.physicalInterfaces c, ∃ u ∈ (c.usesOf i).uses, u.pin = p

theorem mem_physicalPins {bus : Bus} {pins : SortedSet ComponentPin}
    (h : bus.physicalPins c = .ok pins) {p : ComponentPin} : p ∈ pins ↔ c.ActiveOn bus p := by
  obtain ⟨interfaces, hinterfaces, h⟩ := bind_eq_ok.1 h
  obtain rfl := pure_eq_ok.1 h
  have hpins (x : ComponentInterface) :
      p ∈ x.activePins none none ↔ ∃ u ∈ x.uses.uses, u.pin = p := by
    rw [ComponentInterface.activePins, SortedSet.mem_ofList]
    simp
  simp only [SortedSet.mem_ofList, List.mem_flatMap, mem_of_mapM hinterfaces, interface_eq_ok]
  constructor
  · rintro ⟨x, ⟨i, hi, hx⟩, hp⟩
    refine ⟨i, hi, ?_⟩
    rw [usesOf, hx]
    exact (hpins x).1 hp
  · rintro ⟨i, hi, hp⟩
    obtain ⟨x, hx⟩ := exists_mapM_iff.1 ⟨interfaces, hinterfaces⟩ i hi
    rw [interface_eq_ok] at hx
    rw [usesOf, hx] at hp
    exact ⟨x, ⟨i, hi, hx⟩, (hpins x).2 hp⟩

/-- Sets put into a map one after the other: the last one with a pin is found. -/
theorem find?_insertedSets {sets : List (SortedSet ComponentPin)} {p : ComponentPin} {k : Nat} :
    (sets.zipIdx.foldl (fun owners (pins, index) =>
      owners.insertAll (pins.toList.map (·, index))) (∅ : BusOwners)).find? p = some k ↔
      LastAt sets (p ∈ ·) k := by
  induction sets using List.reverseRecOn with
  | nil =>
    refine iff_of_false (fun h => by cases h) fun h => ?_
    obtain ⟨_, hx, _⟩ := h.holds
    cases hx
  | append_singleton sets pins ih =>
    rw [List.zipIdx_append, List.foldl_append, LastAt.snoc_iff, ← ih]
    simp only [List.zipIdx_singleton, List.foldl_cons, List.foldl_nil]
    rw [SortedMap.find?_insertAll_const]
    by_cases hp : p ∈ pins
    · rw [if_pos (SortedSet.mem_def.1 hp), Option.some.injEq, Nat.zero_add]
      simp [hp, eq_comm]
    · rw [if_neg fun h => hp (SortedSet.mem_def.2 h)]
      simp [hp]

theorem find?_busOwners {owners : BusOwners} (h : c.busOwners buses = .ok owners)
    {p : ComponentPin} {k : Nat} : owners.find? p = some k ↔ LastAt buses (c.ActiveOn · p) k := by
  obtain ⟨sets, hsets, h⟩ := bind_eq_ok.1 h
  obtain rfl := pure_eq_ok.1 h
  rw [find?_insertedSets]
  refine (LastAt.of_forall₂ (mapM_eq_ok_iff.1 hsets) fun bus pins hpins => ?_).symm
  exact (mem_physicalPins hpins).symm

theorem exists_busOwners (h : ∀ bus ∈ buses, ∃ networks, c.busNetworks bus = .ok networks) :
    ∃ owners, c.busOwners buses = .ok owners := by
  have hpins : ∀ bus ∈ buses, ∃ pins, bus.physicalPins c = .ok pins := by
    intro bus hbus
    obtain ⟨networks, hnetworks⟩ := h bus hbus
    obtain ⟨family, _, hnetworks⟩ := bind_eq_ok.1 hnetworks
    have hinterfaces : ∀ i ∈ (bus.physicalInterfaces c).toList, ∃ x, c.interface i = .ok x := by
      intro i hi
      obtain ⟨_, _, hadd⟩ := foldlM_each hnetworks i hi
      obtain ⟨x, hx, _⟩ := bind_eq_ok.1 hadd
      exact ⟨x, hx⟩
    obtain ⟨interfaces, hmapM⟩ := exists_mapM_iff.2 hinterfaces
    exact ⟨_, bind_eq_ok.2 ⟨interfaces, hmapM, rfl⟩⟩
  obtain ⟨sets, hsets⟩ := exists_mapM_iff.2 hpins
  exact ⟨_, bind_eq_ok.2 ⟨sets, hsets, rfl⟩⟩

theorem nodup_buses {a : NodeId} {deep : Bool} (h : c.buses a deep = .ok buses) : buses.Nodup := by
  obtain ⟨members, _, hof, _, hapart⟩ := exists_members h
  have hoverlap (b : Bus) (hb : b ∈ buses) : b.overlaps b = true := by
    obtain ⟨s, hs⟩ := hof b hb
    obtain ⟨id, hid⟩ := List.exists_mem_of_ne_nil _ hs.fragments_ne_nil
    rw [Bus.overlaps, List.any_eq_true]
    exact ⟨id, hid, decide_eq_true hid⟩
  refine (List.Pairwise.and_mem.1 hapart).imp fun {b b'} hbb => ?_
  rintro rfl
  rw [hoverlap b hbb.1] at hbb
  cases hbb.2.2.2

end Circuit

namespace Wires

variable {w : Wires} {d : Design} {buses : List Bus} {owners : BusOwners}
  {pins : SortedSet ComponentPin}

/-- The bus that a pin counts for, by its place: the last one on which the pin it stands in for is
active, or else the last one on which it is active itself. -/
def CountsFor (w : Wires) (c : Circuit) (buses : List Bus) (p : ComponentPin) (k : Nat) : Prop :=
  LastAt buses (c.ActiveOn · (w.chainStart p)) k ∨
    (∀ bus ∈ buses, ¬c.ActiveOn bus (w.chainStart p)) ∧ LastAt buses (c.ActiveOn · p) k

theorem CountsFor.exists_bus {c : Circuit} {p : ComponentPin} {k : Nat}
    (h : w.CountsFor c buses p k) : ∃ bus, buses[k]? = some bus := by
  rcases h with h | ⟨_, h⟩
  · obtain ⟨bus, hbus, _⟩ := h.holds
    exact ⟨bus, hbus⟩
  · obtain ⟨bus, hbus, _⟩ := h.holds
    exact ⟨bus, hbus⟩

theorem CountsFor.unique {c : Circuit} {p : ComponentPin} {j k : Nat}
    (hj : w.CountsFor c buses p j) (hk : w.CountsFor c buses p k) : j = k := by
  have hclash {i : Nat} (hi : LastAt buses (c.ActiveOn · (w.chainStart p)) i)
      (hnone : ∀ bus ∈ buses, ¬c.ActiveOn bus (w.chainStart p)) : False := by
    obtain ⟨bus, hbus, hactive⟩ := hi.holds
    exact hnone bus (List.mem_of_getElem? hbus) hactive
  rcases hj with hj | ⟨hnone, hj⟩
  · rcases hk with hk | ⟨hnone, _⟩
    · exact hj.unique hk
    · exact (hclash hj hnone).elim
  · rcases hk with hk | ⟨_, hk⟩
    · exact (hclash hk hnone).elim
    · exact hj.unique hk

theorem exists_countsFor {c : Circuit} {p : ComponentPin} (h : ∃ bus ∈ buses, c.ActiveOn bus p) :
    ∃ k, w.CountsFor c buses p k := by
  by_cases hstart : ∃ bus ∈ buses, c.ActiveOn bus (w.chainStart p)
  · obtain ⟨k, hk⟩ := LastAt.exists_of_mem hstart
    exact ⟨k, .inl hk⟩
  · obtain ⟨k, hk⟩ := LastAt.exists_of_mem h
    exact ⟨k, .inr ⟨fun bus hbus hactive => hstart ⟨bus, hbus, hactive⟩, hk⟩⟩

theorem owner_eq_some_iff (howners : d.circuit.busOwners buses = .ok owners) {p : ComponentPin}
    {k : Nat} : w.owner owners p = some k ↔ w.CountsFor d.circuit buses p k := by
  have hfind := @Circuit.find?_busOwners _ _ _ howners
  have hnone : owners.find? (w.chainStart p) = none ↔
      ∀ bus ∈ buses, ¬d.circuit.ActiveOn bus (w.chainStart p) := by
    rw [Option.eq_none_iff_forall_ne_some]
    constructor
    · intro h bus hbus hactive
      obtain ⟨j, hj⟩ := LastAt.exists_of_mem
        (P := (d.circuit.ActiveOn · (w.chainStart p))) ⟨bus, hbus, hactive⟩
      exact h j (hfind.2 hj)
    · intro h j hj
      obtain ⟨bus, hbus, hactive⟩ := (hfind.1 hj).holds
      exact h bus (List.mem_of_getElem? hbus) hactive
  rw [owner, Option.or_eq_some_iff, CountsFor, hfind, hfind, hnone]

theorem mem_owners (howners : d.circuit.busOwners buses = .ok owners) {k : Nat} :
    k ∈ w.owners owners pins ↔ ∃ p ∈ pins, w.CountsFor d.circuit buses p k := by
  rw [Wires.owners, SortedSet.mem_ofList, List.mem_filterMap]
  simp only [owner_eq_some_iff howners]
  rfl

/-- What connected pins need in order to make a group. -/
structure Admits (w : Wires) (d : Design) (buses : List Bus) (pins : SortedSet ComponentPin) :
    Prop where
  parts : ∀ p ∈ pins, d.circuit.isPart p.component = true
  one : ∀ p ∈ pins, ∀ q ∈ pins, ∀ j k, w.CountsFor d.circuit buses p j →
    w.CountsFor d.circuit buses q k → j = k
  bussed : d.options.strict = true → 1 < pins.size →
    ∃ p ∈ pins, ∃ k, w.CountsFor d.circuit buses p k

/-- The bus of several connected pins on parts is looked for among those that they count for. -/
theorem group_eq (hparts : ∀ p ∈ pins, d.circuit.isPart p.component = true)
    (hsize : 1 < pins.size) :
    w.group d buses owners pins = match (w.owners owners pins).toList with
      | [] => if d.options.strict then throw (unbussed d.circuit pins) else return { pins }
      | [k] => return { pins, bus := buses.getD k {} }
      | _ => throw (.multipleBuses (d.circuit.describePins pins)) := by
  have hnone : pins.toList.find? (fun p => !d.circuit.isPart p.component) = none :=
    List.find?_eq_none.2 fun p hp => by simp [hparts p hp]
  rw [group, hnone]
  exact if_neg (Nat.not_le.2 hsize)

theorem group_eq_error (howners : d.circuit.busOwners buses = .ok owners)
    (hparts : ∀ p ∈ pins, d.circuit.isPart p.component = true) (hsize : 1 < pins.size)
    {p q : ComponentPin} {j k : Nat} (hp : p ∈ pins) (hq : q ∈ pins)
    (hpj : w.CountsFor d.circuit buses p j) (hqk : w.CountsFor d.circuit buses q k)
    (hne : j ≠ k) :
    w.group d buses owners pins = .error (.multipleBuses (d.circuit.describePins pins)) := by
  have hj := (mem_owners howners).2 ⟨p, hp, hpj⟩
  have hk := (mem_owners howners).2 ⟨q, hq, hqk⟩
  have hseveral : 1 < (w.owners owners pins).size := SortedSet.one_lt_size_iff.2 ⟨j, hj, k, hk, hne⟩
  rw [group_eq hparts hsize]
  rw [SortedSet.size] at hseveral
  split
  · rename_i h
    simp [h] at hseveral
  · rename_i h
    simp [h] at hseveral
  · rfl

theorem exists_group (howners : d.circuit.busOwners buses = .ok owners)
    (h : w.Admits d buses pins) : ∃ g, w.group d buses owners pins = .ok g := by
  by_cases hsize : 1 < pins.size
  · rw [group_eq h.parts hsize]
    split
    · rename_i hnil
      have hloose : ¬d.options.strict = true := by
        intro hstrict
        obtain ⟨p, hp, k, hk⟩ := h.bussed hstrict hsize
        have hmem := (mem_owners howners).2 ⟨p, hp, hk⟩
        rw [SortedSet.mem_def, hnil] at hmem
        cases hmem
      exact ⟨_, if_neg hloose⟩
    · exact ⟨_, rfl⟩
    · rename_i hnil hone
      exfalso
      have hseveral : 1 < (w.owners owners pins).size := by
        match hlist : (w.owners owners pins).toList with
        | [] => exact absurd hlist hnil
        | [k] => exact absurd hlist (hone k)
        | _ :: _ :: _ => simp [SortedSet.size, hlist]
      obtain ⟨j, hj, k, hk, hne⟩ := SortedSet.one_lt_size_iff.1 hseveral
      obtain ⟨p, hp, hpj⟩ := (mem_owners howners).1 hj
      obtain ⟨q, hq, hqk⟩ := (mem_owners howners).1 hk
      exact hne (h.one p hp q hq j k hpj hqk)
  · have hnone : pins.toList.find? (fun p => !d.circuit.isPart p.component) = none :=
      List.find?_eq_none.2 fun p hp => by simp [h.parts p hp]
    simp only [group, hnone, if_pos (Nat.not_lt.1 hsize)]
    exact ⟨_, rfl⟩

theorem isPart_of_group {g : PinGroup} (h : w.group d buses owners pins = .ok g) :
    ∀ p ∈ pins, d.circuit.isPart p.component = true := by
  intro p hp
  by_contra hpart
  cases hfind : pins.toList.find? fun p => !d.circuit.isPart p.component with
  | none => exact hpart (by simpa using List.find?_eq_none.1 hfind p hp)
  | some q =>
    rw [group, hfind] at h
    exact throw_ne_ok h

/-- The bus of a group is the one that its pins count for, if there is one. -/
theorem bus_of_group (howners : d.circuit.busOwners buses = .ok owners) {g : PinGroup}
    (h : w.group d buses owners pins = .ok g) (hsize : 1 < pins.size) :
    (g.bus = {} ∧ ∀ p ∈ pins, ∀ j, ¬w.CountsFor d.circuit buses p j) ∨
      ∃ k, buses[k]? = some g.bus ∧ (∃ p ∈ pins, w.CountsFor d.circuit buses p k) ∧
        ∀ p ∈ pins, ∀ j, w.CountsFor d.circuit buses p j → j = k := by
  rw [group_eq (isPart_of_group h) hsize] at h
  have hmem (j : Nat) :
      j ∈ w.owners owners pins ↔ ∃ p ∈ pins, w.CountsFor d.circuit buses p j := mem_owners howners
  simp only [SortedSet.mem_def] at hmem
  split at h
  · rename_i hnil
    refine .inl ⟨?_, fun p hp j hj => ?_⟩
    · split at h
      · exact absurd h throw_ne_ok
      · exact (congrArg PinGroup.bus (pure_eq_ok.1 h)).symm
    · have hj := (hmem j).2 ⟨p, hp, hj⟩
      rw [hnil] at hj
      cases hj
  · rename_i k hone
    have hbus : g.bus = buses.getD k {} := (congrArg PinGroup.bus (pure_eq_ok.1 h)).symm
    obtain ⟨p, hp, hk⟩ := (hmem k).1 (hone ▸ List.mem_singleton_self k)
    obtain ⟨bus, hget⟩ := hk.exists_bus
    refine .inr ⟨k, ?_, ⟨p, hp, hk⟩, fun p hp j hj => ?_⟩
    · rw [hbus, List.getD_eq_getElem?_getD, hget, Option.getD_some]
    · exact List.mem_singleton.1 (hone ▸ (hmem j).2 ⟨p, hp, hj⟩)
  · exact absurd h throw_ne_ok

end Wires

theorem Net.bus_of_ofPins {c : Circuit} {pins : SortedSet ComponentPin} {bus : Bus}
    {board : Option NodeId} {shape : NetShape} {net : Net}
    (h : Net.ofPins c pins bus board shape = .ok net) : net.bus = bus := by
  obtain ⟨_, _, h⟩ := bind_eq_ok.1 h
  exact (congrArg Net.bus (pure_eq_ok.1 h)).symm

theorem PinGroup.bus_of_nets {g : PinGroup} {d : Design} {nets : List Net}
    (h : g.nets d = .ok nets) {net : Net} (hnet : net ∈ nets) : net.bus = g.bus := by
  obtain ⟨shape, _, h⟩ := bind_eq_ok.1 h
  split at h
  · obtain ⟨board, _, hof⟩ := (mem_of_mapM h).1 hnet
    exact Net.bus_of_ofPins hof
  · obtain ⟨net', hof, h⟩ := bind_eq_ok.1 h
    obtain rfl := pure_eq_ok.1 h
    obtain rfl := List.mem_singleton.1 hnet
    exact Net.bus_of_ofPins hof

theorem Design.mem_of_mem_cuts {d : Design} {pins : SortedSet ComponentPin}
    {cut : Option NodeId × SortedSet ComponentPin} (h : cut ∈ d.cuts pins) {p : ComponentPin}
    (hp : p ∈ cut.2) : p ∈ pins := by
  by_cases hsplit : d.options.splitByBoard = true
  · rw [cuts_split hsplit, List.mem_map] at h
    obtain ⟨board, _, rfl⟩ := h
    exact (mem_onBoard.1 hp).1
  · rw [cuts_whole (by simpa using hsplit), List.mem_singleton] at h
    rwa [h] at hp

namespace Stages

variable {d : Design} {n : Netlist}

theorem exists_group (s : Stages d n) {net : Net} (h : net ∈ n.nets) :
    ∃ g ∈ s.groups, net.bus = g.bus ∧ ∀ p ∈ net.pins, p ∈ g.pins := by
  have hnamed : (net.bus, net.pins) ∈ n.nets.map fun net => (net.bus, net.pins) :=
    List.mem_map_of_mem h
  rw [s.named, Net.map_assignNames fun _ _ => rfl, List.mem_map] at hnamed
  obtain ⟨net', hnet', heq⟩ := hnamed
  obtain ⟨hbus, hpins⟩ := Prod.mk.inj heq
  rw [(Net.sort_perm _).mem_iff, List.mem_flatten] at hnet'
  obtain ⟨nets, hnets, hnet'⟩ := hnet'
  obtain ⟨g, hg, hcut⟩ := (mem_of_mapM s.cut).1 hnets
  have hplace : net'.place ∈ d.cuts g.pins := by
    rw [← (PinGroup.nets_eq_ok hcut).1]
    exact List.mem_map_of_mem hnet'
  refine ⟨g, hg, ?_, fun p hp => ?_⟩
  · rw [← hbus, PinGroup.bus_of_nets hcut hnet']
  · rw [← hpins] at hp
    exact Design.mem_of_mem_cuts hplace hp

end Stages

namespace Wires

variable {w : Wires} {d : Design} {buses : List Bus}

theorem bus_of_net {d' : Design} {n : Netlist}
    (hbuses : d.circuit.flattenedBuses Circuit.root = .ok buses)
    (hw : ofDesign d buses = .ok w) (h : d.synthesize = .ok (d', n)) {net : Net}
    (hnet : net ∈ n.nets) (hsize : 1 < net.pins.size) :
    (net.bus = {} ∧ ∀ p ∈ net.pins, ∀ j, ¬w.CountsFor d.circuit buses p j) ∨
      ∃ k, buses[k]? = some net.bus ∧
        ∀ p ∈ net.pins, ∀ j, w.CountsFor d.circuit buses p j → j = k := by
  obtain ⟨s⟩ := Design.synthesize_eq_ok h
  obtain rfl := Except.ok.inj (s.flattened.symm.trans hbuses)
  obtain rfl := Except.ok.inj (s.wired.symm.trans hw)
  obtain ⟨g, hg, hbus, hsub⟩ := s.exists_group hnet
  obtain ⟨owners, howners, hgroups⟩ := bind_eq_ok.1 s.grouped
  obtain ⟨pins, _, hgroup⟩ := (mem_of_mapM hgroups).1 hg
  rw [group_pins hgroup] at hsub
  have hlarge : 1 < pins.size := by
    obtain ⟨a, ha, b, hb, hne⟩ := SortedSet.one_lt_size_iff.1 hsize
    exact SortedSet.one_lt_size_iff.2 ⟨a, hsub a ha, b, hsub b hb, hne⟩
  rw [hbus]
  rcases bus_of_group howners hgroup hlarge with ⟨hempty, hnone⟩ | ⟨k, hk, _, hone⟩
  · exact .inl ⟨hempty, fun p hp => hnone p (hsub p hp)⟩
  · exact .inr ⟨k, hk, fun p hp => hone p (hsub p hp)⟩

/-- The pins of a net are active on its bus alone just in case they are active on no other bus than
that they count for. -/
theorem active_on_bus_iff (hnodup : buses.Nodup) {net : Net}
    (h : (net.bus = {} ∧ ∀ p ∈ net.pins, ∀ j, ¬w.CountsFor d.circuit buses p j) ∨
      ∃ k, buses[k]? = some net.bus ∧
        ∀ p ∈ net.pins, ∀ j, w.CountsFor d.circuit buses p j → j = k) :
    (∀ p ∈ net.pins, ∀ bus ∈ buses, d.circuit.ActiveOn bus p → bus = net.bus) ↔
      ∀ p ∈ net.pins, ∀ j bus, buses[j]? = some bus → d.circuit.ActiveOn bus p →
        w.CountsFor d.circuit buses p j := by
  constructor
  · intro hall p hp j bus hj hactive
    have hbus := List.mem_of_getElem? hj
    obtain ⟨k, hk⟩ := exists_countsFor (w := w) ⟨bus, hbus, hactive⟩
    rcases h with ⟨_, hnone⟩ | ⟨i, hi, hone⟩
    · exact (hnone p hp k hk).elim
    · rw [hall p hp bus hbus hactive, ← hi] at hj
      have hlt := (List.getElem?_eq_some_iff.1 hi).1
      obtain rfl : i = j := (List.getElem?_inj hlt hnodup).1 hj.symm
      exact hone p hp k hk ▸ hk
  · intro hall p hp bus hbus hactive
    obtain ⟨j, hj⟩ := List.mem_iff_getElem?.1 hbus
    have hcounts := hall p hp j bus hj hactive
    rcases h with ⟨_, hnone⟩ | ⟨k, hk, hone⟩
    · exact (hnone p hp j hcounts).elim
    · rw [← hone p hp j hcounts, hj] at hk
      exact Option.some.inj hk

theorem CountsFor.one_lt_size {c : Circuit} {pins : SortedSet ComponentPin} {p q : ComponentPin}
    {j k : Nat} (hp : p ∈ pins) (hq : q ∈ pins) (hpj : w.CountsFor c buses p j)
    (hqk : w.CountsFor c buses q k) (hne : j ≠ k) : 1 < pins.size := by
  refine SortedSet.one_lt_size_iff.2 ⟨p, hp, q, hq, ?_⟩
  rintro rfl
  exact hne (hpj.unique hqk)

/-- Nothing is made of a design whose wires connect pins that count for different buses. -/
theorem synthesize_ne_ok (hbuses : d.circuit.flattenedBuses Circuit.root = .ok buses)
    (hw : ofDesign d buses = .ok w) {pins : SortedSet ComponentPin}
    (hpins : pins ∈ w.graph.components) {p q : ComponentPin} (hp : p ∈ pins) (hq : q ∈ pins)
    {j k : Nat} (hpj : w.CountsFor d.circuit buses p j) (hqk : w.CountsFor d.circuit buses q k)
    (hne : j ≠ k) (r : Design × Netlist) : d.synthesize ≠ .ok r := by
  intro h
  obtain ⟨s⟩ := Design.synthesize_eq_ok (n := r.2) h
  obtain rfl := Except.ok.inj (s.flattened.symm.trans hbuses)
  obtain rfl := Except.ok.inj (s.wired.symm.trans hw)
  obtain ⟨owners, howners, hgroups⟩ := bind_eq_ok.1 s.grouped
  obtain ⟨g, hg⟩ := exists_mapM_iff.1 ⟨_, hgroups⟩ pins hpins
  have hsize := CountsFor.one_lt_size hp hq hpj hqk hne
  rw [group_eq_error howners (isPart_of_group hg) hsize hp hq hpj hqk hne] at hg
  cases hg

/-- Pins that count for different buses are what is reported, unless something else was wrong
before. -/
theorem synthesize_eq_error (hbuses : d.circuit.flattenedBuses Circuit.root = .ok buses)
    (hw : ofDesign d buses = .ok w) {before after : List (SortedSet ComponentPin)}
    {pins : SortedSet ComponentPin} (hpins : w.graph.components = before ++ pins :: after)
    {p q : ComponentPin} (hp : p ∈ pins) (hq : q ∈ pins) {j k : Nat}
    (hpj : w.CountsFor d.circuit buses p j) (hqk : w.CountsFor d.circuit buses q k) (hne : j ≠ k)
    (hresolved : d.circuit.checkResolved Circuit.root = .ok ())
    (hbefore : ∀ earlier ∈ before, w.Admits d buses earlier)
    (hparts : ∀ p ∈ pins, d.circuit.isPart p.component = true) :
    d.synthesize = .error (.multipleBuses (d.circuit.describePins pins)) := by
  have hsize := CountsFor.one_lt_size hp hq hpj hqk hne
  obtain ⟨owners, howners⟩ := Circuit.exists_busOwners fun _ => exists_busNetworks hw
  have hgroups : w.groups d buses = .error (.multipleBuses (d.circuit.describePins pins)) := by
    rw [groups, howners, hpins]
    refine mapM_eq_error (fun x hx => exists_group howners (hbefore x hx)) ?_
    exact group_eq_error howners hparts hsize hp hq hpj hqk hne
  rw [Design.synthesize, Design.netlist, hresolved, hbuses]
  simp only [bind, Except.bind, hw, hgroups]

end Wires

/-- Let the wires of a design be laid over its buses. Every pin counts for one bus at most: the last
bus on which the pin it stands in for is active, or else the last one on which it is itself. A net
of several pins has the bus that its pins count for, or none if they count for none; so its active
pins are active on its bus alone just in case none of them is active on a bus that it does not count
for. Connected pins that count for different buses are refused for belonging to more than one bus,
unless synthesis fails at something before them. -/
theorem net_of_one_bus {d : Design} {buses : List Bus} {w : Wires}
    (hbuses : d.circuit.flattenedBuses Circuit.root = .ok buses)
    (hw : Wires.ofDesign d buses = .ok w) :
    (∀ d' n, d.synthesize = .ok (d', n) → ∀ net ∈ n.nets, 1 < net.pins.size →
      ((net.bus = {} ∧ ∀ p ∈ net.pins, ∀ j, ¬w.CountsFor d.circuit buses p j) ∨
        ∃ k, buses[k]? = some net.bus ∧
          ∀ p ∈ net.pins, ∀ j, w.CountsFor d.circuit buses p j → j = k) ∧
      ((∀ p ∈ net.pins, ∀ bus ∈ buses, d.circuit.ActiveOn bus p → bus = net.bus) ↔
        ∀ p ∈ net.pins, ∀ j bus, buses[j]? = some bus → d.circuit.ActiveOn bus p →
          w.CountsFor d.circuit buses p j)) ∧
    ∀ before pins after, w.graph.components = before ++ pins :: after →
      ∀ p ∈ pins, ∀ q ∈ pins, ∀ j k, w.CountsFor d.circuit buses p j →
        w.CountsFor d.circuit buses q k → j ≠ k →
        (∀ r, d.synthesize ≠ .ok r) ∧
        (d.circuit.checkResolved Circuit.root = .ok () →
          (∀ earlier ∈ before, w.Admits d buses earlier) →
          (∀ p ∈ pins, d.circuit.isPart p.component = true) →
          d.synthesize = .error (.multipleBuses (d.circuit.describePins pins))) := by
  constructor
  · intro d' n h net hnet hsize
    have hbus := Wires.bus_of_net hbuses hw h hnet hsize
    exact ⟨hbus, Wires.active_on_bus_iff (Circuit.nodup_buses hbuses) hbus⟩
  · intro before pins after hsplit p hp q hq j k hpj hqk hne
    have hpins : pins ∈ w.graph.components := by
      rw [hsplit]
      exact List.mem_append_right _ List.mem_cons_self
    refine ⟨Wires.synthesize_ne_ok hbuses hw hpins hp hq hpj hqk hne, ?_⟩
    intro hresolved hbefore hparts
    exact Wires.synthesize_eq_error hbuses hw hsplit hp hq hpj hqk hne hresolved hbefore hparts

namespace Specimen

/-- The specimen's parts with a second interface on the clock pin. -/
def doubled (p : Connectivity) : Connectivity :=
  { p with interfaces := p.interfaces ++ p.interfaces.map fun i => { i with name := "CK2" } }

def doubledCatalog : Catalog :=
  { catalog with
    connectivities := .ofList [
      (oscillator, doubled (clocked oscillator "OSC" driver output)),
      (consumer, doubled (clocked consumer "PLL" receiver input))] }

/-- A wired clock from one part to another, between interfaces of the same name. -/
def clockOver (name : String) (source target : NodeId) : Circuit.Instruction :=
  .require {
    origin := .persisted ⟨1⟩
    function := "clock"
    source := { node := source, interface := some name }
    target := { node := target, interface := some name } }

/-- An oscillator and two parts that it may clock over either interface, all on one board. -/
def doubledDesign (clocks : List Circuit.Instruction) : Design where
  circuit := (Circuit.new doubledCatalog).after ([
    .part Circuit.root "U1" "oscillator" oscillator,
    .part Circuit.root "U2" "pll" consumer,
    .part Circuit.root "U3" "pll" consumer] ++ clocks)
  boards := []
  mainBoardReference := "MAIN"
  options := { splitByBoard := false }

def forked : Design := doubledDesign [clockOver "CK" ⟨1⟩ ⟨2⟩, clockOver "CK2" ⟨1⟩ ⟨3⟩]

def parallel : Design := doubledDesign [clockOver "CK" ⟨1⟩ ⟨2⟩, clockOver "CK2" ⟨1⟩ ⟨2⟩]

def clockPinOf (id : NodeId) : ComponentPin := ⟨id, ⟨⟨8⟩⟩⟩

/-- The wires of the fork connect all three clock pins, which count for different buses. -/
theorem exists_forked : ∃ buses w pins after,
    forked.circuit.flattenedBuses Circuit.root = .ok buses ∧ Wires.ofDesign forked buses = .ok w ∧
    w.graph.components = [] ++ pins :: after ∧
    pins = .ofList [clockPinOf ⟨1⟩, clockPinOf ⟨2⟩, clockPinOf ⟨3⟩] ∧
    w.CountsFor forked.circuit buses (clockPinOf ⟨2⟩) 0 ∧
    w.CountsFor forked.circuit buses (clockPinOf ⟨3⟩) 1 := by
  have hrun : (do
      let buses ← forked.circuit.flattenedBuses Circuit.root
      let w ← Wires.ofDesign forked buses
      let owners ← forked.circuit.busOwners buses
      return (w.graph.components.head?, w.owner owners (clockPinOf ⟨2⟩),
        w.owner owners (clockPinOf ⟨3⟩))) =
        .ok (some (.ofList [clockPinOf ⟨1⟩, clockPinOf ⟨2⟩, clockPinOf ⟨3⟩]), some 0, some 1) := by
    decide +kernel
  obtain ⟨buses, hbuses, hrun⟩ := bind_eq_ok.1 hrun
  obtain ⟨w, hw, hrun⟩ := bind_eq_ok.1 hrun
  obtain ⟨owners, howners, hrun⟩ := bind_eq_ok.1 hrun
  obtain ⟨hhead, hfirst, hsecond⟩ := by simpa using pure_eq_ok.1 hrun
  obtain ⟨after, hcomponents⟩ := List.head?_eq_some_iff.1 hhead
  exact ⟨buses, w, _, after, hbuses, hw, hcomponents, rfl,
    (Wires.owner_eq_some_iff howners).1 hfirst, (Wires.owner_eq_some_iff howners).1 hsecond⟩

theorem exists_synthesize_parallel : ∃ r, parallel.synthesize = .ok r :=
  isOk_iff.1 (by decide +kernel)

theorem exists_parallel : ∃ a b, parallel.circuit.flattenedBuses Circuit.root = .ok [a, b] ∧
    ∀ p ∈ [clockPinOf ⟨1⟩, clockPinOf ⟨2⟩],
      parallel.circuit.ActiveOn a p ∧ parallel.circuit.ActiveOn b p := by
  have hrun : (do
      let buses ← parallel.circuit.flattenedBuses Circuit.root
      buses.mapM (Bus.physicalPins · parallel.circuit)) =
        Except.ok (List.replicate 2 (.ofList [clockPinOf ⟨1⟩, clockPinOf ⟨2⟩])) := by
    decide +kernel
  obtain ⟨buses, hbuses, hrun⟩ := bind_eq_ok.1 hrun
  obtain ⟨a, _, ha, htail, rfl⟩ := List.forall₂_cons_right_iff.1 (mapM_eq_ok_iff.1 hrun)
  obtain ⟨b, _, hb, hnil, rfl⟩ := List.forall₂_cons_right_iff.1 htail
  obtain rfl := List.forall₂_nil_right_iff.1 hnil
  refine ⟨a, b, hbuses, fun p hp => ?_⟩
  exact ⟨(Circuit.mem_physicalPins ha).1 (SortedSet.mem_ofList.2 hp),
    (Circuit.mem_physicalPins hb).1 (SortedSet.mem_ofList.2 hp)⟩

theorem exists_parallel_net {d : Design} {n : Netlist} (h : parallel.synthesize = .ok (d, n)) :
    ∃ net ∈ n.nets, net.pins = .ofList [clockPinOf ⟨1⟩, clockPinOf ⟨2⟩] := by
  obtain ⟨s⟩ := Design.synthesize_eq_ok h
  have hhead := s.of_wires (g := fun w => w.graph.components.head?)
    (b := some (.ofList [clockPinOf ⟨1⟩, clockPinOf ⟨2⟩])) (by decide +kernel)
  exact (s.mem_components rfl).2 (List.mem_of_mem_head? hhead)

end Specimen

/-- The fork is refused. The parallel buses are not, and the last is the bus of their net. -/
theorem net_of_one_bus_specimen :
    (∃ pins, Specimen.clockPinOf ⟨1⟩ ∈ pins ∧ Specimen.forked.synthesize =
      .error (.multipleBuses (Specimen.forked.circuit.describePins pins))) ∧
    ∃ a b d n, Specimen.parallel.circuit.flattenedBuses Circuit.root = .ok [a, b] ∧
      Specimen.parallel.synthesize = .ok (d, n) ∧ ∃ net ∈ n.nets, 1 < net.pins.size ∧
        net.bus = b := by
  constructor
  · obtain ⟨buses, w, pins, after, hbuses, hw, hpins, rfl, hfirst, hsecond⟩ :=
      Specimen.exists_forked
    have hall := (net_of_one_bus hbuses hw).2 _ _ _ hpins _ (by decide) _ (by decide) 0 1 hfirst
      hsecond (by decide)
    exact ⟨_, by decide, hall.2 (by decide +kernel) (List.forall_mem_nil _) (by decide +kernel)⟩
  · obtain ⟨a, b, hbuses, hactive⟩ := Specimen.exists_parallel
    obtain ⟨⟨d, n⟩, h⟩ := Specimen.exists_synthesize_parallel
    obtain ⟨net, hnet, hpins⟩ := Specimen.exists_parallel_net h
    have hsize : 1 < net.pins.size := by
      rw [hpins]
      decide
    obtain ⟨s⟩ := Design.synthesize_eq_ok h
    have hsame := Except.ok.inj (s.flattened.symm.trans hbuses)
    have hstart := s.of_wires (g := (Wires.chainStart · (Specimen.clockPinOf ⟨1⟩)))
      (b := Specimen.clockPinOf ⟨1⟩) (by decide +kernel)
    have hlast :
        LastAt [a, b] (Specimen.parallel.circuit.ActiveOn · (Specimen.clockPinOf ⟨1⟩)) 1 := by
      refine ⟨⟨b, rfl, (hactive _ List.mem_cons_self).2⟩, fun j x hj _ => ?_⟩
      exact Nat.le_of_lt_succ (List.getElem?_eq_some_iff.1 hj).1
    have hcounts : s.wires.CountsFor Specimen.parallel.circuit [a, b] (Specimen.clockPinOf ⟨1⟩) 1 :=
      .inl (hstart.symm ▸ hlast)
    have hp : Specimen.clockPinOf ⟨1⟩ ∈ net.pins := by
      rw [hpins]
      decide
    obtain ⟨hbus, _⟩ := (net_of_one_bus hbuses (hsame ▸ s.wired)).1 d n h net hnet hsize
    refine ⟨a, b, d, n, hbuses, h, net, hnet, hsize, ?_⟩
    rcases hbus with ⟨_, hnone⟩ | ⟨k, hk, hone⟩
    · exact (hnone _ hp 1 hcounts).elim
    · rw [← hone _ hp 1 hcounts] at hk
      exact (Option.some.inj hk).symm

/-- A net may join two buses: all its pins are active on both. -/
theorem net_joins_two_buses : ∃ buses d n,
    Specimen.parallel.circuit.flattenedBuses Circuit.root = .ok buses ∧
    Specimen.parallel.synthesize = .ok (d, n) ∧ ∃ net ∈ n.nets, 1 < net.pins.size ∧
      ∃ a ∈ buses, ∃ b ∈ buses, a ≠ b ∧ ∀ p ∈ net.pins,
        Specimen.parallel.circuit.ActiveOn a p ∧ Specimen.parallel.circuit.ActiveOn b p := by
  obtain ⟨a, b, hbuses, hactive⟩ := Specimen.exists_parallel
  obtain ⟨⟨d, n⟩, h⟩ := Specimen.exists_synthesize_parallel
  obtain ⟨net, hnet, hpins⟩ := Specimen.exists_parallel_net h
  have hne : a ≠ b := by simpa using Circuit.nodup_buses hbuses
  refine ⟨_, d, n, hbuses, h, net, hnet, by rw [hpins]; decide, a, by simp, b, by simp, hne, ?_⟩
  intro p hp
  rw [hpins, SortedSet.mem_ofList] at hp
  exact hactive p hp

end BoardNets
