import BoardNets.Proofs.Bus.Resemblance
import BoardNets.Proofs.Netlist.Owned

/-! What nets are named by, of a bus. Counterparts have the same active pins, the same components at
their sources and the same drivers. Their references are those of their first fragments, which need
not be the same; they are where all fragments of a bus have one reference. -/
namespace BoardNets
namespace SortedMap

open Std

variable {κ α : Type} [Ord κ] [TransOrd κ] [LawfulEqOrd κ] [DecidableEq κ] [Ord α] [TransOrd α]
  [LawfulEqOrd α]

def united (entries : List (κ × SortedSet α)) : SortedMap κ (SortedSet α) :=
  entries.foldl (fun m (k, s) => m.update k ∅ (· ∪ s)) ∅

variable {es es' : List (κ × SortedSet α)} {k : κ} {a : α}

omit [LawfulEqOrd α] in
theorem isSome_find?_united : ((united es).find? k).isSome ↔ ∃ e ∈ es, k = e.1 := by
  have hfold : ((united es).find? k).isSome ↔
      ((∅ : SortedMap κ (SortedSet α)).find? k).isSome ∨ ∃ e ∈ es, k = e.1 :=
    foldl_gathers (M := fun m : SortedMap κ (SortedSet α) => (m.find? k).isSome) fun m e => by
      rw [find?_update]
      by_cases hk : k = e.1 <;> simp [hk]
  simpa using hfold

theorem mem_find?_united :
    a ∈ ((united es).find? k).getD ∅ ↔ ∃ e ∈ es, k = e.1 ∧ a ∈ e.2 := by
  have hfold : a ∈ ((united es).find? k).getD ∅ ↔
      a ∈ ((∅ : SortedMap κ (SortedSet α)).find? k).getD ∅ ∨ ∃ e ∈ es, k = e.1 ∧ a ∈ e.2 :=
    foldl_gathers (M := fun m : SortedMap κ (SortedSet α) => a ∈ (m.find? k).getD ∅) fun m e => by
      rw [find?_update]
      by_cases hk : k = e.1 <;> simp [hk]
  simpa using hfold

theorem united_congr (h : ∀ e, e ∈ es' ↔ e ∈ es) : united es' = united es := by
  refine ext fun k => ?_
  have hsome : ((united es').find? k).isSome ↔ ((united es).find? k).isSome := by
    simp only [isSome_find?_united, h]
  have hmem (a : α) :
      a ∈ ((united es').find? k).getD ∅ ↔ a ∈ ((united es).find? k).getD ∅ := by
    simp only [mem_find?_united, h]
  cases hs' : (united es').find? k <;> cases hs : (united es).find? k <;>
    simp only [hs, hs', Option.isSome_some, Option.isSome_none] at hsome
  · rfl
  · cases hsome.2 trivial
  · cases hsome.1 trivial
  · rw [hs, hs'] at hmem
    exact congrArg some (SortedSet.ext hmem)

end SortedMap

namespace Circuit

variable {c c' : Circuit} {b b' : Bus}

theorem SameFragments.exists_of_mapM (h : SameFragments c c' b b') {fs fs' : List Fragment}
    (hfs : b.fragments.mapM c.fragment = .ok fs) (hfs' : b'.fragments.mapM c'.fragment = .ok fs')
    {f : Fragment} (hf : f ∈ fs) : ∃ f' ∈ fs', f'.unsigned = f.unsigned := by
  obtain ⟨_, hid, hf⟩ := (mem_of_mapM hfs).1 hf
  obtain ⟨m, hm, rfl⟩ := List.mem_map.1 hid
  obtain ⟨m', hm', hcounterpart⟩ := h.there m hm
  obtain ⟨f', hf', hsame⟩ := hcounterpart.exists_fragment (fragment_eq_ok.1 hf)
  exact ⟨f', (mem_of_mapM hfs').2
    ⟨m'.fragment, List.mem_map_of_mem hm', fragment_eq_ok.2 hf'⟩, hsame⟩

theorem SameFragments.drivers (h : SameFragments c c' b b')
    {drivers : SortedMap ComponentPin (SortedSet ComponentPin)} (hd : b.drivers c = .ok drivers) :
    b'.drivers c' = .ok drivers := by
  obtain ⟨fs, hfs, hd⟩ := bind_eq_ok.1 hd
  have hall' : ∀ id ∈ b'.fragments, ∃ f, c'.fragment id = .ok f := by
    intro id hid
    obtain ⟨m', hm', rfl⟩ := List.mem_map.1 hid
    obtain ⟨m, hm, hcounterpart⟩ := h.back m' hm'
    obtain ⟨f, hf⟩ := exists_mapM_iff.1 ⟨fs, hfs⟩ m.fragment (List.mem_map_of_mem hm)
    obtain ⟨f', hf', _⟩ := hcounterpart.exists_fragment (fragment_eq_ok.1 hf)
    exact ⟨f', fragment_eq_ok.2 hf'⟩
  obtain ⟨fs', hfs'⟩ := exists_mapM_iff.2 hall'
  have hmem {c c' : Circuit} {b b' : Bus} {fs fs' : List Fragment} (h : SameFragments c c' b b')
      (hfs : b.fragments.mapM c.fragment = .ok fs)
      (hfs' : b'.fragments.mapM c'.fragment = .ok fs')
      {e : ComponentPin × SortedSet ComponentPin} (he : e ∈ fs.flatMap fun f => f.drivers.toList) :
      e ∈ fs'.flatMap fun f => f.drivers.toList := by
    obtain ⟨f, hf, he⟩ := List.mem_flatMap.1 he
    obtain ⟨f', hf', hsame⟩ := h.exists_of_mapM hfs hfs' hf
    have hdrivers := Fragment.read_of_unsigned hsame (F := Fragment.drivers) fun _ => rfl
    exact List.mem_flatMap.2 ⟨f', hf', hdrivers ▸ he⟩
  have hsame : SortedMap.united (fs'.flatMap fun f => f.drivers.toList) =
      SortedMap.united (fs.flatMap fun f => f.drivers.toList) :=
    SortedMap.united_congr fun e => ⟨hmem h.symm hfs' hfs, hmem h hfs hfs'⟩
  exact bind_eq_ok.2 ⟨fs', hfs', (congrArg Except.ok hsame).trans hd⟩

theorem SameFragments.sourcePinsOf (h : SameFragments c c' b b') {p : ComponentPin}
    {sources : SortedSet ComponentPin} (hs : b.sourcePinsOf c p = .ok sources) :
    b'.sourcePinsOf c' p = .ok sources := by
  obtain ⟨drivers, hd, hs⟩ := bind_eq_ok.1 hs
  exact bind_eq_ok.2 ⟨drivers, h.drivers hd, hs⟩

theorem SameFragments.isEmpty_eq (h : SameFragments c c' b b') : b'.isEmpty = b.isEmpty := by
  have hempty {c c' : Circuit} {b b' : Bus} (h : SameFragments c c' b b')
      (hb : b.isEmpty = true) : b'.isEmpty = true := by
    rw [Bus.isEmpty, SortedSet.isEmpty, List.isEmpty_iff] at hb ⊢
    refine List.eq_nil_iff_forall_not_mem.2 fun m' hm' => ?_
    obtain ⟨m, hm, _⟩ := h.back m' hm'
    rw [SortedSet.mem_def, hb] at hm
    cases hm
  exact Bool.eq_iff_iff.2 ⟨hempty h.symm, hempty h⟩

namespace Resembles

variable (h : c.Resembles c') (hb : SameFragments c c' b b')
include h hb

theorem sourceComponents : b'.sourceComponents c' = b.sourceComponents c := by
  refine SortedSet.ext fun x => ?_
  simp only [Bus.sourceComponents, Bus.sourceMembers, SortedSet.mem_ofList, List.mem_map,
    List.mem_filter, isPart_of_frame h.frame, and_assoc]
  exact hb.exists_ends (F := fun ends => c.isPart ends.2.1 = true ∧ ends.2.1 = x)

theorem activeOn_iff {p : ComponentPin} : c'.ActiveOn b' p ↔ c.ActiveOn b p := by
  simp only [ActiveOn, h.physicalInterfaces hb, Connections.mem_uses, h.uses]

theorem physicalPins {pins : SortedSet ComponentPin} (hpins : b.physicalPins c = .ok pins) :
    b'.physicalPins c' = .ok pins := by
  obtain ⟨interfaces, hinterfaces, _⟩ := bind_eq_ok.1 hpins
  have hall' : ∀ i ∈ (b'.physicalInterfaces c').toList, ∃ x, c'.interface i = .ok x := by
    rw [h.physicalInterfaces hb]
    intro i hi
    obtain ⟨x, hx⟩ := exists_mapM_iff.1 ⟨interfaces, hinterfaces⟩ i hi
    obtain ⟨y, hy, _⟩ := h.interface hx
    exact ⟨y, hy⟩
  obtain ⟨interfaces', hinterfaces'⟩ := exists_mapM_iff.2 hall'
  obtain ⟨pins', hpins'⟩ : ∃ pins', b'.physicalPins c' = .ok pins' :=
    ⟨_, bind_eq_ok.2 ⟨interfaces', hinterfaces', rfl⟩⟩
  have hsame : pins' = pins := SortedSet.ext fun p => by
    rw [mem_physicalPins hpins', mem_physicalPins hpins, h.activeOn_iff hb]
  rw [hpins', hsame]

end Resembles

section Listed

variable {a : NodeId} {deep : Bool} {buses buses' : List Bus}

theorem eq_of_mem_interfaces (h : c.buses a deep = .ok buses) (hb : b ∈ buses)
    (hb' : b' ∈ buses) {i : InterfaceRef} (hi : i ∈ b.interfaces) (hi' : i ∈ b'.interfaces) :
    b = b' := by
  by_contra hne
  obtain ⟨_, _, _, _, hpairwise⟩ := exists_members h
  have hapart : buses.Pairwise fun b b' => ∀ i ∈ b.interfaces, i ∉ b'.interfaces :=
    hpairwise.imp And.left
  have : Std.Symm fun b b' : Bus => ∀ i ∈ b.interfaces, i ∉ b'.interfaces :=
    ⟨fun _ _ hbb i hi' hi => hbb i hi hi'⟩
  exact hapart.forall hb hb' hne i hi hi'

theorem exists_member (h : c.buses a deep = .ok buses) (hb : b ∈ buses) :
    ∃ m, m ∈ b.members := by
  obtain ⟨_, _, hof, _⟩ := exists_members h
  obtain ⟨s, hs⟩ := hof b hb
  obtain ⟨_, hid⟩ := List.exists_mem_of_ne_nil _ hs.fragments_ne_nil
  obtain ⟨m, hm, _⟩ := List.mem_map.1 hid
  exact ⟨m, hm⟩

theorem SameFragments.unique {b₁ b₂ : Bus} (h₁ : SameFragments c c' b b₁)
    (h₂ : SameFragments c c' b b₂) (hbuses : c.buses a deep = .ok buses)
    (hbuses' : c'.buses a deep = .ok buses') (hb : b ∈ buses) (hb₁ : b₁ ∈ buses')
    (hb₂ : b₂ ∈ buses') : b₁ = b₂ := by
  obtain ⟨m, hm⟩ := exists_member hbuses hb
  have hin {b' : Bus} (h : SameFragments c c' b b') : m.sourceInterface ∈ b'.interfaces := by
    obtain ⟨m', hm', hcounterpart⟩ := h.there m hm
    have hsame : m'.sourceInterface = m.sourceInterface := congrArg (·.1.1) hcounterpart.ends
    rw [Bus.interfaces, SortedSet.mem_ofList, List.mem_flatMap]
    exact ⟨m', hm', hsame ▸ List.mem_cons_self⟩
  exact eq_of_mem_interfaces hbuses' hb₁ hb₂ (hin h₁) (hin h₂)

theorem exists_reference (h : c.buses a deep = .ok buses) (hb : b ∈ buses) :
    ∃ m ∈ b.members, ∃ f, c.fragment? m.fragment = some f ∧ f.reference c = .ok b.reference := by
  obtain ⟨first, hfirst⟩ := exists_member h hb
  obtain ⟨members, _, hmapM⟩ := mapM_of_buses h
  obtain ⟨s, _, hof⟩ := (mem_of_mapM hmapM).1 hb
  obtain ⟨reference, hreference, hof⟩ := bind_eq_ok.1 hof
  obtain rfl := pure_eq_ok.1 hof
  rw [SortedSet.mem_def] at hfirst
  cases hhead : (SortedSet.ofList (members.filter fun m =>
      m.sourceInterface ∈ s ∨ m.targetInterface ∈ s)).toList.head? with
  | none =>
    rw [List.head?_eq_none_iff.1 hhead] at hfirst
    cases hfirst
  | some m =>
    rw [hhead] at hreference
    obtain ⟨text, htext, hreference⟩ := bind_eq_ok.1 hreference
    obtain rfl := pure_eq_ok.1 hreference
    obtain ⟨f, hf, htext⟩ := bind_eq_ok.1 htext
    exact ⟨m, List.mem_of_mem_head? hhead, f, fragment_eq_ok.1 hf, htext⟩

end Listed
end Circuit
end BoardNets
