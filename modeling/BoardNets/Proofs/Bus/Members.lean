import BoardNets.Bus.Basic
import BoardNets.Proofs.Circuit.Arena
import BoardNets.Proofs.Circuit.Tree
import BoardNets.Proofs.Fragment.Pairing
import BoardNets.Proofs.Graph.Covers

/-! Which fragments make up the buses of a circuit. Every fragment that a node below the root
requires is a member of some flattened bus, with the interfaces it has at its ends. -/
namespace BoardNets
namespace Circuit

variable {c : Circuit}

theorem mem_descendants {a x : NodeId} (hx : c.InTree a x) (hne : x ≠ a) :
    x ∈ c.descendants a true := by
  have hsubtree := mem_subtree_iff.2 hx
  rw [subtree, List.mem_cons] at hsubtree
  simpa [descendants] using hsubtree.resolve_left hne

theorem component_of_interface {f : Fragment} {side : Side} {i : InterfaceRef}
    (h : f.interface c side = .ok (some i)) : i.component = (f.endpoint side).node := by
  rw [Fragment.interface] at h
  split at h
  · cases h
  · obtain ⟨type, _, h⟩ := bind_eq_ok.1 h
    exact interfaceNamed_eq_ok (interfaceNamed?_eq_some h)

theorem busMember_eq_ok {id : FragmentId} {m : BusMember} :
    c.busMember id = .ok m ↔ ∃ f s t, c.fragment? id = some f ∧
      f.interface c .source = .ok (some s) ∧ f.interface c .target = .ok (some t) ∧
        m = ⟨id, s, t, f.source.node, f.target.node⟩ := by
  rw [busMember, bind_eq_ok]
  constructor
  · rintro ⟨f, hf, h⟩
    obtain ⟨s?, hs, h⟩ := bind_eq_ok.1 h
    obtain ⟨t?, ht, h⟩ := bind_eq_ok.1 h
    cases s? with
    | none => exact absurd h throw_ne_ok
    | some s =>
      cases t? with
      | none => exact absurd h throw_ne_ok
      | some t => exact ⟨f, s, t, fragment_eq_ok.1 hf, hs, ht, (pure_eq_ok.1 h).symm⟩
  · rintro ⟨f, s, t, hf, hs, ht, rfl⟩
    exact ⟨f, fragment_eq_ok.2 hf, bind_eq_ok.2 ⟨_, hs, bind_eq_ok.2 ⟨_, ht, rfl⟩⟩⟩

theorem mem_nodes_joined {α β : Type} [DecidableEq β] {s t : α → β} {xs : List α} {g : Graph β}
    {b : β} : b ∈ (xs.foldl (fun g m => g.addEdge (s m) (t m)) g).nodes ↔
      b ∈ g.nodes ∨ ∃ m ∈ xs, b = s m ∨ b = t m :=
  foldl_gathers (M := fun g => b ∈ Graph.nodes g) (C := fun m => b = s m ∨ b = t m)
    fun _ _ => Graph.mem_nodes_addEdge

theorem members_ofMembers {members : List BusMember} {b : Bus}
    (h : Bus.ofMembers c members = .ok b) : b.members = .ofList members := by
  obtain ⟨reference, _, h⟩ := bind_eq_ok.1 h
  exact (congrArg Bus.members (pure_eq_ok.1 h)).symm

/-- The nodes below another one are components, if there are buses below it. -/
theorem component_of_buses {a x : NodeId} {deep : Bool} {buses : List Bus}
    (h : c.buses a deep = .ok buses) (hx : x ∈ c.descendants a deep) :
    ∃ p, c.component? x = some p := by
  obtain ⟨members, hmembers, _⟩ := bind_eq_ok.1 h
  obtain ⟨ms, hms⟩ := exists_mapM_iff.1 ⟨members, hmembers⟩ x hx
  obtain ⟨p, hp, _⟩ := bind_eq_ok.1 hms
  exact ⟨p, component_eq_ok.1 hp⟩

theorem exists_bus {a x : NodeId} {deep : Bool} {buses : List Bus} {p : Component}
    {id : FragmentId} (h : c.buses a deep = .ok buses) (hx : x ∈ c.descendants a deep)
    (hp : c.component? x = some p) (hid : id ∈ p.requirements) :
    ∃ m, c.busMember id = .ok m ∧ ∃ b ∈ buses, m ∈ b.members := by
  obtain ⟨members, hmembers, h⟩ := bind_eq_ok.1 h
  obtain ⟨ms, hms⟩ := exists_mapM_iff.1 ⟨members, hmembers⟩ x hx
  have hin := (mem_of_mapM hmembers).2 ⟨x, hx, hms⟩
  obtain ⟨p', hp', hms⟩ := bind_eq_ok.1 hms
  rw [component_eq_ok, hp, Option.some.injEq] at hp'
  subst hp'
  obtain ⟨m, hm⟩ := exists_mapM_iff.1 ⟨ms, hms⟩ id hid
  have hmem : m ∈ members.flatten := List.mem_flatten.2 ⟨ms, hin, (mem_of_mapM hms).2 ⟨id, hid, hm⟩⟩
  dsimp only at h
  obtain ⟨interfaces, hinterfaces, hsource⟩ := Graph.exists_component
    (mem_nodes_joined (s := BusMember.sourceInterface) (t := BusMember.targetInterface)
      (g := ∅) |>.2 (.inr ⟨m, hmem, .inl rfl⟩))
  obtain ⟨b, hb⟩ := exists_mapM_iff.1 ⟨buses, h⟩ interfaces hinterfaces
  refine ⟨m, hm, b, (mem_of_mapM h).2 ⟨interfaces, hinterfaces, hb⟩, ?_⟩
  rw [members_ofMembers hb, SortedSet.mem_ofList, List.mem_filter]
  exact ⟨hmem, decide_eq_true (.inl hsource)⟩

end Circuit
end BoardNets
