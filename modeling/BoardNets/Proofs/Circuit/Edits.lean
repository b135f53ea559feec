import BoardNets.Proofs.Circuit.Arena
import BoardNets.Proofs.Fragment.Pairing
import Mathlib.Logic.Relation

/-! What building can do. Every building step, successful or failed, amounts to a sequence of edits,
each of which happens as a whole: the wiring of a fragment, for one, always reaches both of its
interfaces and the fragment itself. What every edit keeps, every reachable circuit has. -/
namespace BoardNets
namespace Circuit

variable {α β : Type}

theorem run_bind (c : Circuit) (x : Build α) (f : α → Build β) :
    c.run (x >>= f) = match c.run x with
      | (.ok a, c') => c'.run (f a)
      | (.error e, c') => (.error e, c') := by
  simp only [run, bind, ExceptT.bind, ExceptT.mk, StateT.bind, ExceptT.bindCont]
  cases h : x c with
  | mk r c' => cases r <;> rfl

theorem run_ask (c : Circuit) (question : Circuit → Result α) :
    c.run (ask question) = (question c, c) := rfl

theorem run_modify (c : Circuit) (g : Circuit → Circuit) : c.run (modify g) = (.ok (), g c) := rfl

theorem run_get (c : Circuit) : c.run get = (.ok c, c) := rfl

theorem run_ask_bind (c : Circuit) (question : Circuit → Result α) (f : α → Build β) :
    c.run (ask question >>= f) = match question c with
      | .ok a => c.run (f a)
      | .error e => (.error e, c) := by
  rw [run_bind, run_ask]
  cases question c <;> rfl

theorem run_bind_pure (c : Circuit) (x : Build α) (b : β) :
    (c.run (x >>= fun _ => pure b)).2 = (c.run x).2 := by
  rw [run_bind]
  rcases c.run x with ⟨_ | _, _⟩ <;> rfl

theorem run_changeComponent (c : Circuit) (id : NodeId) (g : Component → Component) :
    c.run (changeComponent id g) = match c.component id with
      | .ok _ => (.ok (), c.editComponent id g)
      | .error e => (.error e, c) := by
  rw [changeComponent, run_ask_bind]
  cases h : c.component id with
  | error e => rfl
  | ok p =>
    simp only [editComponent, component_eq_ok.1 h, Option.elim_some]
    rfl

theorem run_changeInterface (c : Circuit) (i : InterfaceRef)
    (g : ComponentInterface → ComponentInterface) :
    c.run (changeInterface i g) = match c.interface i with
      | .ok _ => (.ok (), c.editInterface i g)
      | .error e => (.error e, c) := by
  rw [changeInterface, run_ask_bind]
  cases h : c.interface i with
  | error e => rfl
  | ok x =>
    have hcomponent : ∃ p, c.component i.component = .ok p := by
      obtain ⟨p, hp, _⟩ := bind_eq_ok.1 h
      exact ⟨p, hp⟩
    obtain ⟨p, hp⟩ := hcomponent
    dsimp only
    rw [run_changeComponent, hp]
    rfl

theorem run_changeFragment (c : Circuit) (id : FragmentId) (g : Fragment → Fragment) :
    c.run (changeFragment id g) = (.ok (), c.editFragment id g) := rfl

theorem run_addNode (c : Circuit) (n : Node) :
    c.run (addNode n) = (.ok c.nextNode, c.pushNode n) := rfl

end Circuit

/-- A component with the same pins, and the same interfaces in their places. -/
structure Component.Grows (p q : Component) : Prop where
  kind : q.kind = p.kind
  pins : q.pins = p.pins
  interfaces : ∀ (k : Nat) x, p.interfaces[k]? = some x →
    ∃ y, q.interfaces[k]? = some y ∧ y.name = x.name ∧ y.interface = x.interface

namespace Component.Grows

theorem refl (p : Component) : p.Grows p where
  kind := rfl
  pins := rfl
  interfaces := fun _ x hx => ⟨x, hx, rfl, rfl⟩

theorem trans {p q r : Component} (hpq : p.Grows q) (hqr : q.Grows r) : p.Grows r where
  kind := hqr.kind.trans hpq.kind
  pins := hqr.pins.trans hpq.pins
  interfaces := by
    intro k x hx
    obtain ⟨y, hy, hname, hinterface⟩ := hpq.interfaces k x hx
    obtain ⟨z, hz, hname', hinterface'⟩ := hqr.interfaces k y hy
    exact ⟨z, hz, hname'.trans hname, hinterface'.trans hinterface⟩

theorem modify {p : Component} {k : Nat} {g : ComponentInterface → ComponentInterface}
    (hg : ∀ x, (g x).name = x.name ∧ (g x).interface = x.interface) :
    p.Grows { p with interfaces := p.interfaces.modify k g } where
  kind := rfl
  pins := rfl
  interfaces := by
    intro j x hx
    simp only [List.getElem?_modify, hx]
    split
    · exact ⟨g x, rfl, hg x⟩
    · exact ⟨x, rfl, rfl, rfl⟩

theorem append {p : Component} (more : List ComponentInterface) :
    p.Grows { p with interfaces := p.interfaces ++ more } where
  kind := rfl
  pins := rfl
  interfaces := by
    intro k x hx
    have hlt := (List.getElem?_eq_some_iff.1 hx).1
    exact ⟨x, by rw [List.getElem?_append_left hlt, hx], rfl, rfl⟩

end Component.Grows

namespace Circuit

structure Grows (c c' : Circuit) : Prop where
  catalog : c'.catalog = c.catalog
  components : ∀ id p, c.component? id = some p → ∃ q, c'.component? id = some q ∧ p.Grows q

namespace Grows

variable {c c' c'' : Circuit}

theorem refl (c : Circuit) : c.Grows c where
  catalog := rfl
  components := fun _ p hp => ⟨p, hp, .refl p⟩

theorem trans (h : c.Grows c') (h' : c'.Grows c'') : c.Grows c'' where
  catalog := h'.catalog.trans h.catalog
  components := by
    intro id p hp
    obtain ⟨q, hq, hpq⟩ := h.components id p hp
    obtain ⟨r, hr, hqr⟩ := h'.components id q hq
    exact ⟨r, hr, hpq.trans hqr⟩

theorem interface (h : c.Grows c') {i : InterfaceRef} {x : ComponentInterface}
    (hx : c.interface? i = some x) :
    ∃ y, c'.interface? i = some y ∧ y.name = x.name ∧ y.interface = x.interface := by
  obtain ⟨p, hp, hpx⟩ := Option.bind_eq_some_iff.1 hx
  obtain ⟨q, hq, hpq⟩ := h.components _ p hp
  obtain ⟨y, hy, hyx⟩ := hpq.interfaces _ x hpx
  exact ⟨y, Option.bind_eq_some_iff.2 ⟨q, hq, hy⟩, hyx⟩

theorem component_isSome (h : c.Grows c') {id : NodeId} (hid : (c.component? id).isSome) :
    (c'.component? id).isSome := by
  obtain ⟨p, hp⟩ := Option.isSome_iff_exists.1 hid
  obtain ⟨q, hq, _⟩ := h.components id p hp
  exact Option.isSome_iff_exists.2 ⟨q, hq⟩

theorem interface_isSome (h : c.Grows c') {i : InterfaceRef} (hi : (c.interface? i).isSome) :
    (c'.interface? i).isSome := by
  obtain ⟨x, hx⟩ := Option.isSome_iff_exists.1 hi
  obtain ⟨y, hy, _⟩ := h.interface hx
  exact Option.isSome_iff_exists.2 ⟨y, hy⟩

theorem editComponent {id : NodeId} {g : Component → Component}
    (hg : ∀ p : Component, p.Grows (g p)) : c.Grows (c.editComponent id g) where
  catalog := catalog_editComponent id g
  components := by
    intro x p hp
    rw [component?_editComponent, hp]
    split
    · exact ⟨g p, rfl, hg p⟩
    · exact ⟨p, rfl, .refl p⟩

theorem editInterface {i : InterfaceRef} {g : ComponentInterface → ComponentInterface}
    (hg : ∀ x, (g x).name = x.name ∧ (g x).interface = x.interface) :
    c.Grows (c.editInterface i g) :=
  .editComponent fun _ => .modify hg

theorem pushNode (n : Node) : c.Grows (c.pushNode n) where
  catalog := rfl
  components := by
    intro x p hp
    rw [component?_eq_some] at hp
    exact ⟨p, component?_eq_some.2 (node?_pushNode_of_some hp), .refl p⟩

theorem setFilter {id : NodeId} {f g : Filter} (hid : c.node? id = some (.filter f)) :
    c.Grows (c.setNode id (.filter g)) where
  catalog := rfl
  components := by
    intro x p hp
    rw [component?_eq_some] at hp
    refine ⟨p, component?_eq_some.2 ?_, .refl p⟩
    rw [node?_setNode, if_neg, hp]
    rintro rfl
    rw [hid] at hp
    cases hp

theorem fragments (c : Circuit) (fragments : Array Fragment) : c.Grows { c with fragments } where
  catalog := rfl
  components := fun _ p hp => ⟨p, hp, .refl p⟩

theorem pushFragment (c : Circuit) (f : Fragment) : c.Grows (c.pushFragment f) := .fragments c _

theorem editFragment (c : Circuit) (id : FragmentId) (g : Fragment → Fragment) :
    c.Grows (c.editFragment id g) :=
  .fragments c _

end Grows
end Circuit

def Node.Fresh : Node → Prop
  | .component p => (∀ i ∈ p.interfaces, i.uses = ∅ ∧ i.active = false) ∧ p.children = [] ∧
      p.requirements = [] ∧ p.ancillary = none
  | .filter f => f.links = [] ∧ f.feasible = [] ∧ f.requirements = []

theorem Interface.fresh_of_realise {catalog : Catalog} {i : Interface}
    {realised : List ComponentInterface} (h : i.realise catalog = .ok realised) :
    ∀ x ∈ realised, x.uses = ∅ ∧ x.active = false := by
  intro x hx
  obtain ⟨type, _, h⟩ := bind_eq_ok.1 h
  split at h
  · obtain ⟨childType, _, hchild⟩ := (mem_of_mapM h).1 hx
    obtain ⟨assignments, _, hchild⟩ := bind_eq_ok.1 hchild
    obtain ⟨child, _, hchild⟩ := bind_eq_ok.1 hchild
    obtain rfl := pure_eq_ok.1 hchild
    exact ⟨rfl, rfl⟩
  · obtain rfl := pure_eq_ok.1 h
    obtain rfl := List.mem_singleton.1 hx
    exact ⟨rfl, rfl⟩

namespace Circuit

variable {c : Circuit}

theorem newComponent_eq_ok {parent : NodeId} {reference function : String} {kind : ComponentKind}
    {connectivity : Option ConnectivityId} {p : Component}
    (h : c.newComponent parent reference function kind connectivity = .ok p) :
    p.reference = reference ∧ p.parent = some parent ∧ p.kind = kind ∧
      (Node.component p).Fresh := by
  cases connectivity with
  | none =>
    obtain rfl := pure_eq_ok.1 h
    exact ⟨rfl, rfl, rfl, by simp [Node.Fresh]⟩
  | some id =>
    obtain ⟨k, _, h⟩ := bind_eq_ok.1 h
    obtain ⟨interfaces, hinterfaces, h⟩ := bind_eq_ok.1 h
    obtain rfl := pure_eq_ok.1 h
    refine ⟨rfl, rfl, rfl, fun i hi => ?_, rfl, rfl, rfl⟩
    rw [lift_eq_ok] at hinterfaces
    obtain ⟨realised, hrealised, h⟩ := bind_eq_ok.1 hinterfaces
    obtain rfl := pure_eq_ok.1 h
    obtain ⟨xs, hxs, hi⟩ := List.mem_flatten.1 hi
    obtain ⟨x, _, hx⟩ := (mem_of_mapM hrealised).1 hxs
    exact Interface.fresh_of_realise hx i hi

end Circuit

def Fragment.entries (f : Fragment) : List (InterfacePinId × PinUse) :=
  f.source.connections.entries ++ f.target.connections.entries

theorem Fragment.mem_uses_iff {f : Fragment} {u : PinUse} :
    u ∈ f.source.connections.uses ++ f.target.connections.uses ↔ ∃ e ∈ f.entries, e.2 = u := by
  have hside (c : Connections) : u ∈ c.uses ↔ ∃ e ∈ c.entries, e.2 = u := by
    rw [Connections.mem_uses]
    constructor
    · rintro ⟨key, hkey⟩
      exact ⟨(key, u), Connections.mem_entries.2 hkey, rfl⟩
    · rintro ⟨e, he, rfl⟩
      exact ⟨e.1, Connections.mem_entries.1 he⟩
  simp only [entries, List.mem_append, hside, or_and_right, exists_or]

/-- Some use of the fragment lies on a component it does not end at. -/
def Fragment.Stale (f : Fragment) : Prop :=
  ∃ e ∈ f.entries, e.2.interface.component ∉ [f.source.node, f.target.node]

instance (f : Fragment) : Decidable f.Stale :=
  inferInstanceAs (Decidable (∃ e ∈ f.entries, _))

/-- The fragment without its connections. -/
def Fragment.bare (f : Fragment) : Fragment :=
  { f with source.connections := ∅, target.connections := ∅ }

/-- The fragment with the connections of a pairing. -/
def Fragment.holding (f : Fragment) (p : Pairing) : Fragment :=
  { f with
    source.connections := f.source.connections.insertAll p.source.toList
    target.connections := f.target.connections.insertAll p.target.toList }

namespace Circuit

/-- Both interfaces of a wiring and the fragment take over its uses. -/
def wired (c : Circuit) (id : FragmentId) (w : Wiring) : Circuit :=
  ((c.editInterface w.sourceInterface (·.activate w.pairing.source)).editInterface
    w.targetInterface (·.activate w.pairing.target)).editFragment id (·.holding w.pairing)

def release (c : Circuit) (entry : InterfacePinId × PinUse) : Circuit :=
  c.editInterface entry.2.interface (·.release entry.1 entry.2)

/-- The fragment gives up its connections, and interfaces their uses. -/
def unwired (c : Circuit) (id : FragmentId) (f : Fragment) : Circuit :=
  f.entries.foldl release (c.editFragment id Fragment.bare)

def relinked (F x : NodeId) (c : Circuit) (link : NodeId) : Circuit :=
  match c.node? link with
  | some (.filter f) => c.setNode link (.filter { f with links := f.links.map (replace F x) })
  | _ => c

/-- The child takes the place of the filter below its parent. -/
def swapped (c : Circuit) (parent : Option NodeId) (F x : NodeId) : Circuit :=
  parent.elim c fun parent =>
    c.editComponent parent fun p => { p with children := p.children.map (replace F x) }

/-- Fragments that ended at the filter end at the candidate. -/
def retargeted (c : Circuit) (F x : NodeId) : Circuit :=
  { c with fragments := c.fragments.map (retarget F x) }

/-- The candidate has the parent and the requirements of the filter. -/
def inherited (c : Circuit) (x : NodeId) (f : Filter) : Circuit :=
  c.editComponent x fun n =>
    { n with parent := f.parent, requirements := n.requirements ++ f.requirements }

/-- The candidate takes the place of the filter everywhere. -/
def resolved (c : Circuit) (F x : NodeId) (f : Filter) : Circuit :=
  ((f.links.foldl (relinked F x) (c.swapped f.parent F x)).retargeted F x).inherited x f

inductive Edit (c : Circuit) : Circuit → Prop
  /-- A new last child. -/
  | child {parent : NodeId} {name : String} {n : Node} :
      c.childReference parent name = .ok n.reference → n.parent = some parent → n.Fresh →
      (c.component? parent).isSome →
      Edit c ((c.pushNode n).editComponent parent fun p =>
        { p with children := p.children ++ [c.nextNode] })
  /-- A new candidate of a filter. -/
  | candidate {F : NodeId} {f : Filter} {p : Component} :
      c.node? F = some (.filter f) → p.reference = f.reference →
      p.parent = some (f.parent.getD root) → p.isPart = true → (Node.component p).Fresh →
      Edit c ((c.pushNode (.component p)).setNode F
        (.filter { f with feasible := f.feasible ++ [c.nextNode] }))
  /-- A new link of a filter. -/
  | link {F other : NodeId} {f : Filter} : c.node? F = some (.filter f) →
      Edit c (c.setNode F (.filter { f with links := f.links ++ [other] }))
  | ancillary {id : NodeId} {a : Ancillary} :
      Edit c (c.editComponent id fun p => { p with ancillary := some a })
  /-- The adapted counterpart of an interface. -/
  | adapt {id : NodeId} {x : ComponentInterface} : x.uses = ∅ → x.active = false →
      Edit c (c.editComponent id fun p => { p with interfaces := p.interfaces ++ [x] })
  /-- A new fragment at its source. -/
  | require {f : Fragment} {owner : Node} : f.source.connections = ∅ → f.target.connections = ∅ →
      c.node? f.source.node = some owner →
      Edit c ((c.pushFragment f).setNode f.source.node (owner.require c.nextFragment))
  /-- A new fragment whose source does not exist. -/
  | stray {f : Fragment} : f.source.connections = ∅ → f.target.connections = ∅ →
      c.node? f.source.node = none → Edit c (c.pushFragment f)
  /-- Connections of a fragment that has none. -/
  | wire {id : FragmentId} {f : Fragment} {w : Wiring} : c.fragment? id = some f →
      f.source.connections = ∅ → (c.component? f.source.node).isSome →
      f.deduce c f.source.node = .ok (.resolved w) → Edit c (c.wired id w)
  /-- The end of stale connections. -/
  | unwire {id : FragmentId} {f : Fragment} : c.fragment? id = some f → f.Stale →
      Edit c (c.unwired id f)
  /-- A candidate in the place of its filter. -/
  | resolve {F x : NodeId} {f : Filter} : c.node? F = some (.filter f) → x ∈ f.feasible →
      Edit c (c.resolved F x f)

end Circuit
end BoardNets
