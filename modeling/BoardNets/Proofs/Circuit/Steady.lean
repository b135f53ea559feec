import BoardNets.Proofs.Circuit.Outline
import BoardNets.Proofs.Circuit.Instructions

/-! What lasts while building goes on. A new component has the interfaces of its connectivity; from
then on only the adapter of a requirement changes what it offers, and all an adapter does is to add
an interface of a name and a type that were not there together. Fragments keep what they have unless
a filter at one of their ends is resolved. -/
namespace BoardNets

/-- Pins and interfaces that a connectivity gives a component. -/
def Catalog.equipment (catalog : Catalog) :
    Option ConnectivityId → Except CatalogError (List Pin × List ComponentInterface)
  | none => return ([], [])
  | some id => do
    let k ← catalog.connectivity id
    return (k.pins, ← k.realise catalog)

def Component.Stock (catalog : Catalog) (p : Component) : Prop :=
  catalog.equipment p.connectivity = .ok (p.pins, p.interfaces.map ComponentInterface.idle)

theorem Component.Stock.congr {catalog : Catalog} {p q : Component} (hp : p.Stock catalog)
    (h : q.outline = p.outline) : q.Stock catalog := by
  obtain ⟨_, _, _, hconnectivity, hpins, hinterfaces, _⟩ := Component.mk.inj h
  rw [Stock, hconnectivity, hpins, hinterfaces]
  exact hp

theorem Component.outline_modify {p : Component} {k : Nat}
    {g : ComponentInterface → ComponentInterface} (hg : ∀ x, (g x).idle = x.idle) :
    Component.outline { p with interfaces := p.interfaces.modify k g } = p.outline := by
  have hinterfaces : (p.interfaces.modify k g).map ComponentInterface.idle =
      p.interfaces.map ComponentInterface.idle := by
    refine List.ext_getElem? fun j => ?_
    rw [List.getElem?_map, List.getElem?_map, List.getElem?_modify]
    cases p.interfaces[j]? with
    | none => rfl
    | some x =>
      by_cases h : k = j
      · simp [h, hg]
      · simp [h]
  simp only [Component.outline, hinterfaces]

theorem Connectivity.idle_of_realise {catalog : Catalog} {k : Connectivity}
    {realised : List ComponentInterface} (h : k.realise catalog = .ok realised) :
    realised.map ComponentInterface.idle = realised := by
  obtain ⟨each, heach, h⟩ := bind_eq_ok.1 h
  obtain rfl := pure_eq_ok.1 h
  refine (List.map_congr_left fun x hx => ?_).trans (List.map_id _)
  obtain ⟨xs, hxs, hx⟩ := List.mem_flatten.1 hx
  obtain ⟨i, _, hi⟩ := (mem_of_mapM heach).1 hxs
  obtain ⟨huses, hactive⟩ := Interface.fresh_of_realise hi x hx
  rw [ComponentInterface.idle, ← huses, ← hactive]
  rfl

def Component.HasPinsOf (p : Component) (i : ComponentInterface) : Prop :=
  ∃ base ∈ p.interfaces, ∀ a ∈ i.interface.assignments, ∃ b ∈ base.interface.assignments,
    b.pins = a.pins

namespace Circuit

variable {α β : Type} {c : Circuit}

theorem outline_setNode {x : NodeId} {n m : Node} (hx : c.node? x = some n)
    (h : m.outline = n.outline) : (c.setNode x m).outline = c.outline :=
  outline_eq_of_nodes rfl (view_setNode hx (congrArg some h))

theorem stock_of_newComponent {parent : NodeId} {reference function : String}
    {kind : ComponentKind} {connectivity : Option ConnectivityId} {p : Component}
    (h : c.newComponent parent reference function kind connectivity = .ok p) :
    p.Stock c.catalog := by
  cases connectivity with
  | none =>
    obtain rfl := pure_eq_ok.1 h
    rfl
  | some id =>
    obtain ⟨k, hk, h⟩ := bind_eq_ok.1 h
    obtain ⟨interfaces, hinterfaces, h⟩ := bind_eq_ok.1 h
    obtain rfl := pure_eq_ok.1 h
    rw [lift_eq_ok] at hk hinterfaces
    change c.catalog.equipment (some id) = .ok (k.pins, interfaces.map ComponentInterface.idle)
    rw [Connectivity.idle_of_realise hinterfaces]
    exact bind_eq_ok.2 ⟨k, hk, bind_eq_ok.2 ⟨interfaces, hinterfaces, rfl⟩⟩

theorem mem_matching {p : Component} {name : String} {type : InterfaceTypeId} {k : Nat} :
    k ∈ matching p name type ↔
      ∃ x, p.interfaces[k]? = some x ∧ x.name = name ∧ x.interface.type = type := by
  simp only [matching, List.mem_filterMap, Prod.exists, List.mem_zipIdx_iff_getElem?]
  constructor
  · rintro ⟨x, j, hx, h⟩
    split at h
    · rename_i hmatch
      obtain rfl := Option.some.inj h
      exact ⟨x, hx, hmatch⟩
    · cases h
  · rintro ⟨x, hx, hmatch⟩
    exact ⟨x, k, hx, if_pos hmatch⟩

theorem interfaceNamed_eq_ok_iff {x : NodeId} {name : String} {type : InterfaceTypeId}
    {i : InterfaceRef} : c.interfaceNamed x name type = .ok i ↔
      i.component = x ∧ ∃ p, c.component? x = some p ∧ matching p name type = [i.index] := by
  rw [interfaceNamed, bind_eq_ok]
  simp only [component_eq_ok]
  constructor
  · rintro ⟨p, hp, h⟩
    split at h
    · rename_i k hk
      obtain rfl := pure_eq_ok.1 h
      exact ⟨rfl, p, hp, hk⟩
    · exact absurd h throw_ne_ok
    · exact absurd h throw_ne_ok
  · rintro ⟨hx, p, hp, hk⟩
    refine ⟨p, hp, ?_⟩
    rw [hk, ← hx]
    rfl

theorem interfaceNamed?_eq_ok_some {x : NodeId} {name : String} {type : InterfaceTypeId}
    {i : InterfaceRef} :
    c.interfaceNamed? x name type = .ok (some i) ↔ c.interfaceNamed x name type = .ok i := by
  refine ⟨interfaceNamed?_eq_some, fun h => ?_⟩
  rw [interfaceNamed?, h]

theorem matching_of_missing {x : NodeId} {name : String} {type : InterfaceTypeId} {p : Component}
    (hp : c.component? x = some p) (h : c.interfaceNamed? x name type = .ok none) :
    matching p name type = [] := by
  have hask : c.component x = .ok p := component_eq_ok.2 hp
  rw [interfaceNamed?, interfaceNamed, hask] at h
  simp only [bind, Except.bind] at h
  cases hmatching : matching p name type with
  | nil => rfl
  | cons k rest =>
    rw [hmatching] at h
    cases rest <;> cases h

theorem name_of_interfaceNamed {x : NodeId} {name : String} {type : InterfaceTypeId}
    {i : InterfaceRef} {y : ComponentInterface} (h : c.interfaceNamed x name type = .ok i)
    (hy : c.interface? i = some y) : y.name = name := by
  obtain ⟨hx, p, hp, hmatching⟩ := interfaceNamed_eq_ok_iff.1 h
  have hmem : i.index ∈ matching p name type := by simp [hmatching]
  obtain ⟨z, hz, hname, _⟩ := mem_matching.1 hmem
  have hiz : c.interface? i = some z := by rw [interface?, hx, hp]; exact hz
  exact Option.some.inj (hiz.symm.trans hy) ▸ hname

theorem pins_of_adaptedInterface {f : Fragment} {pins : SortedMap InterfacePinId InterfacePinId}
    {type : InterfaceTypeId} {base x : ComponentInterface}
    (h : c.adaptedInterface f pins type base = .ok x) :
    ∀ a ∈ x.interface.assignments, ∃ b ∈ base.interface.assignments, b.pins = a.pins := by
  obtain ⟨assignments, hassignments, h⟩ := bind_eq_ok.1 h
  obtain rfl := pure_eq_ok.1 h
  intro a ha
  obtain ⟨b, hb, hslot⟩ := (mem_of_mapM hassignments).1 ha
  refine ⟨b, hb, ?_⟩
  split at hslot
  · obtain rfl := pure_eq_ok.1 hslot
    rfl
  · exact absurd hslot throw_ne_ok

/-- A building step keeps a property of circuits, also where it fails. -/
def Keeps (P : Circuit → Prop) (b : Build α) : Prop := ∀ c, P c → P (c.run b).2

variable {P : Circuit → Prop}

namespace Keeps

theorem pure (a : α) : Keeps P (Pure.pure a) := fun _ hc => hc

theorem ask (question : Circuit → Result α) : Keeps P (Circuit.ask question) := fun _ hc => hc

theorem bind {x : Build α} {f : α → Build β} (hx : Keeps P x) (hf : ∀ a, Keeps P (f a)) :
    Keeps P (x >>= f) := by
  intro c hc
  have hfirst := hx c hc
  rw [run_bind]
  cases hrun : c.run x with
  | mk result c' =>
    rw [hrun] at hfirst
    cases result with
    | error e => exact hfirst
    | ok a => exact hf a c' hfirst

theorem ask_bind {question : Circuit → Result α} {f : α → Build β} (hc : P c)
    (hf : ∀ a, question c = .ok a → P (c.run (f a)).2) :
    P (c.run (Circuit.ask question >>= f)).2 := by
  rw [run_ask_bind]
  cases h : question c with
  | error e => exact hc
  | ok a => exact hf a h

theorem get_bind {f : Circuit → Build β} (hf : P (c.run (f c)).2) : P (c.run (get >>= f)).2 := hf

theorem modify_bind {g : Circuit → Circuit} {f : PUnit → Build β}
    (hf : P ((g c).run (f ⟨⟩)).2) : P (c.run ((modify g : Build PUnit) >>= f)).2 := hf

theorem map {x : Build α} (f : α → β) (hx : Keeps P x) : Keeps P (f <$> x) := by
  rw [← bind_pure_comp]
  exact hx.bind fun _ => .pure _

theorem seqRight {x : Build α} (hx : Keeps P x) (b : β) : Keeps P (x *> Pure.pure b) := by
  rw [seqRight_eq_bind]
  exact hx.bind fun _ => .pure b

theorem forM {xs : List α} {f : α → Build PUnit} (hf : ∀ x ∈ xs, Keeps P (f x)) :
    Keeps P (xs.forM f) := by
  induction xs with
  | nil => exact .pure _
  | cons x xs ih =>
    obtain ⟨hx, hxs⟩ := List.forall_mem_cons.1 hf
    exact hx.bind fun _ => ih hxs

end Keeps

structure Scope where
  /-- Interfaces of the name may be added to the component. -/
  adapts : NodeId → String → Prop := fun _ _ => True
  /-- The filter may be resolved. -/
  resolves : NodeId → Prop := fun _ => True
  /-- The connections of the fragment may change. -/
  rewires : FragmentId → Prop := fun _ => True

/-- A property that lasts while components offer what they do, with just the interfaces of their
connectivities where they are new, and that lasts through all that is in the scope. -/
structure Steady (P : Circuit → Prop) (S : Scope) : Prop where
  component : ∀ {c x p q}, c.component? x = some p → q.outline = p.outline → P c →
    P (c.setNode x (.component q))
  filter : ∀ {c x f g}, c.node? x = some (.filter f) → P c → P (c.setNode x (.filter g))
  push : ∀ {c n}, (∀ p, n = .component p → p.Stock c.catalog) → P c → P (c.pushNode n)
  adapt : ∀ {c x p i}, c.component? x = some p → matching p i.name i.interface.type = [] →
    p.HasPinsOf i → S.adapts x i.name → P c →
      P (c.setNode x (.component { p with interfaces := p.interfaces ++ [i] }))
  require : ∀ {c} f, P c → S.rewires c.nextFragment ∧ P (c.pushFragment f)
  resolve : ∀ {c F} x, S.resolves F → P c →
    (∀ id ∈ c.touching F, S.rewires id) ∧ P (c.retargeted F x)
  rewire : ∀ {c id} g, S.rewires id → P c → P (c.editFragment id g)

end Circuit

def Adapter.adaptation (a : Adapter) : Side → Adaptation
  | .source => a.source
  | .target => a.target

def Requirement.terminal (r : Requirement) : Side → Terminal
  | .source => r.source
  | .target => r.target

theorem Fragment.interfaceType_of_given {f : Fragment} {c : Circuit} {side : Side}
    {type : InterfaceTypeId} (h : (f.endpoint side).type = some type) :
    f.interfaceType c side = .ok type := by
  cases side with
  | source =>
    have hsource : f.source.type = some type := h
    rw [interfaceType, sourceType, hsource]
    rfl
  | target =>
    have htarget : f.target.type = some type := h
    rw [interfaceType, targetType, htarget]
    rfl

/-- The step adds a requirement that adapts an interface of the name. -/
def Circuit.Instruction.Adapts (i : Instruction) (x : NodeId) (name : String) : Prop :=
  ∃ r a side, i = .require r ∧ r.adapter = some a ∧ a.adaptation side ≠ {} ∧
    (r.terminal side).node = x ∧ (r.terminal side).interface = some name

namespace Circuit
namespace Steady

variable {P : Circuit → Prop} {S : Scope} {c : Circuit}

section

variable (hP : Steady P S)
include hP

theorem edit {x : NodeId} {g : Component → Component} (hg : ∀ p, (g p).outline = p.outline)
    (hc : P c) : P (c.editComponent x g) := by
  rw [editComponent]
  cases hx : c.component? x with
  | none => exact hc
  | some p => exact hP.component hx (hg p) hc

theorem keeps_changeComponent (x : NodeId) {g : Component → Component}
    (hg : ∀ p, (g p).outline = p.outline) : Keeps P (changeComponent x g) := by
  intro c hc
  rw [run_changeComponent]
  split
  · exact hP.edit hg hc
  · exact hc

theorem keeps_changeInterface (i : InterfaceRef) {g : ComponentInterface → ComponentInterface}
    (hg : ∀ x, (g x).idle = x.idle) : Keeps P (changeInterface i g) := by
  rw [changeInterface]
  exact (Keeps.ask _).bind fun _ =>
    hP.keeps_changeComponent i.component fun _ => Component.outline_modify hg

theorem keeps_changeFragment {id : FragmentId} (hid : S.rewires id) (g : Fragment → Fragment) :
    Keeps P (changeFragment id g) :=
  fun _ hc => hP.rewire g hid hc

theorem addChild {n : Node} (hn : ∀ p, n = .component p → p.Stock c.catalog) (hc : P c) :
    P (c.run (addChild n)).2 := by
  rw [Circuit.addChild, run_bind, run_addNode]
  dsimp only
  have hpushed : P (c.pushNode n) := hP.push hn hc
  split
  · rename_i parent _
    have hkeeps : Keeps P (changeComponent parent fun p =>
        { p with children := p.children ++ [c.nextNode] }) :=
      hP.keeps_changeComponent _ fun _ => rfl
    rw [run_bind_pure]
    exact hkeeps _ hpushed
  · exact hpushed

theorem keeps_addComponent (parent : NodeId) (name function : String) (kind : ComponentKind)
    (connectivity : Option ConnectivityId) :
    Keeps P (addComponent parent name function kind connectivity) := by
  intro c hc
  rw [addComponent]
  refine Keeps.ask_bind hc fun reference _ => Keeps.ask_bind hc fun p hp => ?_
  refine hP.addChild (fun q hq => ?_) hc
  exact Node.component.inj hq ▸ stock_of_newComponent hp

theorem keeps_addFilter (parent : NodeId) (name function : String)
    (connectivity : Option ConnectivityId) :
    Keeps P (addFilter parent name function connectivity) := by
  intro c hc
  rw [addFilter]
  refine Keeps.ask_bind hc fun reference _ => ?_
  have hadd (f : Filter) : P (c.run (Circuit.addChild (.filter f))).2 :=
    hP.addChild (fun _ h => Node.noConfusion h) hc
  cases connectivity with
  | none => exact hadd _
  | some id => exact Keeps.ask_bind hc fun _ _ => hadd _

theorem keeps_addCandidate (F : NodeId) (connectivity : ConnectivityId) :
    Keeps P (addCandidate F connectivity) := by
  intro c hc
  rw [addCandidate]
  refine Keeps.ask_bind hc fun f hF => Keeps.ask_bind hc fun p hp => ?_
  have hstock : ∀ q, Node.component p = .component q → q.Stock c.catalog := fun q hq =>
    Node.component.inj hq ▸ stock_of_newComponent hp
  rw [run_bind, run_addNode]
  refine Keeps.ask_bind (hP.push hstock hc) fun g hG => ?_
  exact hP.filter (filter_eq_ok.1 hG) (hP.push hstock hc)

theorem keeps_linkTo (F other : NodeId) : Keeps P (linkTo F other) := by
  intro c hc
  rw [linkTo]
  refine Keeps.ask_bind hc fun f hF => ?_
  split
  · exact hP.filter (filter_eq_ok.1 hF) hc
  · exact hc

theorem keeps_linkFilters (a b : NodeId) : Keeps P (linkFilters a b) := by
  rw [linkFilters]
  exact (hP.keeps_linkTo a b).bind fun _ => hP.keeps_linkTo b a

theorem keeps_setAncillary (x : NodeId) (a : Ancillary) : Keeps P (setAncillary x a) := by
  rw [setAncillary]
  split
  · exact (Keeps.ask _).bind fun _ => hP.keeps_changeComponent x fun _ => rfl
  · exact hP.keeps_changeComponent x fun _ => rfl

theorem keeps_addAncillary (parent : NodeId) (name function : String)
    (connectivity : ConnectivityId) (a : Ancillary) :
    Keeps P (addAncillary parent name function connectivity a) := by
  rw [addAncillary]
  refine (hP.keeps_addComponent parent name function .part (some connectivity)).bind fun x => ?_
  exact (hP.keeps_setAncillary x a).bind fun _ => .pure x

theorem keeps_tryDeduce {id : FragmentId} (hid : S.rewires id) : Keeps P (tryDeduce id) := by
  rw [tryDeduce]
  refine (Keeps.ask _).bind fun f => (Keeps.ask _).bind fun n => ?_
  split
  · exact .pure _
  · refine (Keeps.ask _).bind fun answer => ?_
    split
    · exact .pure _
    · refine Keeps.bind ?_ fun _ => Keeps.bind ?_ fun _ => hP.keeps_changeFragment hid _
      · exact hP.keeps_changeInterface _ fun _ => rfl
      · exact hP.keeps_changeInterface _ fun _ => rfl

theorem keeps_forgetStale {id : FragmentId} (hid : S.rewires id) : Keeps P (forgetStale id) := by
  rw [forgetStale]
  refine (Keeps.ask _).bind fun f => ?_
  dsimp only
  split
  · refine (hP.keeps_changeFragment hid _).bind fun _ => .forM fun e _ => .forM fun u _ => ?_
    exact hP.keeps_changeInterface u.interface fun _ => rfl
  · exact .pure _

theorem keeps_repair {id : FragmentId} (hid : S.rewires id) : Keeps P (repair id) := by
  rw [repair]
  refine (hP.keeps_forgetStale hid).bind fun _ => (Keeps.ask _).bind fun f => ?_
  split
  · exact hP.keeps_tryDeduce hid
  · exact .pure _

theorem keeps_relink (F x link : NodeId) : Keeps P (relink F x link) := by
  intro c hc
  rw [run_relink, relinked]
  split
  · rename_i f hf
    exact hP.filter hf hc
  · exact hc

theorem keeps_resolveFilter {F : NodeId} (hF : S.resolves F) (x : NodeId) :
    Keeps P (resolveFilter F x) := by
  rw [resolveFilter]
  refine (Keeps.ask _).bind fun f => ?_
  have hrest : Keeps P (do
      f.links.forM (relink F x)
      let touched := (← get).touching F
      modify fun c => { c with fragments := c.fragments.map (retarget F x) }
      changeComponent x fun n =>
        { n with parent := f.parent, requirements := n.requirements ++ f.requirements }
      touched.forM repair) := by
    refine (Keeps.forM fun link _ => hP.keeps_relink F x link).bind fun _ c hc => ?_
    obtain ⟨htouching, hretargeted⟩ := hP.resolve x hF hc
    refine Keeps.get_bind (Keeps.modify_bind (Keeps.bind ?_ (fun _ => ?_) _ hretargeted))
    · exact hP.keeps_changeComponent x fun _ => rfl
    · exact .forM fun id hid => hP.keeps_repair (htouching id hid)
  split
  · refine Keeps.bind ?_ fun _ => hrest
    exact hP.keeps_changeComponent _ fun _ => rfl
  · exact hrest

/-- An adapted interface has the name that it was asked for, and a type that was not there, so it is
not that of its base. -/
theorem keeps_adaptInterface {f : Fragment} {side : Side} {a : Adaptation}
    (hadapts : ∀ c type name, f.interfaceType c side = .ok type → a.base.getD type ≠ type →
      (f.endpoint side).interface = some name → S.adapts (f.endpoint side).node name) :
    Keeps P (adaptInterface f side a) := by
  intro c hc
  rw [adaptInterface]
  refine Keeps.ask_bind hc fun n hn => ?_
  cases n with
  | filter g => exact hc
  | component p =>
    have hp := component?_eq_some.2 (node_eq_ok.1 hn)
    refine Keeps.ask_bind hc fun name hname => Keeps.ask_bind hc fun type htype =>
      Keeps.ask_bind hc fun present hpresent => ?_
    split
    · exact hc
    · rename_i hmissing
      obtain rfl := Option.not_isSome_iff_eq_none.1 hmissing
      refine Keeps.ask_bind hc fun i hi => Keeps.ask_bind hc fun base hbase =>
        Keeps.ask_bind hc fun adapted hadapted => ?_
      have hpins : p.HasPinsOf adapted := by
        refine ⟨base, ?_, pins_of_adaptedInterface hadapted⟩
        have hplace := interface_eq_ok.1 hbase
        rw [interface?, (interfaceNamed_eq_ok_iff.1 hi).1, hp] at hplace
        exact List.mem_of_getElem? hplace
      obtain ⟨assignments, _, hadapted⟩ := bind_eq_ok.1 hadapted
      obtain rfl := pure_eq_ok.1 hadapted
      have hsame : base.name = name := name_of_interfaceNamed hi (interface_eq_ok.1 hbase)
      have hother : a.base.getD type ≠ type := by
        intro h
        rw [h] at hi
        rw [interfaceNamed?_eq_ok_some.2 hi] at hpresent
        cases hpresent
      rw [run_changeComponent, component_eq_ok.2 hp, editComponent, hp]
      refine hP.adapt hp ?_ hpins ?_ hc
      · rw [hsame]
        exact matching_of_missing hp hpresent
      · rw [hsame]
        exact hadapts c type name htype hother (elim_throw_eq_ok.1 hname)

theorem keeps_adaptTerminal {f : Fragment} {side : Side} {a : Adaptation} {t : Terminal}
    (hend : f.endpoint side = Requirement.endpointOf (some a) t)
    (hadapts : ∀ name, a ≠ {} → t.interface = some name → S.adapts t.node name) :
    Keeps P (adaptInterface f side (Requirement.withBase a t)) := by
  refine hP.keeps_adaptInterface fun c type name htype hother hname => ?_
  rw [hend] at hname ⊢
  refine hadapts name ?_ hname
  rintro rfl
  refine hother ?_
  change t.type.getD type = type
  cases hgiven : t.type with
  | none => rfl
  | some given =>
    have hendType : (f.endpoint side).type = some given := by
      rw [hend]
      exact hgiven
    rw [Fragment.interfaceType_of_given hendType] at htype
    exact Except.ok.inj htype

theorem keeps_record (f : Fragment) : Keeps P (record f) := by
  intro c hc
  obtain ⟨hnext, hpush⟩ := hP.require f hc
  rw [record]
  refine Keeps.get_bind (Keeps.modify_bind (Keeps.ask_bind hpush fun owner howner => ?_))
  have hrequire : P ((c.pushFragment f).setNode f.source.node (owner.require c.nextFragment)) := by
    rw [node_eq_ok] at howner
    cases owner with
    | component p => exact hP.component (component?_eq_some.2 howner) rfl hpush
    | filter g => exact hP.filter howner hpush
  exact ((hP.keeps_tryDeduce hnext).bind fun _ => .pure _) _ hrequire

theorem keeps_require {r : Requirement}
    (hadapts : ∀ x name, (Instruction.require r).Adapts x name → S.adapts x name) :
    Keeps P (Circuit.require r) := by
  intro c hc
  rw [Circuit.require]
  refine Keeps.ask_bind hc fun f hf => ?_
  rw [Requirement.fragment] at hf
  split at hf
  · exact absurd hf throw_ne_ok
  · obtain rfl := pure_eq_ok.1 hf
    rw [addFragment]
    refine Keeps.ask_bind hc fun _ _ => ?_
    cases hadapter : r.adapter with
    | none => exact hP.keeps_record _ c hc
    | some a =>
      have hside (side : Side) (name : String) (hused : a.adaptation side ≠ {})
          (hname : (r.terminal side).interface = some name) :
          S.adapts (r.terminal side).node name :=
        hadapts _ name ⟨r, a, side, rfl, hadapter, hused, rfl, hname⟩
      refine Keeps.bind ?_ (fun _ => Keeps.bind ?_ fun _ => hP.keeps_record _) c hc
      · exact hP.keeps_adaptTerminal rfl (hside .source)
      · exact hP.keeps_adaptTerminal rfl (hside .target)

theorem keeps_perform {i : Instruction} (hadapts : ∀ x name, i.Adapts x name → S.adapts x name)
    (hresolves : ∀ F x, i = .resolve F x → S.resolves F) : Keeps P i.perform := by
  cases i with
  | part parent name function id =>
    exact .map _ (hP.keeps_addComponent parent name function .part (some id))
  | subcircuit parent name function connectivity =>
    exact .map _ (hP.keeps_addComponent parent name function .subcircuit connectivity)
  | filter parent name function connectivity =>
    exact .map _ (hP.keeps_addFilter parent name function connectivity)
  | candidate F id => exact .map _ (hP.keeps_addCandidate F id)
  | link a b => exact .seqRight (hP.keeps_linkFilters a b) _
  | resolve F x => exact .seqRight (hP.keeps_resolveFilter (hresolves F x rfl) x) _
  | ancillary parent name function id role =>
    exact .map _ (hP.keeps_addAncillary parent name function id role)
  | setAncillary x role => exact .seqRight (hP.keeps_setAncillary x role) _
  | require r =>
    exact .map _ (hP.keeps_require hadapts)

end

/-- A property of one component is steady if outlines decide it and adapters do not spoil it. -/
theorem at_component {x : NodeId} {Q : Component → Prop} {adapts : NodeId → String → Prop}
    (hcongr : ∀ p q : Component, q.outline = p.outline → Q p → Q q)
    (hadapt : ∀ (p : Component) i, matching p i.name i.interface.type = [] → adapts x i.name →
      Q p → Q { p with interfaces := p.interfaces ++ [i] }) :
    Steady (fun c => ∃ p, c.component? x = some p ∧ Q p) { adapts } where
  component := by
    rintro c y p q hy hq ⟨p', hp', hQ⟩
    rw [component?_setNode hy]
    split
    · rename_i hx
      obtain rfl := Option.some.inj (hp'.symm.trans (hx ▸ hy))
      exact ⟨q, rfl, hcongr _ q hq hQ⟩
    · exact ⟨p', hp', hQ⟩
  filter := by
    rintro c y f g hy ⟨p', hp', hQ⟩
    refine ⟨p', ?_, hQ⟩
    rw [component?_eq_some] at hp' ⊢
    rw [node?_setNode, if_neg, hp']
    rintro rfl
    cases hy.symm.trans hp'
  push := by
    rintro c n _ ⟨p', hp', hQ⟩
    exact ⟨p', component?_eq_some.2 (node?_pushNode_of_some (component?_eq_some.1 hp')), hQ⟩
  adapt := by
    rintro c y p i hy hmissing _ hallowed ⟨p', hp', hQ⟩
    rw [component?_setNode hy]
    split
    · rename_i hx
      obtain rfl := Option.some.inj (hp'.symm.trans (hx ▸ hy))
      exact ⟨_, rfl, hadapt _ i hmissing (hx ▸ hallowed) hQ⟩
    · exact ⟨p', hp', hQ⟩
  require := fun _ h => ⟨trivial, h⟩
  resolve := fun _ _ h => ⟨fun _ _ => trivial, h⟩
  rewire := fun _ _ h => h

theorem same_catalog (catalog : Catalog) : Steady (fun c => c.catalog = catalog) {} where
  component := fun _ _ h => h
  filter := fun _ h => h
  push := fun _ h => h
  adapt := fun _ _ _ _ h => h
  require := fun _ h => ⟨trivial, h⟩
  resolve := fun _ _ h => ⟨fun _ _ => trivial, h⟩
  rewire := fun _ _ h => h

theorem has_fragment (id : FragmentId) : Steady (fun c => (c.fragment? id).isSome) {} where
  component := fun _ _ h => h
  filter := fun _ h => h
  push := fun _ h => h
  adapt := fun _ _ _ _ h => h
  require := by
    intro c f h
    rw [fragment?_pushFragment]
    split
    · exact ⟨trivial, rfl⟩
    · exact ⟨trivial, h⟩
  resolve := by
    intro c F x _ h
    rw [fragment?] at h ⊢
    rw [retargeted, Array.getElem?_map, Option.isSome_map]
    exact ⟨fun _ _ => trivial, h⟩
  rewire := by
    intro c j g _ h
    rw [fragment?_editFragment]
    split
    · rwa [Option.isSome_map]
    · exact h

/-- A fragment stays as it is until a filter at one of its ends is resolved. -/
theorem same_fragment (id : FragmentId) (f : Fragment) : Steady (fun c => c.fragment? id = some f)
    { resolves := fun F => f.source.node ≠ F ∧ f.target.node ≠ F, rewires := (· ≠ id) } where
  component := fun _ _ h => h
  filter := fun _ h => h
  push := fun _ h => h
  adapt := fun _ _ _ _ h => h
  require := by
    intro c g h
    have hne : c.nextFragment ≠ id := by
      rintro rfl
      simp [fragment?, nextFragment] at h
    exact ⟨hne, by rw [fragment?_pushFragment, if_neg hne.symm, h]⟩
  resolve := by
    rintro c F x ⟨hsource, htarget⟩ h
    refine ⟨fun j hj => ?_, ?_⟩
    · rintro rfl
      have hends := (List.mem_filter.1 hj).2
      rw [fragment?] at h
      simp [h, hsource, htarget] at hends
    · have hsame : Circuit.retarget F x f = f := by
        rw [Circuit.retarget, replace, replace, if_neg hsource, if_neg htarget]
      rw [fragment?] at h ⊢
      rw [retargeted, Array.getElem?_map, h, Option.map_some, hsame]
  rewire := by
    intro c j g hj h
    rw [fragment?_editFragment, if_neg (Ne.symm hj), h]

end Steady

/-- All components offer what their connectivities give them. -/
def Stocked (c : Circuit) : Prop := ∀ x p, c.component? x = some p → p.Stock c.catalog

namespace Steady

/-- A property of all components is steady if outlines decide it, new components have it and
adapters do not spoil it. -/
theorem at_components {Q : Catalog → Component → Prop} {adapts : NodeId → String → Prop}
    (hcongr : ∀ catalog p q, q.outline = p.outline → Q catalog p → Q catalog q)
    (hstock : ∀ catalog p, p.Stock catalog → Q catalog p)
    (hadapt : ∀ catalog x p i, p.HasPinsOf i → adapts x i.name → Q catalog p →
      Q catalog { p with interfaces := p.interfaces ++ [i] }) :
    Steady (fun c => ∀ x p, c.component? x = some p → Q c.catalog p) { adapts } where
  component := by
    intro c x p q hx hq h y p' hp'
    rw [component?_setNode hx] at hp'
    split at hp'
    · exact Option.some.inj hp' ▸ hcongr c.catalog p q hq (h x p hx)
    · exact h y p' hp'
  filter := by
    intro c x f g hx h y p hp
    rw [component?_eq_some, node?_setNode] at hp
    split at hp
    · obtain ⟨_, _, hg⟩ := Option.map_eq_some_iff.1 hp
      cases hg
    · exact h y p (component?_eq_some.2 hp)
  push := by
    intro c n hn h y p hp
    rw [component?_eq_some, node?_pushNode] at hp
    split at hp
    · exact hstock c.catalog p (hn p (Option.some.inj hp))
    · exact h y p (component?_eq_some.2 hp)
  adapt := by
    intro c x p i hx _ hpins hallowed h y p' hp'
    rw [component?_setNode hx] at hp'
    split at hp'
    · exact Option.some.inj hp' ▸ hadapt c.catalog x p i hpins hallowed (h x p hx)
    · exact h y p' hp'
  require := fun _ h => ⟨trivial, h⟩
  resolve := fun _ _ h => ⟨fun _ _ => trivial, h⟩
  rewire := fun _ _ h => h

/-- Without adapters, components go on to offer what their connectivities give them. -/
theorem stocked : Steady Stocked { adapts := fun _ _ => False } :=
  at_components (fun _ _ _ hq hp => hp.congr hq) (fun _ _ hp => hp) fun _ _ _ _ _ h => h.elim

end Steady

theorem stocked_new (catalog : Catalog) : (new catalog).Stocked := by
  rintro ⟨k⟩ p hp
  rw [component?_eq_some] at hp
  cases k with
  | zero =>
    cases hp
    rfl
  | succ k => cases hp

/-- Circuits that building steps without adapters make out of the root alone. -/
def Unadapted (c : Circuit) : Prop := ∃ catalog steps,
  (∀ i ∈ steps, ∀ r, i = .require r → r.adapter = none) ∧ c = (new catalog).after steps

theorem Unadapted.reachable {c : Circuit} (hc : c.Unadapted) : c.Reachable := by
  obtain ⟨catalog, steps, _, rfl⟩ := hc
  exact ⟨catalog, steps, rfl⟩

theorem Unadapted.stocked {c : Circuit} (hc : c.Unadapted) : c.Stocked := by
  obtain ⟨catalog, steps, hsteps, rfl⟩ := hc
  have hrun (c : Circuit) (hc : c.Stocked) : (c.after steps).Stocked := by
    induction steps generalizing c with
    | nil => exact hc
    | cons i steps ih =>
      obtain ⟨hi, hrest⟩ := List.forall_mem_cons.1 hsteps
      refine ih hrest _ (Steady.stocked.keeps_perform (fun x name h => ?_) (fun _ _ _ => trivial)
        c hc)
      obtain ⟨r, a, side, hr, hadapter, _⟩ := h
      rw [hi r hr] at hadapter
      cases hadapter
  exact hrun _ (stocked_new catalog)

end Circuit
end BoardNets
