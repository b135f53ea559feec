import BoardNets.Proofs.Circuit.Edits

/-! Building steps are edits. The circuit has a footing that every edit keeps: the root is there,
filters name parents and candidates that are there, and fragments hold uses of interfaces that are
there. On this footing none of the parts of an edit can fail after the first. -/
namespace BoardNets

theorem Component.Grows.same {p q : Component} (kind : q.kind = p.kind) (pins : q.pins = p.pins)
    (interfaces : q.interfaces = p.interfaces) : p.Grows q where
  kind := kind
  pins := pins
  interfaces := fun _ x hx => ⟨x, by rw [interfaces, hx], rfl, rfl⟩

namespace Circuit

variable {c c' : Circuit}

theorem grows_swapped (parent : Option NodeId) (F x : NodeId) :
    c.Grows (c.swapped parent F x) := by
  cases parent with
  | none => exact .refl c
  | some parent => exact .editComponent fun p => .same rfl rfl rfl

theorem grows_relinked (F x link : NodeId) : c.Grows (c.relinked F x link) := by
  rw [relinked]
  split
  · rename_i f hf
    exact .setFilter hf
  · exact .refl c

theorem grows_relinkAll (F x : NodeId) (links : List NodeId) :
    c.Grows (links.foldl (relinked F x) c) := by
  induction links generalizing c with
  | nil => exact .refl c
  | cons link links ih => exact (grows_relinked F x link).trans ih

theorem grows_activate (i : InterfaceRef) (more : Connections) :
    c.Grows (c.editInterface i (·.activate more)) :=
  .editInterface fun _ => ⟨rfl, rfl⟩

theorem grows_release (entry : InterfacePinId × PinUse) : c.Grows (c.release entry) :=
  .editInterface fun _ => ⟨rfl, rfl⟩

theorem grows_releaseAll (entries : List (InterfacePinId × PinUse)) :
    c.Grows (entries.foldl release c) := by
  induction entries generalizing c with
  | nil => exact .refl c
  | cons e entries ih => exact (grows_release e).trans ih

theorem grows_require {f : Fragment} {owner : Node} (h : c.node? f.source.node = some owner) :
    c.Grows ((c.pushFragment f).setNode f.source.node (owner.require c.nextFragment)) := by
  refine (Grows.pushFragment c f).trans ?_
  cases owner with
  | component p =>
    have hp : (c.pushFragment f).component? f.source.node = some p := component?_eq_some.2 h
    have hedit : (c.pushFragment f).setNode f.source.node
        ((Node.component p).require c.nextFragment) =
          (c.pushFragment f).editComponent f.source.node fun p =>
            { p with requirements := p.requirements ++ [c.nextFragment] } := by
      rw [editComponent, hp]
      rfl
    rw [hedit]
    exact .editComponent fun p => .same rfl rfl rfl
  | filter g => exact .setFilter h

theorem Edit.grows (h : Edit c c') : c.Grows c' := by
  cases h with
  | child _ _ _ _ => exact (Grows.pushNode _).trans (.editComponent fun p => .same rfl rfl rfl)
  | candidate hF _ _ _ _ =>
    exact (Grows.pushNode _).trans (.setFilter (node?_pushNode_of_some hF))
  | link hF => exact .setFilter hF
  | ancillary => exact .editComponent fun p => .same rfl rfl rfl
  | adapt _ _ => exact .editComponent fun p => .append _
  | require _ _ howner => exact grows_require howner
  | stray _ _ _ => exact .pushFragment c _
  | wire _ _ _ _ =>
    exact ((grows_activate _ _).trans (grows_activate _ _)).trans (.editFragment _ _ _)
  | @unwire id _ _ _ => exact (Grows.editFragment c id Fragment.bare).trans (grows_releaseAll _)
  | resolve _ _ =>
    exact (((grows_swapped _ _ _).trans (grows_relinkAll _ _ _)).trans
      (.fragments _ _)).trans (.editComponent fun p => .same rfl rfl rfl)

section View

variable {β : Type} {V : Option Node → β}

theorem view_editInterface
    (hV : ∀ p interfaces, V (some (.component { p with interfaces })) = V (some (.component p)))
    (i : InterfaceRef) (g : ComponentInterface → ComponentInterface) (x : NodeId) :
    V ((c.editInterface i g).node? x) = V (c.node? x) :=
  view_editComponent (fun p => hV p _) x

theorem view_releaseAll
    (hV : ∀ p interfaces, V (some (.component { p with interfaces })) = V (some (.component p)))
    (entries : List (InterfacePinId × PinUse)) (x : NodeId) :
    V ((entries.foldl release c).node? x) = V (c.node? x) := by
  induction entries generalizing c with
  | nil => rfl
  | cons e entries ih => exact ih.trans (view_editInterface hV _ _ x)

theorem view_wired
    (hV : ∀ p interfaces, V (some (.component { p with interfaces })) = V (some (.component p)))
    (id : FragmentId) (w : Wiring) (x : NodeId) :
    V ((c.wired id w).node? x) = V (c.node? x) :=
  (view_editInterface hV w.targetInterface _ x).trans (view_editInterface hV w.sourceInterface _ x)

theorem view_swapped
    (hV : ∀ p children, V (some (.component { p with children })) = V (some (.component p)))
    (parent : Option NodeId) (F x y : NodeId) :
    V ((c.swapped parent F x).node? y) = V (c.node? y) := by
  cases parent with
  | none => rfl
  | some parent => exact view_editComponent (fun p => hV p _) y

theorem view_relinkAll
    (hV : ∀ f links, V (some (.filter { f with links })) = V (some (.filter f)))
    (F x : NodeId) (links : List NodeId) (y : NodeId) :
    V ((links.foldl (relinked F x) c).node? y) = V (c.node? y) := by
  induction links generalizing c with
  | nil => rfl
  | cons link links ih =>
    refine ih.trans ?_
    rw [relinked]
    split
    · rename_i f hf
      exact view_setNode hf (hV f _) y
    · rfl

/-- The filter is replaced in the tree and among the links of others. -/
theorem view_replaced
    (hchildren : ∀ p children,
      V (some (.component { p with children })) = V (some (.component p)))
    (hlinks : ∀ f links, V (some (.filter { f with links })) = V (some (.filter f)))
    (parent : Option NodeId) (F x : NodeId) (links : List NodeId) (y : NodeId) :
    V ((links.foldl (relinked F x) (c.swapped parent F x)).node? y) = V (c.node? y) :=
  (view_relinkAll hlinks F x links y).trans (view_swapped hchildren parent F x y)

end View

/-- The parent and the candidates of a filter are components. -/
def Settled (c : Circuit) (f : Filter) : Prop :=
  (∀ x ∈ f.feasible, (c.component? x).isSome) ∧ ∀ p, f.parent = some p → (c.component? p).isSome

structure Base (c : Circuit) : Prop where
  root : (c.component? root).isSome
  filters : ∀ F f, c.node? F = some (.filter f) → c.Settled f
  placed : ∀ id f, c.fragment? id = some f → ∀ e ∈ f.entries, (c.interface? e.2.interface).isSome

theorem Settled.grows {f : Filter} (hf : c.Settled f) (h : c.Grows c') : c'.Settled f :=
  ⟨fun x hx => h.component_isSome (hf.1 x hx), fun p hp => h.component_isSome (hf.2 p hp)⟩

def choices : Option Node → Option (List NodeId × Option NodeId)
  | some (.filter f) => some (f.feasible, f.parent)
  | _ => none

theorem filter_of_choices {n m : Option Node} {g : Filter} (h : choices m = choices n)
    (hm : m = some (.filter g)) :
    ∃ f, n = some (.filter f) ∧ g.feasible = f.feasible ∧ g.parent = f.parent := by
  subst hm
  match n with
  | none => cases h
  | some (.component p) => cases h
  | some (.filter f) =>
    obtain ⟨hfeasible, hparent⟩ := Prod.mk.inj (Option.some.inj h)
    exact ⟨f, rfl, hfeasible, hparent⟩

theorem choices_resolved (F x : NodeId) (f : Filter) (y : NodeId) :
    choices ((c.resolved F x f).node? y) = choices (c.node? y) := by
  have hreplaced := view_replaced (c := c) (V := choices) (fun _ _ => rfl) (fun _ _ => rfl)
    f.parent F x f.links y
  exact (view_editComponent (fun _ => by rfl) y).trans hreplaced

theorem choices_require {f : Fragment} {owner : Node} (h : c.node? f.source.node = some owner)
    (y : NodeId) : choices (((c.pushFragment f).setNode f.source.node
      (owner.require c.nextFragment)).node? y) = choices (c.node? y) := by
  have hsame : choices (some (owner.require c.nextFragment)) = choices (some owner) := by
    cases owner <;> rfl
  exact view_setNode (c := c.pushFragment f) h hsame y

/-- What an edit makes of filters: they keep their parent and candidates, are new, or have another
candidate. -/
theorem Edit.filter (h : Edit c c') {y : NodeId} {g : Filter} (hg : c'.node? y = some (.filter g)) :
    (∃ f, c.node? y = some (.filter f) ∧ g.feasible = f.feasible ∧ g.parent = f.parent) ∨
    (g.feasible = [] ∧ ∃ p, g.parent = some p ∧ (c.component? p).isSome) ∨
    ∃ f, c.node? y = some (.filter f) ∧ g.feasible = f.feasible ++ [c.nextNode] ∧
      g.parent = f.parent ∧ (c'.component? c.nextNode).isSome := by
  have kept (hsame : choices (c'.node? y) = choices (c.node? y)) :
      ∃ f, c.node? y = some (.filter f) ∧ g.feasible = f.feasible ∧ g.parent = f.parent :=
    filter_of_choices hsame hg
  cases h with
  | @child parent name n _ hparent hfresh hp =>
    obtain ⟨f, hf, hfeasible, hsame⟩ :=
      filter_of_choices (view_editComponent (fun _ => by rfl) y) hg
    rw [node?_pushNode] at hf
    split at hf
    · obtain rfl := Option.some.inj hf
      exact .inr (.inl ⟨hfeasible.trans hfresh.2.1, parent, hsame.trans hparent, hp⟩)
    · exact .inl ⟨f, hf, hfeasible, hsame⟩
  | @candidate F f p hF _ _ _ _ =>
    have hpush := node?_pushNode_of_some (m := .component p) hF
    have hnext : ((c.pushNode (.component p)).component? c.nextNode).isSome := by
      simp [component?, node?_pushNode]
    rw [node?_setNode] at hg
    split at hg
    · rename_i hy
      rw [hy, hpush, Option.map_some] at hg
      cases hg
      exact .inr (.inr ⟨f, hy ▸ hF, rfl, rfl, (Grows.setFilter hpush).component_isSome hnext⟩)
    · exact .inl (filter_of_choices (view_pushNode (by rfl) y) hg)
  | link hF => exact .inl (kept (view_setNode hF (by rfl) y))
  | ancillary => exact .inl (kept (view_editComponent (fun _ => by rfl) y))
  | adapt _ _ => exact .inl (kept (view_editComponent (fun _ => by rfl) y))
  | require _ _ howner => exact .inl (kept (choices_require howner y))
  | stray _ _ _ => exact .inl (kept rfl)
  | @wire id f w _ _ _ _ => exact .inl (kept (view_wired (fun _ _ => by rfl) id w y))
  | @unwire id f _ _ => exact .inl (kept (view_releaseAll (fun _ _ => by rfl) f.entries y))
  | @resolve F x f _ _ => exact .inl (kept (choices_resolved F x f y))

theorem Edit.keeps_filter (h : Edit c c') {F : NodeId} {k : Filter}
    (hF : c.node? F = some (.filter k)) :
    ∃ k', c'.node? F = some (.filter k') ∧ k.feasible <+: k'.feasible := by
  have kept {d : Circuit} (hsame : choices (d.node? F) = choices (c.node? F)) :
      ∃ k', d.node? F = some (.filter k') ∧ k.feasible <+: k'.feasible := by
    obtain ⟨k', hk', hfeasible, _⟩ := filter_of_choices hsame.symm hF
    exact ⟨k', hk', hfeasible ▸ List.prefix_rfl⟩
  have pushed (n : Node) : (c.pushNode n).node? F = some (.filter k) := node?_pushNode_of_some hF
  cases h with
  | @child parent name n _ _ _ _ =>
    have hsame : choices (((c.pushNode n).editComponent parent fun p =>
        { p with children := p.children ++ [c.nextNode] }).node? F) =
          choices ((c.pushNode n).node? F) := view_editComponent (fun _ => by rfl) F
    obtain ⟨k', hk', hfeasible, _⟩ := filter_of_choices hsame.symm (pushed n)
    exact ⟨k', hk', hfeasible ▸ List.prefix_rfl⟩
  | @candidate G g p hG _ _ _ _ =>
    rw [node?_setNode, pushed]
    by_cases hFG : F = G
    · subst hFG
      obtain rfl := Node.filter.inj (Option.some.inj (hF.symm.trans hG))
      rw [if_pos rfl]
      exact ⟨_, rfl, List.prefix_append _ _⟩
    · rw [if_neg hFG]
      exact ⟨k, rfl, List.prefix_rfl⟩
  | link hG => exact kept (view_setNode hG (by rfl) F)
  | ancillary => exact kept (view_editComponent (fun _ => by rfl) F)
  | adapt _ _ => exact kept (view_editComponent (fun _ => by rfl) F)
  | require _ _ howner => exact kept (choices_require howner F)
  | stray _ _ _ => exact kept rfl
  | @wire id f w _ _ _ _ => exact kept (view_wired (fun _ _ => by rfl) id w F)
  | @unwire id f _ _ => exact kept (view_releaseAll (fun _ _ => by rfl) f.entries F)
  | @resolve G x g _ _ => exact kept (choices_resolved G x g F)

theorem Base.filters_edit (hc : c.Base) (h : Edit c c') {y : NodeId} {g : Filter}
    (hg : c'.node? y = some (.filter g)) : c'.Settled g := by
  have hgrows := h.grows
  rcases h.filter hg with ⟨f, hf, hfeasible, hparent⟩ | ⟨hfeasible, p, hparent, hp⟩ |
    ⟨f, hf, hfeasible, hparent, hnext⟩
  · have hsettled := (hc.filters y f hf).grows hgrows
    rwa [Settled, hfeasible, hparent]
  · refine ⟨by simp [hfeasible], fun p' hp' => ?_⟩
    obtain rfl := Option.some.inj (hparent.symm.trans hp')
    exact hgrows.component_isSome hp
  · have hsettled := (hc.filters y f hf).grows hgrows
    refine ⟨fun x hx => ?_, by rw [hparent]; exact hsettled.2⟩
    rw [hfeasible, List.mem_append, List.mem_singleton] at hx
    rcases hx with hx | rfl
    · exact hsettled.1 x hx
    · exact hnext

theorem fragments_releaseAll (entries : List (InterfacePinId × PinUse)) :
    (entries.foldl release c).fragments = c.fragments := by
  induction entries generalizing c with
  | nil => rfl
  | cons e entries ih =>
    rw [List.foldl_cons, ih]
    exact fragments_editComponent _ _

theorem fragments_relinkAll (F x : NodeId) (links : List NodeId) :
    (links.foldl (relinked F x) c).fragments = c.fragments := by
  induction links generalizing c with
  | nil => rfl
  | cons link links ih =>
    rw [List.foldl_cons, ih, relinked]
    split <;> rfl

theorem fragments_swapped (parent : Option NodeId) (F x : NodeId) :
    (c.swapped parent F x).fragments = c.fragments := by
  cases parent with
  | none => rfl
  | some parent => exact fragments_editComponent _ _

theorem fragments_resolved (F x : NodeId) (f : Filter) :
    (c.resolved F x f).fragments = c.fragments.map (retarget F x) := by
  rw [resolved, inherited, fragments_editComponent, retargeted, fragments_relinkAll,
    fragments_swapped]

theorem fragments_wired (id : FragmentId) (w : Wiring) :
    (c.wired id w).fragments = c.fragments.modify id.index (·.holding w.pairing) := by
  rw [wired, editFragment, editInterface, editInterface, fragments_editComponent,
    fragments_editComponent]

theorem fragments_unwired (id : FragmentId) (f : Fragment) :
    (c.unwired id f).fragments = c.fragments.modify id.index Fragment.bare := by
  rw [unwired, fragments_releaseAll, editFragment]

theorem fragment?_editComponent {id : NodeId} {g : Component → Component} {x : FragmentId} :
    (c.editComponent id g).fragment? x = c.fragment? x := by
  rw [fragment?, fragments_editComponent]
  rfl

theorem fragment?_wired {id x : FragmentId} {w : Wiring} : (c.wired id w).fragment? x =
    if x = id then (c.fragment? x).map (·.holding w.pairing) else c.fragment? x := by
  rw [fragment?, fragments_wired]
  exact fragment?_editFragment

theorem fragment?_unwired {id x : FragmentId} {f : Fragment} : (c.unwired id f).fragment? x =
    if x = id then (c.fragment? x).map Fragment.bare else c.fragment? x := by
  rw [fragment?, fragments_unwired]
  exact fragment?_editFragment

theorem fragment?_resolved {F x : NodeId} {f : Filter} {id : FragmentId} :
    (c.resolved F x f).fragment? id = (c.fragment? id).map (retarget F x) := by
  rw [fragment?, fragments_resolved, Array.getElem?_map]
  rfl

theorem mem_entries_holding {f : Fragment} {p : Pairing} {e : InterfacePinId × PinUse}
    (h : e ∈ (f.holding p).entries) :
    e ∈ p.source.entries ∨ e ∈ p.target.entries ∨ e ∈ f.entries := by
  rcases List.mem_append.1 h with h | h
  · rcases Connections.mem_entries_insertAll h with h | h
    · exact .inl h
    · exact .inr (.inr (List.mem_append_left _ h))
  · rcases Connections.mem_entries_insertAll h with h | h
    · exact .inr (.inl h)
    · exact .inr (.inr (List.mem_append_right _ h))

theorem entries_eq_nil {f : Fragment} (hsource : f.source.connections = ∅)
    (htarget : f.target.connections = ∅) : f.entries = [] := by
  rw [Fragment.entries, hsource, htarget]
  rfl

/-- What an edit makes of fragments: they keep their connections, have none, or are wired. -/
theorem Edit.fragment (h : Edit c c') {id : FragmentId} {g : Fragment}
    (hg : c'.fragment? id = some g) :
    (∃ f, c.fragment? id = some f ∧ g.source.connections = f.source.connections ∧
      g.target.connections = f.target.connections) ∨
    (g.source.connections = ∅ ∧ g.target.connections = ∅) ∨
    ∃ f w, c.fragment? id = some f ∧ f.source.connections = ∅ ∧
      f.deduce c f.source.node = .ok (.resolved w) ∧ g = f.holding w.pairing := by
  have pushed {f : Fragment} (hsource : f.source.connections = ∅)
      (htarget : f.target.connections = ∅) (hg : (c.pushFragment f).fragment? id = some g) :
      (∃ f, c.fragment? id = some f ∧ g.source.connections = f.source.connections ∧
        g.target.connections = f.target.connections) ∨
      (g.source.connections = ∅ ∧ g.target.connections = ∅) := by
    rw [fragment?_pushFragment] at hg
    split at hg
    · obtain rfl := Option.some.inj hg
      exact .inr ⟨hsource, htarget⟩
    · exact .inl ⟨g, hg, rfl, rfl⟩
  cases h with
  | child _ _ _ _ => exact .inl ⟨g, by rwa [fragment?_editComponent] at hg, rfl, rfl⟩
  | candidate _ _ _ _ _ => exact .inl ⟨g, hg, rfl, rfl⟩
  | link _ => exact .inl ⟨g, hg, rfl, rfl⟩
  | ancillary => exact .inl ⟨g, by rwa [fragment?_editComponent] at hg, rfl, rfl⟩
  | adapt _ _ => exact .inl ⟨g, by rwa [fragment?_editComponent] at hg, rfl, rfl⟩
  | require hsource htarget _ => exact (pushed hsource htarget hg).imp_right .inl
  | stray hsource htarget _ => exact (pushed hsource htarget hg).imp_right .inl
  | @wire id' f w hf hsource _ hdeduce =>
    rw [fragment?_wired] at hg
    split at hg
    · rename_i hid
      rw [hid, hf, Option.map_some] at hg
      exact .inr (.inr ⟨f, w, hid ▸ hf, hsource, hdeduce, (Option.some.inj hg).symm⟩)
    · exact .inl ⟨g, hg, rfl, rfl⟩
  | unwire _ _ =>
    rw [fragment?_unwired] at hg
    split at hg
    · obtain ⟨f, _, rfl⟩ := Option.map_eq_some_iff.1 hg
      exact .inr (.inl ⟨rfl, rfl⟩)
    · exact .inl ⟨g, hg, rfl, rfl⟩
  | resolve _ _ =>
    rw [fragment?_resolved] at hg
    obtain ⟨f, hf, rfl⟩ := Option.map_eq_some_iff.1 hg
    exact .inl ⟨f, hf, rfl, rfl⟩

theorem Base.placed_edit (hc : c.Base) (h : Edit c c') {id : FragmentId} {g : Fragment}
    (hg : c'.fragment? id = some g) : ∀ e ∈ g.entries, (c'.interface? e.2.interface).isSome := by
  have hgrows := h.grows
  rcases h.fragment hg with ⟨f, hf, hsource, htarget⟩ | ⟨hsource, htarget⟩ |
    ⟨f, w, hf, _, hdeduce, rfl⟩
  · intro e he
    rw [Fragment.entries, hsource, htarget] at he
    exact hgrows.interface_isSome (hc.placed id f hf e he)
  · rw [entries_eq_nil hsource htarget]
    exact List.forall_mem_nil _
  · have hsound := Fragment.sound_of_deduce hdeduce
    intro e he
    rcases mem_entries_holding he with he | he | he
    · rw [(hsound.on.source _ (Connections.mem_uses_of_mem_entries he)).1]
      exact hgrows.interface_isSome hsound.source
    · rw [(hsound.on.target _ (Connections.mem_uses_of_mem_entries he)).1]
      exact hgrows.interface_isSome hsound.target
    · exact hgrows.interface_isSome (hc.placed id f hf e he)

theorem Base.edit (hc : c.Base) (h : Edit c c') : c'.Base where
  root := h.grows.component_isSome hc.root
  filters := fun _ _ => hc.filters_edit h
  placed := fun _ _ => hc.placed_edit h

theorem Base.edits (hc : c.Base) (h : Relation.ReflTransGen Edit c c') : c'.Base := by
  induction h with
  | refl => exact hc
  | tail _ hedit ih => exact ih.edit hedit

theorem isSome_component_edits (h : Relation.ReflTransGen Edit c c') {x : NodeId}
    (hx : (c.component? x).isSome) : (c'.component? x).isSome := by
  induction h with
  | refl => exact hx
  | tail _ hedit ih => exact hedit.grows.component_isSome ih

theorem edits_keep_filter (h : Relation.ReflTransGen Edit c c') {F : NodeId} {k : Filter}
    (hF : c.node? F = some (.filter k)) : ∃ k', c'.node? F = some (.filter k') := by
  induction h with
  | refl => exact ⟨k, hF⟩
  | tail _ hedit ih =>
    obtain ⟨k', hk'⟩ := ih
    obtain ⟨k'', hk'', _⟩ := hedit.keeps_filter hk'
    exact ⟨k'', hk''⟩

theorem base_new (catalog : Catalog) : (new catalog).Base where
  root := rfl
  filters := by
    intro F f hF
    obtain ⟨k⟩ := F
    cases k with
    | zero => cases hF
    | succ k => cases hF
  placed := by
    intro id f hf
    cases hf

end Circuit
end BoardNets
