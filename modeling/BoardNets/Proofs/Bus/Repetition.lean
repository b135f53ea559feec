import BoardNets.Proofs.Circuit.Repetition
import BoardNets.Proofs.Graph.Order
import BoardNets.Proofs.Net.Shape

/-! Buses of a requirement that is made twice. The repetition becomes a member between the ends of
the first one. Its edge joins interfaces that are joined already and brings no new ones, so each bus
is where it was, with one more member at most; and as that member comes after the first one, the
reference of the bus is still that of its first fragment. -/
namespace BoardNets

/-- The member under another fragment. -/
def BusMember.under (m : BusMember) (id : FragmentId) : BusMember := { m with fragment := id }

/-- The members `ms'` are the members `ms` and, behind members of fragment `id`, the same members
under fragment `next`. -/
inductive Echoes (id next : FragmentId) : List BusMember → List BusMember → Prop
  | nil : Echoes id next [] []
  | keep {ms ms' : List BusMember} (m : BusMember) (h : Echoes id next ms ms') :
    Echoes id next (ms ++ [m]) (ms' ++ [m])
  | echo {ms ms' : List BusMember} {m : BusMember} (h : Echoes id next ms ms') (hm : m ∈ ms)
    (hid : m.fragment = id) : Echoes id next ms (ms' ++ [m.under next])

namespace Echoes

variable {id next : FragmentId} {ms ms' ts ts' : List BusMember}

theorem append (h : Echoes id next ms ms') (ht : Echoes id next ts ts') :
    Echoes id next (ms ++ ts) (ms' ++ ts') := by
  induction ht with
  | nil => simpa using h
  | keep m _ ih =>
    rw [← List.append_assoc, ← List.append_assoc]
    exact ih.keep m
  | echo _ hm hid ih =>
    rw [← List.append_assoc]
    exact ih.echo (List.mem_append_right _ hm) hid

theorem refl (ms : List BusMember) : Echoes id next ms ms := by
  induction ms using List.reverseRecOn with
  | nil => exact .nil
  | append_singleton ms m ih => exact ih.keep m

theorem flatten {lists lists' : List (List BusMember)}
    (h : List.Forall₂ (Echoes id next) lists lists') :
    Echoes id next lists.flatten lists'.flatten := by
  induction h with
  | nil => exact .nil
  | cons hfirst _ ih => exact hfirst.append ih

theorem filter {P : BusMember → Bool} (hP : ∀ m, P (m.under next) = P m)
    (h : Echoes id next ms ms') : Echoes id next (ms.filter P) (ms'.filter P) := by
  induction h with
  | nil => exact .nil
  | keep m _ ih =>
    rw [List.filter_append, List.filter_append]
    exact ih.append (.refl _)
  | @echo _ _ m _ hm hid ih =>
    rw [List.filter_append]
    by_cases hkept : P m = true
    · rw [List.filter_singleton, hP, hkept]
      exact ih.echo (List.mem_filter.2 ⟨hm, hkept⟩) hid
    · rw [List.filter_singleton, hP, Bool.eq_false_iff.2 hkept]
      simpa using ih

theorem mem (h : Echoes id next ms ms') {m : BusMember} (hm : m ∈ ms) : m ∈ ms' := by
  induction h with
  | nil => exact hm
  | keep _ _ ih =>
    rw [List.mem_append] at hm ⊢
    exact hm.imp_left ih
  | echo _ _ _ ih => exact List.mem_append_left _ (ih hm)

theorem cases_mem (h : Echoes id next ms ms') {m' : BusMember} (hm' : m' ∈ ms') :
    m' ∈ ms ∨ ∃ m ∈ ms, m.fragment = id ∧ m' = m.under next := by
  induction h with
  | nil => exact .inl hm'
  | keep m _ ih =>
    rw [List.mem_append] at hm'
    rcases hm' with hm' | hm'
    · rcases ih hm' with hold | ⟨m, hm, hid, rfl⟩
      · exact .inl (List.mem_append_left _ hold)
      · exact .inr ⟨m, List.mem_append_left _ hm, hid, rfl⟩
    · exact .inl (List.mem_append_right _ hm')
  | @echo _ _ m _ hm hid ih =>
    rw [List.mem_append, List.mem_singleton] at hm'
    rcases hm' with hm' | rfl
    · exact ih hm'
    · exact .inr ⟨m, hm, hid, rfl⟩

theorem nodes_joined (h : Echoes id next ms ms') : (joined ms').nodes = (joined ms).nodes := by
  have hsnoc (ms : List BusMember) (m : BusMember) :
      joined (ms ++ [m]) = (joined ms).addEdge m.sourceInterface m.targetInterface :=
    List.foldl_concat ..
  -- members are joined from the first to the last, so the induction is on where the list ends
  induction h with
  | nil => rfl
  | keep m _ ih =>
    rw [hsnoc, hsnoc]
    exact Graph.nodes_addEdge_congr ih _ _
  | @echo ms _ m _ hm _ ih =>
    have hin {i : InterfaceRef} (hi : i = m.sourceInterface ∨ i = m.targetInterface) :
        i ∈ (joined ms).nodes := Circuit.mem_nodes_joined.2 (.inr ⟨m, hm, hi⟩)
    rw [hsnoc]
    exact (Graph.nodes_addEdge_congr ih _ _).trans
      (Graph.nodes_addEdge_of_mem (hin (.inl rfl)) (hin (.inr rfl)))

theorem components_joined (h : Echoes id next ms ms') :
    (joined ms').components = (joined ms).components := by
  refine Graph.components_congr (wellFormed_joined _) (wellFormed_joined _) h.nodes_joined
    fun e => ?_
  rw [mem_edges_joined, mem_edges_joined]
  constructor
  · rintro ⟨m', hm', rfl⟩
    rcases h.cases_mem hm' with hold | ⟨m, hm, _, rfl⟩
    · exact ⟨m', hold, rfl⟩
    · exact ⟨m, hm, rfl⟩
  · rintro ⟨m, hm, rfl⟩
    exact ⟨m, h.mem hm, rfl⟩

theorem head?_ofList (h : Echoes id next ms ms') (hlt : id.index < next.index) :
    (SortedSet.ofList ms').toList.head? = (SortedSet.ofList ms).toList.head? := by
  refine SortedSet.head?_congr (fun m hm => ?_) fun m' hm' => ?_
  · rw [SortedSet.mem_ofList] at hm ⊢
    exact h.mem hm
  · simp only [SortedSet.mem_ofList] at hm' ⊢
    refine (h.cases_mem hm').imp_right ?_
    rintro ⟨m, hm, rfl, rfl⟩
    refine ⟨m, hm, ?_⟩
    -- keys begin with the fragment
    change compare m.key (m.under next).key = .lt
    rw [BusMember.key, BusMember.key, List.compare_cons_cons, BusMember.under,
      Nat.compare_eq_lt.2 hlt]
    rfl

end Echoes

namespace Circuit

variable {c c' : Circuit}

def membersAt (c : Circuit) (x : NodeId) : Result (List BusMember) := do
  (← c.component x).requirements.mapM c.busMember

theorem membersAt_eq_ok {x : NodeId} {ms : List BusMember} : c.membersAt x = .ok ms ↔
    (∃ p, c.component x = .ok p) ∧ (c.requirementsOf x).mapM c.busMember = .ok ms := by
  rw [membersAt, bind_eq_ok]
  constructor
  · rintro ⟨p, hp, hms⟩
    rw [requirementsOf_eq (component?_eq_some.1 (component_eq_ok.1 hp))]
    exact ⟨⟨p, hp⟩, hms⟩
  · rintro ⟨⟨p, hp⟩, hms⟩
    rw [requirementsOf_eq (component?_eq_some.1 (component_eq_ok.1 hp))] at hms
    exact ⟨p, hp, hms⟩

theorem Knows.ne_nextFragment {m : BusMember} (hm : c.Knows m) :
    m.fragment ≠ c.nextFragment := by
  obtain ⟨f, _, _, hf, _⟩ := busMember_eq_ok.1 hm
  intro hnext
  rw [hnext, fragment?_nextFragment] at hf
  cases hf

/-- A bus of the circuit `c'` is the bus of `c` but for a member under the fragment `next`. -/
structure EchoedBus (c c' : Circuit) (next : FragmentId) (b b' : Bus) : Prop
    extends SameFragments c c' b b' where
  reference : b'.reference = b.reference
  fragments : ∀ j, j ≠ next → (j ∈ b'.fragments ↔ j ∈ b.fragments)

namespace Repeats

variable {id : FragmentId} {g : Fragment} (h : c.Repeats c' id g)
include h

theorem lt_next : id.index < c.nextFragment.index :=
  (Array.getElem?_eq_some_iff.1 h.original).1

theorem busMember_of_ne {j : FragmentId} (hj : j ≠ c.nextFragment) {m : BusMember} :
    c'.busMember j = .ok m ↔ c.busMember j = .ok m := by
  simp only [busMember_eq_ok, h.fragment?_of_ne hj, h.resembles.interface_eq rfl]

theorem busMember_next {m : BusMember} (hm : c.busMember id = .ok m) :
    c'.busMember c.nextFragment = .ok (m.under c.nextFragment) := by
  obtain ⟨f, s, t, hf, hs, ht, rfl⟩ := busMember_eq_ok.1 hm
  obtain rfl := Option.some.inj (h.original.symm.trans hf)
  obtain ⟨o, ho⟩ := h.fragment?_next
  have hinterface (side : Side) : (g.signed o).interface c' side = g.interface c side :=
    h.resembles.interface_eq (Fragment.unsigned_signed g o) side
  exact busMember_eq_ok.2 ⟨g.signed o, s, t, ho, (hinterface .source).trans hs,
    (hinterface .target).trans ht, rfl⟩

theorem membersAt {x : NodeId} {ms : List BusMember} (hms : c.membersAt x = .ok ms) :
    ∃ ms', c'.membersAt x = .ok ms' ∧ Echoes id c.nextFragment ms ms' := by
  obtain ⟨⟨p, hp⟩, hms⟩ := membersAt_eq_ok.1 hms
  obtain ⟨p', hp', _⟩ := exists_component_of_frame h.frame hp
  have hold : (c.requirementsOf x).mapM c'.busMember = .ok ms :=
    mapM_mono hms fun j hj m hm => (h.busMember_of_ne (h.ne_next hj)).2 hm
  by_cases hx : x = g.source.node
  · obtain ⟨m, hm⟩ := exists_mapM_iff.1 ⟨ms, hms⟩ id (hx ▸ h.listed)
    have hin : m ∈ ms := (mem_of_mapM hms).2 ⟨id, hx ▸ h.listed, hm⟩
    refine ⟨ms ++ [m.under c.nextFragment], membersAt_eq_ok.2 ⟨⟨p', hp'⟩, ?_⟩,
      (Echoes.refl ms).echo hin (fragment_of_busMember hm)⟩
    have hnext : [c.nextFragment].mapM c'.busMember = .ok [m.under c.nextFragment] :=
      mapM_eq_ok_iff.2 (.cons (h.busMember_next hm) .nil)
    rw [h.requirements, if_pos hx, List.mapM_append, hold, hnext]
    rfl
  · refine ⟨ms, membersAt_eq_ok.2 ⟨⟨p', hp'⟩, ?_⟩, .refl ms⟩
    rwa [h.requirements, if_neg hx]

theorem membersAt_back {x : NodeId} {ms' : List BusMember} (hms' : c'.membersAt x = .ok ms') :
    ∃ ms, c.membersAt x = .ok ms := by
  obtain ⟨⟨p', hp'⟩, hms'⟩ := membersAt_eq_ok.1 hms'
  obtain ⟨p, hp, _⟩ := exists_component_of_frame h.frame.symm hp'
  obtain ⟨ms, hms⟩ := exists_mapM_iff.2 fun j (hj : j ∈ c.requirementsOf x) => by
    obtain ⟨m, hm⟩ := exists_mapM_iff.1 ⟨ms', hms'⟩ j (h.mem_requirementsOf.2 (.inl hj))
    exact ⟨m, (h.busMember_of_ne (h.ne_next hj)).1 hm⟩
  exact ⟨ms, membersAt_eq_ok.2 ⟨⟨p, hp⟩, hms⟩⟩

section Members

variable {ms ms' : List BusMember} (he : Echoes id c.nextFragment ms ms')
  (hms : ∀ m ∈ ms, c.Knows m)
include he hms

theorem ofMembers : Bus.ofMembers c' ms' =
    (fun b : Bus => { b with members := .ofList ms' }) <$> Bus.ofMembers c ms := by
  have hreference : (SortedSet.ofList ms').toList.head?.mapM (fun m =>
        c'.fragment m.fragment >>= fun f => f.reference c') =
      (SortedSet.ofList ms).toList.head?.mapM fun m =>
        c.fragment m.fragment >>= fun f => f.reference c := by
    rw [he.head?_ofList h.lt_next]
    cases hhead : (SortedSet.ofList ms).toList.head? with
    | none => rfl
    | some m =>
      have hm := hms m (SortedSet.mem_ofList.1 (List.mem_of_mem_head? hhead))
      have hfragment : c'.fragment m.fragment = c.fragment m.fragment :=
        congrArg (Option.elim · _ pure) (h.fragment?_of_ne hm.ne_nextFragment)
      have hread : (c'.fragment m.fragment >>= fun f => f.reference c') =
          c.fragment m.fragment >>= fun f => f.reference c := by
        rw [hfragment]
        exact bind_congr fun f => h.resembles.reference_eq rfl
      exact congrArg (some <$> ·) hread
  rw [Bus.ofMembers, Bus.ofMembers, map_bind, hreference]
  rfl

theorem echoedBus {b : Bus} (hb : b.members = .ofList ms) :
    EchoedBus c c' c.nextFragment b { b with members := .ofList ms' } := by
  have hkept {m : BusMember} (hm : m ∈ ms) : Counterpart c c' m m :=
    ⟨by rw [h.fragment?_of_ne (hms m hm).ne_nextFragment], rfl⟩
  refine ⟨⟨fun m hm => ?_, fun m' hm' => ?_⟩, rfl, fun j hj => ?_⟩
  · rw [hb, SortedSet.mem_ofList] at hm
    exact ⟨m, SortedSet.mem_ofList.2 (he.mem hm), hkept hm⟩
  · rw [hb]
    simp only [SortedSet.mem_ofList] at hm' ⊢
    rcases he.cases_mem hm' with hold | ⟨m, hm, hid, rfl⟩
    · exact ⟨m', hold, hkept hold⟩
    · obtain ⟨o, ho⟩ := h.fragment?_next
      refine ⟨m, hm, ?_, rfl⟩
      rw [hid, h.original, BusMember.under, ho]
      rfl
  · simp only [Bus.fragments, List.mem_map, ← SortedSet.mem_def, hb, SortedSet.mem_ofList]
    constructor
    · rintro ⟨m', hm', rfl⟩
      rcases he.cases_mem hm' with hold | ⟨m, _, _, rfl⟩
      · exact ⟨m', hold, rfl⟩
      · exact absurd rfl hj
    · rintro ⟨m, hm, rfl⟩
      exact ⟨m, he.mem hm, rfl⟩

end Members

section Buses

variable {a : NodeId} {deep : Bool}

theorem descendants_eq : c'.descendants a deep = c.descendants a deep := by
  rw [descendants, descendants, below_of_frame h.frame]

theorem members {lists : List (List BusMember)}
    (hlists : (c.descendants a deep).mapM c.membersAt = .ok lists) :
    ∃ lists', (c'.descendants a deep).mapM c'.membersAt = .ok lists' ∧
      Echoes id c.nextFragment lists.flatten lists'.flatten := by
  obtain ⟨lists', hlists', hechoes⟩ := exists_mapM_of_forall₂ (R := Eq)
    (S := Echoes id c.nextFragment) (List.forall₂_refl _) hlists (by
      rintro x _ ms rfl hms
      exact h.membersAt hms)
  exact ⟨lists', h.descendants_eq ▸ hlists', .flatten hechoes⟩

theorem buses {bs : List Bus} (hbs : c.buses a deep = .ok bs) :
    ∃ bs', c'.buses a deep = .ok bs' ∧
      List.Forall₂ (EchoedBus c c' c.nextFragment) bs bs' := by
  obtain ⟨lists, hlists, hbs⟩ := bind_eq_ok.1 hbs
  obtain ⟨lists', hlists', hechoes⟩ := h.members hlists
  have hgathers := gathers_of_mapM hlists
  obtain ⟨bs', hbs', hall⟩ := exists_mapM_of_forall₂ (R := Eq)
    (S := EchoedBus c c' c.nextFragment)
    (g := fun s => Bus.ofMembers c' (lists'.flatten.filter fun m =>
      m.sourceInterface ∈ s ∨ m.targetInterface ∈ s)) (List.forall₂_refl _) hbs (by
      rintro s _ b rfl hb
      have hfiltered := hechoes.filter
        (P := fun m => m.sourceInterface ∈ s ∨ m.targetInterface ∈ s) fun _ => rfl
      have hknows (m : BusMember) (hm : m ∈ lists.flatten.filter fun m =>
          m.sourceInterface ∈ s ∨ m.targetInterface ∈ s) :=
        (hgathers.only m (List.mem_of_mem_filter hm)).2
      refine ⟨_, ?_, h.echoedBus hfiltered hknows (members_ofMembers hb)⟩
      rw [h.ofMembers hfiltered hknows, hb]
      rfl)
  refine ⟨bs', bind_eq_ok.2 ⟨lists', hlists', ?_⟩, hall⟩
  change (joined lists'.flatten).components.mapM _ = _
  rw [hechoes.components_joined]
  exact hbs'

theorem buses_back {bs' : List Bus} (hbs' : c'.buses a deep = .ok bs') :
    ∃ bs, c.buses a deep = .ok bs := by
  obtain ⟨lists', hlists', hbs'⟩ := bind_eq_ok.1 hbs'
  obtain ⟨lists, hlists⟩ := exists_mapM_iff.2 fun x (hx : x ∈ c.descendants a deep) => by
    obtain ⟨ms', hms'⟩ := exists_mapM_iff.1 ⟨lists', hlists'⟩ x (h.descendants_eq ▸ hx)
    exact h.membersAt_back hms'
  obtain ⟨lists'', hlists'', hechoes⟩ := h.members hlists
  obtain rfl := Except.ok.inj (hlists'.symm.trans hlists'')
  have hgathers := gathers_of_mapM hlists
  change (joined lists'.flatten).components.mapM _ = _ at hbs'
  rw [hechoes.components_joined] at hbs'
  obtain ⟨bs, hbs⟩ := exists_mapM_iff.2 fun s (hs : s ∈ (joined lists.flatten).components) => by
    obtain ⟨b', hb'⟩ := exists_mapM_iff.1 ⟨bs', hbs'⟩ s hs
    rw [h.ofMembers (hechoes.filter fun _ => rfl) fun m hm =>
      (hgathers.only m (List.mem_of_mem_filter hm)).2] at hb'
    cases hb : Bus.ofMembers c (lists.flatten.filter fun m =>
        m.sourceInterface ∈ s ∨ m.targetInterface ∈ s) with
    | error e =>
      rw [hb] at hb'
      cases hb'
    | ok b => exact ⟨b, hb⟩
  exact ⟨bs, bind_eq_ok.2 ⟨lists, hlists, hbs⟩⟩

end Buses
end Repeats
end Circuit
end BoardNets
