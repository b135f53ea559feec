import BoardNets.Proofs.Ancillary.Extension
import BoardNets.Proofs.Fragment.Pairing
import BoardNets.Proofs.Net.Alike
import Mathlib.Data.List.TakeWhile

/-! The order in which an ancillary lists its connections. On a network of a bus they are carried
out one by one, so its output takes effect for all connections that are listed after it: these
attach to the output itself, and those before it to the pins of the network. With one output, what
counts is which connections come before it. -/
namespace BoardNets
namespace AncillaryConnection

/-- The connections up to the first output. -/
def beforeOutput (listing : List AncillaryConnection) : List AncillaryConnection :=
  listing.takeWhile fun n => n.role ≠ .output

/-- The first output and all after it. -/
def fromOutput (listing : List AncillaryConnection) : List AncillaryConnection :=
  listing.dropWhile fun n => n.role ≠ .output

theorem before_append_from (listing : List AncillaryConnection) :
    beforeOutput listing ++ fromOutput listing = listing := List.takeWhile_append_dropWhile

theorem role_of_mem_beforeOutput {listing : List AncillaryConnection} {n : AncillaryConnection}
    (h : n ∈ beforeOutput listing) : n.role ≠ .output := by
  simpa using List.mem_takeWhile_imp h

theorem role_head_fromOutput {listing rest : List AncillaryConnection} {out : AncillaryConnection}
    (h : fromOutput listing = out :: rest) : out.role = .output := by
  have hhead := List.head?_dropWhile_not (fun n : AncillaryConnection => n.role ≠ .output) listing
  rw [fromOutput] at h
  rw [h] at hhead
  simpa using hhead

/-- With one output, what is listed after it is the same whenever what is listed before is. -/
theorem fromOutput_cases {l l' : List AncillaryConnection} (hperm : l'.Perm l)
    (hone : (l.filter fun n => n.role = .output).length ≤ 1)
    (hbefore : (beforeOutput l').Perm (beforeOutput l)) :
    (fromOutput l = [] ∧ fromOutput l' = []) ∨ ∃ out rest rest', fromOutput l = out :: rest ∧
      fromOutput l' = out :: rest' ∧ rest'.Perm rest ∧ ∀ n ∈ rest, n.role ≠ .output := by
  have hfrom : (fromOutput l').Perm (fromOutput l) := by
    have hall : (beforeOutput l' ++ fromOutput l').Perm (beforeOutput l ++ fromOutput l) := by
      rwa [before_append_from, before_append_from]
    exact (List.perm_append_left_iff _).1 ((hbefore.symm.append_right _).trans hall)
  cases hl : fromOutput l with
  | nil => exact .inl ⟨rfl, List.perm_nil.1 (hl ▸ hfrom)⟩
  | cons out rest =>
    have hout := role_head_fromOutput hl
    have hnone : ∀ n ∈ rest, n.role ≠ .output := by
      rw [← before_append_from l, hl, List.filter_append, List.filter_cons_of_pos (by simpa),
        List.length_append, List.length_cons] at hone
      have hrest : (rest.filter fun n => n.role = .output).length = 0 := by omega
      intro n hn
      simpa using List.filter_eq_nil_iff.1 (List.eq_nil_of_length_eq_zero hrest) n hn
    cases hl' : fromOutput l' with
    | nil =>
      rw [hl, hl'] at hfrom
      cases hfrom.length_eq
    | cons out' rest' =>
      rw [hl, hl'] at hfrom
      have hmem : out' ∈ out :: rest := hfrom.mem_iff.1 List.mem_cons_self
      have heq : out' = out := (List.mem_cons.1 hmem).resolve_right fun hin =>
        hnone out' hin (role_head_fromOutput hl')
      subst heq
      exact .inr ⟨out', rest, rest', rfl, rfl, hfrom.cons_inv, hnone⟩

variable {n : AncillaryConnection} {c : Circuit} {id : NodeId} {a : Ancillary}
  {pins : SortedSet ComponentPin} {done : Application}

theorem applyTo_output (hrole : n.role = .output) (h : n.applyTo c id a pins = .ok done) :
    done = { masks := .ofList (pins.toList.map (·, ⟨id, n.ancillaryPin⟩)) } := by
  obtain ⟨own, hown, h⟩ := bind_eq_ok.1 h
  obtain rfl := Circuit.componentPin_eq_ok hown
  rw [hrole] at h
  exact (pure_eq_ok.1 h).symm

theorem masks_of_joinReference {kind : ReferenceKind}
    (h : n.joinReference c id a pins kind = .ok done) : done.masks = ∅ := by
  obtain ⟨reference, _, h⟩ := bind_eq_ok.1 h
  cases reference with
  | none => exact absurd h throw_ne_ok
  | some r =>
    obtain rfl := pure_eq_ok.1 h
    rfl

theorem masks_of_applyTo (hrole : n.role ≠ .output) (h : n.applyTo c id a pins = .ok done) :
    done.masks = ∅ := by
  obtain ⟨own, _, h⟩ := bind_eq_ok.1 h
  cases hr : n.role with
  | output => exact absurd hr hrole
  | input =>
    rw [hr] at h
    obtain rfl := pure_eq_ok.1 h
    rfl
  | voltageReference =>
    rw [hr] at h
    exact masks_of_joinReference h
  | groundReference =>
    rw [hr] at h
    exact masks_of_joinReference h

def stepsOn (n : AncillaryConnection) (c : Circuit) (id : NodeId) (a : Ancillary)
    (pins : SortedSet ComponentPin) : Result (List Wires.Step) := do
  return (← n.applyTo c id a pins).steps

theorem stepsOn_mono {c' : Circuit} (h : c.Extends c') {steps : List Wires.Step}
    (hn : n.stepsOn c id a pins = .ok steps) (a' : Ancillary) :
    n.stepsOn c' id a' pins = .ok steps := by
  obtain ⟨done, hdone, hn⟩ := bind_eq_ok.1 hn
  exact bind_eq_ok.2 ⟨done, applyTo_mono h hdone a', hn⟩

theorem steps_eq_connections (hrole : n.role ≠ .output) (h : n.applyTo c id a pins = .ok done) :
    done.steps = done.connections.toList.map fun p => .connect p.first p.second := by
  simp [Application.steps, masks_of_applyTo hrole h]

theorem connects_stepsOn (hrole : n.role ≠ .output) {steps : List Wires.Step}
    (h : n.stepsOn c id a pins = .ok steps) : Wires.Connects steps := by
  obtain ⟨done, hdone, h⟩ := bind_eq_ok.1 h
  obtain rfl := pure_eq_ok.1 h
  rw [steps_eq_connections hrole hdone]
  intro s hs
  obtain ⟨p, _, rfl⟩ := List.mem_map.1 hs
  exact ⟨p.first, p.second, rfl⟩

/-- An edge that a connection lays where pins stand for others. -/
def Attaches (n : AncillaryConnection) (c : Circuit) (id : NodeId) (a : Ancillary)
    (pins : SortedSet ComponentPin) (stand : ComponentPin → ComponentPin)
    (e : ComponentPin × ComponentPin) : Prop :=
  ∃ done, n.applyTo c id a pins = .ok done ∧ ∃ p ∈ done.connections,
    stand p.first ≠ stand p.second ∧ e = (stand p.first, stand p.second)

end AncillaryConnection

namespace Wires

open AncillaryConnection

variable {c : Circuit} {id : NodeId} {a : Ancillary} {pins : SortedSet ComponentPin}

theorem connects_of_mapM {listing : List AncillaryConnection} {plans : List (List Step)}
    (hroles : ∀ n ∈ listing, n.role ≠ .output)
    (h : listing.mapM (·.stepsOn c id a pins) = .ok plans) : Connects plans.flatten := by
  refine .flatten fun steps hsteps => ?_
  obtain ⟨n, hn, hsteps⟩ := (mem_of_mapM h).1 hsteps
  exact connects_stepsOn (hroles n hn) hsteps

theorem alike_of_perm {l l' : List AncillaryConnection} (hperm : l'.Perm l)
    (hroles : ∀ n ∈ l, n.role ≠ .output) {plans plans' : List (List Step)}
    (h : l.mapM (·.stepsOn c id a pins) = .ok plans)
    (h' : l'.mapM (·.stepsOn c id a pins) = .ok plans') : Alike plans.flatten plans'.flatten := by
  refine .of_connects (connects_of_mapM hroles h)
    (connects_of_mapM (fun n hn => hroles n (hperm.mem_iff.1 hn)) h') fun s => ?_
  simp only [List.mem_flatten, mem_of_mapM h, mem_of_mapM h', hperm.mem_iff]

/-- Listings with the same connections before their one output come to the same. -/
theorem alike_of_relisting {l l' : List AncillaryConnection} (hperm : l'.Perm l)
    (hone : (l.filter fun n => n.role = .output).length ≤ 1)
    (hbefore : (beforeOutput l').Perm (beforeOutput l)) {plans plans' : List (List Step)}
    (h : l.mapM (·.stepsOn c id a pins) = .ok plans)
    (h' : l'.mapM (·.stepsOn c id a pins) = .ok plans') : Alike plans.flatten plans'.flatten := by
  rw [← before_append_from l, List.mapM_append] at h
  rw [← before_append_from l', List.mapM_append] at h'
  obtain ⟨first, hfirst, h⟩ := bind_eq_ok.1 h
  obtain ⟨second, hsecond, h⟩ := bind_eq_ok.1 h
  obtain ⟨first', hfirst', h'⟩ := bind_eq_ok.1 h'
  obtain ⟨second', hsecond', h'⟩ := bind_eq_ok.1 h'
  obtain rfl := pure_eq_ok.1 h
  obtain rfl := pure_eq_ok.1 h'
  rw [List.flatten_append, List.flatten_append]
  have hpre := alike_of_perm hbefore (fun n => role_of_mem_beforeOutput) hfirst hfirst'
  refine hpre.append ?_
  rcases fromOutput_cases hperm hone hbefore with ⟨hnil, hnil'⟩ |
    ⟨out, rest, rest', hout, hout', hrest, hroles⟩
  · rw [hnil, List.mapM_nil, pure_eq_ok] at hsecond
    rw [hnil', List.mapM_nil, pure_eq_ok] at hsecond'
    subst hsecond hsecond'
    exact .refl []
  · rw [hout, List.mapM_cons] at hsecond
    rw [hout', List.mapM_cons] at hsecond'
    obtain ⟨steps, hsteps, hsecond⟩ := bind_eq_ok.1 hsecond
    obtain ⟨more, hmore, hsecond⟩ := bind_eq_ok.1 hsecond
    obtain ⟨steps', hsteps', hsecond'⟩ := bind_eq_ok.1 hsecond'
    obtain ⟨more', hmore', hsecond'⟩ := bind_eq_ok.1 hsecond'
    obtain rfl := pure_eq_ok.1 hsecond
    obtain rfl := pure_eq_ok.1 hsecond'
    obtain rfl := Except.ok.inj (hsteps.symm.trans hsteps')
    rw [List.flatten_cons, List.flatten_cons]
    exact (Alike.refl steps).append (alike_of_perm hrest hroles hmore hmore')

/-- Connections that replace nothing attach to what stands for pins at first. -/
theorem mem_laid_mapM {listing : List AncillaryConnection} {plans : List (List Step)}
    (hroles : ∀ n ∈ listing, n.role ≠ .output)
    (h : listing.mapM (·.stepsOn c id a pins) = .ok plans) {w : Wires}
    {e : ComponentPin × ComponentPin} : e ∈ w.laid plans.flatten ↔
      ∃ n ∈ listing, n.Attaches c id a pins w.masked e := by
  rw [mem_laid_connects (connects_of_mapM hroles h)]
  simp only [List.mem_flatten, mem_of_mapM h, stepsOn, bind_eq_ok, pure_eq_ok]
  constructor
  · rintro ⟨p, q, ⟨_, ⟨n, hn, done, hdone, rfl⟩, hpq⟩, hlaid⟩
    rw [steps_eq_connections (hroles n hn) hdone] at hpq
    obtain ⟨pair, hpair, heq⟩ := List.mem_map.1 hpq
    obtain ⟨rfl, rfl⟩ := Step.connect.inj heq
    exact ⟨n, hn, done, hdone, pair, hpair, hlaid⟩
  · rintro ⟨n, hn, done, hdone, pair, hpair, hlaid⟩
    refine ⟨pair.first, pair.second, ⟨done.steps, ⟨n, hn, done, hdone, rfl⟩, ?_⟩, hlaid⟩
    rw [steps_eq_connections (hroles n hn) hdone]
    exact List.mem_map.2 ⟨pair, hpair, rfl⟩

theorem laid_masks (w : Wires) (l : List (ComponentPin × ComponentPin)) :
    w.laid (l.map fun m => .mask m.1 m.2) = [] := by
  induction l generalizing w with
  | nil => rfl
  | cons m l ih => exact ih _

theorem masks_carry_masks (w : Wires) (l : List (ComponentPin × ComponentPin)) :
    (w.carry (l.map fun m => .mask m.1 m.2)).masks = w.masks.insertAll l := by
  induction l generalizing w with
  | nil => rfl
  | cons m l ih => exact ih _

/-- An ancillary that is applied as a whole attaches to pins as they were. -/
theorem mem_laid_application {done : Application} {w : Wires}
    {e : ComponentPin × ComponentPin} : e ∈ w.laid done.steps ↔
      ∃ p ∈ done.connections, w.masked p.first ≠ w.masked p.second ∧
        e = (w.masked p.first, w.masked p.second) := by
  have hconnects : Connects (done.connections.toList.map fun p => .connect p.first p.second) := by
    intro s hs
    obtain ⟨p, _, rfl⟩ := List.mem_map.1 hs
    exact ⟨p.first, p.second, rfl⟩
  rw [Application.steps, laid_append, laid_masks, List.append_nil, mem_laid_connects hconnects]
  constructor
  · rintro ⟨p, q, hpq, hlaid⟩
    obtain ⟨pair, hpair, heq⟩ := List.mem_map.1 hpq
    obtain ⟨rfl, rfl⟩ := Step.connect.inj heq
    exact ⟨pair, hpair, hlaid⟩
  · rintro ⟨pair, hpair, hlaid⟩
    exact ⟨pair.first, pair.second, List.mem_map.2 ⟨pair, hpair, rfl⟩, hlaid⟩

theorem carry_output {out : AncillaryConnection} (hrole : out.role = .output) {steps : List Step}
    (h : out.stepsOn c id a pins = .ok steps) (w : Wires) : w.laid steps = [] ∧
      ∀ p, (w.carry steps).masked p =
        if p ∈ pins then ⟨id, out.ancillaryPin⟩ else w.masked p := by
  obtain ⟨done, hdone, h⟩ := bind_eq_ok.1 h
  obtain rfl := pure_eq_ok.1 h
  obtain rfl := applyTo_output hrole hdone
  refine ⟨laid_masks w _, fun p => ?_⟩
  have hfind : (SortedMap.ofList
      (pins.toList.map (·, (⟨id, out.ancillaryPin⟩ : ComponentPin)))).find? p =
      if p ∈ pins then some ⟨id, out.ancillaryPin⟩ else none :=
    SortedMap.find?_insertAll_const
  change ((w.carry (List.map _ (SortedMap.toList _))).masks.find? p).getD p = _
  rw [masks_carry_masks, SortedMap.find?_insertAll (SortedMap.increasing _)]
  change (((SortedMap.find? _ p).or _).getD p) = _
  rw [hfind]
  by_cases hp : p ∈ pins
  · simp [hp]
  · simp [hp, masked]

end Wires

/-- The connections of an ancillary that are used on a network. -/
def Ancillary.on (a : Ancillary) (network : LogicalNetwork) : List AncillaryConnection :=
  a.connections.filter fun n => n.interfacePin?.any (· ∈ network.requesting)

namespace Wires

open AncillaryConnection

variable {c : Circuit} {id : NodeId} {a : Ancillary} {pins : SortedSet ComponentPin}

theorem ancillaryPlan_eq_ok {network : LogicalNetwork} {steps : List Step} :
    ancillaryPlan c network pins id a = .ok steps ↔
      ∃ plans, (a.on network).mapM (·.stepsOn c id a pins) = .ok plans ∧ plans.flatten = steps := by
  rw [ancillaryPlan]
  simp only [bind_eq_ok, pure_eq_ok]
  rfl

/-- On a network, what an ancillary with one output lists before it attaches to the pins as they
were, and what it lists after it attaches to the output. -/
theorem mem_laid_ancillaryPlan {network : LogicalNetwork} {steps : List Step}
    (hone : ((a.on network).filter fun n => n.role = .output).length ≤ 1)
    (h : ancillaryPlan c network pins id a = .ok steps) {w : Wires}
    {e : ComponentPin × ComponentPin} : e ∈ w.laid steps ↔
      (∃ n ∈ beforeOutput (a.on network), n.Attaches c id a pins w.masked e) ∨
      ∃ out rest, fromOutput (a.on network) = out :: rest ∧ ∃ n ∈ rest,
        n.Attaches c id a pins
          (fun p => if p ∈ pins then ⟨id, out.ancillaryPin⟩ else w.masked p) e := by
  obtain ⟨plans, hplans, rfl⟩ := ancillaryPlan_eq_ok.1 h
  have hsplit := before_append_from (a.on network)
  rw [← hsplit, List.mapM_append] at hplans
  obtain ⟨first, hfirst, hplans⟩ := bind_eq_ok.1 hplans
  obtain ⟨second, hsecond, hplans⟩ := bind_eq_ok.1 hplans
  obtain rfl := pure_eq_ok.1 hplans
  have hbefore (n : AncillaryConnection) (hn : n ∈ beforeOutput (a.on network)) :=
    role_of_mem_beforeOutput hn
  -- what is listed before the output replaces nothing, so the output meets the pins as they were
  obtain ⟨hmasks, _⟩ := masks_carry (connects_of_mapM hbefore hfirst) w
  have hmasked : (w.carry first.flatten).masked = w.masked := by
    funext p
    rw [masked, masked, hmasks]
  rw [List.flatten_append, laid_append, List.mem_append, mem_laid_mapM hbefore hfirst]
  refine or_congr_right ?_
  rcases fromOutput_cases (.refl _) hone (.refl _) with
    ⟨hnil, _⟩ | ⟨out, rest, _, hout, _, _, hroles⟩
  · rw [hnil, List.mapM_nil, pure_eq_ok] at hsecond
    subst hsecond
    simp [hnil]
  · rw [hout, List.mapM_cons] at hsecond
    obtain ⟨steps, hsteps, hsecond⟩ := bind_eq_ok.1 hsecond
    obtain ⟨more, hmore, hsecond⟩ := bind_eq_ok.1 hsecond
    obtain rfl := pure_eq_ok.1 hsecond
    obtain ⟨hlaid, hstand⟩ :=
      carry_output (role_head_fromOutput hout) hsteps (w.carry first.flatten)
    rw [hmasked] at hstand
    rw [List.flatten_cons, laid_append, hlaid, List.nil_append, mem_laid_mapM hroles hmore,
      funext hstand]
    constructor
    · rintro ⟨n, hn, hattaches⟩
      exact ⟨out, rest, hout, n, hn, hattaches⟩
    · rintro ⟨_, _, heq, n, hn, hattaches⟩
      obtain ⟨rfl, rfl⟩ := List.cons.inj (hout.symm.trans heq)
      exact ⟨n, hn, hattaches⟩

end Wires
end BoardNets
