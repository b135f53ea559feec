import BoardNets.Proofs.Circuit.Activity
import BoardNets.Proofs.Fragment.Inference

/-! Resolved fragments while building goes on. Their connections stay as they are and so does every
interface that is the only one of its name and type. The inferred types are at the mercy of
adapters: an adapted interface has the name of its base, so a fragment that goes by the name alone
may no longer know which of the two it is about. -/
namespace BoardNets

def Component.typesNamed (p : Component) (name : String) : List InterfaceTypeId :=
  (p.interfaces.filter fun i => i.name = name).map fun i => i.interface.type

theorem Component.typesNamed_outline (p : Component) (name : String) :
    p.outline.typesNamed name = p.typesNamed name := by
  rw [typesNamed, outline, List.filter_map, List.map_map]
  rfl

namespace Circuit

variable {c : Circuit}

theorem matching_append (p : Component) (i : ComponentInterface) (name : String)
    (type : InterfaceTypeId) :
    matching { p with interfaces := p.interfaces ++ [i] } name type = matching p name type ++
      if i.name = name ∧ i.interface.type = type then [p.interfaces.length] else [] := by
  rw [matching, List.zipIdx_append, List.filterMap_append, matching]
  split
  · rename_i h
    simp [h]
  · rename_i h
    simp [h]

theorem run_resolveFilter_of_component {F x : NodeId} {p : Component}
    (hF : c.component? F = some p) : (c.run (resolveFilter F x)).2 = c := by
  rw [resolveFilter, run_ask_bind]
  cases h : c.filterOf F x with
  | error e => rfl
  | ok f =>
    rw [component?_eq_some, (filterOf_eq_ok.1 h).1] at hF
    cases hF

/-- The only interface of a name and a type is the only one for good, and in its place. -/
theorem interfaceNamed_perform {x : NodeId} {name : String} {type : InterfaceTypeId}
    {i : InterfaceRef} (h : c.interfaceNamed x name type = .ok i) (step : Instruction) :
    (c.run step.perform).2.interfaceNamed x name type = .ok i := by
  rw [interfaceNamed_eq_ok_iff] at h ⊢
  obtain ⟨hx, hp⟩ := h
  refine ⟨hx, ?_⟩
  have hsteady : Steady (fun c => ∃ p, c.component? x = some p ∧
      matching p name type = [i.index]) {} := by
    refine Steady.at_component (fun p q hq hp => ?_) fun p j hmissing _ hp => ?_
    · rw [← matching_outline, hq, matching_outline, hp]
    · have hother : ¬(j.name = name ∧ j.interface.type = type) := by
        rintro ⟨rfl, rfl⟩
        rw [hmissing] at hp
        cases hp
      rw [matching_append, hp, if_neg hother, List.append_nil]
  exact hsteady.keeps_perform (fun _ _ _ => trivial) (fun _ _ _ => trivial) c hp

/-- The interfaces of a name keep their types, but for a step that adapts one of them. -/
theorem typesNamed_perform {x : NodeId} {name : String} {p : Component}
    (hp : c.component? x = some p) {step : Instruction} (hstep : ¬step.Adapts x name) :
    ∃ q, (c.run step.perform).2.component? x = some q ∧ q.typesNamed name = p.typesNamed name := by
  have hsteady : Steady (fun c => ∃ q, c.component? x = some q ∧
      q.typesNamed name = p.typesNamed name) { adapts := fun y n => ¬(y = x ∧ n = name) } := by
    refine Steady.at_component (fun q r hr hq => ?_) fun q j _ hother hq => ?_
    · rw [← Component.typesNamed_outline, hr, Component.typesNamed_outline, hq]
    · have hname : j.name ≠ name := fun h => hother ⟨rfl, h⟩
      rw [← hq, Component.typesNamed, List.filter_append, List.filter_singleton]
      simp [hname, Component.typesNamed]
  refine hsteady.keeps_perform (fun y n hadapts hsame => ?_) (fun _ _ _ => trivial) c ⟨p, hp, rfl⟩
  obtain ⟨rfl, rfl⟩ := hsame
  exact hstep hadapts

end Circuit

namespace Fragment

variable {f : Fragment} {c : Circuit}

theorem namedTypes_of_component {side : Side} {name : String} {p : Component}
    (hp : c.component? (f.endpoint side).node = some p) :
    f.namedTypes c side name = .ok (p.typesNamed name) := by
  rw [namedTypes, Circuit.interfaceCandidates,
    Circuit.node_eq_ok.2 (Circuit.component?_eq_some.1 hp)]
  have htypes : ((p.interfaces.map fun i => (i.name, i.interface.type)).filter
      fun candidate => candidate.1 = name).map (·.2) = p.typesNamed name := by
    rw [Component.typesNamed, List.filter_map, List.map_map]
    rfl
  exact congrArg Except.ok htypes

theorem component_of_interface {side : Side} {i : InterfaceRef}
    (h : f.interface c side = .ok (some i)) :
    ∃ p, c.component? (f.endpoint side).node = some p := by
  obtain ⟨_, _, _, _, hnamed⟩ := interface_eq_ok_some.1 h
  obtain ⟨_, p, hp, _⟩ := Circuit.interfaceNamed_eq_ok_iff.1 hnamed
  exact ⟨p, hp⟩

/-- Where no adapter adds an interface of a name that the fragment infers a type from, it finds the
same types. -/
theorem alike_perform {step : Circuit.Instruction} {side : Side} {i : InterfaceRef}
    (hinterface : f.interface c side = .ok (some i))
    (hstep : ∀ name, (f.endpoint side).type = none → (f.endpoint side).interface = some name →
      ¬step.Adapts (f.endpoint side).node name) :
    f.Alike c f (c.run step.perform).2 side where
  type := rfl
  interface := rfl
  named := by
    intro name types htype hname htypes
    obtain ⟨p, hp⟩ := component_of_interface hinterface
    obtain ⟨q, hq, hsame⟩ := Circuit.typesNamed_perform hp (hstep name htype hname)
    rw [namedTypes_of_component hp] at htypes
    rw [namedTypes_of_component hq, hsame, htypes]

theorem same_perform {id : FragmentId} (hf : c.fragment? id = some f)
    (hends : ∀ side, ∃ p, c.component? (f.endpoint side).node = some p)
    (step : Circuit.Instruction) : (c.run step.perform).2.fragment? id = some f := by
  by_cases hresolve : ∃ F x, step = .resolve F x ∧ ∃ side, (f.endpoint side).node = F
  · obtain ⟨F, x, rfl, side, rfl⟩ := hresolve
    obtain ⟨p, hp⟩ := hends side
    rw [Circuit.Instruction.perform, seqRight_eq_bind, Circuit.run_bind_pure,
      Circuit.run_resolveFilter_of_component hp, hf]
  · refine (Circuit.Steady.same_fragment id f).keeps_perform (fun _ _ _ => trivial)
      (fun F x hstep => ?_) c hf
    have haway (side : Side) : (f.endpoint side).node ≠ F := fun h =>
      hresolve ⟨F, x, hstep, side, h⟩
    exact ⟨haway .source, haway .target⟩

end Fragment

/-- A resolved fragment stays as it is, stays resolved and stays with its interfaces through every
step, successful or failed, unless an adapter adds an interface to one of its ends, of a name that
the fragment infers the type from. -/
theorem stays_resolved (c : Circuit) (id : FragmentId) (f : Fragment)
    (hf : c.fragment? id = some f) (hresolved : f.isResolved c = true)
    (step : Circuit.Instruction)
    (hstep : ∀ side name, (f.endpoint side).type = none → (f.endpoint side).interface = some name →
      ¬step.Adapts (f.endpoint side).node name) :
    (c.run step.perform).2.fragment? id = some f ∧
      f.isResolved (c.run step.perform).2 = true ∧
        ∀ side, f.interface (c.run step.perform).2 side = f.interface c side := by
  obtain ⟨hinterfaces, hconnected⟩ := Fragment.isResolved_eq_true.1 hresolved
  have hcatalog : (c.run step.perform).2.catalog = c.catalog :=
    (Circuit.Steady.same_catalog c.catalog).keeps_perform (fun _ _ _ => trivial)
      (fun _ _ _ => trivial) c rfl
  have halike (side : Side) : f.Alike c f (c.run step.perform).2 side := by
    obtain ⟨i, hi⟩ := hinterfaces side
    exact Fragment.alike_perform hi (hstep side)
  have hsame (side : Side) : ∃ i, f.interface c side = .ok (some i) ∧
      f.interface (c.run step.perform).2 side = .ok (some i) := by
    obtain ⟨i, hi⟩ := hinterfaces side
    obtain ⟨name, type, hname, htype, hnamed⟩ := Fragment.interface_eq_ok_some.1 hi
    refine ⟨i, hi, Fragment.interface_eq_ok_some.2 ⟨name, type, hname, ?_, ?_⟩⟩
    · exact Fragment.interfaceType_mono hcatalog halike htype
    · exact Circuit.interfaceNamed_perform hnamed step
  have hcomponent (side : Side) : ∃ p, c.component? (f.endpoint side).node = some p := by
    obtain ⟨i, hi, _⟩ := hsame side
    exact Fragment.component_of_interface hi
  refine ⟨Fragment.same_perform hf hcomponent step,
    Fragment.isResolved_eq_true.2 ⟨fun side => ?_, hconnected⟩, fun side => ?_⟩
  · obtain ⟨i, _, hi⟩ := hsame side
    exact ⟨i, hi⟩
  · obtain ⟨i, hi, hi'⟩ := hsame side
    rw [hi, hi']

namespace Specimen

def strobe : InterfaceTypeId := ⟨⟨20⟩⟩
def pulse : InterfacePinId := ⟨⟨21⟩⟩

/-- The catalog with a second type that drives clock inputs. -/
def strobed : Catalog := { catalog with
  interfaceTypes := catalog.interfaceTypes.insert strobe
    (clockType strobe receiver "strobe" pulse true)
  interfacePins := catalog.interfacePins.insert pulse (slot pulse strobe "PULSE" input) }

/-- A clock from the first part to the second one, of a type that is given or not. -/
def clocking (type : Option InterfaceTypeId) : Requirement where
  origin := .persisted ⟨1⟩
  function := "clock"
  source := { node := ⟨1⟩, type, interface := some "CK" }
  target := { node := ⟨2⟩, interface := some "CK" }

/-- The clock is required as a strobe, between the same interfaces. -/
def strobing : Requirement := { clocking (some driver) with
  function := "strobe"
  adapter := some { source := {
    pins := .ofList [(output, pulse)]
    base := some driver
    adapted := some strobe } } }

/-- The clock is wired between an oscillator and a receiver. -/
def clockedBy (type : Option InterfaceTypeId) : Circuit := (Circuit.new strobed).after [
  .part Circuit.root "U1" "oscillator" oscillator,
  .part Circuit.root "U2" "pll" consumer,
  .require (clocking type)]

end Specimen

/-- A strobe is adapted from the source of the clock, whose type is given. -/
theorem stays_resolved_specimen : ∃ f, (Specimen.clockedBy (some Specimen.driver)).Reachable ∧
    (Specimen.clockedBy (some Specimen.driver)).fragment? ⟨0⟩ = some f ∧
      f.isResolved (Specimen.clockedBy (some Specimen.driver)) = true ∧
        f.isResolved ((Specimen.clockedBy (some Specimen.driver)).run
          (Circuit.Instruction.require Specimen.strobing).perform).2 = true := by
  have h : ((Specimen.clockedBy (some Specimen.driver)).fragment? ⟨0⟩).any (fun f =>
      f.source.type = some Specimen.driver && f.target.node = ⟨2⟩ &&
        f.isResolved (Specimen.clockedBy (some Specimen.driver))) = true := by decide +kernel
  obtain ⟨f, hf, h⟩ := (Option.any_eq_true _ _).1 h
  simp only [Bool.and_eq_true, decide_eq_true_eq] at h
  obtain ⟨⟨hsource, htarget⟩, hresolved⟩ := h
  refine ⟨f, ⟨_, _, rfl⟩, hf, hresolved,
    (stays_resolved _ ⟨0⟩ f hf hresolved (.require Specimen.strobing) ?_).2.1⟩
  rintro side name htype - ⟨r, a, other, hr, ha, hused, hnode, -⟩
  obtain rfl := Circuit.Instruction.require.inj hr
  obtain rfl := Option.some.inj ha
  cases side with
  | source => cases hsource.symm.trans htype
  | target =>
    cases other with
    | source => cases hnode.trans htarget
    | target => exact hused rfl

/-- Adapting a strobe from the source of a clock that goes by the name alone leaves the clock
without a source type. -/
theorem adapter_unresolves_namesake : ∃ f, (Specimen.clockedBy none).Reachable ∧
    (Specimen.clockedBy none).fragment? ⟨0⟩ = some f ∧
      f.isResolved (Specimen.clockedBy none) = true ∧
        f.isResolved ((Specimen.clockedBy none).run
          (Circuit.Instruction.require Specimen.strobing).perform).2 = false := by
  have h : ((Specimen.clockedBy none).fragment? ⟨0⟩).any (fun f =>
      f.isResolved (Specimen.clockedBy none) && !f.isResolved ((Specimen.clockedBy none).run
        (Circuit.Instruction.require Specimen.strobing).perform).2) = true := by decide +kernel
  obtain ⟨f, hf, h⟩ := (Option.any_eq_true _ _).1 h
  simp only [Bool.and_eq_true, Bool.not_eq_true'] at h
  exact ⟨f, ⟨_, _, rfl⟩, hf, h⟩

end BoardNets
