import UseCaseFlow.Proofs.Diagram.Sequence
import UseCaseFlow.Scenario.Basic

/-!
# Reading a scenario

A document is read as a scenario exactly if its diagram starts with the declarations of the entities
and its other lines derive the flow.
-/

namespace UseCaseFlow

/-- A scenario is read exactly if the document's diagram declares its entities and the other lines
derive its flow. -/
theorem Scenario.parse_eq_ok_iff {key : ScenarioKey} {document : String} {limit : Nat}
    {s : Scenario} : Scenario.parse key document limit = .ok s ↔
      s.key = key ∧ ∃ diagram, diagramLines document = .ok diagram ∧
        parseDeclarations (diagram.map (·.text)) = .ok s.entities ∧
        FlowLines s.entities limit ((diagram.map (·.text)).drop s.entities.length) s.flow := by
  obtain ⟨key', entities, flow⟩ := s
  simp only [Scenario.parse, bind_eq_ok_iff, mapError_eq_ok_iff]
  constructor
  · rintro ⟨diagram, hdiagram, declared, hdeclared, h⟩
    by_cases hsteps : ((diagram.map (·.text)).drop declared.length).isEmpty = true
    · rw [if_pos hsteps] at h
      obtain ⟨rfl, rfl, rfl⟩ := Scenario.mk.inj (Except.ok.inj h)
      rw [List.isEmpty_iff] at hsteps
      exact ⟨rfl, diagram, hdiagram, hdeclared, flowLines_nil_right.mpr hsteps⟩
    · rw [if_neg hsteps] at h
      simp only [bind_eq_ok_iff, mapError_eq_ok_iff] at h
      obtain ⟨read, hread, h⟩ := h
      obtain ⟨rfl, rfl, rfl⟩ := Scenario.mk.inj (Except.ok.inj h)
      exact ⟨rfl, diagram, hdiagram, hdeclared, (flowLines_of_parseSequence hread).2⟩
  · rintro ⟨rfl, diagram, hdiagram, hdeclared, h⟩
    refine ⟨diagram, hdiagram, entities, hdeclared, ?_⟩
    cases hsteps : (diagram.map (·.text)).drop entities.length with
    | nil =>
      rw [hsteps, flowLines_nil_left] at h
      rw [h]
      rfl
    | cons line rest =>
      have hne : flow ≠ [] := by
        rintro rfl
        rw [hsteps, flowLines_nil_right] at h
        contradiction
      rw [hsteps] at h
      simp only [List.isEmpty_cons, Bool.false_eq_true, if_false, bind_eq_ok_iff,
        mapError_eq_ok_iff]
      exact ⟨flow, parseSequence_of_flowLines hne h, rfl⟩

theorem Scenario.wellFormed_of_parse {key : ScenarioKey} {document : String} {limit : Nat}
    {s : Scenario} (h : Scenario.parse key document limit = .ok s) : Flow.WellFormed s.flow := by
  obtain ⟨-, diagram, -, -, hflow⟩ := parse_eq_ok_iff.mp h
  exact hflow.wellFormed

end UseCaseFlow
