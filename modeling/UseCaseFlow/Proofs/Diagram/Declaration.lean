import Mathlib.Data.List.Forall2
import Mathlib.Data.Option.Basic
import UseCaseFlow.Diagram.Declaration
import UseCaseFlow.Proofs.Diagram.Keyword
import UseCaseFlow.Proofs.Outcome

/-!
# Leading declarations

The lines in front of the first that declares nothing are declarations, and each of them is read as
one entity. The first that cannot be read is reported.
-/

namespace UseCaseFlow

open Text

@[simp] theorem readEntity?_trimmed (line : String) :
    readEntity? (trimmed line) = readEntity? line := by
  simp only [readEntity?, Keyword.ofLine?_trimmed, Keyword.restOf_trimmed]

@[simp] theorem isDeclaration_trimmed (line : String) :
    isDeclaration (trimmed line) = isDeclaration line := by
  rw [isDeclaration, Keyword.ofLine?_trimmed, isDeclaration]

theorem parseEntity_eq_ok_iff {line : String} {e : Entity} :
    parseEntity line = .ok e ↔ readEntity? line = some e := by
  rw [parseEntity, readEntity?_trimmed]
  cases readEntity? line <;> simp

theorem parseEntity_eq_error_iff {line : String} {cause : ParseError} :
    parseEntity line = .error cause ↔
      readEntity? line = none ∧ cause = .onLine 1 (.malformedDeclaration (trimmed line)) := by
  rw [parseEntity, readEntity?_trimmed]
  cases readEntity? line with
  | none => simp [eq_comm]
  | some e => simp

theorem isDeclaration_eq_true_iff {line : String} : isDeclaration line = true ↔
    ∃ k, Keyword.ofLine? line = some k ∧ k.declaresEntity = true := by
  rw [isDeclaration, Option.any_eq_true]

theorem isDeclaration_of_parseEntity {line : String} {e : Entity} (h : parseEntity line = .ok e) :
    isDeclaration line = true := by
  rw [parseEntity_eq_ok_iff, readEntity?] at h
  simp only [Option.bind_eq_bind, Option.bind_eq_some_iff] at h
  obtain ⟨keyword, hline, kind, hkind, -⟩ := h
  apply isDeclaration_eq_true_iff.mpr
  exact ⟨keyword, hline, by rw [← Keyword.isSome_entityKind?, hkind, Option.isSome_some]⟩

theorem isDeclaration_of_forall₂ {declared : List String} {entities : List Entity}
    (h : List.Forall₂ (fun line e => parseEntity line = .ok e) declared entities) :
    ∀ line ∈ declared, isDeclaration line = true := by
  induction h with
  | nil => simp
  | cons hread _ ih => exact List.forall_mem_cons.mpr ⟨isDeclaration_of_parseEntity hread, ih⟩

section Leading

variable {start : Nat} {lines : List String}

theorem parseDeclarationsFrom_eq_ok_iff {entities : List Entity} :
    parseDeclarationsFrom start lines = .ok entities ↔ ∃ declared rest, lines = declared ++ rest ∧
      List.Forall₂ (fun line e => parseEntity line = .ok e) declared entities ∧
      ∀ line ∈ rest.head?, isDeclaration line = false := by
  induction lines generalizing start entities with
  | nil =>
    rw [parseDeclarationsFrom, Except.ok.injEq]
    constructor
    · rintro rfl
      exact ⟨[], [], rfl, .nil, by simp⟩
    · rintro ⟨declared, rest, hlines, hdeclared, -⟩
      obtain ⟨rfl, -⟩ := List.append_eq_nil_iff.mp hlines.symm
      cases hdeclared
      rfl
  | cons line lines ih =>
    rw [parseDeclarationsFrom]
    by_cases hline : isDeclaration line = true
    · simp only [hline, if_true, bind_eq_ok_iff, mapError_eq_ok_iff, ih, pure_eq_ok_iff]
      constructor
      · rintro ⟨e, hread, later, ⟨declared, rest, rfl, hdeclared, hrest⟩, rfl⟩
        exact ⟨line :: declared, rest, rfl, .cons hread hdeclared, hrest⟩
      · rintro ⟨_ | ⟨first, declared⟩, rest, hlines, hdeclared, hrest⟩
        · obtain rfl : line :: lines = rest := hlines
          simp [hline] at hrest
        · obtain ⟨rfl, rfl⟩ := List.cons.inj hlines
          cases hdeclared with
          | cons hread hdeclared =>
            exact ⟨_, hread, _, ⟨declared, rest, rfl, hdeclared, hrest⟩, rfl⟩
    · rw [if_neg hline, Except.ok.injEq]
      constructor
      · rintro rfl
        exact ⟨[], line :: lines, rfl, .nil, by simpa using hline⟩
      · rintro ⟨_ | ⟨first, declared⟩, rest, hlines, hdeclared, -⟩
        · cases hdeclared
          rfl
        · obtain ⟨rfl, -⟩ := List.cons.inj hlines
          cases hdeclared with
          | cons hread _ => exact absurd (isDeclaration_of_parseEntity hread) hline

theorem parseDeclarationsFrom_eq_error_iff {cause : ParseError} :
    parseDeclarationsFrom start lines = .error cause ↔ ∃ declared line rest,
      lines = declared ++ line :: rest ∧ (∀ l ∈ declared, ∃ e, parseEntity l = .ok e) ∧
      isDeclaration line = true ∧ readEntity? line = none ∧
      cause = .onLine (start + declared.length + 1) (.malformedDeclaration (trimmed line)) := by
  induction lines generalizing start with
  | nil => simp [parseDeclarationsFrom]
  | cons line lines ih =>
    have hnumber (declared : List String) :
        start + 1 + declared.length = start + (line :: declared).length := by
      rw [List.length_cons, Nat.add_assoc, Nat.add_comm 1]
    rw [parseDeclarationsFrom]
    by_cases hline : isDeclaration line = true
    · simp only [hline, if_true, bind_eq_error_iff, mapError_eq_error_iff, mapError_eq_ok_iff, ih,
        parseEntity_eq_error_iff, pure_ne_error, and_false, exists_false, or_false]
      constructor
      · rintro (⟨_, ⟨hread, rfl⟩, rfl⟩ | ⟨e, hread, declared, first, rest, rfl, hdeclared, h⟩)
        · refine ⟨[], line, lines, rfl, by simp, hline, hread, ?_⟩
          rw [ParseError.shifted, List.length_nil, Nat.add_zero, Nat.add_comm]
        · refine ⟨line :: declared, first, rest, rfl, ?_, h.1, h.2.1, ?_⟩
          · exact List.forall_mem_cons.mpr ⟨⟨e, hread⟩, hdeclared⟩
          · rw [h.2.2, hnumber]
      · rintro ⟨_ | ⟨first, declared⟩, bad, rest, hlines, hdeclared, hbad, hread, rfl⟩
        · obtain ⟨rfl, rfl⟩ := List.cons.inj hlines
          refine Or.inl ⟨_, ⟨hread, rfl⟩, ?_⟩
          rw [ParseError.shifted, List.length_nil, Nat.add_zero, Nat.add_comm]
        · obtain ⟨rfl, rfl⟩ := List.cons.inj hlines
          rw [List.forall_mem_cons] at hdeclared
          obtain ⟨⟨e, he⟩, hdeclared⟩ := hdeclared
          refine Or.inr ⟨e, he, declared, bad, rest, rfl, hdeclared, hbad, hread, ?_⟩
          rw [hnumber]
    · rw [if_neg hline]
      constructor
      · intro h
        contradiction
      · rintro ⟨_ | ⟨first, declared⟩, bad, rest, hlines, hdeclared, hbad, -⟩
        · obtain ⟨rfl, -⟩ := List.cons.inj hlines
          exact absurd hbad hline
        · obtain ⟨rfl, -⟩ := List.cons.inj hlines
          obtain ⟨e, he⟩ := hdeclared line List.mem_cons_self
          exact absurd (isDeclaration_of_parseEntity he) hline

end Leading

end UseCaseFlow
