import Mathlib.Data.List.Forall2
import UseCaseFlow.Proofs.Diagram.Grammar

/-!
# The interactions of a flow in its lines

The lines without keyword are the interactions of the flow that the lines derive, in the same order.
-/

namespace UseCaseFlow

variable {entities : List Entity} {budget : Nat}

def plainLines (lines : List String) : List String :=
  lines.filter fun line => (Keyword.ofLine? line).isNone

@[simp] theorem plainLines_nil : plainLines [] = [] := rfl

@[simp] theorem plainLines_append (left right : List String) :
    plainLines (left ++ right) = plainLines left ++ plainLines right :=
  List.filter_append left right

theorem plainLines_cons_plain {line : String} {rest : List String}
    (h : Keyword.ofLine? line = none) : plainLines (line :: rest) = line :: plainLines rest := by
  simp [plainLines, h]

theorem plainLines_cons_keyword {line : String} {rest : List String} {k : Keyword}
    (h : Keyword.ofLine? line = some k) : plainLines (line :: rest) = plainLines rest := by
  simp [plainLines, h]

/-- Every line without keyword is read as one interaction, and no interaction comes from
elsewhere. -/
theorem FlowLines.forall₂_plainLines {lines : List String} {flow : Flow}
    (h : FlowLines entities budget lines flow) :
    List.Forall₂ (ReadsInteraction entities) (plainLines lines) (Flow.interactions flow) := by
  induction h using FlowLines.induction (Q := fun _ lines branches =>
    List.Forall₂ (ReadsInteraction entities) (plainLines lines)
      (Flow.branchInteractions branches)) with
  | nil budget h => exact .nil
  | interaction budget line message rest flow h hrest hplain hread ih =>
    rw [plainLines_cons_plain hplain]
    exact .cons hread ih
  | loop budget opener inside body closer rest flow h hbody hrest hopen hne hclose ihbody ih =>
    rw [List.cons_append, plainLines_cons_keyword hopen, plainLines_append,
      plainLines_cons_keyword hclose]
    exact List.rel_append ihbody ih
  | fork budget sections branches closer rest flow h hrest hne hdistinct hclose ihsections ih =>
    rw [plainLines_append, plainLines_cons_keyword hclose]
    exact List.rel_append ihsections ih
  | noBranch keyword => exact .nil
  | branch budget keyword opener inside body rest branches hbody hopen hne ihbody ihrest =>
    rw [List.cons_append, plainLines_cons_keyword hopen, plainLines_append]
    exact List.rel_append ihbody ihrest

end UseCaseFlow
