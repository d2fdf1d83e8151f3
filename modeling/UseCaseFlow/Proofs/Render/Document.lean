import UseCaseFlow.Proofs.Render.Declaration
import UseCaseFlow.Proofs.Render.Flow
import UseCaseFlow.Proofs.Diagram.Sequence
import UseCaseFlow.Proofs.Scenario.Document

/-!
# Documents read back

A written document is taken apart into the lines it was made of, and reading them gives the
scenario.
-/

namespace UseCaseFlow

open Text

section Layout

theorem trim_indented (count : Nat) (line : String) :
    trim (indented count line).toList = trim line.toList := by
  have hblank : ∀ c ∈ List.replicate count ' ', isBlank c = true := by
    intro c hc
    obtain ⟨-, rfl⟩ := List.mem_replicate.mp hc
    rfl
  rw [indented, String.toList_append, String.toList_ofList, trim_append_left hblank]

theorem not_mem_indented {line : String} (h : '\n' ∉ line.toList) (count : Nat) :
    '\n' ∉ (indented count line).toList := by
  rw [indented, String.toList_append, String.toList_ofList, List.mem_append, not_or]
  exact ⟨by simp, h⟩

variable (layout : Layout) {texts : List String}

theorem Layout.map_trimmed (texts : List String) :
    (texts.mapIdx fun i line => indented (layout.indent i) line).map trimmed =
      texts.map trimmed := by
  refine List.ext_getElem (by simp) fun i _ _ => ?_
  simp only [List.getElem_map, List.getElem_mapIdx, trimmed, trim_indented]

theorem Layout.madeOf_text (hne : texts ≠ []) (h : ∀ line ∈ texts, '\n' ∉ line.toList) :
    MadeOf (texts.mapIdx fun i line => indented (layout.indent i) line) (layout.text texts) := by
  have hindented : ∀ line ∈ texts.mapIdx fun i line => indented (layout.indent i) line,
      '\n' ∉ line.toList := by
    intro line hline
    obtain ⟨i, hi, rfl⟩ := List.mem_mapIdx.mp hline
    exact not_mem_indented (h _ (List.getElem_mem hi)) _
  apply MadeOf.intercalate (by simpa using hne) hindented
  cases layout.endsWithNewline with
  | false => exact Or.inl rfl
  | true => exact Or.inr rfl

theorem diagramLines_layout (hne : texts ≠ []) (h : ∀ line ∈ texts, '\n' ∉ line.toList) :
    diagramLines (layout.text texts) = (fencedLines (numberedBehind 0 texts)).map fun inside =>
      dropHeader (inside.filter (!·.text.isEmpty)) := by
  rw [(layout.madeOf_text hne h).diagramLines_eq, numberedBehind_congr (layout.map_trimmed texts)]

end Layout

/-- A line that stays inside a fenced block. -/
structure InsideFence (line : String) : Prop where
  nonempty : line ≠ ""
  noFence : ¬ "```".toList <+: line.toList

theorem InsideFence.isFenceLine_eq_false {line : String} (h : InsideFence (trimmed line)) :
    isFenceLine line = false := by
  rw [← Bool.not_eq_true, isFenceLine, List.isPrefixOf_iff_prefix]
  exact h.noFence

theorem diagramLines_fenced {opener closer : String} {inside : List String}
    (h : ∀ line ∈ opener :: "sequenceDiagram" :: (inside ++ [closer]), '\n' ∉ line.toList)
    (hopener : isFenceLine opener = true) (hcloser : isFenceLine closer = true)
    (hinside : ∀ line ∈ inside, InsideFence (trimmed line)) (layout : Layout) :
    ∃ diagram, diagramLines (layout.text (opener :: "sequenceDiagram" :: (inside ++ [closer]))) =
        .ok diagram ∧ diagram.map (·.text) = inside.map trimmed := by
  have hplain : ∀ line ∈ "sequenceDiagram" :: inside, isFenceLine line = false := by
    rw [List.forall_mem_cons]
    exact ⟨by decide, fun line hline => (hinside line hline).isFenceLine_eq_false⟩
  have hblock := fencedLines_block (List.forall_mem_nil _) hopener hplain hcloser []
  have hheader : trimmed "sequenceDiagram" = "sequenceDiagram" := by decide
  have hkeep : ∀ line ∈ numberedBehind 2 inside, (!line.text.isEmpty) = true := by
    intro line hline
    have htext : line.text ∈ (numberedBehind 2 inside).map (·.text) := List.mem_map_of_mem hline
    rw [map_text_numberedBehind] at htext
    obtain ⟨source, hsource, heq⟩ := List.mem_map.mp htext
    simpa [← heq] using (hinside source hsource).nonempty
  refine ⟨numberedBehind 2 inside, ?_, map_text_numberedBehind 2 inside⟩
  rw [List.nil_append, List.cons_append] at hblock
  rw [diagramLines_layout layout (List.cons_ne_nil _ _) h, hblock, List.length_nil, numberedBehind,
    hheader, map_ok, List.filter_cons_of_pos (by decide), List.filter_eq_self.mpr hkeep, dropHeader,
    if_pos rfl]

end UseCaseFlow
