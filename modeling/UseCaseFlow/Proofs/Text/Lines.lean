import UseCaseFlow.Proofs.Text.Trim
import UseCaseFlow.Text.Lines

/-!
# Splitting a text into lines

A text is split at its line feeds. The carriage return that goes with a line feed is blank, so that
trimming a line gives the same with it and without.
-/

namespace UseCaseFlow.Text

theorem linesFrom_append {line : List Char} (h : '\n' ∉ line) (held rest : List Char) :
    linesFrom held (line ++ rest) = linesFrom (line.reverse ++ held) rest := by
  induction line generalizing held with
  | nil => rfl
  | cons c line ih =>
    rw [List.mem_cons, not_or] at h
    obtain ⟨hc, hline⟩ := h
    rw [List.cons_append, linesFrom, ih hline, List.reverse_cons, List.append_assoc]
    · rfl
    · exact Ne.symm hc

theorem lines_append_newline {line : List Char} (h : '\n' ∉ line) (rest : List Char) :
    lines (line ++ '\n' :: rest) = closeLine line.reverse :: lines rest := by
  rw [lines, linesFrom_append h, List.append_nil, linesFrom, lines]

theorem lines_of_not_mem {line : List Char} (h : '\n' ∉ line) (hne : line ≠ []) :
    lines line = [line] := by
  have hfrom := linesFrom_append h [] []
  rw [List.append_nil, List.append_nil] at hfrom
  rw [lines, hfrom]
  cases hrev : line.reverse with
  | nil => simp_all
  | cons c held => rw [linesFrom, ← hrev, List.reverse_reverse]; simp

theorem trim_closeLine (held : List Char) : trim (closeLine held) = trim held.reverse := by
  by_cases h : ∃ rest, held = '\r' :: rest
  · obtain ⟨rest, rfl⟩ := h
    rw [closeLine, List.reverse_cons, trim_append_right]
    intro c hc
    obtain rfl := List.mem_singleton.mp hc
    rfl
  · rw [closeLine]
    exact fun rest hrest => h ⟨rest, hrest⟩

end UseCaseFlow.Text
