import Mathlib.Data.List.TakeWhile
import UseCaseFlow.Proofs.Scenario.Layout
import UseCaseFlow.Proofs.Text.Lines

/-!
# Documents made of lines

A text that is put together from lines is read as these lines. The diagram of a fenced document is
what stands between the fences, under the numbers that its lines have in the document.
-/

namespace UseCaseFlow

open Text

/-- The text has the lines, each with either kind of line end. The last one may lack its line end. -/
inductive MadeOf : List String → String → Prop
  | nil : MadeOf [] ""
  | last {line : String} (h : '\n' ∉ line.toList) : MadeOf [line] line
  | line {line ending text : String} {rest : List String} (h : '\n' ∉ line.toList)
      (hending : ending = "\n" ∨ ending = "\r\n") (hrest : MadeOf rest text) :
      MadeOf (line :: rest) (line ++ ending ++ text)

/-- Whether a line of the text opens or closes a fenced block. -/
def isFenceLine (line : String) : Bool :=
  "```".toList.isPrefixOf (trimmed line).toList

/-- The lines as they are read behind `count` others. -/
def numberedBehind (count : Nat) : List String → List NumberedLine
  | [] => []
  | line :: rest => ⟨count + 1, trimmed line⟩ :: numberedBehind (count + 1) rest

section NumberedBehind

variable {texts : List String}

theorem numberedBehind_append (count : Nat) (front back : List String) :
    numberedBehind count (front ++ back) =
      numberedBehind count front ++ numberedBehind (count + front.length) back := by
  induction front generalizing count with
  | nil => rfl
  | cons line front ih =>
    rw [List.cons_append, numberedBehind, ih, numberedBehind, List.length_cons, List.cons_append,
      Nat.add_assoc, Nat.add_comm 1]

theorem map_text_numberedBehind (count : Nat) (texts : List String) :
    (numberedBehind count texts).map (·.text) = texts.map trimmed := by
  induction texts generalizing count with
  | nil => rfl
  | cons line rest ih => rw [numberedBehind, List.map_cons, ih, List.map_cons]

theorem numberedBehind_congr {texts' : List String} (h : texts.map trimmed = texts'.map trimmed)
    (count : Nat) : numberedBehind count texts = numberedBehind count texts' := by
  induction texts generalizing texts' count with
  | nil => rw [List.map_eq_nil_iff.mp h.symm]
  | cons line rest ih =>
    obtain ⟨line', rest', rfl, hline, hrest⟩ := List.map_eq_cons_iff.mp h.symm
    rw [numberedBehind, numberedBehind, hline, ih hrest.symm]

theorem isFence_trimmed {line : String} (h : isFenceLine line = true) (number : Nat) :
    (NumberedLine.mk number (trimmed line)).isFence = true := h

theorem isFence_numberedBehind (h : ∀ line ∈ texts, isFenceLine line = false)
    (count : Nat) : ∀ line ∈ numberedBehind count texts, line.isFence = false := by
  induction texts generalizing count with
  | nil => exact nofun
  | cons line rest ih =>
    rw [List.forall_mem_cons] at h
    rw [numberedBehind, List.forall_mem_cons]
    exact ⟨h.1, ih h.2 _⟩

theorem numberedBehind_map_ofList (count : Nat) (sources : List (List Char)) :
    numberedBehind count (sources.map String.ofList) =
      sources.mapIdx fun i line => ⟨count + i + 1, String.ofList (trim line)⟩ := by
  induction sources generalizing count with
  | nil => rfl
  | cons source sources ih =>
    rw [List.map_cons, numberedBehind, ih, List.mapIdx_cons, trimmed, String.toList_ofList]
    simp only [Nat.add_zero, Nat.add_assoc, Nat.add_comm 1]

theorem numberedLines_eq_numberedBehind (document : String) :
    numberedLines document = numberedBehind 0 ((lines document.toList).map String.ofList) := by
  rw [numberedBehind_map_ofList, numberedLines]
  simp only [Nat.zero_add]

end NumberedBehind

section MadeOf

/-- The first line of a text ends at its line end, whose carriage return is blank. -/
theorem lines_append_ending {line ending : String} (h : '\n' ∉ line.toList)
    (hending : ending = "\n" ∨ ending = "\r\n") (text : String) :
    ∃ first, lines (line ++ ending ++ text).toList = first :: lines text.toList ∧
      trim first = trim line.toList := by
  rcases hending with rfl | rfl
  · refine ⟨closeLine line.toList.reverse, ?_, ?_⟩
    · rw [← lines_append_newline h, String.toList_append, String.toList_append, List.append_assoc]
      rfl
    · rw [trim_closeLine, List.reverse_reverse]
  · have hreturn : '\n' ∉ line.toList ++ ['\r'] := by
      rw [List.mem_append, not_or]
      exact ⟨h, by decide⟩
    have hblank : ∀ c ∈ ['\r'], isBlank c = true := List.forall_mem_singleton.mpr rfl
    refine ⟨closeLine (line.toList ++ ['\r']).reverse, ?_, ?_⟩
    · rw [← lines_append_newline hreturn, String.toList_append, String.toList_append,
        List.append_assoc, List.append_assoc]
      rfl
    · rw [trim_closeLine, List.reverse_reverse, trim_append_right hblank]

/-- The lines of a text that hold something are those that it was made of. -/
theorem MadeOf.filter_numberedBehind {texts : List String} {text : String} (h : MadeOf texts text)
    (count : Nat) :
    (numberedBehind count ((lines text.toList).map String.ofList)).filter (!·.text.isEmpty) =
      (numberedBehind count texts).filter (!·.text.isEmpty) := by
  induction h generalizing count with
  | nil => rfl
  | @last line h =>
    by_cases hempty : line = ""
    · subst hempty
      rfl
    · have hne : line.toList ≠ [] := by simpa using hempty
      rw [lines_of_not_mem h hne, List.map_singleton, String.ofList_toList]
  | @line line ending text rest h hending hrest ih =>
    obtain ⟨first, hlines, hfirst⟩ := lines_append_ending h hending text
    have htext : trimmed (String.ofList first) = trimmed line := by
      rw [trimmed, trimmed, String.toList_ofList, hfirst]
    rw [hlines, List.map_cons, numberedBehind, numberedBehind, htext]
    simp only [List.filter_cons, ih]

theorem MadeOf.diagramLines_eq {texts : List String} {text : String} (h : MadeOf texts text) :
    diagramLines text = (fencedLines (numberedBehind 0 texts)).map fun inside =>
      dropHeader (inside.filter (!·.text.isEmpty)) := by
  have hcontent : contentLines text = (numberedBehind 0 texts).filter (!·.text.isEmpty) := by
    rw [contentLines, numberedLines_eq_numberedBehind, h.filter_numberedBehind]
  rw [diagramLines_eq_contentLines, hcontent, fencedLines_filter]
  cases fencedLines (numberedBehind 0 texts) with
  | error cause => rfl
  | ok inside => rfl

theorem MadeOf.intercalate {texts : List String} {ending : String} (hne : texts ≠ [])
    (h : ∀ line ∈ texts, '\n' ∉ line.toList) (hending : ending = "" ∨ ending = "\n") :
    MadeOf texts ("\n".intercalate texts ++ ending) := by
  induction texts with
  | nil => contradiction
  | cons line rest ih =>
    rw [List.forall_mem_cons] at h
    cases rest with
    | nil =>
      rcases hending with rfl | rfl
      · simpa using MadeOf.last h.1
      · simpa using MadeOf.line h.1 (Or.inl rfl) .nil
    | cons next rest =>
      rw [String.intercalate_cons_cons, String.append_assoc]
      exact .line h.1 (Or.inl rfl) (ih (List.cons_ne_nil _ _) h.2)

end MadeOf

section Fences

variable {before rest inside : List NumberedLine} {fence : NumberedLine}

theorem fencedLines_of_noFence (h : ∀ line ∈ inside, line.isFence = false) :
    fencedLines inside = .ok inside := by
  have hdrop : inside.dropWhile (!·.isFence) = [] :=
    List.dropWhile_eq_nil_iff.mpr (by simpa using h)
  rw [fencedLines, hdrop]

theorem fencedLines_append_fence (hbefore : ∀ line ∈ before, line.isFence = false)
    (hfence : fence.isFence = true) : fencedLines (before ++ fence :: rest) =
      if rest.any (·.isFence) then .ok (rest.takeWhile (!·.isFence))
      else .error (.unterminatedFence fence.number) := by
  have hskip : ∀ line ∈ before, (!line.isFence) = true := by simpa using hbefore
  rw [fencedLines, List.dropWhile_append_of_pos hskip,
    List.dropWhile_cons_of_neg (by simp [hfence])]

end Fences

section Blocks

variable {before inside : List String} {opener : String}
  (hbefore : ∀ line ∈ before, isFenceLine line = false) (hopener : isFenceLine opener = true)
  (hinside : ∀ line ∈ inside, isFenceLine line = false)

include hbefore hopener hinside

theorem fencedLines_block {closer : String} (hcloser : isFenceLine closer = true)
    (after : List String) :
    fencedLines (numberedBehind 0 (before ++ opener :: (inside ++ closer :: after))) =
      .ok (numberedBehind (before.length + 1) inside) := by
  have hskip : ∀ line ∈ numberedBehind (before.length + 1) inside, (!line.isFence) = true := by
    simpa using isFence_numberedBehind hinside _
  have hclose := isFence_trimmed hcloser
  rw [numberedBehind_append, Nat.zero_add, numberedBehind, numberedBehind_append, numberedBehind,
    fencedLines_append_fence (isFence_numberedBehind hbefore 0) (isFence_trimmed hopener _),
    if_pos (by simp [hclose]), List.takeWhile_append_of_pos hskip,
    List.takeWhile_cons_of_neg (by simp [hclose]), List.append_nil]

theorem fencedLines_open : fencedLines (numberedBehind 0 (before ++ opener :: inside)) =
    .error (.unterminatedFence (before.length + 1)) := by
  have hnone := isFence_numberedBehind hinside (before.length + 1)
  rw [numberedBehind_append, Nat.zero_add, numberedBehind,
    fencedLines_append_fence (isFence_numberedBehind hbefore 0) (isFence_trimmed hopener _),
    if_neg (by simpa using hnone)]

end Blocks

end UseCaseFlow
