import UseCaseFlow.Diagram.Keyword
import UseCaseFlow.Proofs.Text.Trim
import UseCaseFlow.Proofs.Text.FirstCut

/-!
# Keywords and trimmed lines

A line has the keyword that is its first word. Neither the keyword nor the text after it depends on
the blanks around the line, and together with the blanks between them they are the whole line.
-/

namespace UseCaseFlow

open Text

theorem Keyword.ofLine?_eq_some_iff {line : String} {k : Keyword} :
    Keyword.ofLine? line = some k ↔ firstWord line.toList = k.text.toList := by
  rw [ofLine?, ofWord?]
  constructor
  · intro h
    have hfound := List.find?_some h
    exact (beq_iff_eq.mp hfound).symm
  · intro h
    cases hfind : Keyword.all.find? fun k => k.text.toList == firstWord line.toList with
    | none =>
      have hk := List.find?_eq_none.mp hfind k k.mem_all
      simp [h] at hk
    | some l =>
      have hfound := List.find?_some hfind
      rw [text_injective (String.toList_inj.mp ((beq_iff_eq.mp hfound).trans h))]

theorem Keyword.ofLine?_congr {line line' : String}
    (h : firstWord line.toList = firstWord line'.toList) :
    Keyword.ofLine? line = Keyword.ofLine? line' := by
  rw [ofLine?, h, ofLine?]

theorem Keyword.ne_empty_of_ofLine? {line : String} {k : Keyword}
    (h : Keyword.ofLine? line = some k) : line ≠ "" := by
  rintro rfl
  revert h
  cases k <;> decide

theorem Keyword.not_fence_of_ofLine? {line : String} {k : Keyword}
    (h : Keyword.ofLine? line = some k) : ¬ "```".toList <+: line.toList := by
  rintro ⟨rest, hrest⟩
  rw [ofLine?_eq_some_iff, ← hrest] at h
  have hhead := congrArg List.head? h
  revert hhead
  cases k <;> simp [firstWord, trimStart, isBlank, blankRanges, Keyword.text]

@[simp] theorem Keyword.ofLine?_trimmed (line : String) :
    Keyword.ofLine? (trimmed line) = Keyword.ofLine? line :=
  ofLine?_congr (by rw [trimmed, String.toList_ofList, firstWord_trim])

theorem Keyword.isBlank_text (k : Keyword) : ∀ c ∈ k.text.toList, isBlank c = false := by
  have hall : k.text.toList.all (!isBlank ·) = true := by cases k <;> decide
  simpa using hall

theorem Keyword.text_ne_nil (k : Keyword) : k.text.toList ≠ [] := by
  cases k <;> decide

theorem Keyword.trimmed_text (k : Keyword) : Trimmed k.text.toList :=
  ⟨fun c hc => k.isBlank_text c (List.mem_of_mem_head? hc),
    fun c hc => k.isBlank_text c (List.mem_of_mem_getLast? hc)⟩

/-- What follows a text without keyword does not make it one, behind a character of no keyword. -/
theorem Keyword.ofLine?_eq_none_of_append {start line : String} {c : Char} {rest : List Char}
    (hne : start ≠ "") (hhead : ∀ c ∈ start.toList.head?, isBlank c = false)
    (hstart : Keyword.ofLine? start = none) (hc : ∀ k : Keyword, c ∉ k.text.toList)
    (hline : line.toList = start.toList ++ c :: rest) : Keyword.ofLine? line = none := by
  have hstart' : start.toList ≠ [] := by simpa using hne
  rw [Option.eq_none_iff_forall_ne_some] at hstart ⊢
  intro k hk
  rw [ofLine?_eq_some_iff, hline, firstWord, trimStart_of_head (head_append hstart' hhead _),
    List.takeWhile_append] at hk
  split at hk
  · -- The whole text is one word, which the character goes on or ends.
    rename_i hword
    by_cases hblank : isBlank c = true
    · have hsame : firstWord start.toList = start.toList := by
        rw [firstWord, trimStart_of_head hhead]
        exact (List.takeWhile_prefix _).eq_of_length hword
      apply hstart k
      rw [ofLine?_eq_some_iff, hsame, ← hk]
      simp [hblank]
    · apply hc k
      rw [← hk]
      simp [hblank]
  · apply hstart k
    rw [ofLine?_eq_some_iff, firstWord, trimStart_of_head hhead, hk]

@[simp] theorem Keyword.restOf_trimmed (k : Keyword) (line : String) :
    k.restOf (trimmed line) = k.restOf line := by
  have hstart : trimStart (trim line.toList) = trimEnd (trimStart line.toList) :=
    trimStart_of_head (trimmed_trim line.toList).head
  rw [restOf, restOf, trimmed, String.toList_ofList, hstart]
  cases hstarts : k.text.toList.isPrefixOf? (trimStart line.toList) with
  | some rest =>
    have hline := isPrefixOf?_eq_some_iff.mp hstarts
    have htrim : trimEnd (trimStart line.toList) = k.text.toList ++ trimEnd rest := by
      rw [hline, trimEnd_append k.trimmed_text.last]
    obtain ⟨blanks, hblanks, hrest⟩ := exists_append_trimEnd rest
    have hsame : trim (trimEnd rest) = trim rest := by
      conv =>
        rhs
        rw [hrest, trim_append_right hblanks]
    rw [isPrefixOf?_eq_some_iff.mpr htrim]
    simp only [hsame]
  | none =>
    cases hstarts' : k.text.toList.isPrefixOf? (trimEnd (trimStart line.toList)) with
    | none => rfl
    | some rest =>
      obtain ⟨blanks, -, heq⟩ := exists_append_trimEnd (trimStart line.toList)
      rw [isPrefixOf?_eq_some_iff.mp hstarts', List.append_assoc] at heq
      rw [isPrefixOf?_eq_some_iff.mpr heq] at hstarts
      contradiction

section Split

variable {k : Keyword} {line : String} {rest : List Char}

/-- A line has the keyword that its trimmed text starts with, if a blank or nothing follows. -/
theorem Keyword.ofLine?_eq_some_iff_exists : Keyword.ofLine? line = some k ↔
    ∃ rest, trim line.toList = k.text.toList ++ rest ∧ ∀ c ∈ rest.head?, isBlank c = true := by
  rw [ofLine?_eq_some_iff, ← firstWord_trim]
  constructor
  · intro h
    obtain ⟨rest, hrest, hblank⟩ := exists_append_firstWord (trimmed_trim line.toList).head
    rw [h] at hrest
    exact ⟨rest, hrest, hblank⟩
  · rintro ⟨rest, hrest, hblank⟩
    rw [hrest]
    cases rest with
    | nil => rw [List.append_nil, firstWord_eq_self k.isBlank_text]
    | cons blank rest =>
      rw [firstWord_append_blank k.text_ne_nil k.trimmed_text.head (hblank blank rfl),
        firstWord_eq_self k.isBlank_text]

theorem Keyword.restOf_of_append (h : trim line.toList = k.text.toList ++ rest) :
    k.restOf line = String.ofList (trim rest) := by
  have hstart : trimStart (trim line.toList) = k.text.toList ++ rest := by
    rw [trimStart_of_head (trimmed_trim line.toList).head, h]
  rw [← restOf_trimmed, restOf, trimmed, String.toList_ofList, isPrefixOf?_eq_some_iff.mpr hstart]

theorem Keyword.trimmed_restOf (k : Keyword) (line : String) : Trimmed (k.restOf line).toList := by
  rw [restOf]
  split
  · rw [String.toList_ofList]
    apply trimmed_trim
  · decide

theorem Keyword.exists_blanks_restOf (h : Keyword.ofLine? line = some k) :
    ∃ blanks, (∀ c ∈ blanks, isBlank c = true) ∧ (blanks = [] ↔ k.restOf line = "") ∧
      trim line.toList = k.text.toList ++ blanks ++ (k.restOf line).toList := by
  obtain ⟨rest, hrest, hhead⟩ := ofLine?_eq_some_iff_exists.mp h
  have hlast : ∀ c ∈ rest.getLast?, isBlank c = false := by
    intro c hc
    apply (trimmed_trim line.toList).last
    rw [hrest, List.getLast?_append, Option.mem_def.mp hc]
    rfl
  obtain ⟨blanks, hblanks, heq⟩ := exists_append_trim hlast
  rw [restOf_of_append hrest, String.toList_ofList]
  refine ⟨blanks, hblanks, ⟨?_, ?_⟩, ?_⟩
  · -- Without blanks the text would start with a blank and with none.
    rintro rfl
    cases hsame : trim rest with
    | nil => rfl
    | cons c tail =>
      have hblank := hhead c (by rw [heq, hsame]; rfl)
      have hfilled := (trimmed_trim rest).head c (by rw [hsame]; rfl)
      simp [hblank] at hfilled
  · intro hempty
    have hnil : trim rest = [] := by simpa using hempty
    rw [hnil, List.append_nil] at heq
    cases hend : blanks.getLast? with
    | none => exact List.getLast?_eq_none_iff.mp hend
    | some c =>
      have hblank := hblanks c (List.mem_of_getLast? hend)
      have hfilled := hlast c (by rw [heq, hend]; rfl)
      simp [hblank] at hfilled
  · rw [List.append_assoc, ← heq]
    exact hrest

theorem trimmed_surrounded {front back : String} (hfront : ∀ c ∈ front.toList, isBlank c = true)
    (hback : ∀ c ∈ back.toList, isBlank c = true) (line : String) :
    trimmed (front ++ line ++ back) = trimmed line := by
  rw [trimmed, String.toList_append, String.toList_append, trim_append_right hback,
    trim_append_left hfront, trimmed]

/-- A keyword is found on a line and taken off it in the same way: both go by the text between the
blanks around the line, and by the blanks behind the keyword. -/
structure Keyword.SplitsOff (k : Keyword) (line : String) : Prop where
  /-- The keyword is the whole text, or a blank follows it. -/
  found : Keyword.ofLine? line = some k ↔ trimmed line = k.text ∨ ∃ blank rest,
    isBlank blank = true ∧ (trimmed line).toList = k.text.toList ++ blank :: rest
  /-- The keyword, what is taken from the line, and blanks in between if that is not empty. -/
  whole (h : Keyword.ofLine? line = some k) : ∃ blanks, (∀ c ∈ blanks, isBlank c = true) ∧
    (blanks = [] ↔ k.restOf line = "") ∧
    (trimmed line).toList = k.text.toList ++ blanks ++ (k.restOf line).toList
  rest : Trimmed (k.restOf line).toList
  surrounded (front back : String) (hfront : ∀ c ∈ front.toList, isBlank c = true)
    (hback : ∀ c ∈ back.toList, isBlank c = true) :
    Keyword.ofLine? (front ++ line ++ back) = Keyword.ofLine? line ∧
      k.restOf (front ++ line ++ back) = k.restOf line

theorem Keyword.splitsOff (k : Keyword) (line : String) : k.SplitsOff line := by
  have htrimmed : (trimmed line).toList = trim line.toList := by
    rw [trimmed, String.toList_ofList]
  constructor
  case found =>
    rw [ofLine?_eq_some_iff_exists, ← String.toList_inj, htrimmed]
    constructor
    · rintro ⟨rest, hrest, hblank⟩
      cases rest with
      | nil => exact Or.inl (by simpa using hrest)
      | cons blank rest => exact Or.inr ⟨blank, rest, hblank blank rfl, hrest⟩
    · rintro (hwhole | ⟨blank, rest, hblank, hrest⟩)
      · exact ⟨[], by simpa using hwhole, by simp⟩
      · exact ⟨blank :: rest, hrest, by simpa using hblank⟩
  case whole =>
    rw [htrimmed]
    exact exists_blanks_restOf
  case rest => exact k.trimmed_restOf line
  case surrounded =>
    intro front back hfront hback
    have hsame := trimmed_surrounded hfront hback line
    constructor
    · rw [← ofLine?_trimmed, hsame, ofLine?_trimmed]
    · rw [← restOf_trimmed, hsame, restOf_trimmed]

example : Keyword.ofLine? "\u3000loop\u00a0\teach item\u2003" = some .loop ∧
    Keyword.loop.restOf "\u3000loop\u00a0\teach item\u2003" = "each item" := by decide

end Split

section Written

def Keyword.line (k : Keyword) (rest : String) : String :=
  k.text ++ " " ++ rest

variable (k : Keyword) (rest : String)

theorem Keyword.toList_line : (k.line rest).toList = k.text.toList ++ ' ' :: rest.toList := by
  simp [line]

theorem Keyword.head_line : ∀ c ∈ (k.line rest).toList.head?, isBlank c = false := by
  rw [toList_line]
  exact head_append k.text_ne_nil k.trimmed_text.head _

@[simp] theorem Keyword.ofLine?_line : Keyword.ofLine? (k.line rest) = some k := by
  rw [ofLine?_eq_some_iff, toList_line,
    firstWord_append_blank k.text_ne_nil k.trimmed_text.head rfl, firstWord_eq_self k.isBlank_text]

@[simp] theorem Keyword.restOf_line : k.restOf (k.line rest) = trimmed rest := by
  have hline : (k.line rest).toList = k.text.toList ++ ([' '] ++ rest.toList) := k.toList_line rest
  rw [restOf, trimStart_of_head (k.head_line rest), isPrefixOf?_eq_some_iff.mpr hline]
  simp only [trim_append_left isBlank_space, trimmed]

end Written

end UseCaseFlow
