import UseCaseFlow.Text.Trim

/-!
# Blanks around a text

Trimming takes away the blanks around a text and nothing else. A text without blanks at its ends is
left as it is, and its first word does not depend on what was taken away.
-/

namespace UseCaseFlow.Text

/-- The text neither starts nor ends with a blank. -/
structure Trimmed (cs : List Char) : Prop where
  head : ∀ c ∈ cs.head?, isBlank c = false
  last : ∀ c ∈ cs.getLast?, isBlank c = false

theorem trimmed_iff {cs : List Char} : Trimmed cs ↔
    cs.head?.all (!isBlank ·) = true ∧ cs.getLast?.all (!isBlank ·) = true := by
  simp only [Option.all_eq_true, Bool.not_eq_true']
  exact ⟨fun h => ⟨h.head, h.last⟩, fun h => ⟨h.1, h.2⟩⟩

instance (cs : List Char) : Decidable (Trimmed cs) :=
  decidable_of_iff _ trimmed_iff.symm

theorem isBlank_space : ∀ c ∈ [' '], isBlank c = true :=
  List.forall_mem_singleton.mpr rfl

theorem Trimmed.singleton {c : Char} (h : isBlank c = false) : Trimmed [c] := by
  simpa [trimmed_iff] using h

theorem head_append {left : List Char} (hne : left ≠ [])
    (h : ∀ c ∈ left.head?, isBlank c = false) (right : List Char) :
    ∀ c ∈ (left ++ right).head?, isBlank c = false := by
  cases left with
  | nil => contradiction
  | cons c left => exact h

theorem Trimmed.around {left right : List Char} (hleft : Trimmed left) (hlne : left ≠ [])
    (middle : List Char) (hright : Trimmed right) (hrne : right ≠ []) :
    Trimmed (left ++ middle ++ right) := by
  constructor
  · rw [List.append_assoc]
    exact head_append hlne hleft.head _
  · obtain ⟨c, hc⟩ := Option.isSome_iff_exists.mp (List.getLast?_isSome.mpr hrne)
    rw [List.getLast?_append, hc, Option.some_or, ← hc]
    exact hright.last

section TrimStart

theorem trimStart_of_head {cs : List Char} (h : ∀ c ∈ cs.head?, isBlank c = false) :
    trimStart cs = cs := by
  cases cs with
  | nil => rfl
  | cons c cs => rw [trimStart, List.dropWhile_cons_of_neg (by simp [h c rfl])]

theorem head_trimStart (cs : List Char) : ∀ c ∈ (trimStart cs).head?, isBlank c = false := by
  intro c hc
  have h := List.head?_dropWhile_not isBlank cs
  rw [← trimStart, Option.mem_def.mp hc] at h
  simpa using h

theorem trimStart_append_left {blanks : List Char} (h : ∀ c ∈ blanks, isBlank c = true)
    (cs : List Char) : trimStart (blanks ++ cs) = trimStart cs :=
  List.dropWhile_append_of_pos h

theorem trimStart_blanks {blanks : List Char} (h : ∀ c ∈ blanks, isBlank c = true) :
    trimStart blanks = [] := by
  simpa [trimStart] using trimStart_append_left h []

theorem exists_append_trimStart (cs : List Char) :
    ∃ blanks, (∀ c ∈ blanks, isBlank c = true) ∧ cs = blanks ++ trimStart cs :=
  ⟨cs.takeWhile isBlank, fun _ hc => by simpa using List.all_eq_true.mp List.all_takeWhile _ hc,
    List.takeWhile_append_dropWhile.symm⟩

end TrimStart

section TrimEnd

theorem trimEnd_eq_reverse (cs : List Char) : trimEnd cs = (trimStart cs.reverse).reverse := rfl

theorem trimEnd_of_last {cs : List Char} (h : ∀ c ∈ cs.getLast?, isBlank c = false) :
    trimEnd cs = cs := by
  rw [trimEnd_eq_reverse, trimStart_of_head (by simpa using h), List.reverse_reverse]

theorem last_trimEnd (cs : List Char) : ∀ c ∈ (trimEnd cs).getLast?, isBlank c = false := by
  rw [trimEnd_eq_reverse, List.getLast?_reverse]
  exact head_trimStart cs.reverse

theorem trimEnd_append_right {blanks : List Char} (h : ∀ c ∈ blanks, isBlank c = true)
    (cs : List Char) : trimEnd (cs ++ blanks) = trimEnd cs := by
  rw [trimEnd_eq_reverse, List.reverse_append, trimStart_append_left (by simpa using h)]
  rfl

theorem exists_append_trimEnd (cs : List Char) :
    ∃ blanks, (∀ c ∈ blanks, isBlank c = true) ∧ cs = trimEnd cs ++ blanks := by
  obtain ⟨blanks, hblanks, heq⟩ := exists_append_trimStart cs.reverse
  refine ⟨blanks.reverse, by simpa using hblanks, ?_⟩
  rw [trimEnd_eq_reverse, ← List.reverse_append, ← heq, List.reverse_reverse]

/-- Trimming the end does not reach behind a character that is not blank. -/
theorem trimEnd_append {left : List Char} (h : ∀ c ∈ left.getLast?, isBlank c = false)
    (right : List Char) : trimEnd (left ++ right) = left ++ trimEnd right := by
  obtain ⟨blanks, hblanks, heq⟩ := exists_append_trimEnd right
  have hlast : ∀ c ∈ (left ++ trimEnd right).getLast?, isBlank c = false := by
    intro c hc
    rw [List.getLast?_append, Option.mem_def, Option.or_eq_some_iff] at hc
    rcases hc with hc | ⟨-, hc⟩
    · exact last_trimEnd right c hc
    · exact h c hc
  conv =>
    lhs
    rw [heq, ← List.append_assoc, trimEnd_append_right hblanks, trimEnd_of_last hlast]

end TrimEnd

section Trim

theorem trim_eq_self {cs : List Char} (h : Trimmed cs) : trim cs = cs := by
  rw [trim, trimStart_of_head h.head, trimEnd_of_last h.last]

theorem trimmed_eq_self {s : String} (h : Trimmed s.toList) : trimmed s = s := by
  rw [trimmed, trim_eq_self h, String.ofList_toList]

theorem head_trimEnd {cs : List Char} (h : ∀ c ∈ cs.head?, isBlank c = false) :
    ∀ c ∈ (trimEnd cs).head?, isBlank c = false := by
  obtain ⟨blanks, -, heq⟩ := exists_append_trimEnd cs
  intro c hc
  refine h c ?_
  rw [heq, List.head?_append, Option.mem_def.mp hc]
  rfl

theorem trimmed_trim (cs : List Char) : Trimmed (trim cs) :=
  ⟨head_trimEnd (head_trimStart cs), last_trimEnd (trimStart cs)⟩

theorem trim_append_left {blanks : List Char} (h : ∀ c ∈ blanks, isBlank c = true)
    (cs : List Char) : trim (blanks ++ cs) = trim cs := by
  rw [trim, trimStart_append_left h, trim]

theorem trim_append_right {blanks : List Char} (h : ∀ c ∈ blanks, isBlank c = true)
    (cs : List Char) : trim (cs ++ blanks) = trim cs := by
  have hstart : trimStart (cs ++ blanks) = trimStart cs ++ blanks ∨
      trimStart (cs ++ blanks) = [] ∧ trimStart cs = [] := by
    rw [trimStart, List.dropWhile_append]
    cases hcs : cs.dropWhile isBlank with
    | nil =>
      exact Or.inr ⟨trimStart_blanks h, hcs⟩
    | cons c rest => exact Or.inl (by simp [trimStart, hcs])
  rcases hstart with hstart | ⟨hstart, hcs⟩
  · rw [trim, hstart, trimEnd_append_right h, trim]
  · rw [trim, hstart, trim, hcs]

theorem exists_append_trim {cs : List Char} (h : ∀ c ∈ cs.getLast?, isBlank c = false) :
    ∃ blanks, (∀ c ∈ blanks, isBlank c = true) ∧ cs = blanks ++ trim cs := by
  obtain ⟨blanks, hblanks, heq⟩ := exists_append_trimStart cs
  have hlast : ∀ c ∈ (trimStart cs).getLast?, isBlank c = false := by
    intro c hc
    apply h
    rw [heq, List.getLast?_append, Option.mem_def.mp hc]
    rfl
  refine ⟨blanks, hblanks, ?_⟩
  rw [trim, trimEnd_of_last hlast]
  exact heq

theorem trim_ne_nil {cs : List Char} {c : Char} (hc : c ∈ cs) (h : isBlank c = false) :
    trim cs ≠ [] := by
  intro hnil
  obtain ⟨front, hfront, hcs⟩ := exists_append_trimStart cs
  obtain ⟨back, hback, hstart⟩ := exists_append_trimEnd (trimStart cs)
  rw [← trim, hnil, List.nil_append] at hstart
  rw [hcs, hstart, List.mem_append] at hc
  rcases hc with hc | hc
  · simp [hfront c hc] at h
  · simp [hback c hc] at h

end Trim

section FirstWord

private theorem takeWhile_append {right : List Char} (h : ∀ c ∈ right.head?, isBlank c = true)
    (left : List Char) :
    (left ++ right).takeWhile (fun c => !isBlank c) = left.takeWhile (fun c => !isBlank c) := by
  induction left with
  | nil =>
    cases right with
    | nil => rfl
    | cons c right => simp [h c rfl]
  | cons c left ih => by_cases hc : isBlank c = true <;> simp [hc, ih]

theorem firstWord_append_blank {cs : List Char} {blank : Char} (hne : cs ≠ [])
    (hhead : ∀ c ∈ cs.head?, isBlank c = false) (hblank : isBlank blank = true)
    (rest : List Char) : firstWord (cs ++ blank :: rest) = firstWord cs := by
  rw [firstWord, trimStart_of_head (head_append hne hhead _), firstWord, trimStart_of_head hhead]
  exact takeWhile_append (by simpa using hblank) cs

theorem firstWord_eq_self {word : List Char} (h : ∀ c ∈ word, isBlank c = false) :
    firstWord word = word := by
  have htake : (word ++ []).takeWhile (fun c => !isBlank c) = word ++ [].takeWhile _ :=
    List.takeWhile_append_of_pos (by simpa using h)
  rw [firstWord, trimStart_of_head fun c hc => h c (List.mem_of_mem_head? hc)]
  simpa using htake

theorem exists_append_firstWord {cs : List Char} (h : ∀ c ∈ cs.head?, isBlank c = false) :
    ∃ rest, cs = firstWord cs ++ rest ∧ ∀ c ∈ rest.head?, isBlank c = true := by
  refine ⟨cs.dropWhile fun c => !isBlank c, ?_, ?_⟩
  · rw [firstWord, trimStart_of_head h, List.takeWhile_append_dropWhile]
  · intro c hc
    have hhead := List.head?_dropWhile_not (fun c => !isBlank c) cs
    rw [Option.mem_def.mp hc] at hhead
    simpa using hhead

theorem firstWord_of_trimStart_eq {left right : List Char} (h : trimStart left = trimStart right) :
    firstWord left = firstWord right := by
  rw [firstWord, h, firstWord]

theorem firstWord_trimEnd (cs : List Char) (h : ∀ c ∈ cs.head?, isBlank c = false) :
    firstWord (trimEnd cs) = firstWord cs := by
  obtain ⟨blanks, hblanks, heq⟩ := exists_append_trimEnd cs
  rw [firstWord, trimStart_of_head (head_trimEnd h), firstWord, trimStart_of_head h]
  conv =>
    rhs
    rw [heq, takeWhile_append fun c hc => hblanks c (List.mem_of_mem_head? hc)]

theorem firstWord_trim (cs : List Char) : firstWord (trim cs) = firstWord cs := by
  rw [trim, firstWord_trimEnd _ (head_trimStart cs)]
  exact firstWord_of_trimStart_eq (trimStart_of_head (head_trimStart cs))

end FirstWord

end UseCaseFlow.Text
