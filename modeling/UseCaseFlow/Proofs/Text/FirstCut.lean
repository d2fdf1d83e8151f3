import UseCaseFlow.Text.Cut

/-!
# First occurrences

What a cut finds, said without the search: the separator stands between the two pieces, and it
stands nowhere earlier. The criteria at the end show a separator absent from a text that is put
together from pieces.
-/

namespace UseCaseFlow.Text

/-- `sep` occurs in the text for the first time between `before` and `after`. -/
structure FirstCut (sep cs before after : List Char) : Prop where
  whole : cs = before ++ sep ++ after
  first : ∀ pre post, cs = pre ++ sep ++ post → before.length ≤ pre.length

theorem cut?_eq_none_iff {sep cs : List Char} : cut? sep cs = none ↔ ¬ sep <:+: cs := by
  induction cs with
  | nil => cases sep <;> simp [cut?]
  | cons c cs ih =>
    rw [cut?]
    cases hp : sep.isPrefixOf? (c :: cs) with
    | some rest =>
      have hoccurs : sep <:+: c :: cs := ⟨[], rest, (isPrefixOf?_eq_some_iff.mp hp).symm⟩
      simp [hoccurs]
    | none =>
      have hstarts : ¬ sep <+: c :: cs := by
        rintro ⟨rest, hrest⟩
        rw [isPrefixOf?_eq_some_iff.mpr hrest.symm] at hp
        contradiction
      simp [List.infix_cons_iff, hstarts, ih]

theorem firstCut_of_cut? {sep cs before after : List Char} (h : cut? sep cs = some (before, after)) :
    FirstCut sep cs before after := by
  refine ⟨eq_append_of_cut? h, ?_⟩
  induction cs generalizing before with
  | nil =>
    intro pre post _
    have hwhole := eq_append_of_cut? h
    simp_all
  | cons c cs ih =>
    intro pre post hpre
    rw [cut?] at h
    cases hp : sep.isPrefixOf? (c :: cs) with
    | some rest =>
      simp only [hp, Option.some.injEq, Prod.mk.injEq] at h
      simp [← h.1]
    | none =>
      simp only [hp, Option.map_eq_some_iff, Prod.mk.injEq] at h
      obtain ⟨pieces, hcut, rfl, rfl⟩ := h
      cases pre with
      | nil =>
        rw [List.nil_append] at hpre
        rw [isPrefixOf?_eq_some_iff.mpr hpre] at hp
        contradiction
      | cons p pre =>
        have hcs : cs = pre ++ sep ++ post := by simpa using (List.cons.inj hpre).2
        simpa using ih hcut pre post hcs

theorem FirstCut.unique {sep cs before after before' after' : List Char}
    (h : FirstCut sep cs before after) (h' : FirstCut sep cs before' after') :
    before = before' ∧ after = after' := by
  have hlen : before.length = before'.length :=
    Nat.le_antisymm (h.first _ _ h'.whole) (h'.first _ _ h.whole)
  have heq : before ++ (sep ++ after) = before' ++ (sep ++ after') := by
    simpa using h.whole.symm.trans h'.whole
  obtain ⟨hbefore, hrest⟩ := List.append_inj heq hlen
  exact ⟨hbefore, List.append_cancel_left hrest⟩

theorem cut?_eq_some_iff {sep cs before after : List Char} :
    cut? sep cs = some (before, after) ↔ FirstCut sep cs before after := by
  constructor
  · exact firstCut_of_cut?
  · intro h
    cases hcut : cut? sep cs with
    | none => exact absurd ⟨before, after, h.whole.symm⟩ (cut?_eq_none_iff.mp hcut)
    | some pieces =>
      obtain ⟨hbefore, hafter⟩ := h.unique (firstCut_of_cut? hcut)
      rw [hbefore, hafter]

/-- An earlier occurrence would lie before the last character of this one. -/
theorem FirstCut.of_absent {sep before : List Char} (h : ¬ sep <:+: before ++ sep.dropLast)
    (after : List Char) : FirstCut sep (before ++ sep ++ after) before after := by
  refine ⟨rfl, fun pre post heq => Nat.not_lt.mp fun hlt => h ?_⟩
  have htake : before ++ sep.dropLast =
      (before ++ sep ++ after).take (before.length + (sep.length - 1)) := by
    rw [List.append_assoc, List.take_length_add_append, List.take_append_of_le_length (by omega),
      List.dropLast_eq_take]
  rw [htake, heq]
  refine ⟨pre, post.take (before.length - 1 - pre.length), ?_⟩
  have hlen : before.length + (sep.length - 1) =
      (pre ++ sep).length + (before.length - 1 - pre.length) := by
    have hpos : sep ≠ [] := by
      rintro rfl
      exact h List.nil_infix
    have := List.length_pos_iff.mpr hpos
    simp only [List.length_append]
    omega
  rw [hlen, List.take_length_add_append]

theorem FirstCut.of_not_mem {before : List Char} {c : Char} (h : c ∉ before) (after : List Char) :
    FirstCut [c] (before ++ [c] ++ after) before after := by
  apply FirstCut.of_absent
  intro hinfix
  have hmem : c ∈ before ++ [c].dropLast := hinfix.subset List.mem_cons_self
  simp [h] at hmem

/-- An occurrence lies in one of two texts unless its start ends the first and its rest starts the
second. -/
theorem infix_append_iff_of_noOverlap {sep xs ys : List Char}
    (h : ∀ k, 0 < k → k < sep.length → sep.take k <:+ xs → ¬ sep.drop k <+: ys) :
    sep <:+: xs ++ ys ↔ sep <:+: xs ∨ sep <:+: ys := by
  constructor
  · intro hinfix
    rcases List.infix_append_iff.mp hinfix with hxs | hys | ⟨left, right, rfl, hleft, hright⟩
    · exact Or.inl hxs
    · exact Or.inr hys
    · by_cases hl : left = []
      · exact Or.inr (by simpa [hl] using hright.isInfix)
      · by_cases hr : right = []
        · exact Or.inl (by simpa [hr] using hleft.isInfix)
        · have hoverlap := h left.length (List.length_pos_iff.mpr hl)
            (by simpa using List.length_pos_iff.mpr hr)
          rw [List.take_left, List.drop_left] at hoverlap
          exact absurd hright (hoverlap hleft)
  · rintro (hxs | hys)
    · exact List.infix_append_of_infix_left hxs
    · exact List.infix_append_of_infix_right hys

/-- No occurrence reaches over a character that the separator does not have. -/
theorem infix_append_cons_iff {sep xs ys : List Char} {c : Char} (hc : c ∉ sep) :
    sep <:+: xs ++ c :: ys ↔ sep <:+: xs ∨ sep <:+: ys := by
  constructor
  · intro h
    rw [List.infix_append_iff] at h
    rcases h with h | h | ⟨left, right, rfl, hleft, hright⟩
    · exact Or.inl h
    · rcases List.infix_cons_iff.mp h with h | h
      · cases sep with
        | nil => exact Or.inl List.nil_infix
        | cons s sep =>
          have hs : s = c := (List.cons_prefix_cons.mp h).1
          simp [hs] at hc
      · exact Or.inr h
    · cases right with
      | nil => exact Or.inl (by simpa using hleft.isInfix)
      | cons r right =>
        have hr : r = c := (List.cons_prefix_cons.mp hright).1
        simp [hr] at hc
  · rintro (h | h)
    · exact List.infix_append_of_infix_left h
    · exact List.infix_append_of_infix_right (List.infix_cons h)

theorem prefix_append_cons_iff {sep xs ys : List Char} {c : Char} (hc : c ∉ sep) :
    sep <+: xs ++ c :: ys ↔ sep <+: xs := by
  induction xs generalizing sep with
  | nil =>
    cases sep with
    | nil => simp
    | cons s sep =>
      have hs : s ≠ c := fun h => hc (h ▸ List.mem_cons_self)
      simp [hs]
  | cons x xs ih =>
    cases sep with
    | nil => simp
    | cons s sep =>
      rw [List.cons_append, List.cons_prefix_cons, List.cons_prefix_cons,
        ih fun h => hc (List.mem_cons_of_mem _ h)]

theorem infix_around_iff {sep xs middle ys : List Char} (hne : middle ≠ [])
    (h : ∀ c ∈ middle, c ∉ sep) : sep <:+: xs ++ middle ++ ys ↔ sep <:+: xs ∨ sep <:+: ys := by
  induction middle generalizing xs with
  | nil => contradiction
  | cons c middle ih =>
    have hc := h c List.mem_cons_self
    rw [List.append_assoc, List.cons_append, infix_append_cons_iff hc]
    by_cases hmiddle : middle = []
    · rw [hmiddle, List.nil_append]
    · have htail : sep <:+: [] ++ middle ++ ys ↔ sep <:+: [] ∨ sep <:+: ys :=
        ih hmiddle fun c hc => h c (List.mem_cons_of_mem _ hc)
      rw [List.nil_append] at htail
      rw [htail]
      constructor
      · rintro (hxs | hnil | hys)
        · exact Or.inl hxs
        · exact Or.inl (List.infix_nil.mp hnil ▸ List.nil_infix)
        · exact Or.inr hys
      · rintro (hxs | hys)
        · exact Or.inl hxs
        · exact Or.inr (Or.inr hys)

theorem infix_concat_iff_of_getLast?_ne {sep xs : List Char} {c : Char} (hsep : sep ≠ [])
    (hc : sep.getLast? ≠ some c) : sep <:+: xs ++ [c] ↔ sep <:+: xs := by
  rw [List.infix_concat_iff]
  constructor
  · rintro (h | h)
    · obtain ⟨pre, hpre⟩ := h
      have hlast := congrArg List.getLast? hpre
      obtain ⟨s, hs⟩ := Option.isSome_iff_exists.mp (List.getLast?_isSome.mpr hsep)
      rw [List.getLast?_append, hs, List.getLast?_concat] at hlast
      exact absurd (hs.trans hlast) hc
    · exact h
  · exact Or.inr

end UseCaseFlow.Text
