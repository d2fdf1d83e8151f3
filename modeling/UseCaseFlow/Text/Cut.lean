/-!
# Cutting text at a separator

The cut is at the first occurrence of the separator. The two pieces and the separator between them
are the whole text again.
-/
namespace UseCaseFlow.Text

theorem isPrefixOf?_eq_some_iff {sep cs rest : List Char} :
    sep.isPrefixOf? cs = some rest ↔ cs = sep ++ rest := by
  induction sep generalizing cs with
  | nil => exact ⟨Option.some.inj, congrArg some⟩
  | cons s sep ih =>
    cases cs with
    | nil => constructor <;> (intro h; contradiction)
    | cons c cs =>
      have hstep : (s :: sep).isPrefixOf? (c :: cs) =
          if s == c then sep.isPrefixOf? cs else none := rfl
      by_cases h : s = c
      · rw [hstep, h, if_pos (beq_self_eq_true c), ih, List.cons_append, List.cons_inj_right]
      · rw [hstep, if_neg (by simpa using h)]
        simp [Ne.symm h]

/-- The text before and after the first occurrence of `sep`. -/
def cut? (sep : List Char) : List Char → Option (List Char × List Char)
  | [] => if sep.isEmpty then some ([], []) else none
  | c :: cs =>
    match sep.isPrefixOf? (c :: cs) with
    | some rest => some ([], rest)
    | none => (cut? sep cs).map fun pieces => (c :: pieces.1, pieces.2)

theorem eq_append_of_cut? {sep cs before rest : List Char} (h : cut? sep cs = some (before, rest)) :
    cs = before ++ sep ++ rest := by
  induction cs generalizing before with
  | nil =>
    cases sep with
    | nil => simp_all [cut?]
    | cons s sep => simp [cut?] at h
  | cons c cs ih =>
    rw [cut?] at h
    split at h
    · rename_i tail htail
      obtain ⟨rfl, rfl⟩ := Prod.mk.inj (Option.some.inj h)
      simpa using isPrefixOf?_eq_some_iff.mp htail
    · obtain ⟨pieces, hcut, heq⟩ := Option.map_eq_some_iff.mp h
      obtain ⟨rfl, rfl⟩ := Prod.mk.inj heq
      simp [ih hcut]

end UseCaseFlow.Text
