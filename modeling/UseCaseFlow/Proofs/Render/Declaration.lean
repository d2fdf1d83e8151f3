import UseCaseFlow.Proofs.Diagram.Declaration
import UseCaseFlow.Proofs.Render.Basic

/-!
# Declarations read back

A declaration is cut at the ` AS ` behind its id, and the parentheses of a placeholder name are
taken off again.
-/

namespace UseCaseFlow

open Text

@[simp] theorem EntityKind.entityKind?_keyword (kind : EntityKind) :
    kind.keyword.entityKind? = some kind := by
  cases kind <;> rfl

theorem readName_placeholder {name : List Char} (h : Trimmed name) :
    readName ('(' :: name ++ [')']) = (name, false) := by
  have hlast : (name ++ [')']).getLast? = some ')' := List.getLast?_concat
  simp [readName, withoutParentheses, trim_eq_self h]

theorem readName_explicit {name : List Char} (hopen : name.head? ≠ some '(')
    (hclose : name.getLast? ≠ some ')') : readName name = (name, true) := by
  simp [readName, hopen, hclose]

section Declared

variable {e : Entity}

theorem trimmed_shownName (h : PlainEntity e) : Trimmed e.shownName.toList := by
  rw [Entity.shownName]
  cases hexplicit : e.explicit with
  | true => exact h.name.trimmed
  | false =>
    have hopen : Trimmed ['('] := .singleton rfl
    have hclose : Trimmed [')'] := .singleton rfl
    simpa using hopen.around (List.cons_ne_nil _ _) e.name.toList hclose (List.cons_ne_nil _ _)

theorem shownName_ne_nil (h : PlainEntity e) : e.shownName.toList ≠ [] := by
  rw [Entity.shownName]
  cases hexplicit : e.explicit with
  | true => simpa using h.named
  | false => simp

theorem readName_shownName (h : PlainEntity e) :
    readName e.shownName.toList = (e.name.toList, e.explicit) := by
  rw [Entity.shownName]
  cases hexplicit : e.explicit with
  | true => exact readName_explicit (h.notOpened hexplicit) (h.notClosed hexplicit)
  | false => simpa using readName_placeholder h.name.trimmed

theorem firstCut_declaration (h : PlainEntity e) :
    FirstCut " AS ".toList (e.id ++ " AS " ++ e.shownName).toList e.id.toList
      e.shownName.toList := by
  have hid : ¬ " AS ".toList <:+: e.id.toList ++ [' '] ++ ['A'] ++ ['S'] := by
    rw [infix_concat_iff_of_getLast?_ne (c := 'S') (by decide) (by decide),
      infix_concat_iff_of_getLast?_ne (c := 'A') (by decide) (by decide)]
    exact h.id.noAs
  simp only [List.append_assoc, List.singleton_append] at hid
  rw [String.toList_append, String.toList_append]
  exact FirstCut.of_absent hid e.shownName.toList

theorem readEntity?_declaration (h : PlainEntity e) : readEntity? e.declaration = some e := by
  have hid : e.id.toList ≠ [] := by simpa using h.id.nonempty
  have hname : e.name.toList ≠ [] := by simpa using h.named
  have htrimmed : Trimmed (e.id ++ " AS " ++ e.shownName).toList := by
    simpa using h.id.trimmed.around hid " AS ".toList (trimmed_shownName h) (shownName_ne_nil h)
  have hcut := cut?_eq_some_iff.mpr (firstCut_declaration h)
  have hrest : e.kind.keyword.restOf e.declaration = e.id ++ " AS " ++ e.shownName :=
    (Keyword.restOf_line _ _).trans (trimmed_eq_self htrimmed)
  have hkeyword : Keyword.ofLine? e.declaration = some e.kind.keyword :=
    Keyword.ofLine?_line _ _
  simp only [readEntity?, hkeyword, Option.bind_eq_bind, Option.bind_some,
    EntityKind.entityKind?_keyword, hrest, hcut, trim_eq_self h.id.trimmed,
    trim_eq_self (trimmed_shownName h), readName_shownName h]
  simp [guard, hid, hname]

end Declared

theorem parseDeclarationsFrom_declarations {entities : List Entity} {steps : List String}
    (h : ∀ e ∈ entities, PlainEntity e) (hsteps : ∀ line ∈ steps.head?, isDeclaration line = false)
    (start : Nat) :
    parseDeclarationsFrom start (entities.map (fun e => trimmed e.declaration) ++ steps) =
      .ok entities := by
  have hread (e : Entity) (he : e ∈ entities) : parseEntity (trimmed e.declaration) = .ok e := by
    rw [parseEntity_eq_ok_iff, readEntity?_trimmed, readEntity?_declaration (h e he)]
  rw [parseDeclarationsFrom_eq_ok_iff]
  refine ⟨_, steps, rfl, ?_, hsteps⟩
  rw [List.forall₂_map_left_iff, List.forall₂_same]
  exact hread

end UseCaseFlow
