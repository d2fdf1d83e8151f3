import UseCaseFlow.Proofs.Diagram.NestingLimit

/-!
# Sequences one behind the other

Lines that are read on their own are read in the same way in front of others and behind others: the
flows follow one another, and the first error is that of the part it comes from. Only a block that
is left open can find its `end` in the lines behind it.
-/

namespace UseCaseFlow

section Parts

variable {entities : List Entity} {limit budget : Nat} {left right before after : List String}
  {line : String} {a b : Flow} {defect : Defect}

theorem FlowLines.append (hleft : FlowLines entities budget left a)
    (hright : FlowLines entities budget right b) :
    FlowLines entities budget (left ++ right) (a ++ b) := by
  induction a generalizing left with
  | nil =>
    rw [flowLines_nil_right] at hleft
    simpa [hleft] using hright
  | cons step rest ih =>
    obtain ⟨first, others, rfl, hstep, hothers⟩ := flowLines_cons_right.mp hleft
    rw [List.append_assoc]
    exact .cons hstep (ih hothers)

theorem FirstDefect.behind (hleft : FlowLines entities budget left a)
    (h : FirstDefect entities limit budget before line after defect) :
    FirstDefect entities limit budget (left ++ before) line after defect := by
  induction a generalizing left with
  | nil =>
    rw [flowLines_nil_right] at hleft
    simpa [hleft] using h
  | cons step rest ih =>
    obtain ⟨first, others, rfl, hstep, hothers⟩ := flowLines_cons_right.mp hleft
    rw [List.append_assoc]
    exact .later hstep (ih hothers)

/-- A defect other than a block without `end` does not depend on what is appended. -/
theorem FirstDefect.append (h : FirstDefect entities limit budget before line after defect)
    (hclosed : ∀ keyword, defect ≠ .unterminatedBlock keyword) (later : List String) :
    FirstDefect entities limit budget before line (after ++ later) defect := by
  induction h with
  | message hplain h => exact .message hplain h
  | unexpected hline h => exact .unexpected hline h
  | tooDeep hline h => exact .tooDeep hline h
  | unterminated hline h hopen => exact absurd rfl (hclosed _)
  -- In the other blocks the `end` stands in front of what is appended.
  | @duplicate budget before others s closer rest hread h =>
    have hblock : FirstDefect entities limit (budget + 1) (segmentLines before) s.opener
        (s.body ++ (segmentLines others ++ closer :: (rest ++ later)))
        (.duplicateBranch s.condition) := .duplicate hread h
    simpa using hblock
  | @empty budget before others s closer rest hread hfresh h =>
    have hblock : FirstDefect entities limit (budget + 1) (segmentLines before) s.opener
        (segmentLines others ++ closer :: (rest ++ later)) (.emptyBlock s.keyword) :=
      .empty hread hfresh h
    simpa using hblock
  | @inside budget before others s closer rest front back line defect hread hfresh hbody h ih =>
    have hblock : FirstDefect entities limit (budget + 1)
        (segmentLines before ++ s.opener :: front) line
        (back ++ (segmentLines others ++ closer :: (rest ++ later))) defect :=
      .inside hread hfresh hbody h
    simpa using hblock
  | later hstep h ih => exact .later hstep (ih hclosed)

end Parts

/-- Two sequences that are read one behind the other give the flow of the first and then that of the
second; an error of the second, as many lines further down as the first has; or the error of the
first, unless a block is left open there. -/
theorem parseSequence_append (entities : List Entity) (limit : Nat) (left right : List String) :
    (∀ a b, parseSequence entities left limit = .ok a →
      parseSequence entities right limit = .ok b →
      parseSequence entities (left ++ right) limit = .ok (a ++ b)) ∧
    (∀ a e, parseSequence entities left limit = .ok a →
      parseSequence entities right limit = .error e → e ≠ .emptySequence →
      parseSequence entities (left ++ right) limit = .error (e.shifted left.length)) ∧
    ∀ e, parseSequence entities left limit = .error e → e ≠ .emptySequence →
      (∀ number keyword, e ≠ .onLine number (.unterminatedBlock keyword)) →
      parseSequence entities (left ++ right) limit = .error e := by
  refine ⟨fun a b hleft hright => ?_, fun a e hleft hright he => ?_, fun e hleft he hopen => ?_⟩
  · obtain ⟨hne, hflow⟩ := flowLines_of_parseSequence hleft
    obtain ⟨-, hflow'⟩ := flowLines_of_parseSequence hright
    exact parseSequence_of_flowLines (by simp [hne]) (hflow.append hflow')
  · obtain ⟨-, hflow⟩ := flowLines_of_parseSequence hleft
    obtain ⟨-, rfl⟩ | ⟨before, line, after, defect, rfl, rfl, h⟩ :=
      parseSequence_eq_error_iff.mp hright
    · contradiction
    · have herror := (h.behind hflow).parseSequence_eq_error
      rw [List.append_assoc] at herror
      simp only [herror, ParseError.shifted, List.length_append, Except.error.injEq,
        ParseError.onLine.injEq, and_true]
      omega
  · obtain ⟨-, rfl⟩ | ⟨before, line, after, defect, rfl, rfl, h⟩ :=
      parseSequence_eq_error_iff.mp hleft
    · contradiction
    · have hclosed (keyword : Keyword) : defect ≠ .unterminatedBlock keyword := by
        rintro rfl
        exact hopen _ keyword rfl
      have herror := (h.append hclosed right).parseSequence_eq_error
      rw [List.append_assoc, List.cons_append, herror, Nat.zero_add]

def loneActor : List Entity :=
  [⟨"a", "A", .actor, true⟩]

def loopLines : List String :=
  ["loop x", "a ->> a : m", "end"]

/-- A loop in front of a message, in front of an unknown entity, and an unknown entity in front of a
loop. -/
theorem parseSequence_append_of_loop :
    (parseSequence loneActor loopLines 1 = .ok [.loop "x" [.interaction ⟨0, 0, false, "m"⟩]] ∧
      parseSequence loneActor ["a ->> a : n"] 1 = .ok [.interaction ⟨0, 0, false, "n"⟩] ∧
      parseSequence loneActor (loopLines ++ ["a ->> a : n"]) 1 =
        .ok [.loop "x" [.interaction ⟨0, 0, false, "m"⟩], .interaction ⟨0, 0, false, "n"⟩]) ∧
    (parseSequence loneActor ["a ->> b : n"] 1 = .error (.onLine 1 (.unknownEntity "b")) ∧
      parseSequence loneActor (loopLines ++ ["a ->> b : n"]) 1 =
        .error (.onLine 4 (.unknownEntity "b"))) ∧
    parseSequence loneActor (["a ->> b : n"] ++ loopLines) 1 =
      .error (.onLine 1 (.unknownEntity "b")) := by
  have hloop : parseSequence loneActor loopLines 1 =
      .ok [.loop "x" [.interaction ⟨0, 0, false, "m"⟩]] := rfl
  have hmessage : parseSequence loneActor ["a ->> a : n"] 1 =
      .ok [.interaction ⟨0, 0, false, "n"⟩] := rfl
  have hunknown : parseSequence loneActor ["a ->> b : n"] 1 =
      .error (.onLine 1 (.unknownEntity "b")) := rfl
  refine ⟨⟨hloop, hmessage, ?_⟩, ⟨hunknown, ?_⟩, ?_⟩
  · exact (parseSequence_append loneActor 1 _ _).1 _ _ hloop hmessage
  · exact (parseSequence_append loneActor 1 _ _).2.1 _ _ hloop hunknown nofun
  · exact (parseSequence_append loneActor 1 _ _).2.2 _ hunknown nofun nofun

end UseCaseFlow
