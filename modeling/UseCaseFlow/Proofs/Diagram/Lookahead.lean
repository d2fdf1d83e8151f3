import UseCaseFlow.Proofs.Diagram.FirstDefect

/-!
# What the reader looks ahead for

The reader looks behind a line only for where the blocks end, which the keywords decide. So what the
later lines hold besides their keywords does not change which error is reported.
-/

namespace UseCaseFlow

/-- The texts have the same number of lines, with the same keywords. -/
def SameKeywords (left right : List String) : Prop :=
  left.map Keyword.ofLine? = right.map Keyword.ofLine?

section SameKeywords

variable {first second left right : List String} {line : String}

theorem SameKeywords.exists_append (h : SameKeywords (first ++ second) right) :
    ∃ first' second', right = first' ++ second' ∧ SameKeywords first first' ∧
      SameKeywords second second' := by
  rw [SameKeywords, List.map_append] at h
  obtain ⟨first', second', hright, hfirst, hsecond⟩ := List.map_eq_append_iff.mp h.symm
  exact ⟨first', second', hright, hfirst.symm, hsecond.symm⟩

theorem SameKeywords.exists_cons (h : SameKeywords (line :: left) right) :
    ∃ line' rest, right = line' :: rest ∧ Keyword.ofLine? line' = Keyword.ofLine? line ∧
      SameKeywords left rest := by
  rw [SameKeywords, List.map_cons] at h
  obtain ⟨line', rest, hright, hline, hrest⟩ := List.map_eq_cons_iff.mp h.symm
  exact ⟨line', rest, hright, hline, hrest.symm⟩

theorem SameKeywords.cancel_left (h : SameKeywords (first ++ left) (first ++ right)) :
    SameKeywords left right := by
  rw [SameKeywords, List.map_append, List.map_append] at h
  exact List.append_cancel_left h

theorem NoSeparator.congr {depth : Nat} (h : NoSeparator depth left)
    (hsame : SameKeywords left right) : NoSeparator depth right := by
  intro before line after hright hlevel
  have hswap : SameKeywords (before ++ line :: after) left := hright ▸ hsame.symm
  obtain ⟨before', rest, rfl, hbefore, hrest⟩ := hswap.exists_append
  obtain ⟨line', after', rfl, hline, -⟩ := hrest.exists_cons
  rw [← hline]
  apply h before' line' after' rfl
  rw [← levelAfter_congr hbefore, hlevel]

theorem Segment.Delimited.congr {s : Segment} {body : List String} (h : s.Delimited)
    (hsame : SameKeywords s.body body) : Segment.Delimited { s with body := body } where
  opener := h.opener
  closed := by rw [← levelAfter_congr hsame, h.closed]
  noSeparator := fun hkeyword => (h.noSeparator hkeyword).congr hsame

/-- Lines with the keywords of the sections of a fork are such sections themselves. -/
theorem exists_segments_of_sameKeywords {others : List Segment} (hothers : ∀ o ∈ others, o.IsElse)
    (h : SameKeywords (segmentLines others) right) :
    ∃ others', right = segmentLines others' ∧ (∀ o ∈ others', o.IsElse) ∧
      (others = [] → others' = []) := by
  induction others generalizing right with
  | nil =>
    have hright : right = [] := List.map_eq_nil_iff.mp h.symm
    exact ⟨[], hright, by simp, fun _ => rfl⟩
  | cons s others ih =>
    rw [List.forall_mem_cons] at hothers
    obtain ⟨hs, hothers⟩ := hothers
    rw [segmentLines_cons] at h
    obtain ⟨opener, rest, rfl, hopener, hrest⟩ := h.exists_cons
    obtain ⟨body, later, rfl, hbody, hlater⟩ := hrest.exists_append
    obtain ⟨others', rfl, hothers', -⟩ := ih hothers hlater
    have hdelimited := hs.2.congr hbody
    refine ⟨⟨s.keyword, opener, body⟩ :: others', rfl, ?_, by simp⟩
    rw [List.forall_mem_cons]
    exact ⟨⟨hs.1, hopener.trans hs.2.opener, hdelimited.closed, hdelimited.noSeparator⟩, hothers'⟩

end SameKeywords

theorem BlockSegments.congr {before others others' : List Segment} {s : Segment}
    {body : List String} (h : BlockSegments (before ++ s :: others))
    (hsame : SameKeywords s.body body) (hothers : ∀ o ∈ others', o.IsElse)
    (hnil : others = [] → others' = []) :
    BlockSegments (before ++ { s with body := body } :: others') := by
  cases before with
  | nil =>
    cases h with
    | loop hkeyword h =>
      rw [hnil rfl]
      exact .loop hkeyword (h.congr hsame)
    | fork hkeyword h _ => exact .fork hkeyword (h.congr hsame) hothers
  | cons first before =>
    rw [List.cons_append] at h ⊢
    have helse := h.isElse
    rw [List.forall_mem_append, List.forall_mem_cons] at helse
    obtain ⟨hbefore, hs, -⟩ := helse
    apply BlockSegments.fork (h.alt_of_ne_nil (by simp)) (h.delimited first List.mem_cons_self)
    rw [List.forall_mem_append, List.forall_mem_cons]
    exact ⟨hbefore, ⟨hs.1, hs.2.congr hsame⟩, hothers⟩

section Blocks

variable {entities : List Entity} {limit budget : Nat}

/-- Whether a block is read up to a section does not depend on the bodies from there on. -/
theorem ReadUpTo.congr {before others : List Segment} {s : Segment} {closer : String}
    {rest right body : List String} (h : ReadUpTo entities budget before s others closer)
    (hbody : SameKeywords s.body body)
    (hsame : SameKeywords (segmentLines others ++ closer :: rest) right) :
    ∃ others' closer' rest', right = segmentLines others' ++ closer' :: rest' ∧
      ReadUpTo entities budget before { s with body := body } others' closer' := by
  have helse : ∀ o ∈ others, o.IsElse := h.block.isElse_after
  obtain ⟨lines, later, rfl, hlines, hlater⟩ := hsame.exists_append
  obtain ⟨closer', rest', rfl, hcloser, -⟩ := hlater.exists_cons
  obtain ⟨others', rfl, hothers', hnil⟩ := exists_segments_of_sameKeywords helse hlines
  exact ⟨others', closer', rest', rfl, h.block.congr hbody hothers' hnil,
    hcloser.trans h.close, h.readable, h.distinct⟩

/-- Of the lines behind the first defect only the keywords matter. -/
theorem FirstDefect.congr {before : List String} {line : String} {after right : List String}
    {defect : Defect} (h : FirstDefect entities limit budget before line after defect)
    (hsame : SameKeywords after right) :
    FirstDefect entities limit budget before line right defect := by
  induction h generalizing right with
  | message hplain h => exact .message hplain h
  | unexpected hline h => exact .unexpected hline h
  | tooDeep hline h => exact .tooDeep hline h
  | unterminated hline h hopen =>
    rw [levelAfter_congr hsame] at hopen
    exact .unterminated hline h hopen
  | duplicate hread h =>
    obtain ⟨body, later, rfl, hbody, hlater⟩ := hsame.exists_append
    obtain ⟨others', closer', rest', rfl, hread'⟩ := hread.congr hbody hlater
    exact .duplicate hread' h
  | empty hread hfresh h =>
    obtain ⟨others', closer', rest', rfl, hread'⟩ := hread.congr rfl hsame
    exact .empty hread' hfresh h
  | @inside budget before others s closer rest front back line defect hread hfresh hbody h ih =>
    obtain ⟨back', later, rfl, hback, hlater⟩ := hsame.exists_append
    have hsection : SameKeywords s.body (front ++ line :: back') := by
      rw [hbody, SameKeywords, List.map_append, List.map_append, List.map_cons, List.map_cons,
        hback]
    obtain ⟨others', closer', rest', rfl, hread'⟩ := hread.congr hsection hlater
    exact .inside (s := { s with body := front ++ line :: back' }) hread' hfresh rfl (ih hback)
  | later hstep h ih => exact .later hstep (ih hsame)

end Blocks

/-- The error that is reported for a line depends on the lines up to it and on the keywords of the
later ones, and on nothing else. -/
theorem parseSequence_eq_error_of_sameKeywords {entities : List Entity}
    {left right : List String} {limit number : Nat} {e : ParseError}
    (hkeywords : SameKeywords left right) (h : parseSequence entities left limit = .error e)
    (hnumber : e.line? = some number) (hsame : left.take number = right.take number) :
    parseSequence entities right limit = .error e := by
  rcases parseSequence_eq_error_iff.mp h with ⟨-, rfl⟩ |
    ⟨before, line, after, defect, rfl, rfl, hdefect⟩
  · contradiction
  · obtain rfl := Option.some.inj hnumber
    have htake : (before ++ line :: after).take (0 + before.length + 1) = before ++ [line] := by
      rw [Nat.zero_add, List.take_length_add_append, List.take_succ_cons, List.take_zero]
    obtain ⟨after', rfl⟩ : ∃ after', right = before ++ line :: after' := by
      have hprefix : before ++ [line] <+: right := by
        rw [← htake, hsame]
        apply List.take_prefix
      obtain ⟨after', rfl⟩ := hprefix
      exact ⟨after', by simp⟩
    rw [← List.singleton_append, ← List.append_assoc, ← List.singleton_append (l := after'),
      ← List.append_assoc before] at hkeywords
    rw [parseSequence_eq_error_iff]
    exact Or.inr ⟨before, line, after', defect, rfl, rfl, hdefect.congr hkeywords.cancel_left⟩

/-- The unknown id of the first section is reported, whether the second section repeats the
condition or holds a line without an arrow. -/
theorem parseSequence_eq_error_of_later_branch :
    SameKeywords ["alt x", "a ->> c : m", "else x", "a ->> a : n", "end"]
      ["alt x", "a ->> c : m", "else y", "nothing", "end"] ∧
    parseSequence [⟨"a", "A", .actor, true⟩]
        ["alt x", "a ->> c : m", "else x", "a ->> a : n", "end"] =
      .error (.onLine 2 (.unknownEntity "c")) ∧
    parseSequence [⟨"a", "A", .actor, true⟩] ["alt x", "a ->> c : m", "else y", "nothing", "end"] =
      .error (.onLine 2 (.unknownEntity "c")) := by
  have hleft : parseSequence [⟨"a", "A", .actor, true⟩]
      ["alt x", "a ->> c : m", "else x", "a ->> a : n", "end"] =
      .error (.onLine 2 (.unknownEntity "c")) := rfl
  have hkeywords : SameKeywords ["alt x", "a ->> c : m", "else x", "a ->> a : n", "end"]
      ["alt x", "a ->> c : m", "else y", "nothing", "end"] := by
    unfold SameKeywords
    decide +kernel
  exact ⟨hkeywords, hleft, parseSequence_eq_error_of_sameKeywords hkeywords hleft rfl rfl⟩

end UseCaseFlow
