import Mathlib.Tactic.IntervalCases
import UseCaseFlow.Proofs.Diagram.Message
import UseCaseFlow.Proofs.Diagram.Keyword
import UseCaseFlow.Proofs.Render.Basic

/-!
# Message lines read back

A message line is cut where it was put together. An empty label is the exception: the blank behind
its colon is trimmed, so that the label is looked for at the first colon behind the arrow.
-/

namespace UseCaseFlow

open Text

section Pieces

variable {source target : List Char} (returns : Bool)

theorem arrowText_ne_nil : (arrowText returns).toList ≠ [] := by
  cases returns <;> decide

theorem eq_of_mem_arrowText {c : Char} (h : c ∈ (arrowText returns).toList) :
    c = '-' ∨ c = '>' := by
  cases returns <;> simpa [arrowText] using h

private theorem not_mem_arrowText : ∀ c ∈ (arrowText returns).toList, c ∉ " : ".toList := by
  intro c hc
  rcases eq_of_mem_arrowText returns hc with rfl | rfl <;> decide

theorem not_infix_written (hsource : ¬ " : ".toList <:+: ' ' :: source ++ [' '])
    (htarget : ¬ " : ".toList <:+: ' ' :: target ++ [' ']) :
    ¬ " : ".toList <:+: source ++ [' '] ++ (arrowText returns).toList ++
      (' ' :: target ++ [' '] ++ [':']) := by
  rw [infix_around_iff (arrowText_ne_nil _) (not_mem_arrowText _),
    infix_concat_iff_of_getLast?_ne (c := ':') (by decide) (by decide), not_or]
  exact ⟨fun h => hsource (List.infix_cons h), htarget⟩

/-- Half an arrow does not complete an arrow. -/
private theorem infix_append_half_iff :
    "->>".toList <:+: source ++ "->".toList ↔ "->>".toList <:+: source := by
  rw [infix_append_iff_of_noOverlap, or_iff_left (by decide)]
  intro k hpos hlt _
  change k < 3 at hlt
  interval_cases k <;> decide

/-- The text before the short arrow, with which the long one ends. -/
def beforeArrow (source : List Char) : List Char :=
  if returns then source ++ ['-'] else source

theorem beforeArrow_append (source : List Char) :
    beforeArrow returns source ++ "->>".toList = source ++ (arrowText returns).toList := by
  cases returns <;> simp [beforeArrow, arrowText]

theorem firstCut_arrow (hsource : ¬ "->>".toList <:+: source) (rest : List Char) :
    FirstCut "->>".toList (beforeArrow returns source ++ "->>".toList ++ rest)
      (beforeArrow returns source) rest := by
  apply FirstCut.of_absent
  change ¬ "->>".toList <:+: beforeArrow returns source ++ "->".toList
  rw [infix_append_half_iff]
  cases returns with
  | true =>
    change ¬ "->>".toList <:+: source ++ ['-']
    rwa [infix_concat_iff_of_getLast?_ne (by decide) (by decide)]
  | false => exact hsource

/-- A short arrow is no long one, unless a dash stands before it. -/
private theorem not_infix_short (hsource : ¬ "->>".toList <:+: source)
    (hdash : source.getLast? ≠ some '-') (htarget : ¬ "->>".toList <:+: target) :
    ¬ "-->>".toList <:+: source ++ "->>".toList ++ target := by
  have hshort : "->>".toList <:+: "-->>".toList := by decide
  rw [List.append_assoc, infix_append_iff_of_noOverlap, infix_append_iff_of_noOverlap]
  · rintro (h | h | h)
    · exact hsource (hshort.trans h)
    · exact absurd h (by decide)
    · exact htarget (hshort.trans h)
  · intro k hpos hlt hstart
    change k < 4 at hlt
    interval_cases k <;> exact absurd hstart (by decide)
  · intro k hpos hlt hstart
    change k < 4 at hlt
    interval_cases k
    · obtain ⟨before, hbefore⟩ := hstart
      simp [← hbefore] at hdash
    · simp
    · simp

theorem arrowCut_of_noArrow (hsource : ¬ "->>".toList <:+: source)
    (hdash : source.getLast? ≠ some '-') (htarget : ¬ "->>".toList <:+: target) :
    ArrowCut (source ++ (arrowText returns).toList ++ target) returns source target := by
  have hshort : "->>".toList <:+: "-->>".toList := by decide
  cases returns with
  | true =>
    refine .returning (FirstCut.of_absent ?_ _)
    intro h
    have hlong : "->>".toList <:+: source ++ ['-'] ++ "->".toList := by
      simpa using hshort.trans h
    rw [infix_append_half_iff, infix_concat_iff_of_getLast?_ne (by decide) (by decide)] at hlong
    exact hsource hlong
  | false => exact .call (not_infix_short hsource hdash htarget) (firstCut_arrow false hsource _)

/-- Without a spaced colon the label starts at the first colon behind the arrow. -/
theorem labelCut_compact {label : List Char} (hsource : ¬ "->>".toList <:+: source)
    (hcolon : ':' ∉ target) (hspaced : ¬ " : ".toList <:+:
      source ++ (arrowText returns).toList ++ target ++ [':'] ++ label) :
    LabelCut (source ++ (arrowText returns).toList ++ target ++ [':'] ++ label)
      (source ++ (arrowText returns).toList ++ target) label := by
  have harrow := firstCut_arrow returns hsource (target ++ [':'] ++ label)
  rw [beforeArrow_append] at harrow
  have hcut := LabelCut.compact hspaced (by simpa using harrow) (.of_not_mem hcolon label)
  rwa [beforeArrow_append] at hcut

theorem arrowCut_written (hsource : ¬ "->>".toList <:+: source)
    (htarget : ¬ "->>".toList <:+: target) :
    ArrowCut (source ++ [' '] ++ (arrowText returns).toList ++ ' ' :: target) returns
      (source ++ [' ']) (' ' :: target) := by
  apply arrowCut_of_noArrow
  · rwa [infix_concat_iff_of_getLast?_ne (by decide) (by decide)]
  · simp
  · simpa [List.infix_cons_iff] using htarget

end Pieces

section Lines

variable {message : Message}

/-- The part of a message line before its label. -/
def messageHead (message : Message) : List Char :=
  message.source.toList ++ [' '] ++ (arrowText message.returns).toList ++
    ' ' :: message.target.toList

theorem toList_messageLine (message : Message) :
    (messageLine message).toList = messageHead message ++ " : ".toList ++ message.label.toList := by
  simp [messageLine, messageHead]

theorem ofLine?_messageLine (hne : message.source ≠ "") (htrimmed : Trimmed message.source.toList)
    (hkeyword : Keyword.ofLine? message.source = none) :
    Keyword.ofLine? (messageLine message) = none := by
  have hline : (messageLine message).toList = message.source.toList ++ ' ' ::
      ((arrowText message.returns).toList ++ ' ' :: message.target.toList ++ " : ".toList ++
        message.label.toList) := by
    simp [messageLine]
  have hblank (k : Keyword) : ' ' ∉ k.text.toList := by cases k <;> decide
  exact Keyword.ofLine?_eq_none_of_append hne htrimmed.head hkeyword hblank hline

theorem toList_trimmed_messageLine (hsource : PlainId message.source)
    (hlabel : PlainText message.label) (hne : message.label ≠ "") :
    (trimmed (messageLine message)).toList =
      messageHead message ++ " : ".toList ++ message.label.toList := by
  have hsource' : message.source.toList ≠ [] := by simpa using hsource.nonempty
  have hlabel' : message.label.toList ≠ [] := by simpa using hne
  have htrimmed := hsource.trimmed.around hsource' ([' '] ++ (arrowText message.returns).toList ++
    ' ' :: message.target.toList ++ " : ".toList) hlabel.trimmed hlabel'
  rw [trimmed, String.toList_ofList, toList_messageLine, trim_eq_self]
  simpa [messageHead] using htrimmed

theorem toList_trimmed_messageLine_of_empty (hsource : PlainId message.source)
    (hempty : message.label = "") :
    (trimmed (messageLine message)).toList = messageHead message ++ [' '] ++ [':'] := by
  have hsource' : message.source.toList ≠ [] := by simpa using hsource.nonempty
  have hcolon : Trimmed [':'] := .singleton rfl
  have htrimmed := hsource.trimmed.around hsource' ([' '] ++ (arrowText message.returns).toList ++
    ' ' :: message.target.toList ++ [' ']) hcolon (List.cons_ne_nil _ _)
  have hline : (messageLine message).toList = messageHead message ++ [' '] ++ [':'] ++ [' '] := by
    rw [toList_messageLine, hempty]
    simp
  rw [trimmed, String.toList_ofList, hline, trim_append_right isBlank_space, trim_eq_self]
  simpa [messageHead] using htrimmed

theorem exists_toList_trimmed_messageLine (hsource : PlainId message.source)
    (hlabel : PlainText message.label) :
    ∃ rest, (trimmed (messageLine message)).toList = message.source.toList ++ ' ' :: rest := by
  by_cases hempty : message.label = ""
  · rw [toList_trimmed_messageLine_of_empty hsource hempty]
    exact ⟨_, by simp only [messageHead, List.append_assoc]; rfl⟩
  · rw [toList_trimmed_messageLine hsource hlabel hempty]
    exact ⟨_, by simp only [messageHead, List.append_assoc]; rfl⟩

theorem readsMessage_of_cuts {line : String} {arrow source target label : List Char}
    (hcut : LabelCut line.toList arrow label)
    (harrow : ArrowCut arrow message.returns source target)
    (hsource : trim source = message.source.toList) (hne : message.source ≠ "")
    (htarget : trim target = message.target.toList) (hne' : message.target ≠ "")
    (hlabel : trim label = message.label.toList) : ReadsMessage line message := by
  have hreads := ReadsMessage.intro hcut harrow (by simpa [hsource] using hne)
    (by simpa [htarget] using hne')
  simpa only [hsource, htarget, hlabel, String.ofList_toList] using hreads

theorem trim_append_space {cs : List Char} (h : Trimmed cs) : trim (cs ++ [' ']) = cs := by
  rw [trim_append_right isBlank_space, trim_eq_self h]

theorem trim_cons_space {cs : List Char} (h : Trimmed cs) : trim (' ' :: cs) = cs := by
  rw [← List.singleton_append, trim_append_left isBlank_space, trim_eq_self h]

theorem readsMessage_of_label (hsource : PlainId message.source) (htarget : PlainId message.target)
    (hlabel : PlainText message.label) (hne : message.label ≠ "") :
    ReadsMessage (trimmed (messageLine message)) message := by
  have hfirst := not_infix_written message.returns hsource.noColon htarget.noColon
  have hcut : FirstCut " : ".toList (trimmed (messageLine message)).toList (messageHead message)
      message.label.toList := by
    rw [toList_trimmed_messageLine hsource hlabel hne]
    refine FirstCut.of_absent ?_ _
    simpa [messageHead] using hfirst
  exact readsMessage_of_cuts (.spaced hcut) (arrowCut_written _ hsource.noArrow htarget.noArrow)
    (trim_append_space hsource.trimmed) hsource.nonempty (trim_cons_space htarget.trimmed)
    htarget.nonempty (trim_eq_self hlabel.trimmed)

private theorem toList_emptyLine (hsource : PlainId message.source) (hempty : message.label = "") :
    (trimmed (messageLine message)).toList =
      message.source.toList ++ [' '] ++ (arrowText message.returns).toList ++
        (' ' :: message.target.toList ++ [' ']) ++ [':'] := by
  rw [toList_trimmed_messageLine_of_empty hsource hempty]
  simp [messageHead]

private theorem not_infix_emptyLine (hsource : PlainId message.source)
    (htarget : PlainId message.target) (hempty : message.label = "") :
    ¬ " : ".toList <:+: (trimmed (messageLine message)).toList := by
  rw [toList_emptyLine hsource hempty]
  simpa using not_infix_written message.returns hsource.noColon htarget.noColon

private theorem noArrow_append_space {id : String} (h : PlainId id) :
    ¬ "->>".toList <:+: id.toList ++ [' '] := by
  rw [infix_concat_iff_of_getLast?_ne (by decide) (by decide)]
  exact h.noArrow

theorem readsMessage_of_empty (hsource : PlainId message.source) (htarget : PlainId message.target)
    (hempty : message.label = "") (hcolon : ':' ∉ message.target.toList) :
    ReadsMessage (trimmed (messageLine message)) message := by
  have hspaced := not_infix_emptyLine hsource htarget hempty
  have hcolon' : ':' ∉ ' ' :: message.target.toList ++ [' '] := by simp [hcolon]
  rw [toList_emptyLine hsource hempty, ← List.append_nil (_ ++ [':'])] at hspaced
  have hcut := labelCut_compact message.returns (noArrow_append_space hsource) hcolon' hspaced
  rw [List.append_nil, ← toList_emptyLine hsource hempty] at hcut
  have htrim : trim (' ' :: (message.target.toList ++ [' '])) = message.target.toList := by
    rw [← List.singleton_append, trim_append_left isBlank_space, trim_append_space htarget.trimmed]
  exact readsMessage_of_cuts hcut
    (arrowCut_written _ hsource.noArrow (noArrow_append_space htarget))
    (trim_append_space hsource.trimmed) hsource.nonempty htrim htarget.nonempty
    (by simp [hempty]; rfl)

/-- A colon in the target takes the place of the one before an empty label. -/
theorem not_mem_target_of_readsMessage (hsource : PlainId message.source)
    (htarget : PlainId message.target) (hempty : message.label = "")
    (h : ReadsMessage (trimmed (messageLine message)) message) :
    ':' ∉ message.target.toList := by
  intro hmem
  generalize hmessage : message = read at h
  cases h with
  | @intro arrow label source target returns hlabel harrow hsource' htarget' =>
    rw [← hmessage] at hlabel
    have hblank : trim label = [] := by
      have := congrArg Message.label hmessage
      simpa [hempty] using this.symm
    cases hlabel with
    | spaced hcut => exact not_infix_emptyLine hsource htarget hempty ⟨_, _, hcut.whole.symm⟩
    | compact hspaced hcut hcolon =>
      rw [toList_emptyLine hsource hempty, ← beforeArrow_append, List.append_assoc] at hcut
      obtain ⟨-, rfl⟩ := (firstCut_arrow _ (noArrow_append_space hsource) _).unique hcut
      obtain ⟨pre, post, hsplit⟩ := List.append_of_mem hmem
      have hfirst := hcolon.first (' ' :: pre) (post ++ [' '] ++ [':']) (by simp [hsplit])
      have hlength := congrArg List.length hcolon.whole
      have hlast := congrArg List.getLast? hcolon.whole
      cases hlabel : label.getLast? with
      | none =>
        obtain rfl := List.getLast?_eq_none_iff.mp hlabel
        simp [hsplit] at hfirst hlength
        omega
      | some c =>
        rw [List.getLast?_concat, List.getLast?_append, hlabel, Option.some_or] at hlast
        obtain rfl := Option.some.inj hlast
        exact trim_ne_nil (List.mem_of_getLast? hlabel) rfl hblank

theorem readsMessage_trimmed_iff (hsource : PlainId message.source)
    (htarget : PlainId message.target) (hlabel : PlainText message.label) :
    ReadsMessage (trimmed (messageLine message)) message ↔
      (message.label = "" → ':' ∉ message.target.toList) := by
  by_cases hempty : message.label = ""
  · refine ⟨fun h _ => not_mem_target_of_readsMessage hsource htarget hempty h, fun h => ?_⟩
    exact readsMessage_of_empty hsource htarget hempty (h hempty)
  · exact ⟨fun _ h => absurd h hempty, fun _ => readsMessage_of_label hsource htarget hlabel hempty⟩

end Lines

end UseCaseFlow
