import Mathlib.Tactic.IntervalCases
import UseCaseFlow.Proofs.Diagram.Sequence
import UseCaseFlow.Proofs.Render.Message

/-!
# Message lines with and without spaces

An arrow and a colon may stand between blanks or not. Both lines are read as the same interaction,
as long as nothing in the ids or in the label is taken for the arrow or the colon.
-/

namespace UseCaseFlow

open Text

/-- The line of a message with no spaces around the arrow and the colon. -/
def compactLine (message : Message) : String :=
  message.source ++ arrowText message.returns ++ message.target ++ ":" ++ message.label

/-- An id that can stand next to an arrow and a colon. -/
structure CompactId (id : String) : Prop where
  nonempty : id ≠ ""
  trimmed : Trimmed id.toList
  noColon : ':' ∉ id.toList
  noArrow : ¬ "->>".toList <:+: id.toList

instance (id : String) : Decidable (CompactId id) :=
  decidable_of_iff (id ≠ "" ∧ Trimmed id.toList ∧ ':' ∉ id.toList ∧ ¬ "->>".toList <:+: id.toList)
    ⟨fun ⟨hne, htrimmed, hcolon, harrow⟩ => ⟨hne, htrimmed, hcolon, harrow⟩,
    fun h => ⟨h.nonempty, h.trimmed, h.noColon, h.noArrow⟩⟩

/-- The ends of a message start no keyword and no arrow of their own. -/
structure CompactEnds (message : Message) : Prop where
  source : CompactId message.source
  target : CompactId message.target
  noDash : message.source.toList.getLast? ≠ some '-'
  noKeyword : Keyword.ofLine? message.source = none

instance (message : Message) : Decidable (CompactEnds message) :=
  decidable_of_iff (CompactId message.source ∧ CompactId message.target ∧
      message.source.toList.getLast? ≠ some '-' ∧ Keyword.ofLine? message.source = none)
    ⟨fun ⟨hsource, htarget, hdash, hkeyword⟩ => ⟨hsource, htarget, hdash, hkeyword⟩,
    fun h => ⟨h.source, h.target, h.noDash, h.noKeyword⟩⟩

theorem ofLine?_compactLine {message : Message} (h : CompactEnds message) :
    Keyword.ofLine? (compactLine message) = none := by
  have hdash (k : Keyword) : '-' ∉ k.text.toList := by cases k <;> decide
  obtain ⟨rest, hline⟩ : ∃ rest, (compactLine message).toList =
      message.source.toList ++ '-' :: rest := by
    cases hreturns : message.returns <;> simp [compactLine, arrowText, hreturns]
  exact Keyword.ofLine?_eq_none_of_append h.source.nonempty h.source.trimmed.head h.noKeyword hdash
    hline

section Cuts

variable {message : Message}

theorem toList_compactLine (message : Message) : (compactLine message).toList =
    message.source.toList ++ (arrowText message.returns).toList ++ message.target.toList ++ [':'] ++
      message.label.toList := by
  simp [compactLine]

/-- Where no blank stands before the colon, a spaced colon can only stand in the label. -/
theorem not_infix_compactLine (h : CompactEnds message)
    (hlabel : ¬ " : ".toList <:+: message.label.toList) :
    ¬ " : ".toList <:+: (compactLine message).toList := by
  rw [toList_compactLine, List.append_assoc _ [':'], infix_append_iff_of_noOverlap]
  · rintro (hoccurs | hoccurs)
    · have hmem : ':' ∈ message.source.toList ++ (arrowText message.returns).toList ++
          message.target.toList := hoccurs.subset (by decide)
      have harrow : ':' ∉ (arrowText message.returns).toList := by
        cases message.returns <;> decide
      simp [h.source.noColon, h.target.noColon, harrow] at hmem
    · rw [List.singleton_append, List.infix_cons_iff] at hoccurs
      rcases hoccurs with hoccurs | hoccurs
      · simp at hoccurs
      · exact hlabel hoccurs
  · intro k hpos hlt hend
    change k < 3 at hlt
    interval_cases k
    · obtain ⟨before, hbefore⟩ := hend
      have htarget : message.target.toList ≠ [] := by simpa using h.target.nonempty
      have hlast : message.target.toList.getLast? = some ' ' := by
        rw [← List.getLast?_append_of_ne_nil _ htarget, ← hbefore]
        exact List.getLast?_concat
      have hblank := h.target.trimmed.last ' ' hlast
      contradiction
    · simp

theorem readsMessage_compactLine (h : CompactEnds message)
    (hlabel : ¬ " : ".toList <:+: message.label.toList) :
    ReadsMessage (compactLine message) { message with label := trimmed message.label } := by
  have hspaced := not_infix_compactLine h hlabel
  have hcut := labelCut_compact message.returns h.source.noArrow h.target.noColon
    (toList_compactLine message ▸ hspaced)
  rw [← toList_compactLine] at hcut
  have harrow := arrowCut_of_noArrow message.returns h.source.noArrow h.noDash h.target.noArrow
  exact readsMessage_of_cuts hcut harrow (trim_eq_self h.source.trimmed) h.source.nonempty
    (trim_eq_self h.target.trimmed) h.target.nonempty String.toList_ofList.symm

theorem readsMessage_messageLine (h : CompactEnds message) :
    ReadsMessage (messageLine message) { message with label := trimmed message.label } := by
  have hnoSpaced {id : String} (hid : CompactId id) :
      ¬ " : ".toList <:+: ' ' :: id.toList ++ [' '] := by
    intro hoccurs
    have hmem : ':' ∈ ' ' :: id.toList ++ [' '] := hoccurs.subset (by decide)
    simp [hid.noColon] at hmem
  have hfirst := not_infix_written message.returns (hnoSpaced h.source) (hnoSpaced h.target)
  have hcut : FirstCut " : ".toList (messageLine message).toList (messageHead message)
      message.label.toList := by
    rw [toList_messageLine]
    apply FirstCut.of_absent
    simpa [messageHead] using hfirst
  have harrow := arrowCut_written message.returns h.source.noArrow h.target.noArrow
  exact readsMessage_of_cuts (.spaced hcut) harrow (trim_append_space h.source.trimmed)
    h.source.nonempty (trim_cons_space h.target.trimmed) h.target.nonempty
    String.toList_ofList.symm

end Cuts

theorem parseSequence_singleton {entities : List Entity} {line : String} {message : Interaction}
    (hplain : Keyword.ofLine? line = none) (hread : ReadsInteraction entities line message)
    (limit : Nat) : parseSequence entities [line] limit = .ok [.interaction message] :=
  parseSequence_of_flowLines (List.cons_ne_nil _ _) (.cons (.interaction hplain hread) .nil)

/-- With and without spaces around its arrow and its colon, a line is read as the same interaction.
The label may hold anything but a spaced colon. -/
theorem parseSequence_of_spacing {entities : List Entity} {message : Message} {source target : Nat}
    (hsource : DeclaredOnce entities message.source source)
    (htarget : DeclaredOnce entities message.target target) (h : CompactEnds message)
    (hlabel : ¬ " : ".toList <:+: message.label.toList) (limit : Nat) :
    parseSequence entities [compactLine message] limit =
        .ok [.interaction ⟨source, target, message.returns, trimmed message.label⟩] ∧
      parseSequence entities [messageLine message] limit =
        .ok [.interaction ⟨source, target, message.returns, trimmed message.label⟩] := by
  constructor
  · have hreads := ReadsInteraction.intro (readsMessage_compactLine h hlabel) hsource htarget
    exact parseSequence_singleton (ofLine?_compactLine h) hreads limit
  · have hreads := ReadsInteraction.intro (readsMessage_messageLine h) hsource htarget
    have hplain := ofLine?_messageLine h.source.nonempty h.source.trimmed h.noKeyword
    exact parseSequence_singleton hplain hreads limit

/-- Ids and a label that are full of dashes, angle brackets and colons. -/
def crowdedMessage : Message where
  source := "end-user >"
  target := ">-"
  returns := true
  label := " :-->> end: a->>b :"

def crowdedEntities : List Entity :=
  [⟨"end-user", "E", .actor, true⟩, ⟨">-", "P", .participant, true⟩,
    ⟨"end-user >", "U", .actor, true⟩]

theorem parseSequence_crowdedMessage :
    CompactEnds crowdedMessage ∧ ¬ " : ".toList <:+: crowdedMessage.label.toList ∧
    parseSequence crowdedEntities ["end-user >-->>>-: :-->> end: a->>b :"] 0 =
      .ok [.interaction ⟨2, 1, true, ":-->> end: a->>b :"⟩] ∧
    parseSequence crowdedEntities ["end-user > -->> >- :  :-->> end: a->>b :"] 0 =
      .ok [.interaction ⟨2, 1, true, ":-->> end: a->>b :"⟩] := by
  have hends : CompactEnds crowdedMessage := by decide +kernel
  have hlabel : ¬ " : ".toList <:+: crowdedMessage.label.toList := by decide +kernel
  have hsource : DeclaredOnce crowdedEntities crowdedMessage.source 2 :=
    declaredOnce_iff.mpr (by decide)
  have htarget : DeclaredOnce crowdedEntities crowdedMessage.target 1 :=
    declaredOnce_iff.mpr (by decide)
  obtain ⟨hcompact, hspaced⟩ := parseSequence_of_spacing hsource htarget hends hlabel 0
  exact ⟨hends, hlabel, hcompact, hspaced⟩

end UseCaseFlow
