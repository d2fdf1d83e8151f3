import Mathlib.Data.Option.Basic
import UseCaseFlow.Diagram.Message
import UseCaseFlow.Proofs.Diagram.IdIndex
import UseCaseFlow.Proofs.Outcome
import UseCaseFlow.Proofs.Text.FirstCut

/-!
# Reading a message line

The rule by which a line is read as an interaction, said by where the separators stand first. The
reader follows the rule exactly.
-/

namespace UseCaseFlow

open Text

/-- The arrow part and the label of a line. The spaced colon comes first; a line without one has
its label after the first colon behind the arrow. -/
inductive LabelCut (line : List Char) : List Char → List Char → Prop
  | spaced {arrow label : List Char} (h : FirstCut " : ".toList line arrow label) :
      LabelCut line arrow label
  | compact {source rest target label : List Char} (hspaced : ¬ " : ".toList <:+: line)
      (harrow : FirstCut "->>".toList line source rest)
      (hcolon : FirstCut ":".toList rest target label) :
      LabelCut line (source ++ "->>".toList ++ target) label

/-- Whether the call returns, and the two sides of the arrow. -/
inductive ArrowCut (arrow : List Char) : Bool → List Char → List Char → Prop
  | returning {source target : List Char} (h : FirstCut "-->>".toList arrow source target) :
      ArrowCut arrow true source target
  | call {source target : List Char} (hreturn : ¬ "-->>".toList <:+: arrow)
      (h : FirstCut "->>".toList arrow source target) : ArrowCut arrow false source target

/-- A line as a message: both sides of the arrow hold text, and blanks around the parts do not
count. -/
inductive ReadsMessage (line : String) : Message → Prop
  | intro {arrow label source target : List Char} {returns : Bool}
      (hlabel : LabelCut line.toList arrow label) (harrow : ArrowCut arrow returns source target)
      (hsource : trim source ≠ []) (htarget : trim target ≠ []) :
      ReadsMessage line
        ⟨String.ofList (trim source), String.ofList (trim target), returns,
          String.ofList (trim label)⟩

/-- A line as an interaction: both ends name an entity, and name no other. -/
inductive ReadsInteraction (entities : List Entity) (line : String) : Interaction → Prop
  | intro {message : Message} {source target : Nat} (hmessage : ReadsMessage line message)
      (hsource : DeclaredOnce entities message.source source)
      (htarget : DeclaredOnce entities message.target target) :
      ReadsInteraction entities line ⟨source, target, message.returns, message.label⟩

/-- Why a line is not read as an interaction. The source is looked at before the target. -/
inductive MessageDefect (entities : List Entity) (line : String) : Defect → Prop
  | malformed (h : ∀ message, ¬ ReadsMessage line message) :
      MessageDefect entities line (.malformedInteraction line)
  | source {message : Message} {defect : Defect} (hmessage : ReadsMessage line message)
      (h : IdDefect entities message.source defect) : MessageDefect entities line defect
  | target {message : Message} {position : Nat} {defect : Defect}
      (hmessage : ReadsMessage line message)
      (hsource : DeclaredOnce entities message.source position)
      (h : IdDefect entities message.target defect) : MessageDefect entities line defect

theorem splitLabel?_eq_some_iff {line arrow label : List Char} :
    splitLabel? line = some (arrow, label) ↔ LabelCut line arrow label := by
  rw [splitLabel?]
  cases hspaced : cut? " : ".toList line with
  | some pieces =>
    have hcut := firstCut_of_cut? hspaced
    constructor
    · rintro h
      obtain rfl : pieces = (arrow, label) := Option.some.inj h
      exact .spaced hcut
    · intro h
      cases h with
      | spaced h => rw [← hspaced, cut?_eq_some_iff.mpr h]
      | compact hno _ _ => exact absurd ⟨_, _, hcut.whole.symm⟩ hno
  | none =>
    have hno := cut?_eq_none_iff.mp hspaced
    constructor
    · intro h
      simp only [Option.bind_eq_bind, Option.bind_eq_some_iff, Option.pure_def,
        Option.some.injEq, Prod.mk.injEq, Prod.exists] at h
      obtain ⟨source, rest, harrow, target, _, hcolon, rfl, rfl⟩ := h
      exact .compact hno (firstCut_of_cut? harrow) (firstCut_of_cut? hcolon)
    · intro h
      cases h with
      | spaced h => exact absurd ⟨_, _, h.whole.symm⟩ hno
      | compact _ harrow hcolon =>
        rw [← cut?_eq_some_iff] at harrow hcolon
        simp only [harrow, hcolon, Option.bind_eq_bind, Option.bind_some, Option.pure_def]

theorem splitArrow?_eq_some_iff {arrow source target : List Char} {returns : Bool} :
    splitArrow? arrow = some (returns, source, target) ↔
      ArrowCut arrow returns source target := by
  rw [splitArrow?]
  cases hreturn : cut? "-->>".toList arrow with
  | some ends =>
    have hcut := firstCut_of_cut? hreturn
    constructor
    · intro h
      simp only [Option.some.injEq, Prod.mk.injEq] at h
      obtain ⟨rfl, rfl⟩ := h
      exact .returning hcut
    · intro h
      cases h with
      | returning h => rw [← cut?_eq_some_iff, hreturn] at h; simp [Option.some.inj h]
      | call hno _ => exact absurd ⟨_, _, hcut.whole.symm⟩ hno
  | none =>
    have hno := cut?_eq_none_iff.mp hreturn
    constructor
    · intro h
      simp only [Option.map_eq_some_iff, Prod.mk.injEq, Prod.exists] at h
      obtain ⟨_, _, hcall, rfl, rfl, rfl⟩ := h
      exact .call hno (firstCut_of_cut? hcall)
    · intro h
      cases h with
      | returning h => exact absurd ⟨_, _, h.whole.symm⟩ hno
      | call _ h => rw [cut?_eq_some_iff.mpr h, Option.map_some]

theorem readMessage?_eq_some_iff {line : String} {message : Message} :
    readMessage? line = some message ↔ ReadsMessage line message := by
  constructor
  · intro h
    simp only [readMessage?, Option.bind_eq_bind, Option.bind_eq_some_iff, Prod.exists] at h
    obtain ⟨arrow, label, hlabel, returns, source, target, harrow, _, hguard, hmessage⟩ := h
    obtain rfl := Option.some.inj hmessage
    rw [Option.guard_eq_some'] at hguard
    simp only [Bool.and_eq_true, Bool.not_eq_true', List.isEmpty_eq_false_iff] at hguard
    exact .intro (splitLabel?_eq_some_iff.mp hlabel) (splitArrow?_eq_some_iff.mp harrow)
      hguard.1 hguard.2
  · rintro ⟨hlabel, harrow, hsource, htarget⟩
    rw [← splitLabel?_eq_some_iff] at hlabel
    rw [← splitArrow?_eq_some_iff] at harrow
    simp [readMessage?, guard, hlabel, harrow, hsource, htarget]

theorem parseInteraction_eq_ok_iff {entities : List Entity} {number : Nat} {line : String}
    {result : Interaction} :
    parseInteraction (IdIndex.ofEntities entities) number line = .ok result ↔
      ReadsInteraction entities line result := by
  rw [parseInteraction]
  cases hread : readMessage? line with
  | none =>
    constructor
    · intro h
      contradiction
    · rintro ⟨hmessage, _, _⟩
      rw [readMessage?_eq_some_iff.mpr hmessage] at hread
      contradiction
  | some message =>
    have hmessage := readMessage?_eq_some_iff.mp hread
    constructor
    · intro h
      obtain ⟨source, hsource, h⟩ := bind_eq_ok_iff.mp h
      obtain ⟨target, htarget, h⟩ := bind_eq_ok_iff.mp h
      obtain rfl := Except.ok.inj h
      exact .intro hmessage (IdIndex.resolve_eq_ok_iff.mp hsource)
        (IdIndex.resolve_eq_ok_iff.mp htarget)
    · intro h
      cases h with
      | intro hother hsource htarget =>
        rw [← readMessage?_eq_some_iff, hread] at hother
        obtain rfl := Option.some.inj hother
        simp only [bind_eq_ok_iff]
        exact ⟨_, IdIndex.resolve_eq_ok_iff.mpr hsource, _,
          IdIndex.resolve_eq_ok_iff.mpr htarget, rfl⟩

theorem ReadsMessage.unique {line : String} {left right : Message} (hleft : ReadsMessage line left)
    (hright : ReadsMessage line right) : left = right := by
  rw [← readMessage?_eq_some_iff] at hleft hright
  exact Option.some.inj (hleft.symm.trans hright)

theorem parseInteraction_eq_error_iff {entities : List Entity} {number : Nat} {line : String}
    {e : ParseError} :
    parseInteraction (IdIndex.ofEntities entities) number line = .error e ↔
      ∃ defect, e = .onLine number defect ∧ MessageDefect entities line defect := by
  rw [parseInteraction]
  cases hread : readMessage? line with
  | none =>
    have hmalformed (message : Message) : ¬ ReadsMessage line message := by
      rw [← readMessage?_eq_some_iff, hread]
      exact nofun
    rw [Except.error.injEq]
    constructor
    · rintro rfl
      exact ⟨_, rfl, .malformed hmalformed⟩
    · rintro ⟨_, rfl, _ | ⟨hmessage, _⟩ | ⟨hmessage, _, _⟩⟩
      · rfl
      · exact absurd hmessage (hmalformed _)
      · exact absurd hmessage (hmalformed _)
  | some message =>
    have hmessage := readMessage?_eq_some_iff.mp hread
    simp only [bind_eq_error_iff, IdIndex.resolve_eq_error_iff, IdIndex.resolve_eq_ok_iff,
      pure_ne_error, and_false, exists_false, or_false]
    constructor
    · rintro (⟨defect, rfl, h⟩ | ⟨position, hsource, defect, rfl, h⟩)
      · exact ⟨defect, rfl, .source hmessage h⟩
      · exact ⟨defect, rfl, .target hmessage hsource h⟩
    · rintro ⟨defect, rfl, h⟩
      cases h with
      | malformed h => exact absurd hmessage (h message)
      | source hother h =>
        obtain rfl := hmessage.unique hother
        exact Or.inl ⟨defect, rfl, h⟩
      | target hother hsource h =>
        obtain rfl := hmessage.unique hother
        exact Or.inr ⟨_, hsource, defect, rfl, h⟩

end UseCaseFlow
