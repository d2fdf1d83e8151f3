import UseCaseFlow.Proofs.Diagram.Message
import UseCaseFlow.Proofs.Flow.Renumbering
import UseCaseFlow.Scenario.Basic

/-!
# The order of declarations

An id stands for an entity only if it is declared once, so it stands for the same entity in
whichever order the entities are declared. Step lines are read alike, up to the positions of the
entities, and with the same metrics.
-/

namespace UseCaseFlow

section Ids

variable {entities others : List Entity} {position : Nat → Nat}

theorem Renumbers.resolve_eq (hperm : entities.Perm others)
    (h : Renumbers entities others position) (id : String) (line : Nat) :
    (IdIndex.ofEntities others).resolve id line =
      ((IdIndex.ofEntities entities).resolve id line).map position := by
  have hcount : countId id others = countId id entities := (hperm.countP_eq _).symm
  rw [IdIndex.resolve_ofEntities, IdIndex.resolve_ofEntities, hcount]
  by_cases hzero : countId id entities = 0
  · simp [hzero]
  · by_cases hone : countId id entities = 1
    · have hdeclared : DeclaredOnce entities id (firstId id entities) :=
        declaredOnce_iff.mpr ⟨hone, rfl⟩
      have hdeclared' : DeclaredOnce others id (firstId id others) :=
        declaredOnce_iff.mpr ⟨hcount.trans hone, rfl⟩
      obtain ⟨e, he, hid⟩ := hdeclared.declared
      have hfirst : position (firstId id entities) = firstId id others :=
        hdeclared'.once _ e ((h.lookup _).trans he) hid
      simp [hone, hfirst]
    · simp [hzero, hone]

end Ids

section Readers

/-- The second index resolves ids to the new positions. -/
def IdIndex.Renumbered (index index' : IdIndex) (position : Nat → Nat) : Prop :=
  ∀ id line, index'.resolve id line = (index.resolve id line).map position

/-- The second reader gives the same flows as the first, renumbered. -/
def LinesReader.Renumbered (inner inner' : LinesReader) (position : Nat → Nat) : Prop :=
  ∀ start lines, inner' start lines = (inner start lines).map (Flow.renumbered position)

def BlockReader.Renumbered (block block' : BlockReader) (position : Nat → Nat) : Prop :=
  ∀ keyword start lines, block' keyword start lines =
    (block keyword start lines).map (Prod.map (·.renumbered position) id)

variable {index index' : IdIndex} {inner inner' : LinesReader} {block block' : BlockReader}
  {position : Nat → Nat}

theorem parseInteraction_renumbered (h : index.Renumbered index' position) (number : Nat)
    (line : String) : parseInteraction index' number line =
      (parseInteraction index number line).map (·.renumbered position) := by
  rw [parseInteraction, parseInteraction]
  cases readMessage? line with
  | none => rfl
  | some message =>
    apply bind_eq_map_bind (h _ _)
    intro source
    apply bind_eq_map_bind (h _ _)
    intro target
    rfl

theorem parseSection_renumbered (h : inner.Renumbered inner' position) (s : Section) :
    parseSection inner' s = (parseSection inner s).map (Flow.renumbered position) := by
  apply bind_eq_map_bind (h _ _)
  intro steps
  rw [Flow.isEmpty_renumbered]
  cases steps.isEmpty <;> rfl

theorem parseBranches_renumbered (h : inner.Renumbered inner' position) (taken : List String)
    (sections : List Section) : parseBranches inner' taken sections =
      (parseBranches inner taken sections).map (Flow.renumberedBranches position) := by
  induction sections generalizing taken with
  | nil => rfl
  | cons s rest ih =>
    rw [parseBranches, parseBranches]
    by_cases htaken : s.condition ∈ taken
    · simp only [if_pos htaken]
      rfl
    · simp only [if_neg htaken]
      apply bind_eq_map_bind (parseSection_renumbered h s)
      intro steps
      apply bind_eq_map_bind (ih _)
      intro branches
      rfl

theorem parseBlock_renumbered (h : inner.Renumbered inner' position) :
    (parseBlock inner).Renumbered (parseBlock inner') position := by
  intro keyword start lines
  cases keyword with
  | loop =>
    cases hclose : (blockEnd lines).mapError (·.shifted start) with
    | error e => simp only [parseBlock, parseLoop, hclose]; rfl
    | ok close =>
      simp only [parseBlock, parseLoop, hclose, ok_bind]
      apply bind_eq_map_bind (parseSection_renumbered h _)
      intro body
      rfl
  | alt =>
    cases hboundaries : (branchBoundaries lines).mapError (·.shifted start) with
    | error e => simp only [parseBlock, parseFork, hboundaries]; rfl
    | ok boundaries =>
      simp only [parseBlock, parseFork, hboundaries, ok_bind]
      apply bind_eq_map_bind (parseBranches_renumbered h _ _)
      intro branches
      rfl
  | actor | participant | otherwise | close => rfl

theorem refuseBlock_renumbered (limit : Nat) :
    (refuseBlock limit).Renumbered (refuseBlock limit) position := by
  intro keyword start lines
  cases keyword <;> rfl

theorem parseLines_renumbered (h : index.Renumbered index' position)
    (hblock : block.Renumbered block' position) (skip start : Nat) (lines : List String) :
    parseLines index' block' skip start lines =
      (parseLines index block skip start lines).map (Flow.renumbered position) := by
  induction lines generalizing skip start with
  | nil => cases skip <;> rfl
  | cons line rest ih =>
    cases skip with
    | succ skip => exact ih skip (start + 1)
    | zero =>
      rw [parseLines, parseLines]
      cases Keyword.ofLine? line with
      | none =>
        apply bind_eq_map_bind (parseInteraction_renumbered h _ _)
        intro message
        apply bind_eq_map_bind (ih _ _)
        intro steps
        rfl
      | some keyword =>
        apply bind_eq_map_bind (hblock _ _ _)
        intro read
        apply bind_eq_map_bind (ih _ _)
        intro steps
        rfl

theorem parseSteps_renumbered (h : index.Renumbered index' position) (limit budget : Nat) :
    LinesReader.Renumbered (parseSteps index limit budget) (parseSteps index' limit budget)
      position := by
  induction budget with
  | zero => exact parseLines_renumbered h (refuseBlock_renumbered limit) 0
  | succ budget ih => exact parseLines_renumbered h (parseBlock_renumbered ih) 0

end Readers

/-- The order of the declarations does not matter. Step lines fail with the same error, or they are
read as the same flow, but for the positions of the entities; and a flow has the same metrics among
the entities in either order. -/
theorem parseSequence_of_perm {entities others : List Entity} (hperm : entities.Perm others) :
    (∃ position, Renumbers entities others position) ∧
    ∀ position, Renumbers entities others position →
      (∀ lines limit, parseSequence others lines limit =
        (parseSequence entities lines limit).map (Flow.renumbered position)) ∧
      ∀ key flow, (Scenario.mk key others (Flow.renumbered position flow)).metrics =
        (Scenario.mk key entities flow).metrics := by
  refine ⟨exists_renumbers hperm, ?_⟩
  intro position h
  constructor
  · intro lines limit
    rw [parseSequence, parseSequence]
    apply bind_eq_map_bind (parseSteps_renumbered (h.resolve_eq hperm) limit limit 0 lines)
    intro flow
    rw [Flow.isEmpty_renumbered]
    cases flow.isEmpty <;> rfl
  · intro key flow
    exact Metrics.of_renumbered hperm h flow

section Exchanged

/-- Two of the entities share an id. -/
def declaredFour : List Entity :=
  [⟨"a", "A", .actor, true⟩, ⟨"b", "B", .participant, true⟩, ⟨"c", "C", .participant, true⟩,
    ⟨"c", "D", .actor, false⟩]

/-- The first and the third entity have changed places. -/
def exchangedFour : List Entity :=
  [⟨"c", "C", .participant, true⟩, ⟨"b", "B", .participant, true⟩, ⟨"a", "A", .actor, true⟩,
    ⟨"c", "D", .actor, false⟩]

theorem parseSequence_of_exchange :
    declaredFour.Perm exchangedFour ∧ Renumbers declaredFour exchangedFour (Equiv.swap 0 2) ∧
    parseSequence exchangedFour ["a ->> b : m", "b ->> a : n"] 32 =
      .ok [.interaction ⟨2, 1, false, "m"⟩, .interaction ⟨1, 2, false, "n"⟩] ∧
    parseSequence exchangedFour ["a ->> c : m"] 32 =
      .error (.onLine 1 (.ambiguousEntity "c" 2)) ∧
    (Scenario.mk ⟨"R", "U"⟩ exchangedFour
        [.interaction ⟨2, 1, false, "m"⟩, .interaction ⟨1, 2, false, "n"⟩]).metrics =
      (Scenario.mk ⟨"R", "U"⟩ declaredFour
        [.interaction ⟨0, 1, false, "m"⟩, .interaction ⟨1, 0, false, "n"⟩]).metrics := by
  have hperm : declaredFour.Perm exchangedFour := by decide
  have hposition : Renumbers declaredFour exchangedFour (Equiv.swap 0 2) := by
    refine ⟨(Equiv.swap 0 2).injective, ?_⟩
    intro i
    match i with
    | 0 | 1 | 2 | 3 => rfl
    | i + 4 =>
      rw [Equiv.swap_apply_of_ne_of_ne (by omega) (by omega)]
      rfl
  have hread : parseSequence declaredFour ["a ->> b : m", "b ->> a : n"] 32 =
      .ok [.interaction ⟨0, 1, false, "m"⟩, .interaction ⟨1, 0, false, "n"⟩] := rfl
  have hfails : parseSequence declaredFour ["a ->> c : m"] 32 =
      .error (.onLine 1 (.ambiguousEntity "c" 2)) := rfl
  obtain ⟨hsequence, hmetrics⟩ := (parseSequence_of_perm hperm).2 _ hposition
  refine ⟨hperm, hposition, ?_, ?_, ?_⟩
  · rw [hsequence, hread]
    rfl
  · rw [hsequence, hfails]
    rfl
  · exact hmetrics ⟨"R", "U"⟩ [.interaction ⟨0, 1, false, "m"⟩, .interaction ⟨1, 0, false, "n"⟩]

end Exchanged

end UseCaseFlow
