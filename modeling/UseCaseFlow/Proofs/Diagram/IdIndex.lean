import UseCaseFlow.Diagram.IdIndex

/-!
# The id index as a search through the entities

Looking an id up in the index of an entity list gives the first position of the id and the number
of entities that have it, so that an id resolves exactly if one entity has it.
-/

namespace UseCaseFlow

def countId (id : String) (entities : List Entity) : Nat :=
  entities.countP (·.id = id)

def firstId (id : String) (entities : List Entity) : Nat :=
  entities.findIdx (·.id = id)

/-- One entity has the id, and it stands at that position. -/
structure DeclaredOnce (entities : List Entity) (id : String) (position : Nat) : Prop where
  declared : ∃ e, entities[position]? = some e ∧ e.id = id
  once : ∀ i e, entities[i]? = some e → e.id = id → i = position

/-- Why the id does not stand for one entity. -/
inductive IdDefect (entities : List Entity) (id : String) : Defect → Prop
  | unknown (h : ∀ e ∈ entities, e.id ≠ id) : IdDefect entities id (.unknownEntity id)
  | ambiguous (h : 2 ≤ countId id entities) :
      IdDefect entities id (.ambiguousEntity id (countId id entities))

@[simp] theorem countId_nil (id : String) : countId id [] = 0 := rfl

theorem countId_cons (id : String) (e : Entity) (rest : List Entity) :
    countId id (e :: rest) = countId id rest + if e.id = id then 1 else 0 := by
  simp [countId, List.countP_cons]

theorem countId_eq_zero_iff {id : String} {entities : List Entity} :
    countId id entities = 0 ↔ ∀ e ∈ entities, e.id ≠ id := by
  simp [countId]

theorem IdIndex.get?_record_self (index : IdIndex) (id : String) (position : Nat) :
    (index.record id position).get? id = some
      (match index.get? id with
      | some entry => { entry with count := entry.count + 1 }
      | none => ⟨id, position, 1⟩) := by
  induction index with
  | nil => simp [record, get?]
  | cons entry rest ih =>
    by_cases h : entry.id = id
    · simp [record, get?, h]
    · simpa [record, get?, h] using ih

theorem IdIndex.get?_record_of_ne (index : IdIndex) {id other : String} (position : Nat)
    (hne : other ≠ id) : (index.record other position).get? id = index.get? id := by
  induction index with
  | nil => simp [record, get?, hne]
  | cons entry rest ih =>
    by_cases h : entry.id = other
    · have hid : entry.id ≠ id := fun h' => hne (h.symm.trans h')
      simp [record, get?, h, hne]
    · by_cases hid : entry.id = id
      · simp [record, get?, hid, Ne.symm hne]
      · simpa [record, get?, h, hid] using ih

theorem IdIndex.get?_recordAll_of_some (entities : List Entity) {index : IdIndex} {id : String}
    {entry : IdOccurrence} (position : Nat) (h : index.get? id = some entry) :
    (recordAll position entities index).get? id =
      some { entry with count := entry.count + countId id entities } := by
  induction entities generalizing index entry position with
  | nil => simpa [recordAll] using h
  | cons e rest ih =>
    rw [recordAll, countId_cons]
    by_cases he : e.id = id
    · have hstep := get?_record_self index id position
      rw [h] at hstep
      rw [he, ih (position + 1) hstep]
      simp [Nat.add_assoc, Nat.add_comm]
    · rw [ih (position + 1) ((get?_record_of_ne index position he).trans h)]
      simp [he]

theorem IdIndex.get?_recordAll_of_none (entities : List Entity) {index : IdIndex} {id : String}
    (position : Nat) (h : index.get? id = none) :
    (recordAll position entities index).get? id =
      if countId id entities = 0 then none
      else some ⟨id, position + firstId id entities, countId id entities⟩ := by
  induction entities generalizing index position with
  | nil => simpa [recordAll] using h
  | cons e rest ih =>
    rw [recordAll, countId_cons]
    by_cases he : e.id = id
    · have hstep := get?_record_self index id position
      rw [h] at hstep
      rw [he, get?_recordAll_of_some rest (position + 1) hstep]
      simp [firstId, he, List.findIdx_cons, Nat.add_comm]
    · rw [ih (position + 1) ((get?_record_of_ne index position he).trans h)]
      simp [firstId, he, List.findIdx_cons, Nat.add_assoc, Nat.add_comm]

theorem IdIndex.get?_ofEntities (entities : List Entity) (id : String) :
    (ofEntities entities).get? id =
      if countId id entities = 0 then none
      else some ⟨id, firstId id entities, countId id entities⟩ := by
  have hempty : get? [] id = none := rfl
  simpa [ofEntities] using get?_recordAll_of_none entities 0 hempty

theorem IdIndex.resolve_ofEntities (entities : List Entity) (id : String) (line : Nat) :
    (ofEntities entities).resolve id line =
      if countId id entities = 0 then .error (.onLine line (.unknownEntity id))
      else if countId id entities = 1 then .ok (firstId id entities)
      else .error (.onLine line (.ambiguousEntity id (countId id entities))) := by
  rw [resolve, get?_ofEntities]
  by_cases h : countId id entities = 0 <;> simp [h]

private theorem declaredOnce_cons_of_eq {e : Entity} {rest : List Entity} {id : String}
    {position : Nat} (he : e.id = id) :
    DeclaredOnce (e :: rest) id position ↔ countId id rest = 0 ∧ position = 0 := by
  rw [countId_eq_zero_iff]
  constructor
  · intro h
    have hzero : 0 = position := h.once 0 e rfl he
    refine ⟨fun other hother hid => ?_, hzero.symm⟩
    obtain ⟨i, hi⟩ := List.getElem?_of_mem hother
    have := h.once (i + 1) other hi hid
    omega
  · rintro ⟨hrest, rfl⟩
    refine ⟨⟨e, rfl, he⟩, fun i other hi hid => ?_⟩
    cases i with
    | zero => rfl
    | succ i => exact absurd hid (hrest other (List.mem_of_getElem? hi))

private theorem declaredOnce_cons_of_ne {e : Entity} {rest : List Entity} {id : String}
    {position : Nat} (he : e.id ≠ id) :
    DeclaredOnce (e :: rest) id position ↔ ∃ i, position = i + 1 ∧ DeclaredOnce rest id i := by
  constructor
  · intro h
    obtain ⟨found, hfound, hid⟩ := h.declared
    cases position with
    | zero =>
      obtain rfl : e = found := Option.some.inj hfound
      exact absurd hid he
    | succ i =>
      refine ⟨i, rfl, ⟨found, hfound, hid⟩, fun j other hj hother => ?_⟩
      have := h.once (j + 1) other hj hother
      omega
  · rintro ⟨i, rfl, h⟩
    refine ⟨h.declared, fun j other hj hother => ?_⟩
    cases j with
    | zero =>
      obtain rfl : e = other := Option.some.inj hj
      exact absurd hother he
    | succ j => exact congrArg (· + 1) (h.once j other hj hother)

theorem declaredOnce_iff {entities : List Entity} {id : String} {position : Nat} :
    DeclaredOnce entities id position ↔
      countId id entities = 1 ∧ firstId id entities = position := by
  induction entities generalizing position with
  | nil =>
    constructor
    · rintro ⟨⟨e, he, -⟩, -⟩
      simp at he
    · simp
  | cons e rest ih =>
    rw [countId_cons]
    by_cases he : e.id = id
    · rw [declaredOnce_cons_of_eq he]
      simp [he, firstId, List.findIdx_cons, eq_comm]
    · rw [declaredOnce_cons_of_ne he]
      simp only [he, firstId, List.findIdx_cons, ih]
      simp only [decide_false, cond_false, if_false, Nat.add_zero]
      constructor
      · rintro ⟨i, rfl, hcount, hfirst⟩
        exact ⟨hcount, congrArg (· + 1) hfirst⟩
      · rintro ⟨hcount, rfl⟩
        exact ⟨_, rfl, hcount, rfl⟩

theorem IdIndex.resolve_eq_ok_iff {entities : List Entity} {id : String} {line position : Nat} :
    (ofEntities entities).resolve id line = .ok position ↔
      DeclaredOnce entities id position := by
  rw [resolve_ofEntities, declaredOnce_iff]
  by_cases hzero : countId id entities = 0
  · simp [hzero]
  · by_cases hone : countId id entities = 1
    · simp [hone]
    · simp [hzero, hone]

theorem IdIndex.resolve_eq_error_iff {entities : List Entity} {id : String} {line : Nat}
    {e : ParseError} : (ofEntities entities).resolve id line = .error e ↔
      ∃ defect, e = .onLine line defect ∧ IdDefect entities id defect := by
  rw [resolve_ofEntities]
  by_cases hzero : countId id entities = 0
  · have hunknown := countId_eq_zero_iff.mp hzero
    rw [if_pos hzero, Except.error.injEq]
    constructor
    · rintro rfl
      exact ⟨_, rfl, .unknown hunknown⟩
    · rintro ⟨_, rfl, _ | h⟩
      · rfl
      · omega
  · rw [if_neg hzero]
    by_cases hone : countId id entities = 1
    · rw [if_pos hone]
      constructor
      · intro h
        contradiction
      · rintro ⟨_, rfl, h | h⟩
        · exact absurd (countId_eq_zero_iff.mpr h) hzero
        · omega
    · rw [if_neg hone, Except.error.injEq]
      constructor
      · rintro rfl
        exact ⟨_, rfl, .ambiguous (by omega)⟩
      · rintro ⟨_, rfl, h | _⟩
        · exact absurd (countId_eq_zero_iff.mpr h) hzero
        · rfl

/-- The index answers for an id as a search through all entities does. Ids are the same if they have
the same characters, in the same case. -/
structure IdIndex.AgreesWithSearch (entities : List Entity) (id : String) (line : Nat) : Prop where
  found (position : Nat) : (ofEntities entities).resolve id line = .ok position ↔
    DeclaredOnce entities id position
  unknown : (ofEntities entities).resolve id line = .error (.onLine line (.unknownEntity id)) ↔
    ∀ e ∈ entities, e.id ≠ id
  ambiguous (count : Nat) :
    (ofEntities entities).resolve id line = .error (.onLine line (.ambiguousEntity id count)) ↔
      2 ≤ count ∧ countId id entities = count

theorem IdIndex.agreesWithSearch (entities : List Entity) (id : String) (line : Nat) :
    AgreesWithSearch entities id line := by
  constructor
  case found => exact fun position => resolve_eq_ok_iff
  case unknown =>
    rw [resolve_eq_error_iff]
    constructor
    · rintro ⟨defect, heq, hdefect⟩
      obtain ⟨-, rfl⟩ := ParseError.onLine.inj heq
      cases hdefect with
      | unknown h => exact h
    · intro h
      exact ⟨_, rfl, .unknown h⟩
  case ambiguous =>
    intro count
    rw [resolve_eq_error_iff]
    constructor
    · rintro ⟨defect, heq, hdefect⟩
      obtain ⟨-, rfl⟩ := ParseError.onLine.inj heq
      cases hdefect with
      | ambiguous h => exact ⟨h, rfl⟩
    · rintro ⟨htwo, rfl⟩
      exact ⟨_, rfl, .ambiguous htwo⟩

example : (IdIndex.ofEntities [⟨"user", "A", .actor, true⟩, ⟨"User", "B", .actor, true⟩]).resolve
    "User" 3 = .ok 1 := rfl

end UseCaseFlow
