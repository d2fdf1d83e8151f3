import UseCaseFlow.Diagram.Block
import UseCaseFlow.Proofs.Outcome

/-!
# The block scan

One equation per kind of line, and from them where the boundaries that a scan returns can lie.
Balanced lines are passed over: they leave the depth of the scan as it was.
-/

namespace UseCaseFlow

section Equations

variable {line : String} (depth index : Nat) (rest : List String)

theorem scanBlock_plain (h : Keyword.ofLine? line = none) :
    scanBlock depth index (line :: rest) = scanBlock depth (index + 1) rest := by
  simp [scanBlock, h]

theorem scanBlock_declaration {k : Keyword} (h : Keyword.ofLine? line = some k)
    (hk : k.declaresEntity = true) :
    scanBlock depth index (line :: rest) = scanBlock depth (index + 1) rest := by
  cases k <;> simp_all [scanBlock, Keyword.declaresEntity]

theorem scanBlock_opener {k : Keyword} (h : Keyword.ofLine? line = some k)
    (hk : k.opensBlock = true) :
    scanBlock depth index (line :: rest) = scanBlock (depth + 1) (index + 1) rest := by
  cases k <;> simp_all [scanBlock, Keyword.opensBlock]

theorem scanBlock_close_zero (h : Keyword.ofLine? line = some .close) :
    scanBlock 0 index (line :: rest) = some ⟨[], index⟩ := by
  simp [scanBlock, h]

theorem scanBlock_close_succ (h : Keyword.ofLine? line = some .close) :
    scanBlock (depth + 1) index (line :: rest) = scanBlock depth (index + 1) rest := by
  simp [scanBlock, h]

theorem scanBlock_otherwise_zero (h : Keyword.ofLine? line = some .otherwise) :
    scanBlock 0 index (line :: rest) =
      (scanBlock 0 (index + 1) rest).map (·.addSeparator index) := by
  simp [scanBlock, h]

theorem scanBlock_otherwise_succ (h : Keyword.ofLine? line = some .otherwise) :
    scanBlock (depth + 1) index (line :: rest) = scanBlock (depth + 1) (index + 1) rest := by
  simp [scanBlock, h]

end Equations

@[simp] theorem Extent.boundaries_addSeparator (e : Extent) (index : Nat) :
    (e.addSeparator index).boundaries = index :: e.boundaries := rfl

@[simp] theorem Extent.getLast?_boundaries (e : Extent) : e.boundaries.getLast? = some e.close := by
  simp [boundaries]

/-- The boundaries are lines of the scanned text in ascending order: `else` lines and last `end`. -/
structure Extent.Marks (e : Extent) (index : Nat) (lines : List String) : Prop where
  ascending : e.boundaries.Pairwise (· < ·)
  within : ∀ b ∈ e.boundaries, index ≤ b ∧ b < index + lines.length
  separator : ∀ b ∈ e.separators, (lines[b - index]?).bind Keyword.ofLine? = some .otherwise
  close : (lines[e.close - index]?).bind Keyword.ofLine? = some .close

private theorem Extent.Marks.cons {e : Extent} {index : Nat} {line : String} {rest : List String}
    (h : e.Marks (index + 1) rest) : e.Marks index (line :: rest) := by
  have hshift (b : Nat) (hb : b ∈ e.boundaries) :
      (line :: rest)[b - index]? = rest[b - (index + 1)]? := by
    have hle := (h.within b hb).1
    rw [show b - index = b - (index + 1) + 1 by omega, List.getElem?_cons_succ]
  refine ⟨h.ascending, fun b hb => ?_, fun b hb => ?_, ?_⟩
  · have hb := h.within b hb
    rw [List.length_cons]
    omega
  · rw [hshift b (List.mem_append_left _ hb)]
    exact h.separator b hb
  · rw [hshift e.close (List.mem_append_right _ (List.mem_singleton_self _))]
    exact h.close

private theorem Extent.Marks.addSeparator {e : Extent} {index : Nat} {line : String}
    {rest : List String} (h : e.Marks (index + 1) rest)
    (hline : Keyword.ofLine? line = some .otherwise) :
    (e.addSeparator index).Marks index (line :: rest) := by
  have hcons : e.Marks index (line :: rest) := h.cons
  refine ⟨?_, ?_, ?_, hcons.close⟩
  · rw [boundaries_addSeparator, List.pairwise_cons]
    exact ⟨fun b hb => (h.within b hb).1, h.ascending⟩
  · intro b hb
    rw [boundaries_addSeparator, List.mem_cons] at hb
    rcases hb with rfl | hb
    · simp
    · exact hcons.within b hb
  · intro b hb
    rcases List.mem_cons.mp hb with rfl | hb
    · simpa using hline
    · exact hcons.separator b hb

private theorem marks_close {index : Nat} {line : String} {rest : List String}
    (hline : Keyword.ofLine? line = some .close) :
    Extent.Marks ⟨[], index⟩ index (line :: rest) := by
  refine ⟨by simp [Extent.boundaries], ?_, by simp, by simpa using hline⟩
  intro b hb
  obtain rfl : b = index := by simpa [Extent.boundaries] using hb
  simp

/-- Every boundary that the scan returns is what it stands for. -/
theorem marks_of_scanBlock {depth index : Nat} {lines : List String} {e : Extent}
    (h : scanBlock depth index lines = some e) : e.Marks index lines := by
  induction lines generalizing depth index e with
  | nil => simp [scanBlock] at h
  | cons line rest ih =>
    cases hk : Keyword.ofLine? line with
    | none =>
      rw [scanBlock_plain _ _ _ hk] at h
      exact (ih h).cons
    | some k =>
      cases k with
      | actor | participant =>
        rw [scanBlock_declaration _ _ _ hk rfl] at h
        exact (ih h).cons
      | alt | loop =>
        rw [scanBlock_opener _ _ _ hk rfl] at h
        exact (ih h).cons
      | otherwise =>
        cases depth with
        | zero =>
          rw [scanBlock_otherwise_zero _ _ hk] at h
          obtain ⟨tail, htail, rfl⟩ := Option.map_eq_some_iff.mp h
          exact (ih htail).addSeparator hk
        | succ depth =>
          rw [scanBlock_otherwise_succ _ _ _ hk] at h
          exact (ih h).cons
      | close =>
        cases depth with
        | zero =>
          rw [scanBlock_close_zero _ _ hk] at h
          obtain rfl := Option.some.inj h
          exact marks_close hk
        | succ depth =>
          rw [scanBlock_close_succ _ _ _ hk] at h
          exact (ih h).cons

theorem marks_of_blockExtent? {lines : List String} {e : Extent}
    (h : blockExtent? lines = some e) :
    e.Marks 0 lines ∧ (0 :: e.boundaries).Pairwise (· < ·) := by
  cases lines with
  | nil => simp [blockExtent?, scanBlock] at h
  | cons line rest =>
    have hmarks : e.Marks 1 rest := marks_of_scanBlock h
    exact ⟨hmarks.cons, List.pairwise_cons.mpr
      ⟨fun b hb => (hmarks.within b hb).1, hmarks.ascending⟩⟩

theorem requireExtent_eq_ok_iff {fallback : Keyword} {lines : List String} {e : Extent} :
    requireExtent fallback lines = .ok e ↔ blockExtent? lines = some e := by
  rw [requireExtent]
  cases blockExtent? lines <;> simp

theorem blockEnd_eq_ok_iff {lines : List String} {close : Nat} :
    blockEnd lines = .ok close ↔ ∃ e, blockExtent? lines = some e ∧ e.close = close := by
  simp only [blockEnd, bind_eq_ok_iff, requireExtent_eq_ok_iff, pure_eq_ok_iff]

theorem branchBoundaries_eq_ok_iff {lines : List String} {boundaries : List Nat} :
    branchBoundaries lines = .ok boundaries ↔
      ∃ e, blockExtent? lines = some e ∧ e.boundaries = boundaries := by
  simp only [branchBoundaries, bind_eq_ok_iff, requireExtent_eq_ok_iff, pure_eq_ok_iff]

/-- The section that starts after `pre` and runs up to `tail`. -/
theorem sectionAt_append (start : Nat) (keyword : Keyword) (pre inside tail : List String)
    (opener : String) :
    sectionAt start keyword (pre ++ opener :: (inside ++ tail)) pre.length
      (pre.length + 1 + inside.length) =
      ⟨start + pre.length, keyword, keyword.restOf opener, inside⟩ := by
  have hlines : pre ++ opener :: (inside ++ tail) = (pre ++ [opener]) ++ (inside ++ tail) := by simp
  have hlength : pre.length + 1 = (pre ++ [opener]).length := by simp
  have hbody : ((pre ++ opener :: (inside ++ tail)).take (pre.length + 1 + inside.length)).drop
      (pre.length + 1) = inside := by
    rw [hlines, hlength, List.take_length_add_append, List.take_left, List.drop_left]
  simp [sectionAt, hbody, List.getD_eq_getElem?_getD]

/-- Lines that a scan passes over at every depth: blocks inside them are whole, and no `else`
stands outside of these. -/
def Balanced (lines : List String) : Prop :=
  ∀ depth index rest,
    scanBlock depth index (lines ++ rest) = scanBlock depth (index + lines.length) rest

/-- Lines that a scan passes over once it is inside a nested block; `else` may stand anywhere. -/
def BalancedInside (lines : List String) : Prop :=
  ∀ depth index rest,
    scanBlock (depth + 1) index (lines ++ rest) = scanBlock (depth + 1) (index + lines.length) rest

theorem Balanced.nil : Balanced [] := fun _ _ _ => rfl

theorem BalancedInside.nil : BalancedInside [] := fun _ _ _ => rfl

theorem Balanced.inside {lines : List String} (h : Balanced lines) : BalancedInside lines :=
  fun depth => h (depth + 1)

theorem Balanced.append {left right : List String} (hleft : Balanced left)
    (hright : Balanced right) : Balanced (left ++ right) := by
  intro depth index rest
  rw [List.append_assoc, hleft, hright, List.length_append, Nat.add_assoc]

theorem BalancedInside.append {left right : List String} (hleft : BalancedInside left)
    (hright : BalancedInside right) : BalancedInside (left ++ right) := by
  intro depth index rest
  rw [List.append_assoc, hleft, hright, List.length_append, Nat.add_assoc]

theorem Balanced.plain {line : String} (h : Keyword.ofLine? line = none) : Balanced [line] :=
  fun depth index rest => scanBlock_plain depth index rest h

theorem BalancedInside.separator {line : String} (h : Keyword.ofLine? line = some .otherwise) :
    BalancedInside [line] :=
  fun depth index rest => scanBlock_otherwise_succ depth index rest h

theorem Balanced.block {opener closer : String} {inside : List String} {k : Keyword}
    (hopen : Keyword.ofLine? opener = some k) (hk : k.opensBlock = true)
    (hinside : BalancedInside inside) (hclose : Keyword.ofLine? closer = some .close) :
    Balanced (opener :: inside ++ [closer]) := by
  intro depth index rest
  have hlen : index + (opener :: inside ++ [closer]).length =
      index + 1 + inside.length + 1 := by
    simp only [List.length_append, List.length_cons, List.length_nil]
    omega
  rw [List.append_assoc, List.cons_append, scanBlock_opener _ _ _ hopen hk, hinside,
    List.singleton_append, scanBlock_close_succ _ _ _ hclose, hlen]

end UseCaseFlow
