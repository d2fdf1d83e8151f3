import Mathlib.Data.List.Sort
import Mathlib.Order.Bounds.Basic
import Mathlib.Order.Nat
import UseCaseFlow.Proofs.Diagram.KeywordCount
import UseCaseFlow.Proofs.Diagram.Segments

/-!
# The extent of a block by counting

Where a block ends and where it is cut, told from how many openers and `end` lines stand behind its
first line. The scan holds the difference of the two numbers as its depth, and goes on as long as
there are not more `end` lines than openers.
-/

namespace UseCaseFlow

def keywordAt (lines : List String) (i : Nat) : Option Keyword :=
  (lines[i]?).bind Keyword.ofLine?

/-- The openers among the lines at the indices 1 to `i`. -/
def opensUpTo (lines : List String) (i : Nat) : Nat :=
  lineCount .alt (lines.tail.take i) + lineCount .loop (lines.tail.take i)

/-- The `end` lines among the lines at the indices 1 to `i`. -/
def endsUpTo (lines : List String) (i : Nat) : Nat :=
  lineCount .close (lines.tail.take i)

/-- The first index at which there is one `end` more than openers. -/
def ClosesAt (lines : List String) (e : Nat) : Prop :=
  IsLeast {i | 1 ≤ i ∧ endsUpTo lines i = opensUpTo lines i + 1} e

/-- The line is an `else`, and every block that was opened before it is closed. -/
def SeparatesAt (lines : List String) (i : Nat) : Prop :=
  keywordAt lines i = some .otherwise ∧ endsUpTo lines i = opensUpTo lines i

instance (lines : List String) (i : Nat) : Decidable (SeparatesAt lines i) :=
  inferInstanceAs (Decidable (_ ∧ _))

/-- The separators at the indices 1 to `i`, in ascending order. -/
def separatorsUpTo (lines : List String) (i : Nat) : List Nat :=
  (List.range' 1 i).filter fun j => SeparatesAt lines j

/-- The extent with the separators in front of its own. -/
def Extent.behind (separators : List Nat) (e : Extent) : Extent :=
  { e with separators := separators ++ e.separators }

section Counting

variable (lines : List String) (i : Nat)

theorem lineCount_upTo_succ (k : Keyword) : lineCount k (lines.tail.take (i + 1)) =
    lineCount k (lines.tail.take i) + if keywordAt lines (i + 1) = some k then 1 else 0 := by
  rw [List.take_add_one, List.getElem?_tail, lineCount, lineCount, List.countP_append, keywordAt]
  cases lines[i + 1]? with
  | none => simp
  | some line => simp [List.countP_cons]

theorem opensUpTo_succ : opensUpTo lines (i + 1) = opensUpTo lines i +
    if (keywordAt lines (i + 1)).any Keyword.opensBlock then 1 else 0 := by
  rw [opensUpTo, lineCount_upTo_succ, lineCount_upTo_succ, opensUpTo]
  cases keywordAt lines (i + 1) with
  | none => rfl
  | some k => cases k <;> simp [Keyword.opensBlock] <;> omega

theorem endsUpTo_succ : endsUpTo lines (i + 1) = endsUpTo lines i +
    if keywordAt lines (i + 1) = some .close then 1 else 0 :=
  lineCount_upTo_succ lines i .close

theorem separatorsUpTo_succ : separatorsUpTo lines (i + 1) = separatorsUpTo lines i ++
    if SeparatesAt lines (i + 1) then [i + 1] else [] := by
  rw [separatorsUpTo, List.range'_concat, List.filter_append, separatorsUpTo, Nat.one_mul,
    Nat.add_comm 1]
  by_cases h : SeparatesAt lines (i + 1) <;> simp [h]

variable {lines i}

theorem mem_separatorsUpTo_iff {j : Nat} :
    j ∈ separatorsUpTo lines i ↔ 1 ≤ j ∧ j < i + 1 ∧ SeparatesAt lines j := by
  simp [separatorsUpTo, List.mem_range'_1, and_assoc, Nat.add_comm 1]

theorem endsUpTo_le_opensUpTo (h : ∀ j ≤ i, endsUpTo lines j ≠ opensUpTo lines j + 1) :
    endsUpTo lines i ≤ opensUpTo lines i := by
  induction i with
  | zero => simp [endsUpTo, lineCount]
  | succ i ih =>
    have hbefore := ih fun j hj => h j (Nat.le_succ_of_le hj)
    have hhere := h (i + 1) (Nat.le_refl _)
    have hends := endsUpTo_succ lines i
    have hopens := opensUpTo_succ lines i
    split at hends <;> omega

end Counting

section Scan

variable {lines : List String} {i : Nat}

@[simp] theorem Extent.behind_nil (e : Extent) : e.behind [] = e := rfl

theorem Extent.behind_behind (e : Extent) (first second : List Nat) :
    (e.behind second).behind first = e.behind (first ++ second) := by
  simp [behind]

/-- The number of open blocks changes with each line as the depth of the scan does. -/
theorem levelStep_upTo {line : String} (hline : lines[i + 1]? = some line)
    (h : endsUpTo lines i ≤ opensUpTo lines i)
    (hnext : endsUpTo lines (i + 1) ≤ opensUpTo lines (i + 1)) :
    levelStep (opensUpTo lines i - endsUpTo lines i) line =
      some (opensUpTo lines (i + 1) - endsUpTo lines (i + 1)) := by
  have hends := endsUpTo_succ lines i
  have hopens := opensUpTo_succ lines i
  have hkeyword : keywordAt lines (i + 1) = Keyword.ofLine? line := by simp [keywordAt, hline]
  rw [hkeyword] at hends hopens
  cases hk : Keyword.ofLine? line with
  | none =>
    simp only [hk] at hends hopens
    rw [levelStep_plain hk, hends, hopens]
    rfl
  | some k =>
    cases k with
    | actor | participant | otherwise =>
      simp [hk, Keyword.opensBlock] at hends hopens
      simp [levelStep, hk, hends, hopens]
    | alt | loop =>
      simp only [hk] at hends hopens
      rw [levelStep_opener hk rfl, hends, hopens]
      exact congrArg some (Nat.succ_sub h).symm
    | close =>
      have hdepth : opensUpTo lines i - endsUpTo lines i =
          opensUpTo lines (i + 1) - endsUpTo lines (i + 1) + 1 := by
        simp [hk, Keyword.opensBlock] at hends hopens
        omega
      rw [hdepth, levelStep_close_succ hk]

theorem scanBlock_drop_succ (h : endsUpTo lines i ≤ opensUpTo lines i)
    (hnext : endsUpTo lines (i + 1) ≤ opensUpTo lines (i + 1)) :
    scanBlock (opensUpTo lines i - endsUpTo lines i) (i + 1) (lines.drop (i + 1)) =
      (scanBlock (opensUpTo lines (i + 1) - endsUpTo lines (i + 1)) (i + 1 + 1)
        (lines.drop (i + 1 + 1))).map
          (·.behind (if SeparatesAt lines (i + 1) then [i + 1] else [])) := by
  cases hline : lines[i + 1]? with
  | none =>
    have hlength : lines.length ≤ i + 1 := List.getElem?_eq_none_iff.mp hline
    rw [List.drop_eq_nil_of_le hlength, List.drop_eq_nil_of_le (Nat.le_succ_of_le hlength)]
    rfl
  | some line =>
    obtain ⟨hlt, hget⟩ := List.getElem?_eq_some_iff.mp hline
    have hkeyword : keywordAt lines (i + 1) = Keyword.ofLine? line := by simp [keywordAt, hline]
    have hstep := levelStep_upTo hline h hnext
    rw [List.drop_eq_getElem_cons hlt, hget]
    by_cases hk : Keyword.ofLine? line = some .otherwise
    · rw [levelStep_separator hk, Option.some.injEq] at hstep
      by_cases hzero : opensUpTo lines i - endsUpTo lines i = 0
      · have hseparates : SeparatesAt lines (i + 1) := ⟨hkeyword.trans hk, by omega⟩
        rw [← hstep, hzero, scanBlock_otherwise_zero _ _ hk, if_pos hseparates]
        rfl
      · have hinside : ¬ SeparatesAt lines (i + 1) := fun hseparates => hzero (by
          have := hseparates.2
          omega)
        rw [← hstep, if_neg hinside, scanBlock_pass (levelStep_separator hk)
          (fun hdepth => absurd hdepth hzero)]
        simp
    · have hother : ¬ SeparatesAt lines (i + 1) := fun hseparates =>
        hk (hkeyword.symm.trans hseparates.1)
      rw [scanBlock_pass hstep (fun _ => hk), if_neg hother]
      simp

/-- Before the block is closed, the scan goes on with the number of open blocks as its depth, and
has recorded the separators so far. -/
theorem scanBlock_resume (h : ∀ j ≤ i, endsUpTo lines j ≠ opensUpTo lines j + 1) :
    scanBlock 0 1 lines.tail =
      (scanBlock (opensUpTo lines i - endsUpTo lines i) (i + 1) (lines.drop (i + 1))).map
        (·.behind (separatorsUpTo lines i)) := by
  induction i with
  | zero => simp [opensUpTo, endsUpTo, lineCount, separatorsUpTo]
  | succ i ih =>
    have hbefore : ∀ j ≤ i, endsUpTo lines j ≠ opensUpTo lines j + 1 :=
      fun j hj => h j (Nat.le_succ_of_le hj)
    rw [ih hbefore, scanBlock_drop_succ (endsUpTo_le_opensUpTo hbefore) (endsUpTo_le_opensUpTo h),
      Option.map_map, separatorsUpTo_succ]
    congr 1
    funext e
    exact e.behind_behind _ _

end Scan

section Extent

variable {lines : List String} {e : Nat}

theorem exists_closesAt {j : Nat} (h : endsUpTo lines j = opensUpTo lines j + 1) :
    ∃ e, e ≤ j ∧ ClosesAt lines e := by
  have hpos : 1 ≤ j := by
    by_contra hzero
    obtain rfl : j = 0 := by omega
    simp [endsUpTo, lineCount] at h
  have hsome : ∃ i, 1 ≤ i ∧ endsUpTo lines i = opensUpTo lines i + 1 := ⟨j, hpos, h⟩
  exact ⟨Nat.find hsome, Nat.find_le ⟨hpos, h⟩, Nat.isLeast_find hsome⟩

theorem ClosesAt.unique {e' : Nat} (h : ClosesAt lines e) (h' : ClosesAt lines e') : e = e' :=
  IsLeast.unique h h'

theorem ClosesAt.not_before (h : ClosesAt lines e) {j : Nat} (hj : j < e) :
    endsUpTo lines j ≠ opensUpTo lines j + 1 := by
  intro hends
  obtain ⟨e', hle, he'⟩ := exists_closesAt hends
  have hsame := h.unique he'
  omega

/-- The index is behind one at which every block is closed again, and the line is an `end`. -/
theorem ClosesAt.exists_close (h : ClosesAt lines e) : ∃ i, e = i + 1 ∧
    endsUpTo lines i = opensUpTo lines i ∧ keywordAt lines (i + 1) = some .close := by
  obtain ⟨i, rfl⟩ := Nat.exists_eq_add_one.mpr (Nat.lt_of_lt_of_le Nat.one_pos h.1.1)
  have hbefore := endsUpTo_le_opensUpTo fun j hj => h.not_before (Nat.lt_succ_of_le hj)
  have hends := endsUpTo_succ lines i
  have hopens := opensUpTo_succ lines i
  have hclosed := h.1.2
  split at hends
  · rename_i hclose
    simp [hclose, Keyword.opensBlock] at hopens
    exact ⟨i, rfl, by omega, hclose⟩
  · omega

theorem ClosesAt.blockExtent?_eq (h : ClosesAt lines e) :
    blockExtent? lines = some ⟨separatorsUpTo lines (e - 1), e⟩ := by
  obtain ⟨i, rfl, hclosed, hclose⟩ := h.exists_close
  obtain ⟨line, hline, hk⟩ := Option.bind_eq_some_iff.mp hclose
  obtain ⟨hlt, hget⟩ := List.getElem?_eq_some_iff.mp hline
  rw [blockExtent?, scanBlock_resume fun j hj => h.not_before (Nat.lt_succ_of_le hj), hclosed,
    Nat.sub_self, List.drop_eq_getElem_cons hlt, hget, scanBlock_close_zero _ _ hk]
  simp [Extent.behind]

theorem blockExtent?_eq_none (h : ∀ j, endsUpTo lines j ≠ opensUpTo lines j + 1) :
    blockExtent? lines = none := by
  rw [blockExtent?, scanBlock_resume (i := lines.length) fun j _ => h j,
    List.drop_eq_nil_of_le (Nat.le_succ _)]
  rfl

/-- The scan finds the extent that the counting gives, and no other. -/
theorem blockExtent?_eq_some_iff {extent : Extent} : blockExtent? lines = some extent ↔
    ClosesAt lines extent.close ∧ extent.separators = separatorsUpTo lines (extent.close - 1) := by
  constructor
  · intro h
    obtain ⟨e, he⟩ : ∃ e, ClosesAt lines e := by
      by_contra hnone
      have hopen : blockExtent? lines = none := blockExtent?_eq_none fun j hj =>
        hnone ((exists_closesAt hj).imp fun _ => And.right)
      rw [h] at hopen
      contradiction
    obtain rfl := Option.some.inj (h.symm.trans he.blockExtent?_eq)
    exact ⟨he, rfl⟩
  · rintro ⟨hclose, hseparators⟩
    obtain ⟨separators, close⟩ := extent
    rw [hclose.blockExtent?_eq, ← hseparators]

end Extent

section Scanners

variable {lines : List String}

/-- The keyword that a missing `end` is reported for. -/
inductive BlamedOpener (fallback : Keyword) (lines : List String) : Keyword → Prop
  | first {k : Keyword} (h : keywordAt lines 0 = some k) (hk : k.opensBlock = true) :
      BlamedOpener fallback lines k
  | fallback (h : ∀ k, keywordAt lines 0 = some k → k.opensBlock = false) :
      BlamedOpener fallback lines fallback

theorem blamedOpener_openerOf (fallback : Keyword) (lines : List String) :
    BlamedOpener fallback lines (openerOf fallback lines) := by
  have hfirst : keywordAt lines 0 = lines.head?.bind Keyword.ofLine? := by
    rw [keywordAt, List.head?_eq_getElem?]
  rw [openerOf, ← hfirst]
  cases h : keywordAt lines 0 with
  | none => exact .fallback (by simp [h])
  | some k =>
    by_cases hk : k.opensBlock = true
    · simp only [hk, if_true]
      exact .first h hk
    · simp only [hk, Bool.false_eq_true, if_false]
      exact .fallback (by simpa [h] using hk)

theorem requireExtent_eq_error {fallback : Keyword} (h : blockExtent? lines = none) :
    requireExtent fallback lines =
      .error (.onLine 1 (.unterminatedBlock (openerOf fallback lines))) := by
  rw [requireExtent, h]

theorem blockEnd_eq_ok_iff_closesAt {e : Nat} : blockEnd lines = .ok e ↔ ClosesAt lines e := by
  rw [blockEnd_eq_ok_iff]
  constructor
  · rintro ⟨extent, h, rfl⟩
    exact (blockExtent?_eq_some_iff.mp h).1
  · intro h
    exact ⟨_, h.blockExtent?_eq, rfl⟩

theorem pairwise_separatorsUpTo (i : Nat) : (separatorsUpTo lines i).Pairwise (· < ·) :=
  (List.pairwise_lt_range' (s := 1) (n := i)).filter _

theorem branchBoundaries_eq_ok_iff_separators {boundaries : List Nat} :
    branchBoundaries lines = .ok boundaries ↔ ∃ separators e, boundaries = separators ++ [e] ∧
      blockEnd lines = .ok e ∧ boundaries.Pairwise (· < ·) ∧
      ∀ i, i ∈ separators ↔ 1 ≤ i ∧ i < e ∧ SeparatesAt lines i := by
  have hmem {e i : Nat} (h : ClosesAt lines e) :
      i ∈ separatorsUpTo lines (e - 1) ↔ 1 ≤ i ∧ i < e ∧ SeparatesAt lines i := by
    rw [mem_separatorsUpTo_iff, Nat.sub_add_cancel h.1.1]
  simp only [branchBoundaries_eq_ok_iff, blockEnd_eq_ok_iff_closesAt]
  constructor
  · rintro ⟨⟨separators, e⟩, h, rfl⟩
    obtain ⟨hclose, hseparators⟩ := blockExtent?_eq_some_iff.mp h
    dsimp only at hclose hseparators
    refine ⟨separators, e, rfl, hclose, (marks_of_blockExtent? h).1.ascending, fun i => ?_⟩
    rw [hseparators, hmem hclose]
  · rintro ⟨separators, e, rfl, hclose, hascending, hseparators⟩
    refine ⟨_, hclose.blockExtent?_eq, ?_⟩
    have hsame : separatorsUpTo lines (e - 1) = separators := by
      have hsorted := (List.pairwise_append.mp hascending).1
      apply (pairwise_separatorsUpTo (e - 1)).eq_of_mem_iff hsorted
      intro i
      rw [hmem hclose, hseparators]
    rw [hsame]
    rfl

theorem upTo_congr {other : List String} {i : Nat} (h : other.take (i + 1) = lines.take (i + 1))
    {j : Nat} (hj : j ≤ i) : keywordAt other j = keywordAt lines j ∧
      opensUpTo other j = opensUpTo lines j ∧ endsUpTo other j = endsUpTo lines j := by
  have hline : other[j]? = lines[j]? := by
    rw [← List.getElem?_take_of_lt (Nat.lt_succ_of_le hj), h,
      List.getElem?_take_of_lt (Nat.lt_succ_of_le hj)]
  have htail : other.tail.take j = lines.tail.take j := by
    have hinside (all : List String) :
        all.tail.take j = ((all.take (i + 1)).take (j + 1)).tail := by
      rw [List.take_take, Nat.min_eq_left (Nat.succ_le_succ hj)]
      cases all <;> simp
    rw [hinside, h, ← hinside]
  simp only [keywordAt, opensUpTo, endsUpTo, hline, htail, and_self]

theorem ClosesAt.blockExtent?_congr {other : List String} {e : Nat} (h : ClosesAt lines e)
    (hsame : other.take (e + 1) = lines.take (e + 1)) :
    blockExtent? other = blockExtent? lines := by
  have hother : ClosesAt other e := by
    obtain ⟨-, hopens, hends⟩ := upTo_congr hsame (Nat.le_refl e)
    refine ⟨⟨h.1.1, by rw [hopens, hends, h.1.2]⟩, fun i hi => ?_⟩
    by_contra hlt
    obtain ⟨-, hopens, hends⟩ := upTo_congr hsame (Nat.le_of_not_le hlt)
    exact hlt (h.2 ⟨hi.1, by rw [← hopens, ← hends, hi.2]⟩)
  have hseparators : separatorsUpTo other (e - 1) = separatorsUpTo lines (e - 1) := by
    apply List.filter_congr
    intro j hj
    have hle : j ≤ e := by
      have hlt := (List.mem_range'_1.mp hj).2
      omega
    obtain ⟨hkeyword, hopens, hends⟩ := upTo_congr hsame hle
    rw [decide_eq_decide, SeparatesAt, SeparatesAt, hkeyword, hopens, hends]
  rw [h.blockExtent?_eq, hother.blockExtent?_eq, hseparators]

end Scanners

/-- What the scanners find in the lines, told by counting. -/
structure ScansByCounting (lines : List String) : Prop where
  blockEnd_iff (e : Nat) : blockEnd lines = .ok e ↔ ClosesAt lines e
  close (e : Nat) (h : blockEnd lines = .ok e) : keywordAt lines e = some .close
  branchBoundaries_iff (boundaries : List Nat) : branchBoundaries lines = .ok boundaries ↔
    ∃ separators e, boundaries = separators ++ [e] ∧ blockEnd lines = .ok e ∧
      boundaries.Pairwise (· < ·) ∧ ∀ i, i ∈ separators ↔ 1 ≤ i ∧ i < e ∧ SeparatesAt lines i
  unterminated (h : ∀ e, ¬ ClosesAt lines e) :
    (∃ k, BlamedOpener .loop lines k ∧
      blockEnd lines = .error (.onLine 1 (.unterminatedBlock k))) ∧
    ∃ k, BlamedOpener .alt lines k ∧
      branchBoundaries lines = .error (.onLine 1 (.unterminatedBlock k))
  /-- Lines behind the `end` have no influence. -/
  behind (e : Nat) (h : blockEnd lines = .ok e) (other : List String)
    (hsame : other.take (e + 1) = lines.take (e + 1)) :
    blockEnd other = blockEnd lines ∧ branchBoundaries other = branchBoundaries lines
  /-- Up to the `end` the depth of the scan is the number of blocks that were opened and are not
  closed, which is never negative. -/
  depth (i : Nat) (h : ∀ e ≤ i, ¬ ClosesAt lines e) : endsUpTo lines i ≤ opensUpTo lines i ∧
    scanBlock 0 1 lines.tail =
      (scanBlock (opensUpTo lines i - endsUpTo lines i) (i + 1) (lines.drop (i + 1))).map
        (·.behind (separatorsUpTo lines i))

/-- For every list of lines the scanners find the boundaries that counting gives. -/
theorem scansByCounting (lines : List String) : ScansByCounting lines where
  blockEnd_iff e := blockEnd_eq_ok_iff_closesAt
  close e h := by
    obtain ⟨i, rfl, -, hclose⟩ := (blockEnd_eq_ok_iff_closesAt.mp h).exists_close
    exact hclose
  branchBoundaries_iff boundaries := branchBoundaries_eq_ok_iff_separators
  unterminated h := by
    have hnone : blockExtent? lines = none := blockExtent?_eq_none fun j hj => by
      obtain ⟨e, -, he⟩ := exists_closesAt hj
      exact h e he
    refine ⟨⟨_, blamedOpener_openerOf .loop lines, ?_⟩, ⟨_, blamedOpener_openerOf .alt lines, ?_⟩⟩
    · rw [blockEnd, requireExtent_eq_error hnone]
      rfl
    · rw [branchBoundaries, requireExtent_eq_error hnone]
      rfl
  behind e h other hsame := by
    have hclose := blockEnd_eq_ok_iff_closesAt.mp h
    have hextent := hclose.blockExtent?_congr hsame
    have hrequire (fallback : Keyword) : requireExtent fallback other =
        requireExtent fallback lines := by
      rw [requireExtent, requireExtent, hextent, hclose.blockExtent?_eq]
    rw [blockEnd, branchBoundaries, hrequire, hrequire]
    exact ⟨rfl, rfl⟩
  depth i h := by
    have hopen : ∀ j ≤ i, endsUpTo lines j ≠ opensUpTo lines j + 1 := by
      intro j hj hends
      obtain ⟨e, hle, he⟩ := exists_closesAt hends
      exact h e (Nat.le_trans hle hj) he
    exact ⟨endsUpTo_le_opensUpTo hopen, scanBlock_resume hopen⟩

end UseCaseFlow
