import UseCaseFlow.Proofs.Diagram.KeywordCount
import UseCaseFlow.Proofs.Diagram.Segments

/-!
# The depth of nested lines

How deep lines nest is told by counting keywords, and agrees with the depth of the flow that is read
from them. A flow is read with every budget that its depth allows.
-/

namespace UseCaseFlow

def excess (lines : List String) : Int :=
  lineCount .alt lines + lineCount .loop lines - lineCount .close lines

/-- Nowhere in the lines are more blocks open than the number says. -/
def NestedWithin (depth : Int) (lines : List String) : Prop :=
  ∀ before, before <+: lines → excess before ≤ depth

section Excess

variable {line : String} {k : Keyword}

@[simp] theorem excess_nil : excess [] = 0 := rfl

@[simp] theorem excess_append (left right : List String) :
    excess (left ++ right) = excess left + excess right := by
  simp only [excess, lineCount, List.countP_append]
  omega

theorem excess_cons (line : String) (rest : List String) :
    excess (line :: rest) = excess [line] + excess rest :=
  excess_append [line] rest

theorem excess_plain (h : Keyword.ofLine? line = none) : excess [line] = 0 := by
  simp [excess, lineCount, h]

theorem excess_opener (h : Keyword.ofLine? line = some k) (hk : k.opensBlock = true) :
    excess [line] = 1 := by
  cases k <;> simp_all [excess, lineCount, Keyword.opensBlock]

theorem excess_separator (h : Keyword.ofLine? line = some .otherwise) : excess [line] = 0 := by
  simp [excess, lineCount, h]

theorem excess_close (h : Keyword.ofLine? line = some .close) : excess [line] = -1 := by
  simp [excess, lineCount, h]

theorem excess_le_zero (h : Keyword.ofLine? line = some k) (hk : k.opensBlock = false) :
    excess [line] ≤ 0 := by
  cases k <;> simp_all [excess, lineCount, Keyword.opensBlock]

theorem excess_of_openBlocksFrom {start : Nat} {enclosing blocks : List OpenBlock}
    {lines : List String} (h : openBlocksFrom start enclosing lines = some blocks) :
    (blocks.length : Int) = enclosing.length + excess lines := by
  induction lines generalizing start enclosing with
  | nil =>
    obtain rfl := Option.some.inj h
    simp
  | cons line rest ih =>
    obtain ⟨middle, hstep, hrest⟩ := Option.bind_eq_some_iff.mp h
    have hmiddle : (middle.length : Int) = enclosing.length + excess [line] := by
      cases hk : Keyword.ofLine? line with
      | none =>
        obtain rfl : enclosing = middle := by simpa [blocksStep, hk] using hstep
        rw [excess_plain hk, Int.add_zero]
      | some k =>
        cases k with
        | close =>
          cases enclosing with
          | nil => simp [blocksStep, hk] at hstep
          | cons b outer =>
            obtain rfl : outer = middle := by simpa [blocksStep, hk] using hstep
            rw [excess_close hk, List.length_cons]
            omega
        | alt | loop =>
          obtain rfl : _ :: enclosing = middle := by simpa [blocksStep, hk] using hstep
          rw [excess_opener hk rfl, List.length_cons]
          omega
        | actor | participant | otherwise =>
          obtain rfl : enclosing = middle := by simpa [blocksStep, hk] using hstep
          have hexcess : excess [line] = 0 := by simp [excess, lineCount, hk]
          rw [hexcess, Int.add_zero]
    rw [ih hrest, hmiddle, excess_cons line rest, Int.add_assoc]

theorem excess_of_closed {lines : List String} (h : levelAfter 0 lines = some 0) :
    excess lines = 0 := by
  have hblocks := excess_of_openBlocksFrom (openBlocksFrom_of_closed 0 h [])
  simpa using hblocks.symm

end Excess

section Nested

variable {depth : Int} {line : String} {lines rest : List String}

theorem NestedWithin.mono {depth' : Int} (h : NestedWithin depth lines) (hle : depth ≤ depth') :
    NestedWithin depth' lines :=
  fun before hbefore => Int.le_trans (h before hbefore) hle

theorem NestedWithin.initial {front : List String} (h : NestedWithin depth lines)
    (hfront : front <+: lines) : NestedWithin depth front :=
  fun before hbefore => h before (hbefore.trans hfront)

theorem nestedWithin_append {left right : List String} : NestedWithin depth (left ++ right) ↔
    NestedWithin depth left ∧ NestedWithin (depth - excess left) right := by
  constructor
  · intro h
    refine ⟨h.initial (List.prefix_append _ _), fun before hbefore => ?_⟩
    have hle := h (left ++ before) ((List.prefix_append_right_inj left).mpr hbefore)
    rw [excess_append] at hle
    omega
  · rintro ⟨hleft, hright⟩ before hbefore
    rcases List.prefix_or_prefix_of_prefix hbefore (List.prefix_append left right) with h | h
    · exact hleft before h
    · obtain ⟨later, rfl⟩ := h
      have hle := hright later ((List.prefix_append_right_inj left).mp hbefore)
      rw [excess_append]
      omega

theorem nestedWithin_nil : NestedWithin depth [] ↔ 0 ≤ depth := by
  simp [NestedWithin, List.prefix_nil]

theorem NestedWithin.nonneg (h : NestedWithin depth lines) : 0 ≤ depth :=
  nestedWithin_nil.mp (h.initial List.nil_prefix)

theorem nestedWithin_closed_append (h : excess lines = 0) :
    NestedWithin depth (lines ++ rest) ↔ NestedWithin depth lines ∧ NestedWithin depth rest := by
  rw [nestedWithin_append, h, Int.sub_zero]

theorem nestedWithin_singleton : NestedWithin depth [line] ↔ 0 ≤ depth ∧ excess [line] ≤ depth := by
  constructor
  · exact fun h => ⟨h.nonneg, h _ (List.prefix_refl _)⟩
  · rintro ⟨hzero, hline⟩ before hbefore
    rcases List.prefix_cons_iff.mp hbefore with rfl | ⟨rest, rfl, hrest⟩
    · exact hzero
    · rw [List.prefix_nil.mp hrest]
      exact hline

theorem nestedWithin_opener_cons (h : excess [line] = 1) :
    NestedWithin (depth + 1) (line :: rest) ↔ NestedWithin depth rest := by
  rw [← List.singleton_append, nestedWithin_append, nestedWithin_singleton, h,
    Int.add_sub_cancel]
  constructor
  · exact fun h => h.2
  · intro h
    have hnonneg := h.nonneg
    exact ⟨⟨by omega, by omega⟩, h⟩

theorem nestedWithin_cons_of_excess (h : excess [line] = 0) :
    NestedWithin depth (line :: rest) ↔ NestedWithin depth rest := by
  rw [← List.singleton_append, nestedWithin_append, nestedWithin_singleton, h, Int.sub_zero]
  exact ⟨fun h => h.2, fun h => ⟨⟨h.nonneg, h.nonneg⟩, h⟩⟩

theorem nestedWithin_block {opener closer : String} {inside : List String} {d : Nat}
    (hopen : excess [opener] = 1) (hinside : excess inside = 0) (hclose : excess [closer] = -1)
    (hnested : ∀ k : Nat, NestedWithin k inside ↔ d ≤ k) (k : Nat) :
    NestedWithin k (opener :: (inside ++ closer :: rest)) ↔ d + 1 ≤ k ∧ NestedWithin k rest := by
  rw [← Int.sub_add_cancel (k : Int) 1, nestedWithin_opener_cons hopen,
    nestedWithin_closed_append hinside, Int.sub_add_cancel, ← List.singleton_append,
    nestedWithin_append, nestedWithin_singleton, hclose, Int.sub_neg, Int.sub_add_cancel]
  constructor
  · rintro ⟨hdeep, -, hrest⟩
    obtain ⟨j, rfl⟩ : ∃ j, k = j + 1 :=
      Nat.exists_eq_add_one.mpr (by have hnonneg := hdeep.nonneg; omega)
    rw [Int.natCast_succ, Int.add_sub_cancel, hnested] at hdeep
    exact ⟨Nat.succ_le_succ hdeep, hrest⟩
  · rintro ⟨hdeep, hrest⟩
    obtain ⟨j, rfl⟩ := Nat.exists_eq_add_one.mpr (Nat.lt_of_lt_of_le (Nat.succ_pos d) hdeep)
    rw [Int.natCast_succ, Int.add_sub_cancel, hnested]
    exact ⟨Nat.le_of_succ_le_succ hdeep, ⟨Int.natCast_nonneg j, by omega⟩, hrest⟩

end Nested

section Derived

variable {entities : List Entity} {budget : Nat}

theorem BranchLines.exists_inside {keyword : Keyword} {lines : List String}
    {branches : List (Branch Step)} (h : BranchLines entities budget keyword lines branches) :
    ∀ b ∈ branches, ∃ inside, FlowLines entities budget inside b.steps := by
  induction branches generalizing keyword lines with
  | nil => simp
  | cons b rest ih =>
    obtain ⟨opener, inside, later, -, -, -, hbody, -, hrest⟩ := branchLines_cons_right.mp h
    rw [List.forall_mem_cons]
    exact ⟨⟨inside, hbody⟩, ih hrest⟩

/-- A flow is no deeper than the budget it is read with. -/
theorem FlowLines.depth_le {lines : List String} {flow : Flow}
    (h : FlowLines entities budget lines flow) : Flow.depth flow ≤ budget := by
  induction flow using Flow.induction generalizing budget lines with
  | nil => exact Nat.zero_le _
  | interaction message rest ih =>
    obtain ⟨first, later, rfl, hstep, hrest⟩ := flowLines_cons_right.mp h
    rw [Flow.depth_cons_le]
    exact ⟨Nat.zero_le _, ih hrest⟩
  | loop condition body rest ihbody ihrest =>
    obtain ⟨first, later, rfl, hstep, hrest⟩ := flowLines_cons_right.mp h
    rw [Flow.depth_cons_le]
    cases hstep with
    | loop hopen hbody hne hclose => exact ⟨Nat.succ_le_succ (ihbody hbody), ihrest hrest⟩
  | fork branches rest ihbranches ihrest =>
    obtain ⟨first, later, rfl, hstep, hrest⟩ := flowLines_cons_right.mp h
    rw [Flow.depth_cons_le]
    cases hstep with
    | fork hsections hne hdistinct hclose =>
      refine ⟨Nat.succ_le_succ (Flow.branchDepth_le.mpr fun b hb => ?_), ihrest hrest⟩
      obtain ⟨inside, hinside⟩ := hsections.exists_inside b hb
      exact ihbranches b hb hinside

/-- Lines are read with every budget that the depth of their flow allows. -/
theorem FlowLines.of_depth_le {lines : List String} {flow : Flow}
    (h : FlowLines entities budget lines flow) :
    ∀ k, Flow.depth flow ≤ k → FlowLines entities k lines flow := by
  induction h using FlowLines.induction (Q := fun keyword lines branches => ∀ k,
    Flow.branchDepth branches ≤ k → BranchLines entities k keyword lines branches) with
  | nil budget h => exact fun _ _ => .nil
  | interaction budget line message rest flow h hrest hplain hread ih =>
    intro k hk
    exact .cons (.interaction hplain hread) (ih k (Flow.depth_cons_le.mp hk).2)
  | loop budget opener inside body closer rest flow h hbody hrest hopen hne hclose ihbody ih =>
    intro k hk
    obtain ⟨hstep, hflow⟩ := Flow.depth_cons_le.mp hk
    rw [Step.depth] at hstep
    obtain ⟨k, rfl⟩ := Nat.exists_eq_add_one.mpr (Nat.lt_of_lt_of_le (Nat.succ_pos _) hstep)
    have hfirst : StepLines entities (k + 1) (opener :: inside ++ [closer])
        (.loop (Keyword.loop.restOf opener) body) :=
      .loop hopen (ihbody k (Nat.le_of_succ_le_succ hstep)) hne hclose
    simpa using FlowLines.cons hfirst (ih _ hflow)
  | fork budget sections branches closer rest flow h hrest hne hdistinct hclose ihsections ih =>
    intro k hk
    obtain ⟨hstep, hflow⟩ := Flow.depth_cons_le.mp hk
    rw [Step.depth] at hstep
    obtain ⟨k, rfl⟩ := Nat.exists_eq_add_one.mpr (Nat.lt_of_lt_of_le (Nat.succ_pos _) hstep)
    have hfirst : StepLines entities (k + 1) (sections ++ [closer]) (.fork branches) :=
      .fork (ihsections k (Nat.le_of_succ_le_succ hstep)) hne hdistinct hclose
    simpa using FlowLines.cons hfirst (ih _ hflow)
  | noBranch keyword => exact .nil
  | branch budget keyword opener inside body rest branches hbody hopen hne ihbody ihrest k hk =>
    rw [Flow.branchDepth, Nat.max_le] at hk
    exact .cons hopen (ihbody k hk.1) hne (ihrest k hk.2)

theorem FlowLines.excess_eq_zero {lines : List String} {flow : Flow}
    (h : FlowLines entities budget lines flow) : excess lines = 0 :=
  excess_of_closed h.balanced.closed

/-- The lines of a flow nest as deep as the flow does. -/
theorem FlowLines.nestedWithin_iff {lines : List String} {flow : Flow}
    (h : FlowLines entities budget lines flow) :
    ∀ k : Nat, NestedWithin k lines ↔ Flow.depth flow ≤ k := by
  -- For the sections of a fork the bound is one on what stands behind their first opener, as the
  -- opener of the fork is the only one of them that opens a block.
  induction h using FlowLines.induction (Q := fun keyword lines branches =>
    branches = [] ∧ lines = [] ∨ ∃ opener inside, lines = opener :: inside ∧
      Keyword.ofLine? opener = some keyword ∧ excess inside = 0 ∧
      ∀ k : Nat, NestedWithin k inside ↔ Flow.branchDepth branches ≤ k) with
  | nil budget h => simp [nestedWithin_nil, Flow.depth]
  | interaction budget line message rest flow h hrest hplain hread ih =>
    intro k
    rw [nestedWithin_cons_of_excess (excess_plain hplain), ih, Flow.depth_cons_le]
    simp [Step.depth]
  | loop budget opener inside body closer rest flow h hbody hrest hopen hne hclose ihbody ih =>
    intro k
    rw [List.cons_append, nestedWithin_block (excess_opener hopen rfl)
      hbody.excess_eq_zero (excess_close hclose) ihbody, ih, Flow.depth_cons_le, Step.depth]
  | fork budget sections branches closer rest flow h hrest hne hdistinct hclose ihsections ih =>
    intro k
    rcases ihsections with ⟨hnil, -⟩ | ⟨opener, inside, rfl, hopen, hinside, hnested⟩
    · contradiction
    · rw [List.cons_append, nestedWithin_block (excess_opener hopen rfl) hinside
        (excess_close hclose) hnested, ih, Flow.depth_cons_le, Step.depth]
  | noBranch keyword => exact Or.inl ⟨rfl, rfl⟩
  | branch budget keyword opener inside body rest branches hbody hopen hne ihbody ihrest =>
    refine Or.inr ⟨opener, inside ++ rest, rfl, hopen, ?_⟩
    rcases ihrest with ⟨rfl, rfl⟩ | ⟨separator, others, rfl, hseparator, hothers, hnested⟩
    · rw [List.append_nil]
      refine ⟨hbody.excess_eq_zero, fun k => ?_⟩
      rw [ihbody, Flow.branchDepth, Nat.max_le]
      simp [Flow.branchDepth]
    · rw [excess_append, excess_cons separator, excess_separator hseparator, hothers,
        hbody.excess_eq_zero]
      refine ⟨rfl, fun k => ?_⟩
      rw [nestedWithin_closed_append hbody.excess_eq_zero, ihbody,
        nestedWithin_cons_of_excess (excess_separator hseparator), hnested, Flow.branchDepth,
        Nat.max_le]

end Derived

end UseCaseFlow
