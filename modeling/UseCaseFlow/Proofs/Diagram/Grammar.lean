import UseCaseFlow.Proofs.Diagram.Block
import UseCaseFlow.Proofs.Diagram.Message

/-!
# The grammar of step lines

Which runs of lines make a step, a flow or the sections of a fork, and the tree that they make. The
budget is the number of blocks that may still be opened one inside the other.
-/

namespace UseCaseFlow

mutual

inductive StepLines (entities : List Entity) : Nat → List String → Step → Prop
  | interaction {budget : Nat} {line : String} {message : Interaction}
      (hplain : Keyword.ofLine? line = none) (hread : ReadsInteraction entities line message) :
      StepLines entities budget [line] (.interaction message)
  | loop {budget : Nat} {opener closer : String} {inside : List String} {body : Flow}
      (hopen : Keyword.ofLine? opener = some .loop)
      (hbody : FlowLines entities budget inside body) (hne : body ≠ [])
      (hclose : Keyword.ofLine? closer = some .close) :
      StepLines entities (budget + 1) (opener :: inside ++ [closer])
        (.loop (Keyword.loop.restOf opener) body)
  | fork {budget : Nat} {sections : List String} {closer : String} {branches : List (Branch Step)}
      (hsections : BranchLines entities budget .alt sections branches) (hne : branches ≠ [])
      (hdistinct : (branches.map (·.condition)).Nodup)
      (hclose : Keyword.ofLine? closer = some .close) :
      StepLines entities (budget + 1) (sections ++ [closer]) (.fork branches)

inductive FlowLines (entities : List Entity) : Nat → List String → Flow → Prop
  | nil {budget : Nat} : FlowLines entities budget [] []
  | cons {budget : Nat} {lines rest : List String} {step : Step} {flow : Flow}
      (hstep : StepLines entities budget lines step) (hrest : FlowLines entities budget rest flow) :
      FlowLines entities budget (lines ++ rest) (step :: flow)

/-- The lines of sections, of which the first opens with the keyword and the others with `else`. -/
inductive BranchLines (entities : List Entity) :
    Nat → Keyword → List String → List (Branch Step) → Prop
  | nil {budget : Nat} {keyword : Keyword} : BranchLines entities budget keyword [] []
  | cons {budget : Nat} {keyword : Keyword} {opener : String} {inside rest : List String}
      {body : Flow} {branches : List (Branch Step)} (hopen : Keyword.ofLine? opener = some keyword)
      (hbody : FlowLines entities budget inside body) (hne : body ≠ [])
      (hrest : BranchLines entities budget .otherwise rest branches) :
      BranchLines entities budget keyword (opener :: inside ++ rest)
        (⟨keyword.restOf opener, body⟩ :: branches)

end

variable {entities : List Entity} {budget : Nat}

@[simp] theorem flowLines_nil_right {lines : List String} :
    FlowLines entities budget lines [] ↔ lines = [] := by
  constructor
  · rintro ⟨⟩
    rfl
  · rintro rfl
    exact .nil

theorem flowLines_cons_right {lines : List String} {step : Step} {flow : Flow} :
    FlowLines entities budget lines (step :: flow) ↔ ∃ first rest, lines = first ++ rest ∧
      StepLines entities budget first step ∧ FlowLines entities budget rest flow := by
  constructor
  · rintro (_ | ⟨hstep, hrest⟩)
    exact ⟨_, _, rfl, hstep, hrest⟩
  · rintro ⟨first, rest, rfl, hstep, hrest⟩
    exact .cons hstep hrest

@[simp] theorem branchLines_nil_right {keyword : Keyword} {lines : List String} :
    BranchLines entities budget keyword lines [] ↔ lines = [] := by
  constructor
  · rintro ⟨⟩
    rfl
  · rintro rfl
    exact .nil

theorem branchLines_cons_right {keyword : Keyword} {lines : List String} {b : Branch Step}
    {branches : List (Branch Step)} :
    BranchLines entities budget keyword lines (b :: branches) ↔ ∃ opener inside rest,
      lines = opener :: inside ++ rest ∧ Keyword.ofLine? opener = some keyword ∧
      b.condition = keyword.restOf opener ∧ FlowLines entities budget inside b.steps ∧
      b.steps ≠ [] ∧ BranchLines entities budget .otherwise rest branches := by
  constructor
  · rintro (_ | ⟨hopen, hbody, hne, hrest⟩)
    exact ⟨_, _, _, rfl, hopen, rfl, hbody, hne, hrest⟩
  · rintro ⟨opener, inside, rest, rfl, hopen, hcondition, hbody, hne, hrest⟩
    obtain ⟨condition, body⟩ := b
    obtain rfl := hcondition
    exact .cons hopen hbody hne hrest

theorem StepLines.head {lines : List String} {step : Step}
    (h : StepLines entities budget lines step) : ∃ line rest, lines = line :: rest ∧
      (Keyword.ofLine? line = none ∨ Keyword.ofLine? line = some .loop ∨
        Keyword.ofLine? line = some .alt) := by
  cases h with
  | interaction hplain hread => exact ⟨_, _, rfl, Or.inl hplain⟩
  | loop hopen hbody hne hclose => exact ⟨_, _, rfl, Or.inr (Or.inl hopen)⟩
  | fork hsections hne hdistinct hclose =>
    cases hsections with
    | nil => contradiction
    | cons hopen hbody hne' hrest => exact ⟨_, _, rfl, Or.inr (Or.inr hopen)⟩

theorem StepLines.length_pos {lines : List String} {step : Step}
    (h : StepLines entities budget lines step) : 0 < lines.length := by
  obtain ⟨line, rest, rfl, -⟩ := h.head
  simp

theorem stepLines_plain {line : String} {rest : List String} {step : Step}
    (hline : Keyword.ofLine? line = none) :
    StepLines entities budget (line :: rest) step ↔ rest = [] ∧
      ∃ message, step = .interaction message ∧ ReadsInteraction entities line message := by
  constructor
  · intro h
    generalize hlines : line :: rest = lines at h
    cases h with
    | interaction hplain hread =>
      obtain ⟨rfl, rfl⟩ := List.cons.inj hlines
      exact ⟨rfl, _, rfl, hread⟩
    | loop hopen hbody hne hclose =>
      obtain ⟨rfl, -⟩ := List.cons.inj hlines
      simp [hline] at hopen
    | fork hsections hne hdistinct hclose =>
      cases hsections with
      | nil => contradiction
      | cons hopen hbody hne' hrest =>
        obtain ⟨rfl, -⟩ := List.cons.inj hlines
        simp [hline] at hopen
  · rintro ⟨rfl, message, rfl, hread⟩
    exact .interaction hline hread

@[simp] theorem flowLines_nil_left {flow : Flow} :
    FlowLines entities budget [] flow ↔ flow = [] := by
  constructor
  · intro h
    cases flow with
    | nil => rfl
    | cons step steps =>
      obtain ⟨first, rest, hlines, hstep, -⟩ := flowLines_cons_right.mp h
      obtain ⟨rfl, -⟩ := List.append_eq_nil_iff.mp hlines.symm
      exact absurd hstep.length_pos (Nat.lt_irrefl 0)
  · rintro rfl
    exact .nil

theorem flowLines_cons_left {line : String} {rest : List String} {flow : Flow} :
    FlowLines entities budget (line :: rest) flow ↔ ∃ length step steps, flow = step :: steps ∧
      length ≤ (line :: rest).length ∧
      StepLines entities budget ((line :: rest).take length) step ∧
      FlowLines entities budget ((line :: rest).drop length) steps := by
  constructor
  · intro h
    cases flow with
    | nil => simp at h
    | cons step flow =>
      obtain ⟨first, rest', hlines, hstep, hrest⟩ := flowLines_cons_right.mp h
      refine ⟨first.length, step, flow, rfl, ?_, ?_, ?_⟩
      · simp [hlines]
      · simpa [hlines] using hstep
      · simpa [hlines] using hrest
  · rintro ⟨length, step, steps, rfl, -, hstep, hrest⟩
    rw [← List.take_append_drop length (line :: rest)]
    exact .cons hstep hrest

/-- Induction on a derivation, with the first step taken off the lines. `Q` is about the sections
of a fork. -/
theorem FlowLines.induction
    {P : (budget : Nat) → (lines : List String) → (flow : Flow) →
      FlowLines entities budget lines flow → Prop}
    {Q : Keyword → List String → List (Branch Step) → Prop}
    (nil : ∀ budget h, P budget [] [] h)
    (interaction : ∀ budget line message rest flow h hrest, Keyword.ofLine? line = none →
      ReadsInteraction entities line message → P budget rest flow hrest →
      P budget (line :: rest) (.interaction message :: flow) h)
    (loop : ∀ budget opener inside body closer rest flow h hbody hrest,
      Keyword.ofLine? opener = some .loop → body ≠ [] → Keyword.ofLine? closer = some .close →
      P budget inside body hbody → P (budget + 1) rest flow hrest →
      P (budget + 1) (opener :: inside ++ closer :: rest)
        (.loop (Keyword.loop.restOf opener) body :: flow) h)
    (fork : ∀ budget sections branches closer rest flow h hrest, branches ≠ [] →
      (branches.map (·.condition)).Nodup → Keyword.ofLine? closer = some .close →
      Q .alt sections branches → P (budget + 1) rest flow hrest →
      P (budget + 1) (sections ++ closer :: rest) (.fork branches :: flow) h)
    (noBranch : ∀ keyword, Q keyword [] [])
    (branch : ∀ budget keyword opener inside body rest branches hbody,
      Keyword.ofLine? opener = some keyword → body ≠ [] → P budget inside body hbody →
      Q .otherwise rest branches → Q keyword (opener :: inside ++ rest)
        (⟨keyword.restOf opener, body⟩ :: branches))
    {limit : Nat} {lines : List String} {flow : Flow} (h : FlowLines entities limit lines flow) :
    P limit lines flow h := by
  refine FlowLines.rec
    (motive_1 := fun budget first step _ => ∀ rest flow h hrest, P budget rest flow hrest →
      P budget (first ++ rest) (step :: flow) h)
    (motive_2 := fun budget lines flow h => P budget lines flow h)
    (motive_3 := fun _ keyword lines branches _ => Q keyword lines branches)
    ?_ ?_ ?_ (nil _ _) ?_ (noBranch _) ?_ h
  · intro budget line message hplain hread rest flow h hrest ih
    exact interaction budget line message rest flow h hrest hplain hread ih
  · intro budget opener closer inside body hopen hbody hne hclose ihbody rest flow h hrest ih
    simp only [List.append_assoc, List.singleton_append] at h ⊢
    exact loop budget opener inside body closer rest flow h hbody hrest hopen hne hclose ihbody ih
  · intro budget sections closer branches _ hne hdistinct hclose ihsections rest flow h hrest ih
    simp only [List.append_assoc, List.singleton_append] at h ⊢
    exact fork budget sections branches closer rest flow h hrest hne hdistinct hclose ihsections ih
  · exact fun _ hrest hstep ih => hstep _ _ _ hrest ih
  · intro budget keyword opener inside rest body branches hopen hbody hne _ ihbody ihrest
    exact branch budget keyword opener inside body rest branches hbody hopen hne ihbody ihrest

theorem FlowLines.balanced {lines : List String} {flow : Flow}
    (h : FlowLines entities budget lines flow) : Balanced lines := by
  induction h using FlowLines.induction (Q := fun keyword lines branches =>
    branches = [] ∧ lines = [] ∨ ∃ opener inside, lines = opener :: inside ∧
      Keyword.ofLine? opener = some keyword ∧ BalancedInside inside) with
  | nil budget h => exact .nil
  | interaction budget line message rest flow h hrest hplain hread ih =>
    exact (Balanced.plain hplain).append ih
  | loop budget opener inside body closer rest flow h hbody hrest hopen hne hclose ihbody ih =>
    simpa using (Balanced.block hopen rfl ihbody.inside hclose).append ih
  | fork budget sections branches closer rest flow h hrest hne hdistinct hclose ihsections ih =>
    rcases ihsections with ⟨hnil, -⟩ | ⟨opener, inside, rfl, hopen, hinside⟩
    · contradiction
    · simpa using (Balanced.block hopen rfl hinside hclose).append ih
  | noBranch keyword => exact Or.inl ⟨rfl, rfl⟩
  | branch budget keyword opener inside body rest branches hbody hopen hne ihbody ihrest =>
    refine Or.inr ⟨opener, inside ++ rest, rfl, hopen, ihbody.inside.append ?_⟩
    rcases ihrest with ⟨-, rfl⟩ | ⟨separator, others, rfl, hseparator, hothers⟩
    · exact .nil
    · exact (BalancedInside.separator hseparator).append hothers

theorem FlowLines.wellFormed {lines : List String} {flow : Flow}
    (h : FlowLines entities budget lines flow) : Flow.WellFormed flow := by
  induction h using FlowLines.induction
    (Q := fun _ _ branches => Flow.WellFormedBranches branches) with
  | nil budget h => trivial
  | interaction budget line message rest flow h hrest hplain hread ih => exact ⟨trivial, ih⟩
  | loop budget opener inside body closer rest flow h hbody hrest hopen hne hclose ihbody ih =>
    exact ⟨⟨hne, ihbody⟩, ih⟩
  | fork budget sections branches closer rest flow h hrest hne hdistinct hclose ihsections ih =>
    exact ⟨⟨hne, hdistinct, ihsections⟩, ih⟩
  | noBranch keyword => trivial
  | branch budget keyword opener inside body rest branches hbody hopen hne ihbody ihrest =>
    exact ⟨⟨hne, ihbody⟩, ihrest⟩

end UseCaseFlow
