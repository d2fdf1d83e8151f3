import UseCaseFlow.Proofs.Diagram.Grammar
import UseCaseFlow.Proofs.Flow.Steps

/-!
# The keywords of a flow

The keywords on the lines of a flow are those with which its blocks are written, in the same order.
So the loops, forks and branches of the flow can be counted in the lines.
-/

namespace UseCaseFlow

mutual

def Step.keywords : Step → List Keyword
  | .interaction _ => []
  | .loop _ body => .loop :: Flow.keywords body ++ [.close]
  | .fork branches => Flow.branchKeywords .alt branches ++ [.close]

/-- The keywords with which the flow is written, in the order of its lines. -/
def Flow.keywords : Flow → List Keyword
  | [] => []
  | step :: rest => step.keywords ++ Flow.keywords rest

/-- The keywords of sections, of which the first opens with the keyword. -/
def Flow.branchKeywords (keyword : Keyword) : List (Branch Step) → List Keyword
  | [] => []
  | b :: rest => keyword :: Flow.keywords b.steps ++ Flow.branchKeywords .otherwise rest

end

def lineCount (k : Keyword) (lines : List String) : Nat :=
  lines.countP fun line => Keyword.ofLine? line == some k

/-- The openers of so many sections. -/
def sectionKeywords (keyword : Keyword) : Nat → List Keyword
  | 0 => []
  | count + 1 => keyword :: sectionKeywords .otherwise count

def Step.ownKeywords : Step → List Keyword
  | .interaction _ => []
  | .loop _ _ => [.loop, .close]
  | .fork branches => sectionKeywords .alt branches.length ++ [.close]

theorem FlowLines.filterMap_ofLine? {entities : List Entity} {budget : Nat} {lines : List String}
    {flow : Flow} (h : FlowLines entities budget lines flow) :
    lines.filterMap Keyword.ofLine? = Flow.keywords flow := by
  induction h using FlowLines.induction (Q := fun keyword lines branches =>
    lines.filterMap Keyword.ofLine? = Flow.branchKeywords keyword branches) with
  | nil budget h => rfl
  | interaction budget line message rest flow h hrest hplain hread ih =>
    rw [List.filterMap_cons_none hplain, ih]
    rfl
  | loop budget opener inside body closer rest flow h hbody hrest hopen hne hclose ihbody ih =>
    rw [List.cons_append, List.filterMap_cons_some hopen, List.filterMap_append, ihbody,
      List.filterMap_cons_some hclose, ih]
    simp [Flow.keywords, Step.keywords]
  | fork budget sections branches closer rest flow h hrest hne hdistinct hclose ihsections ih =>
    rw [List.filterMap_append, ihsections, List.filterMap_cons_some hclose, ih]
    simp [Flow.keywords, Step.keywords]
  | noBranch keyword => rfl
  | branch budget keyword opener inside body rest branches hbody hopen hne ihbody ihrest =>
    rw [List.cons_append, List.filterMap_cons_some hopen, List.filterMap_append, ihbody, ihrest]
    rfl

section Count

variable (k : Keyword)

theorem Flow.count_branchKeywords (keyword : Keyword) (branches : List (Branch Step)) :
    (Flow.branchKeywords keyword branches).count k =
      (sectionKeywords keyword branches.length).count k +
        (branches.map fun b => (Flow.keywords b.steps).count k).sum := by
  induction branches generalizing keyword with
  | nil => rfl
  | cons b rest ih =>
    rw [branchKeywords, List.count_append, List.count_cons, ih, List.length_cons, sectionKeywords,
      List.count_cons, List.map_cons, List.sum_cons]
    omega

theorem Flow.count_keywords (flow : Flow) : (Flow.keywords flow).count k =
    ((Flow.allSteps flow).flatMap Step.ownKeywords).count k := by
  induction flow using Flow.induction with
  | nil => rfl
  | interaction message rest ih => exact ih
  | loop condition body rest ihbody ihrest =>
    simp only [keywords, Step.keywords, Step.ownKeywords, List.count_append, List.count_cons,
      List.count_nil, ihbody, ihrest, allSteps_loop, List.flatMap_cons, List.flatMap_append]
    omega
  | fork branches rest ihbranches ihrest =>
    have hinside :
        ((branches.flatMap fun b => Flow.allSteps b.steps).flatMap Step.ownKeywords).count k =
          (branches.map fun b => (Flow.keywords b.steps).count k).sum := by
      rw [List.flatMap_assoc, List.count_flatMap]
      congr 1
      exact List.map_congr_left fun b hb => (ihbranches b hb).symm
    simp only [keywords, Step.keywords, Step.ownKeywords, List.count_append,
      count_branchKeywords, ihrest, allSteps_fork, List.flatMap_cons, List.flatMap_append, hinside]
    omega

end Count

/-- How often each keyword is needed to write the steps. -/
structure WritesBlocks (count : Keyword → Nat) (steps : List Step) : Prop where
  loops : count .loop = steps.countP Step.isLoop
  forks : count .alt = steps.countP Step.isFork
  branches : count .alt + count .otherwise = (steps.map Step.branchCount).sum
  ends : count .close = steps.countP Step.isLoop + steps.countP Step.isFork
  declarations : ∀ k, k.declaresEntity = true → count k = 0

theorem WritesBlocks.add {left right : Keyword → Nat} {first rest : List Step}
    (hfirst : WritesBlocks left first) (hrest : WritesBlocks right rest) :
    WritesBlocks (fun k => left k + right k) (first ++ rest) where
  loops := by rw [hfirst.loops, hrest.loops, List.countP_append]
  forks := by rw [hfirst.forks, hrest.forks, List.countP_append]
  branches := by
    rw [List.map_append, List.sum_append, ← hfirst.branches, ← hrest.branches]
    omega
  ends := by
    rw [hfirst.ends, hrest.ends, List.countP_append, List.countP_append]
    omega
  declarations := fun k hk => by rw [hfirst.declarations k hk, hrest.declarations k hk]

theorem sectionKeywords_otherwise (count : Nat) :
    sectionKeywords .otherwise count = List.replicate count .otherwise := by
  induction count with
  | zero => rfl
  | succ count ih => rw [sectionKeywords, ih, List.replicate_succ]

/-- A fork takes an `alt` for its first branch and an `else` for each of the others. -/
theorem Step.writesBlocks {step : Step} (h : step.WellFormed) :
    WritesBlocks (fun k => step.ownKeywords.count k) [step] := by
  cases step with
  | interaction message => exact ⟨rfl, rfl, rfl, rfl, fun _ _ => rfl⟩
  | loop condition body =>
    refine ⟨rfl, rfl, rfl, rfl, fun k hk => ?_⟩
    cases k with
    | actor | participant => rfl
    | alt | otherwise | loop | close => contradiction
  | fork branches =>
    obtain ⟨count, hcount⟩ := Nat.exists_eq_add_one.mpr (List.length_pos_iff.mpr h.1)
    have hown : (Step.fork branches).ownKeywords =
        .alt :: (List.replicate count .otherwise ++ [.close]) := by
      rw [ownKeywords, hcount, sectionKeywords, sectionKeywords_otherwise, List.cons_append]
    rw [hown]
    refine ⟨?_, ?_, ?_, ?_, fun k hk => ?_⟩
    · simp [isLoop, List.count_replicate]
    · simp [isFork, List.count_replicate]
    · simp [branchCount, hcount, List.count_replicate]
      omega
    · simp [isLoop, isFork, List.count_replicate]
    · cases k with
      | actor | participant => simp [List.count_replicate]
      | alt | otherwise | loop | close => contradiction

theorem writesBlocks_ownKeywords {steps : List Step} (h : ∀ step ∈ steps, step.WellFormed) :
    WritesBlocks (fun k => (steps.flatMap Step.ownKeywords).count k) steps := by
  induction steps with
  | nil => exact ⟨rfl, rfl, rfl, rfl, fun _ _ => rfl⟩
  | cons step rest ih =>
    rw [List.forall_mem_cons] at h
    have hadd := (step.writesBlocks h.1).add (ih h.2)
    simpa only [List.flatMap_cons, List.count_append, List.singleton_append] using hadd

theorem FlowLines.writesBlocks {entities : List Entity} {budget : Nat} {lines : List String}
    {flow : Flow} (h : FlowLines entities budget lines flow) :
    WritesBlocks (fun k => lineCount k lines) (Flow.allSteps flow) := by
  have hcount (k : Keyword) :
      lineCount k lines = ((Flow.allSteps flow).flatMap Step.ownKeywords).count k := by
    rw [lineCount, ← List.count_filterMap, h.filterMap_ofLine?, Flow.count_keywords]
  simpa only [hcount] using writesBlocks_ownKeywords h.wellFormed.of_mem_allSteps

end UseCaseFlow
