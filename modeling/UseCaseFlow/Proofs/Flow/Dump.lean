import UseCaseFlow.Flow.Dump

/-!
# Different flows have different dumps

A label or a condition may hold the brackets, quotes and commas of a dump. Still every part of a
dump shows where it ends, whatever follows it: the quotes inside a text are escaped, and none of the
entries of a list begins with the mark that closes the list. So a dump can only be read in one way.
-/

namespace UseCaseFlow

section SelfDelimiting

variable {α : Type} {text : α → List Char} {stop : Char} {xs : List α}

/-- Where the text of `x` stands there is no text of another value, and it ends in one place. -/
def SelfDelimiting (text : α → List Char) (x : α) : Prop :=
  ∀ y rest rest', text x ++ rest = text y ++ rest' → x = y ∧ rest = rest'

theorem SelfDelimiting.behind {x y : α} {label rest rest' : List Char} (h : SelfDelimiting text x)
    (heq : label ++ (text x ++ rest) = label ++ (text y ++ rest')) : x = y ∧ rest = rest' :=
  h y rest rest' (List.append_cancel_left heq)

/-- Texts one behind the other, up to a mark with which none of them begins. -/
theorem SelfDelimiting.flatMap (hstop : ∀ x rest rest', text x ++ rest ≠ stop :: rest')
    (h : ∀ x ∈ xs, SelfDelimiting text x) :
    SelfDelimiting (fun xs => xs.flatMap text ++ [stop]) xs := by
  induction xs with
  | nil =>
    intro ys rest rest' heq
    cases ys with
    | nil => simpa using heq
    | cons y ys =>
      simp only [List.flatMap_nil, List.flatMap_cons, List.append_assoc, List.cons_append,
        List.nil_append] at heq
      exact absurd heq.symm (hstop y _ rest)
  | cons x xs ih =>
    rw [List.forall_mem_cons] at h
    intro ys rest rest' heq
    cases ys with
    | nil =>
      simp only [List.flatMap_nil, List.flatMap_cons, List.append_assoc, List.cons_append,
        List.nil_append] at heq
      exact absurd heq (hstop x _ rest')
    | cons y ys =>
      simp only [List.flatMap_cons, List.append_assoc] at heq
      obtain ⟨rfl, hlater⟩ := h.1 y _ _ heq
      obtain ⟨rfl, hrest⟩ := ih h.2 ys rest rest' (by simpa using hlater)
      exact ⟨rfl, hrest⟩

def separated (text : α → List Char) : List α → List Char
  | [] => []
  | x :: rest => text x ++ rest.flatMap fun y => ", ".toList ++ text y

theorem SelfDelimiting.separated (hcomma : stop ≠ ',')
    (hstop : ∀ x rest rest', text x ++ rest ≠ stop :: rest')
    (h : ∀ x ∈ xs, SelfDelimiting text x) :
    SelfDelimiting (fun xs => separated text xs ++ [stop]) xs := by
  have hlater : ∀ x ∈ xs, SelfDelimiting (fun y => ", ".toList ++ text y) x := by
    intro x hx y rest rest' heq
    apply h x hx y
    simpa using heq
  have hlaterStop (x : α) (rest rest' : List Char) :
      (", ".toList ++ text x) ++ rest ≠ stop :: rest' := by
    simp [hcomma.symm]
  intro ys rest rest' heq
  cases xs with
  | nil =>
    cases ys with
    | nil => simpa [UseCaseFlow.separated] using heq
    | cons y ys =>
      simp only [UseCaseFlow.separated, List.append_assoc, List.nil_append, List.cons_append] at heq
      exact absurd heq.symm (hstop _ _ _)
  | cons x xs =>
    cases ys with
    | nil =>
      simp only [UseCaseFlow.separated, List.append_assoc, List.nil_append, List.cons_append] at heq
      exact absurd heq (hstop _ _ _)
    | cons y ys =>
      rw [List.forall_mem_cons] at h hlater
      simp only [UseCaseFlow.separated, List.append_assoc] at heq
      obtain ⟨rfl, hbehind⟩ := h.1 y _ _ heq
      have hothers := SelfDelimiting.flatMap hlaterStop hlater.2
      obtain ⟨rfl, hrest⟩ := hothers ys rest rest' (by simpa using hbehind)
      exact ⟨rfl, hrest⟩

end SelfDelimiting

section Parts

theorem selfDelimiting_toString (n : Nat) :
    SelfDelimiting (fun n : Nat => (toString n).toList ++ [')']) n := by
  have hread (n : Nat) (rest : List Char) :
      ((toString n).toList ++ [')'] ++ rest).takeWhile Char.isDigit = Nat.toDigits 10 n := by
    rw [Nat.toString_eq_ofList_toDigits, String.toList_ofList, List.append_assoc,
      List.takeWhile_append_of_pos fun _ => Nat.isDigit_of_mem_toDigits (by decide) (by decide)]
    simp
  intro m rest rest' heq
  have hdigits : Nat.toDigits 10 n = Nat.toDigits 10 m := by
    rw [← hread n rest, heq, hread m rest']
  obtain rfl : n = m := calc
    n = Nat.ofDigitChars 10 (Nat.toDigits 10 n) 0 := Nat.ofDigitChars_ten_toDigits.symm
    _ = Nat.ofDigitChars 10 (Nat.toDigits 10 m) 0 := by rw [hdigits]
    _ = m := Nat.ofDigitChars_ten_toDigits
  exact ⟨rfl, List.append_cancel_left heq⟩

theorem selfDelimiting_bool (b : Bool) :
    SelfDelimiting (fun b : Bool => (toString b).toList) b := by
  intro b' rest rest' heq
  have htrue : (toString true).toList = ['t', 'r', 'u', 'e'] := by decide
  have hfalse : (toString false).toList = ['f', 'a', 'l', 's', 'e'] := by decide
  cases b <;> cases b' <;> simp_all

theorem selfDelimiting_escapeChar (c : Char) : SelfDelimiting escapeChar c := by
  intro d rest rest' heq
  unfold escapeChar at heq
  split at heq <;> split at heq <;> grind

theorem escapeChar_ne_quote (c : Char) (rest rest' : List Char) :
    escapeChar c ++ rest ≠ '"' :: rest' := by
  unfold escapeChar
  split <;> simp_all

theorem selfDelimiting_quoted (s : String) : SelfDelimiting (fun s => (quoted s).toList) s := by
  intro t rest rest' heq
  have hchars := SelfDelimiting.flatMap escapeChar_ne_quote
    (fun c (_ : c ∈ s.toList) => selfDelimiting_escapeChar c)
  obtain ⟨hst, hrest⟩ := hchars t.toList rest rest' (by simpa [quoted] using heq)
  exact ⟨String.toList_inj.mp hst, hrest⟩

end Parts

section Steps

def Step.text (step : Step) : List Char :=
  step.dump.toList

def Branch.text (b : Branch Step) : List Char :=
  (quoted b.condition).toList ++ ": [".toList ++ separated Step.text b.steps ++ [']']

theorem Flow.toList_dumpSteps (flow : Flow) :
    (dumpSteps flow).toList = separated Step.text flow := by
  induction flow with
  | nil => rfl
  | cons step rest ih =>
    cases rest with
    | nil => simp [dumpSteps, separated, Step.text]
    | cons next rest =>
      rw [separated] at ih
      simp [dumpSteps, ih, separated, Step.text]

theorem Flow.toList_dumpBranches (branches : List (Branch Step)) :
    (dumpBranches branches).toList = separated Branch.text branches := by
  induction branches with
  | nil => rfl
  | cons b rest ih =>
    cases rest with
    | nil => simp [dumpBranches, separated, Branch.text, toList_dumpSteps]
    | cons next rest =>
      rw [separated] at ih
      simp [dumpBranches, ih, separated, Branch.text, toList_dumpSteps]

theorem Step.text_interaction (message : Interaction) (rest : List Char) :
    text (.interaction message) ++ rest =
      "Interaction(Interaction \x7b source: EntityIdx(".toList ++
        ((toString message.source).toList ++ [')'] ++ (", target: EntityIdx(".toList ++
        ((toString message.target).toList ++ [')'] ++ (", returns: ".toList ++
        ((toString message.returns).toList ++ (", label: ".toList ++
        ((quoted message.label).toList ++ (" \x7d)".toList ++ rest)))))))) := by
  have hbrace : "), target: EntityIdx(".toList = [')'] ++ ", target: EntityIdx(".toList := by decide
  have hbrace' : "), returns: ".toList = [')'] ++ ", returns: ".toList := by decide
  rw [text]
  unfold dump Interaction.dump
  simp only [String.toList_append, List.append_assoc, hbrace, hbrace']

theorem Step.text_loop (condition : String) (body : Flow) (rest : List Char) :
    text (.loop condition body) ++ rest =
      "Loop(Loop \x7b condition: ".toList ++ ((quoted condition).toList ++ (", body: [".toList ++
        (separated text body ++ [']'] ++ (" \x7d)".toList ++ rest)))) := by
  have hbracket : "] \x7d)".toList = [']'] ++ " \x7d)".toList := by decide
  rw [text]
  unfold dump
  simp only [String.toList_append, List.append_assoc, Flow.toList_dumpSteps, hbracket]

theorem Step.text_fork (branches : List (Branch Step)) (rest : List Char) :
    text (.fork branches) ++ rest =
      "Fork(Fork \x7b branches: \x7b".toList ++
        (separated Branch.text branches ++ ['\x7d'] ++ (" \x7d)".toList ++ rest)) := by
  have hbrace : "\x7d \x7d)".toList = ['\x7d'] ++ " \x7d)".toList := by decide
  rw [text]
  unfold dump
  simp only [String.toList_append, List.append_assoc, Flow.toList_dumpBranches, hbrace]

def Step.initial : Step → Char
  | .interaction _ => 'I'
  | .loop _ _ => 'L'
  | .fork _ => 'F'

theorem Step.head?_text (step : Step) (rest : List Char) :
    (step.text ++ rest).head? = some step.initial := by
  cases step with
  | interaction message => simp [text_interaction, initial]
  | loop condition body => simp [text_loop, initial]
  | fork branches => simp [text_fork, initial]

theorem Step.initial_eq {step step' : Step} {rest rest' : List Char}
    (heq : step.text ++ rest = step'.text ++ rest') : step.initial = step'.initial := by
  have hheads := congrArg List.head? heq
  rw [head?_text, head?_text] at hheads
  exact Option.some.inj hheads

theorem Step.text_ne_bracket (step : Step) (rest rest' : List Char) :
    step.text ++ rest ≠ ']' :: rest' := by
  intro heq
  have hheads := congrArg List.head? heq
  rw [head?_text] at hheads
  cases step <;> simp [initial] at hheads

theorem Branch.text_ne_brace (b : Branch Step) (rest rest' : List Char) :
    b.text ++ rest ≠ '\x7d' :: rest' := by
  simp [text, quoted]

theorem Step.selfDelimiting_interaction (message : Interaction) :
    SelfDelimiting text (.interaction message) := by
  intro step rest rest' heq
  cases step with
  | interaction message' =>
    rw [text_interaction, text_interaction] at heq
    obtain ⟨hsource, htargets⟩ := (selfDelimiting_toString _).behind heq
    obtain ⟨htarget, hflags⟩ := (selfDelimiting_toString _).behind htargets
    obtain ⟨hreturns, hlabels⟩ := (selfDelimiting_bool _).behind hflags
    obtain ⟨hlabel, hends⟩ := (selfDelimiting_quoted _).behind hlabels
    have hmessage : message = message' := by
      cases message
      cases message'
      simp only [Interaction.mk.injEq]
      exact ⟨hsource, htarget, hreturns, hlabel⟩
    exact ⟨congrArg _ hmessage, List.append_cancel_left hends⟩
  | loop condition body => exact absurd (initial_eq heq) (by simp [initial])
  | fork branches => exact absurd (initial_eq heq) (by simp [initial])

variable {body : Flow} {branches : List (Branch Step)}

theorem Flow.selfDelimiting_steps (h : ∀ step ∈ body, SelfDelimiting Step.text step) :
    SelfDelimiting (fun flow => separated Step.text flow ++ [']']) body :=
  SelfDelimiting.separated (by decide) Step.text_ne_bracket h

theorem Step.selfDelimiting_loop (h : ∀ step ∈ body, SelfDelimiting text step)
    (condition : String) : SelfDelimiting text (.loop condition body) := by
  intro step rest rest' heq
  cases step with
  | loop condition' body' =>
    rw [text_loop, text_loop] at heq
    obtain ⟨hcondition, hbodies⟩ := (selfDelimiting_quoted _).behind heq
    obtain ⟨hbody, hends⟩ := (Flow.selfDelimiting_steps h).behind hbodies
    rw [hcondition, hbody]
    exact ⟨rfl, List.append_cancel_left hends⟩
  | interaction message => exact absurd (initial_eq heq) (by simp [initial])
  | fork branches => exact absurd (initial_eq heq) (by simp [initial])

theorem Branch.selfDelimiting_text {b : Branch Step}
    (h : ∀ step ∈ b.steps, SelfDelimiting Step.text step) : SelfDelimiting text b := by
  intro b' rest rest' heq
  simp only [text, List.append_assoc] at heq
  obtain ⟨hcondition, hbehind⟩ := selfDelimiting_quoted _ _ _ _ heq
  simp only [← List.append_assoc (separated Step.text _)] at hbehind
  obtain ⟨hsteps, hrest⟩ := (Flow.selfDelimiting_steps h).behind hbehind
  have hb : b = b' := by
    cases b
    cases b'
    simp only [Branch.mk.injEq]
    exact ⟨hcondition, hsteps⟩
  exact ⟨hb, hrest⟩

theorem Step.selfDelimiting_fork
    (h : ∀ b ∈ branches, ∀ step ∈ b.steps, SelfDelimiting text step) :
    SelfDelimiting text (.fork branches) := by
  have hbranches := SelfDelimiting.separated (by decide) Branch.text_ne_brace
    fun b hb => Branch.selfDelimiting_text (h b hb)
  intro step rest rest' heq
  cases step with
  | fork branches' =>
    rw [text_fork, text_fork] at heq
    obtain ⟨hsame, hends⟩ := hbranches.behind heq
    exact ⟨congrArg _ hsame, List.append_cancel_left hends⟩
  | interaction message => exact absurd (initial_eq heq) (by simp [initial])
  | loop condition body => exact absurd (initial_eq heq) (by simp [initial])

/-- The dump of a step tells which step it is, and where it ends. -/
theorem Flow.selfDelimiting_text (flow : Flow) : ∀ step ∈ flow, SelfDelimiting Step.text step := by
  induction flow using Flow.induction with
  | nil => simp
  | interaction message rest ih =>
    rw [List.forall_mem_cons]
    exact ⟨Step.selfDelimiting_interaction message, ih⟩
  | loop condition body rest ihbody ih =>
    rw [List.forall_mem_cons]
    exact ⟨Step.selfDelimiting_loop ihbody condition, ih⟩
  | fork branches rest ihbranches ih =>
    rw [List.forall_mem_cons]
    exact ⟨Step.selfDelimiting_fork ihbranches, ih⟩

end Steps

/-- Different flows have different dumps, whatever their labels and conditions hold. -/
theorem Flow.dump_injective : Function.Injective Flow.dump := by
  intro left right h
  have hsteps := selfDelimiting_steps (selfDelimiting_text left)
  have heq : separated Step.text left ++ [']'] ++ [] =
      separated Step.text right ++ [']'] ++ [] := by
    simpa [dump, toList_dumpSteps] using congrArg String.toList h
  exact (hsteps right [] [] heq).1

end UseCaseFlow
