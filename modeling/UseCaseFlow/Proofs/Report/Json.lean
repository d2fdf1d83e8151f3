import UseCaseFlow.Proofs.Report.JsonTokens

/-!
# JSON reports are read back

A text spells a value if the reader reads it as that value. Objects and arrays are spelled by the
lines that are written for them. A report is read as one object for each row, from which the row can
be told.
-/

namespace UseCaseFlow

section Spelling

def Spells (text : String) (v : Json) : Prop :=
  ∃ tokens, Lexes text.toList tokens ∧ ReadsAs tokens v

theorem readJson_of_spells {text : String} {v : Json} (h : Spells text v) :
    readJson text = some v := by
  obtain ⟨tokens, hlexes, hreads⟩ := h
  obtain ⟨r, hr, hsettled⟩ := hlexes []
  rw [List.nil_append] at hsettled
  simp only [readJson, hr, Option.bind_eq_bind, Option.bind_some, hsettled]
  exact readAll_of_readsAs hreads

theorem spells_jsonString (s : String) : Spells (jsonString s) (.string s) :=
  ⟨_, lexes_jsonString s, readsAs_text s⟩

theorem spells_toString (n : Nat) : Spells (toString n) (.number n 0) :=
  ⟨_, lexes_toString n, readsAs_scalar _⟩

theorem lexes_intercalate {texts : List String} {entries : List (List JsonToken)}
    (h : List.Forall₂ (fun text tokens => Lexes text.toList tokens) texts entries) :
    Lexes (",\n".intercalate texts).toList ([JsonToken.comma].intercalate entries) := by
  induction h with
  | nil => exact lexes_nil
  | @cons text tokens texts entries hfirst hrest ih =>
    cases hrest with
    | nil => simpa using hfirst
    | cons hnext hlater =>
      have hlines := hfirst.separated (c := ',') rfl (ih.space (c := '\n') rfl)
      rw [String.intercalate_cons_cons, List.intercalate_cons_cons, String.toList_append,
        String.toList_append, List.append_assoc, List.append_assoc]
      exact hlines

def SpellsMember (written : String × String) (member : String × Json) : Prop :=
  written.1 = member.1 ∧ Spells written.2 member.2

theorem SpellsMember.exists_tokens {written : String × String} {member : String × Json}
    (h : SpellsMember written member) : ∃ tokens, Lexes (jsonMember written).toList tokens ∧
      ReadsAsMember tokens member := by
  obtain ⟨name, text⟩ := written
  obtain ⟨name', v⟩ := member
  obtain ⟨hname, inner, hlexes, hreads⟩ := h
  dsimp only at hname hlexes hreads
  subst hname
  have hvalue := (lexes_jsonString name).separated (c := ':') rfl (hlexes.space (c := ' ') rfl)
  have hspace : separator? ' ' = some [] := rfl
  have hindented := (((hvalue.space hspace).space hspace).space hspace).space hspace
  refine ⟨_, ?_, inner, rfl, hreads⟩
  simpa [jsonMember] using hindented

theorem exists_tokens_of_forall₂ {α β : Type} {R : α → β → Prop} {S : α → List JsonToken → Prop}
    {T : List JsonToken → β → Prop} (hstep : ∀ a b, R a b → ∃ tokens, S a tokens ∧ T tokens b)
    {left : List α} {right : List β} (h : List.Forall₂ R left right) :
    ∃ entries, List.Forall₂ S left entries ∧ List.Forall₂ T entries right := by
  induction h with
  | nil => exact ⟨[], .nil, .nil⟩
  | cons hfirst hrest ih =>
    obtain ⟨tokens, hS, hT⟩ := hstep _ _ hfirst
    obtain ⟨entries, hSs, hTs⟩ := ih
    exact ⟨tokens :: entries, .cons hS hSs, .cons hT hTs⟩

theorem spells_object {written : List (String × String)} {members : List (String × Json)}
    (h : List.Forall₂ SpellsMember written members) :
    Spells ("  \x7b\n" ++ ",\n".intercalate (written.map jsonMember) ++ "\n  \x7d")
      (.object members) := by
  obtain ⟨entries, hlexes, hreads⟩ := exists_tokens_of_forall₂
    (fun _ _ h => SpellsMember.exists_tokens h) h
  have hspace : separator? ' ' = some [] := rfl
  have hline : separator? '\n' = some [] := rfl
  have hlines := lexes_intercalate (List.forall₂_map_left_iff.mpr hlexes)
  have hclose : Lexes [' ', ' ', '\x7d'] [.closeObject] :=
    ((lexes_nil.mark rfl).space hspace).space hspace
  have hinside := (hlines.separated hline hclose).space hline
  have hobject := ((hinside.mark (c := '\x7b') (t := .openObject) rfl).space hspace).space hspace
  refine ⟨_, ?_, readsEntries_object.readsAs hreads⟩
  simpa using hobject

theorem spells_array {texts : List String} {values : List Json}
    (h : List.Forall₂ Spells texts values) :
    Spells ("[\n" ++ ",\n".intercalate texts ++ "\n]") (.array values) := by
  obtain ⟨entries, hlexes, hreads⟩ := exists_tokens_of_forall₂ (fun _ _ h => h) h
  have hline : separator? '\n' = some [] := rfl
  have hclose : Lexes [']'] [.closeArray] := lexes_nil.mark rfl
  have hinside := ((lexes_intercalate hlexes).separated hline hclose).space hline
  have harray := hinside.mark (c := '[') (t := .openArray) rfl
  refine ⟨_, ?_, readsEntries_array.readsAs hreads⟩
  simpa using harray

end Spelling

section Report

/-- The object of a row: its key, and all of its counts. -/
def ReportRow.jsonValue (row : ReportRow) : Json :=
  .object [("req", .string row.key.req), ("ucid", .string row.key.ucid),
    ("entities", .number row.metrics.entities 0),
    ("actors", .number row.metrics.actors 0),
    ("explicit", .number row.metrics.explicit 0),
    ("actors_explicit", .number row.metrics.explicitActors 0),
    ("interactions", .number row.metrics.interactions 0),
    ("user_level_interactions", .number row.metrics.userLevel 0),
    ("consecutive_interactions", .number row.metrics.consecutive 0)]

theorem ReportRow.spells_json (row : ReportRow) : Spells row.json row.jsonValue := by
  have htext (name value : String) : SpellsMember (name, jsonString value) (name, .string value) :=
    ⟨rfl, spells_jsonString value⟩
  have hcount (name : String) (n : Nat) : SpellsMember (name, toString n) (name, .number n 0) :=
    ⟨rfl, spells_toString n⟩
  apply spells_object
  exact .cons (htext _ _) (.cons (htext _ _) (.cons (hcount _ _) (.cons (hcount _ _)
    (.cons (hcount _ _) (.cons (hcount _ _) (.cons (hcount _ _) (.cons (hcount _ _)
      (.cons (hcount _ _) .nil))))))))

theorem ReportRow.jsonValue_injective : Function.Injective ReportRow.jsonValue := by
  rintro ⟨⟨req, ucid⟩, metrics⟩ ⟨⟨req', ucid'⟩, metrics'⟩ h
  simp only [jsonValue, Json.object.injEq, List.cons.injEq, Prod.mk.injEq, Json.string.injEq,
    Json.number.injEq, Int.natCast_inj, true_and, and_true] at h
  obtain ⟨hreq, hucid, hcounts⟩ := h
  rw [ReportRow.mk.injEq, ScenarioKey.mk.injEq, Metrics.mk.injEq]
  exact ⟨⟨hreq, hucid⟩, hcounts⟩

theorem Report.spells_json (report : Report) :
    Spells report.json (.array (report.rows.map ReportRow.jsonValue)) := by
  obtain ⟨rows⟩ := report
  cases rows with
  | nil =>
    have hclose : Lexes [']'] [.closeArray] := lexes_nil.mark rfl
    exact ⟨_, hclose.mark rfl, readsEntries_array.readsAs .nil⟩
  | cons row rows =>
    apply spells_array
    rw [List.forall₂_map_left_iff, List.forall₂_map_right_iff, List.forall₂_same]
    exact fun row _ => row.spells_json

/-- The text of a report is read as one object for each row, in order, with all that the row holds;
so it determines the report. -/
theorem Report.json_readBack :
    (∀ report : Report,
      readJson report.json = some (.array (report.rows.map ReportRow.jsonValue))) ∧
    Function.Injective Report.json := by
  have hread (report : Report) := readJson_of_spells report.spells_json
  refine ⟨hread, ?_⟩
  intro report other h
  have hsame := hread other
  rw [← h, hread report] at hsame
  simp only [Option.some.injEq, Json.array.injEq] at hsame
  obtain ⟨rows⟩ := report
  obtain ⟨rows'⟩ := other
  rw [Report.mk.injEq]
  exact List.map_injective_iff.mpr ReportRow.jsonValue_injective hsame

end Report

end UseCaseFlow
