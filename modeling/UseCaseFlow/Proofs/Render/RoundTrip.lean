import UseCaseFlow.Proofs.Render.Document
import UseCaseFlow.Proofs.Scenario.Parse

/-!
# Round trip

Writing a scenario and reading the document gives the scenario back.
-/

namespace UseCaseFlow

open Text

variable {entities : List Entity} {flow : Flow}

section Ids

theorem idAt_of_getElem? {position : Nat} {e : Entity} (h : entities[position]? = some e) :
    idAt entities position = e.id := by
  rw [idAt, h]
  rfl

theorem plainId_idAt (h : ∀ e ∈ entities, PlainEntity e) {position : Nat}
    (hposition : position < entities.length) : PlainId (idAt entities position) := by
  rw [idAt_of_getElem? (List.getElem?_eq_getElem hposition)]
  exact (h _ (List.getElem_mem hposition)).id

theorem declaredOnce_idAt (h : (entities.map (·.id)).Nodup) {position : Nat}
    (hposition : position < entities.length) :
    DeclaredOnce entities (idAt entities position) position := by
  have hget := List.getElem?_eq_getElem hposition
  refine ⟨⟨_, hget, (idAt_of_getElem? hget).symm⟩, fun i e he hid => ?_⟩
  have hi : i < (entities.map (·.id)).length := by
    rw [List.length_map]
    exact (List.getElem?_eq_some_iff.mp he).1
  refine (List.getElem?_inj hi h).mp ?_
  rw [List.getElem?_map, List.getElem?_map, he, hget, Option.map_some, Option.map_some, hid,
    idAt_of_getElem? hget]

theorem readsInteraction_iff (h : (entities.map (·.id)).Nodup) {line : String} {i : Interaction}
    (hi : PlainMessage entities i) :
    ReadsInteraction entities line i ↔ ReadsMessage line (i.message entities) := by
  constructor
  · rintro ⟨hmessage, hsource, htarget⟩
    obtain ⟨source, hget, hid⟩ := hsource.declared
    obtain ⟨target, hget', hid'⟩ := htarget.declared
    rw [Interaction.message, idAt_of_getElem? hget, idAt_of_getElem? hget', hid, hid']
    exact hmessage
  · intro hmessage
    exact .intro hmessage (declaredOnce_idAt h hi.source) (declaredOnce_idAt h hi.target)

end Ids

section Lines

theorem insideFence_of_ofLine? {line : String} {k : Keyword} (h : Keyword.ofLine? line = some k) :
    InsideFence line :=
  ⟨Keyword.ne_empty_of_ofLine? h, Keyword.not_fence_of_ofLine? h⟩

theorem insideFence_line (k : Keyword) (text : String) : InsideFence (trimmed (k.line text)) :=
  insideFence_of_ofLine? ((Keyword.ofLine?_trimmed _).trans (k.ofLine?_line text))

theorem insideFence_messageLine {message : Message} (hsource : PlainId message.source)
    (hlabel : PlainText message.label) : InsideFence (trimmed (messageLine message)) := by
  obtain ⟨rest, hline⟩ := exists_toList_trimmed_messageLine hsource hlabel
  constructor
  · intro hempty
    simp [hempty] at hline
  · rw [hline, prefix_append_cons_iff (by decide)]
    exact hsource.noFence

theorem oneLine_line {text : String} (h : '\n' ∉ text.toList) (k : Keyword) :
    '\n' ∉ (k.line text).toList := by
  have hk : '\n' ∉ k.text.toList := fun hmem => absurd (k.isBlank_text _ hmem) (by decide)
  simp [Keyword.toList_line, hk, h]

theorem oneLine_declaration {e : Entity} (h : PlainEntity e) : '\n' ∉ e.declaration.toList := by
  refine oneLine_line ?_ _
  have hid := h.id.oneLine
  have hname := h.name.oneLine
  rw [Entity.shownName]
  cases e.explicit <;> simp [hid, hname]

theorem oneLine_messageLine {message : Message} (hsource : PlainId message.source)
    (htarget : PlainId message.target) (hlabel : PlainText message.label) :
    '\n' ∉ (messageLine message).toList := by
  have harrow : '\n' ∉ (arrowText message.returns).toList :=
    fun hmem => absurd (eq_of_mem_arrowText _ hmem) (by decide)
  simp [messageLine, harrow, hsource.oneLine, htarget.oneLine, hlabel.oneLine]

theorem forall_mem_diagram (h : Writable entities flow) :
    ∀ line ∈ entities.map (·.declaration) ++ Flow.lines entities flow,
      '\n' ∉ line.toList ∧ InsideFence (trimmed line) := by
  rw [List.forall_mem_append, List.forall_mem_map]
  constructor
  · intro e he
    exact ⟨oneLine_declaration (h.declared e he), insideFence_line _ _⟩
  · refine Flow.forall_mem_lines (fun c hc k _ => ?_) ?_ fun m hm => ?_
    · exact ⟨oneLine_line (h.conditions c hc).oneLine k, insideFence_line k c⟩
    · exact ⟨by decide, insideFence_of_ofLine? ofLine?_close⟩
    · have hmessage := h.messages m hm
      have hsource := plainId_idAt h.declared hmessage.source
      have htarget := plainId_idAt h.declared hmessage.target
      exact ⟨oneLine_messageLine hsource htarget hmessage.label,
        insideFence_messageLine hsource hmessage.label⟩

theorem Writable.ofLine?_messageLine (h : Writable entities flow) {m : Interaction}
    (hm : m ∈ Flow.interactions flow) :
    Keyword.ofLine? (messageLine (m.message entities)) = none := by
  have hsource : PlainId (m.message entities).source :=
    plainId_idAt h.declared (h.messages m hm).source
  exact UseCaseFlow.ofLine?_messageLine hsource.nonempty hsource.trimmed hsource.noKeyword

theorem isDeclaration_lines (h : Writable entities flow) :
    ∀ line ∈ Flow.lines entities flow, isDeclaration line = false := by
  refine Flow.forall_mem_lines (fun c hc k hk => ?_) (by decide) fun m hm => ?_
  · rw [isDeclaration, Keyword.ofLine?_line]
    exact hk
  · rw [isDeclaration, h.ofLine?_messageLine hm]
    rfl

end Lines

theorem diagramLines_documentLines (h : Writable entities flow) (layout : Layout) :
    ∃ diagram, diagramLines (layout.text (documentLines entities flow)) = .ok diagram ∧
      diagram.map (·.text) =
        entities.map (fun e => trimmed e.declaration) ++ Flow.trimmedLines entities flow := by
  have hdiagram := forall_mem_diagram h
  have hlines : ∀ line ∈ documentLines entities flow, '\n' ∉ line.toList := by
    rw [documentLines, List.forall_mem_cons, List.forall_mem_cons, List.forall_mem_append,
      List.forall_mem_singleton]
    exact ⟨by decide, by decide, fun line hline => (hdiagram line hline).1, by decide⟩
  have hinside : entities.map (fun e => trimmed e.declaration) ++ Flow.trimmedLines entities flow =
      (entities.map (·.declaration) ++ Flow.lines entities flow).map trimmed := by
    simp [Flow.trimmedLines, Function.comp_def]
  rw [hinside]
  exact diagramLines_fenced hlines (by decide) (by decide)
    (fun line hline => (hdiagram line hline).2) layout

/-- Within the limit the lines of a flow derive it, unless an empty label meets a colon. -/
theorem flowLines_trimmedLines_iff (h : Writable entities flow) {limit : Nat}
    (hdepth : Flow.depth flow ≤ limit) :
    FlowLines entities limit (Flow.trimmedLines entities flow) flow ↔
      ∀ m ∈ Flow.interactions flow, m.label = "" → ':' ∉ (idAt entities m.target).toList := by
  have hsource (m : Interaction) (hm : m ∈ Flow.interactions flow) :
      PlainId (m.message entities).source := plainId_idAt h.declared (h.messages m hm).source
  have hreads (m : Interaction) (hm : m ∈ Flow.interactions flow) :
      ReadsInteraction entities (trimmed (messageLine (m.message entities))) m ↔
        (m.label = "" → ':' ∉ (idAt entities m.target).toList) := by
    have htarget := plainId_idAt h.declared (h.messages m hm).target
    rw [readsInteraction_iff h.distinct (h.messages m hm)]
    exact readsMessage_trimmed_iff (hsource m hm) htarget (h.messages m hm).label
  constructor
  · intro hlines m hm
    exact (hreads m hm).mp (readsInteraction_of_trimmedLines
      (fun m hm => h.ofLine?_messageLine hm) hlines m hm)
  · intro hcolons
    refine flowLines_trimmedLines h.wellFormed hdepth h.conditions fun m hm => ?_
    exact ⟨h.ofLine?_messageLine hm, (hreads m hm).mpr (hcolons m hm)⟩

/-- A scenario that can be written is read back from its document in any layout. The one exception
is a message that has no label and goes to an id with a colon: the blank at the end of its line is
trimmed, and the colon in the id is taken for the one in front of the label. -/
theorem Scenario.parse_document_iff (key : ScenarioKey) (entities : List Entity) (flow : Flow)
    (limit : Nat) (layout : Layout) (h : Writable entities flow) (hdepth : Flow.depth flow ≤ limit) :
    Scenario.parse key (layout.text (documentLines entities flow)) limit =
        .ok { key, entities, flow } ↔
      ∀ m ∈ Flow.interactions flow, m.label = "" → ':' ∉ (idAt entities m.target).toList := by
  obtain ⟨diagram, hdiagram, hlines⟩ := diagramLines_documentLines h layout
  have hsteps : ∀ line ∈ (Flow.trimmedLines entities flow).head?, isDeclaration line = false := by
    intro line hline
    obtain ⟨written, hwritten, rfl⟩ := List.mem_map.mp (List.mem_of_mem_head? hline)
    rw [isDeclaration_trimmed, isDeclaration_lines h written hwritten]
  have hdeclared := parseDeclarationsFrom_declarations h.declared hsteps 0
  have hdrop : (entities.map (fun e => trimmed e.declaration) ++
      Flow.trimmedLines entities flow).drop entities.length = Flow.trimmedLines entities flow := by
    rw [List.drop_left' (by simp)]
  rw [← flowLines_trimmedLines_iff h hdepth, Scenario.parse_eq_ok_iff]
  constructor
  · rintro ⟨-, diagram', hdiagram', -, hflow⟩
    obtain rfl := Except.ok.inj (hdiagram.symm.trans hdiagram')
    rwa [hlines, hdrop] at hflow
  · intro hflow
    refine ⟨rfl, diagram, hdiagram, ?_, ?_⟩
    · rw [hlines]
      exact hdeclared
    · rw [hlines, hdrop]
      exact hflow

/-- Labels, names and conditions may look like other parts of a diagram. -/
def lookalikeEntities : List Entity :=
  [⟨"user", "loop AS actor", .actor, true⟩, ⟨"a:b", "(end", .participant, false⟩]

def lookalikeFlow : Flow :=
  [.loop "end" [.interaction ⟨0, 1, false, "x ->> y : AS z"⟩,
    .fork [⟨"alt", [.interaction ⟨1, 0, true, ""⟩]⟩, ⟨"", [.interaction ⟨0, 1, true, ": end"⟩]⟩]]]

theorem writable_lookalike : Writable lookalikeEntities lookalikeFlow where
  declared := by decide +kernel
  distinct := by decide +kernel
  wellFormed := by decide +kernel
  conditions := by decide +kernel
  messages := by decide +kernel

theorem Scenario.parse_lookalike_document :
    Writable lookalikeEntities lookalikeFlow ∧ Flow.depth lookalikeFlow ≤ 2 ∧
      Scenario.parse ⟨"R", "U"⟩ (Layout.text ⟨fun i => i % 3, true⟩
          (documentLines lookalikeEntities lookalikeFlow)) 2 =
        .ok ⟨⟨"R", "U"⟩, lookalikeEntities, lookalikeFlow⟩ := by
  have hdepth : Flow.depth lookalikeFlow ≤ 2 := by decide +kernel
  refine ⟨writable_lookalike, hdepth, ?_⟩
  exact (Scenario.parse_document_iff _ _ _ _ _ writable_lookalike hdepth).mpr (by decide +kernel)

end UseCaseFlow
