import UseCaseFlow.Proofs.Diagram.Declaration
import UseCaseFlow.Proofs.Diagram.KeywordCount
import UseCaseFlow.Proofs.Diagram.Listing
import UseCaseFlow.Proofs.Scenario.Parse

/-!
# Metrics read off the text

Every line of a diagram that is read has its place in the scenario: in front the declarations, then
the lines of the blocks and one line for each interaction. So the metrics of the scenario can be
counted in the lines.
-/

namespace UseCaseFlow

/-- One end of the message is the id of an actor and the other that of a participant. -/
def Message.CrossesSystem (entities : List Entity) (message : Message) : Prop :=
  ∃ actor ∈ entities, ∃ participant ∈ entities,
    actor.kind = .actor ∧ participant.kind = .participant ∧
      (message.source = actor.id ∧ message.target = participant.id ∨
        message.source = participant.id ∧ message.target = actor.id)

instance (entities : List Entity) (message : Message) :
    Decidable (message.CrossesSystem entities) :=
  inferInstanceAs (Decidable (∃ actor ∈ entities, ∃ participant ∈ entities, _))

/-- Whether the line is a message between an actor and a participant, told from its text. -/
def isUserLevelLine (entities : List Entity) (line : String) : Bool :=
  (readMessage? line).any fun message => message.CrossesSystem entities

/-- The scenario has a place for every line of its diagram, and its metrics count the lines. -/
structure Scenario.Accounts (s : Scenario) (lines : List String) : Prop where
  declarations : lines.filter isDeclaration <+: lines
  entities : List.Forall₂ (fun line e => parseEntity line = .ok e) (lines.filter isDeclaration)
    s.entities
  interactions : List.Forall₂ (ReadsInteraction s.entities) (plainLines lines)
    (Flow.interactions s.flow)
  keywords : (lines.filter (!isDeclaration ·)).filterMap Keyword.ofLine? = Flow.keywords s.flow
  entityCount : s.metrics.entities = (lines.filter isDeclaration).length
  interactionCount : s.metrics.interactions = (plainLines lines).length
  userLevelCount : s.metrics.userLevel = (plainLines lines).countP (isUserLevelLine s.entities)
  loops : Flow.loopCount s.flow = lineCount .loop lines
  forks : Flow.forkCount s.flow = lineCount .alt lines
  branches : Flow.branchCount s.flow = lineCount .alt lines + lineCount .otherwise lines
  ends : lineCount .close lines = Flow.loopCount s.flow + Flow.forkCount s.flow

section UserLevel

variable {entities : List Entity}

theorem DeclaredOnce.id_eq {id : String} {position : Nat} (h : DeclaredOnce entities id position)
    {e : Entity} (he : entities[position]? = some e) : id = e.id := by
  obtain ⟨e', he', hid⟩ := h.declared
  rw [← hid, Option.some.inj (he'.symm.trans he)]

theorem DeclaredOnce.eq_some {id : String} {position : Nat} (h : DeclaredOnce entities id position)
    {e : Entity} (he : e ∈ entities) (hid : id = e.id) : entities[position]? = some e := by
  obtain ⟨i, hi⟩ := List.getElem?_of_mem he
  rw [← h.once i e hi hid.symm, hi]

theorem Message.crossesSystem_iff {message : Message} {source target : Nat}
    (hsource : DeclaredOnce entities message.source source)
    (htarget : DeclaredOnce entities message.target target) {a b : Entity}
    (ha : entities[source]? = some a) (hb : entities[target]? = some b) :
    message.CrossesSystem entities ↔ (a.isActor != b.isActor) = true := by
  rw [bne_iff_ne]
  constructor
  · rintro ⟨x, hx, y, hy, hactor, hparticipant, ⟨hxid, hyid⟩ | ⟨hyid, hxid⟩⟩
    · obtain rfl : a = x := Option.some.inj (ha.symm.trans (hsource.eq_some hx hxid))
      obtain rfl : b = y := Option.some.inj (hb.symm.trans (htarget.eq_some hy hyid))
      simp [Entity.isActor, hactor, hparticipant]
    · obtain rfl : a = y := Option.some.inj (ha.symm.trans (hsource.eq_some hy hyid))
      obtain rfl : b = x := Option.some.inj (hb.symm.trans (htarget.eq_some hx hxid))
      simp [Entity.isActor, hactor, hparticipant]
  · intro hne
    have hmema := List.mem_of_getElem? ha
    have hmemb := List.mem_of_getElem? hb
    have hida := hsource.id_eq ha
    have hidb := htarget.id_eq hb
    cases hkinda : a.kind with
    | actor =>
      cases hkindb : b.kind with
      | actor => simp [Entity.isActor, hkinda, hkindb] at hne
      | participant => exact ⟨a, hmema, b, hmemb, hkinda, hkindb, Or.inl ⟨hida, hidb⟩⟩
    | participant =>
      cases hkindb : b.kind with
      | actor => exact ⟨b, hmemb, a, hmema, hkindb, hkinda, Or.inr ⟨hida, hidb⟩⟩
      | participant => simp [Entity.isActor, hkinda, hkindb] at hne

/-- The text of a line tells whether its interaction is one between an actor and a participant. -/
theorem ReadsInteraction.isUserLevel_eq {line : String} {interaction : Interaction}
    (h : ReadsInteraction entities line interaction) :
    isUserLevelLine entities line = isUserLevel entities interaction := by
  cases h with
  | intro hmessage hsource htarget =>
    obtain ⟨a, ha, -⟩ := hsource.declared
    obtain ⟨b, hb, -⟩ := htarget.declared
    rw [isUserLevelLine, readMessage?_eq_some_iff.mpr hmessage, Option.any_some, Bool.eq_iff_iff,
      decide_eq_true_iff, Message.crossesSystem_iff hsource htarget ha hb]
    simp only [isUserLevel, ha, hb]

theorem countP_isUserLevelLine {lines : List String} {interactions : List Interaction}
    (h : List.Forall₂ (ReadsInteraction entities) lines interactions) :
    lines.countP (isUserLevelLine entities) = interactions.countP (isUserLevel entities) := by
  induction h with
  | nil => rfl
  | cons hread _ ih => rw [List.countP_cons, List.countP_cons, ih, hread.isUserLevel_eq]

end UserLevel

section Leading

variable {declared rest : List String} (hdeclared : ∀ line ∈ declared, isDeclaration line = true)

include hdeclared

theorem filter_isDeclaration (hrest : ∀ line ∈ rest, isDeclaration line = false) :
    (declared ++ rest).filter isDeclaration = declared := by
  have hnone : rest.filter isDeclaration = [] := by simpa using hrest
  rw [List.filter_append, List.filter_eq_self.mpr hdeclared, hnone, List.append_nil]

theorem filter_not_isDeclaration (hrest : ∀ line ∈ rest, isDeclaration line = false) :
    (declared ++ rest).filter (!isDeclaration ·) = rest := by
  have hnone : declared.filter (!isDeclaration ·) = [] := by simpa using hdeclared
  have hall : rest.filter (!isDeclaration ·) = rest := by simpa using hrest
  rw [List.filter_append, hnone, hall, List.nil_append]

theorem plainLines_of_declarations : plainLines (declared ++ rest) = plainLines rest := by
  have hnone : plainLines declared = [] := by
    rw [plainLines, List.filter_eq_nil_iff]
    intro line hline
    obtain ⟨k, hk, -⟩ := isDeclaration_eq_true_iff.mp (hdeclared line hline)
    simp [hk]
  rw [plainLines_append, hnone, List.nil_append]

theorem lineCount_of_declarations {k : Keyword} (hk : k.declaresEntity = false) :
    lineCount k (declared ++ rest) = lineCount k rest := by
  have hnone : lineCount k declared = 0 := by
    rw [lineCount, List.countP_eq_zero]
    intro line hline hkeyword
    obtain ⟨k', hk', hdeclares⟩ := isDeclaration_eq_true_iff.mp (hdeclared line hline)
    rw [hk', beq_iff_eq, Option.some.injEq] at hkeyword
    rw [← hkeyword, hdeclares] at hk
    contradiction
  rw [lineCount, List.countP_append]
  exact (congrArg (· + lineCount k rest) hnone).trans (Nat.zero_add _)

end Leading

theorem FlowLines.isDeclaration_eq_false {entities : List Entity} {budget : Nat}
    {lines : List String} {flow : Flow} (h : FlowLines entities budget lines flow) :
    ∀ line ∈ lines, isDeclaration line = false := by
  intro line hline
  rw [← Bool.not_eq_true, isDeclaration_eq_true_iff]
  rintro ⟨k, hk, hdeclares⟩
  have hcount := h.writesBlocks.declarations k hdeclares
  rw [lineCount, List.countP_eq_zero] at hcount
  exact hcount line hline (beq_iff_eq.mpr hk)

/-- Declarations and the lines of the flow behind them are all accounted for. -/
theorem Scenario.Accounts.of_flowLines {s : Scenario} {declared rest : List String} {limit : Nat}
    (hentities : List.Forall₂ (fun line e => parseEntity line = .ok e) declared s.entities)
    (hflow : FlowLines s.entities limit rest s.flow) : s.Accounts (declared ++ rest) := by
  have hdeclared := isDeclaration_of_forall₂ hentities
  have hrest := hflow.isDeclaration_eq_false
  have hinteractions := hflow.forall₂_plainLines
  have hblocks := hflow.writesBlocks
  have hcount {k : Keyword} (hk : k.declaresEntity = false) :
      lineCount k (declared ++ rest) = lineCount k rest :=
    lineCount_of_declarations hdeclared hk
  constructor
  case declarations =>
    rw [filter_isDeclaration hdeclared hrest]
    apply List.prefix_append
  case entities =>
    rw [filter_isDeclaration hdeclared hrest]
    exact hentities
  case interactions =>
    rw [plainLines_of_declarations hdeclared]
    exact hinteractions
  case keywords =>
    rw [filter_not_isDeclaration hdeclared hrest]
    exact hflow.filterMap_ofLine?
  case entityCount =>
    rw [filter_isDeclaration hdeclared hrest, hentities.length_eq]
    simp [Scenario.metrics, Metrics.of, countEntities, EntityFilter.accepts]
  case interactionCount =>
    rw [plainLines_of_declarations hdeclared, hinteractions.length_eq]
    rfl
  case userLevelCount =>
    rw [plainLines_of_declarations hdeclared, countP_isUserLevelLine hinteractions]
    rfl
  case loops => rw [hcount rfl, Flow.loopCount, hblocks.loops]
  case forks => rw [hcount rfl, Flow.forkCount, hblocks.forks]
  case branches => rw [hcount rfl, hcount rfl, Flow.branchCount, hblocks.branches]
  case ends => rw [hcount rfl, Flow.loopCount, Flow.forkCount, hblocks.ends]

/-- The lines of a document's diagram are accounted for in the scenario that is read from it. -/
theorem Scenario.accounts_of_parse {key : ScenarioKey} {document : String} {limit : Nat}
    {s : Scenario} (h : Scenario.parse key document limit = .ok s) :
    ∃ diagram, diagramLines document = .ok diagram ∧ s.Accounts (diagram.map (·.text)) := by
  obtain ⟨-, diagram, hdiagram, hentities, hflow⟩ := parse_eq_ok_iff.mp h
  obtain ⟨declared, rest, hlines, hdeclared, -⟩ := parseDeclarationsFrom_eq_ok_iff.mp hentities
  rw [hlines, ← hdeclared.length_eq, List.drop_left] at hflow
  refine ⟨diagram, hdiagram, ?_⟩
  rw [hlines]
  exact .of_flowLines hdeclared hflow

/-- A loop around a fork, of which one branch stays inside the system. -/
def nestedScenario : Scenario where
  key := ⟨"R", "U"⟩
  entities := [⟨"u", "User", .actor, true⟩, ⟨"s", "S", .participant, true⟩]
  flow := [.loop "l" [.fork [⟨"x", [.interaction ⟨0, 1, false, "a"⟩]⟩,
    ⟨"y", [.interaction ⟨1, 1, false, "b"⟩]⟩]]]

def nestedDocument : String :=
  "actor u AS User\nparticipant s AS S\n\nloop l\nalt x\nu->>s:a\nelse y\ns->>s:b\nend\nend"

theorem Scenario.accounts_of_nested_blocks :
    Scenario.parse ⟨"R", "U"⟩ nestedDocument = .ok nestedScenario ∧
    ∃ diagram, diagramLines nestedDocument = .ok diagram ∧
      nestedScenario.Accounts (diagram.map (·.text)) := by
  have hdiagram : diagramLines nestedDocument = .ok [⟨1, "actor u AS User"⟩,
      ⟨2, "participant s AS S"⟩, ⟨4, "loop l"⟩, ⟨5, "alt x"⟩, ⟨6, "u->>s:a"⟩, ⟨7, "else y"⟩,
      ⟨8, "s->>s:b"⟩, ⟨9, "end"⟩, ⟨10, "end"⟩] := rfl
  have huser : parseEntity "actor u AS User" = .ok ⟨"u", "User", .actor, true⟩ :=
    parseEntity_eq_ok_iff.mpr (by decide +kernel)
  have hsystem : parseEntity "participant s AS S" = .ok ⟨"s", "S", .participant, true⟩ :=
    parseEntity_eq_ok_iff.mpr (by decide +kernel)
  have hsteps : parseSequence nestedScenario.entities
      ["loop l", "alt x", "u->>s:a", "else y", "s->>s:b", "end", "end"] =
      .ok nestedScenario.flow := rfl
  have hread : Scenario.parse ⟨"R", "U"⟩ nestedDocument = .ok nestedScenario := by
    rw [parse_eq_ok_iff]
    refine ⟨rfl, _, hdiagram, ?_, (flowLines_of_parseSequence hsteps).2⟩
    rw [parseDeclarations, parseDeclarationsFrom_eq_ok_iff]
    exact ⟨["actor u AS User", "participant s AS S"], _, rfl,
      .cons huser (.cons hsystem .nil), by decide +kernel⟩
  exact ⟨hread, accounts_of_parse hread⟩

end UseCaseFlow
