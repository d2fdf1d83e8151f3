import Mathlib.Data.List.Forall2
import Mathlib.Data.List.TakeWhile
import UseCaseFlow.Proofs.Report.JsonReader
import UseCaseFlow.Report.Json

/-!
# Tokens of JSON texts

Which tokens a reader finds in the text of a string or a number, and between the characters that
separate them. Which value it then puts together from tokens, wherever a value may come.
-/

namespace UseCaseFlow

section Lexing

/-- From a gap, the characters add the tokens; the last of them may still be held as a word. -/
def Lexes (cs : List Char) (tokens : List JsonToken) : Prop :=
  ∀ before, ∃ r, JsonLexer.readAll ⟨before, .gap⟩ cs = some r ∧
    r.settled = some (before ++ tokens)

variable {a b : List Char} {before tokens ta tb marks : List JsonToken} {c : Char}

theorem JsonLexer.readAll_cons (r : JsonLexer) (c : Char) (cs : List Char) :
    r.readAll (c :: cs) = (r.read c).bind (·.readAll cs) :=
  List.foldlM_cons

theorem JsonLexer.readAll_append (r : JsonLexer) (left right : List Char) :
    r.readAll (left ++ right) = (r.readAll left).bind (·.readAll right) :=
  List.foldlM_append

theorem lexes_nil : Lexes [] [] := by
  intro before
  exact ⟨⟨before, .gap⟩, rfl, by simp [JsonLexer.settled]⟩

theorem JsonLexer.read_separator {r : JsonLexer} (h : r.settled = some tokens)
    (hc : separator? c = some marks) : r.read c = some ⟨tokens ++ marks, .gap⟩ := by
  have houtside : r.readOutside c = some ⟨tokens ++ marks, .gap⟩ := by
    simp [readOutside, hc, h]
  obtain ⟨before, state⟩ := r
  cases state with
  | gap => exact houtside
  | word held => exact houtside
  | text held stage => contradiction

theorem Lexes.separated (ha : Lexes a ta) (hc : separator? c = some marks) (hb : Lexes b tb) :
    Lexes (a ++ c :: b) (ta ++ (marks ++ tb)) := by
  intro before
  obtain ⟨r, hr, hsettled⟩ := ha before
  obtain ⟨r', hr', hsettled'⟩ := hb (before ++ ta ++ marks)
  refine ⟨r', ?_, ?_⟩
  · rw [JsonLexer.readAll_append, hr, Option.bind_some, JsonLexer.readAll_cons,
      JsonLexer.read_separator hsettled hc, Option.bind_some, hr']
  · rw [hsettled', List.append_assoc, List.append_assoc]

theorem Lexes.space (hb : Lexes b tb) (hc : separator? c = some []) : Lexes (c :: b) tb :=
  lexes_nil.separated hc hb

theorem Lexes.mark {t : JsonToken} (hb : Lexes b tb) (hc : separator? c = some [t]) :
    Lexes (c :: b) (t :: tb) :=
  lexes_nil.separated hc hb

theorem hexValue?_hexDigit {n : Nat} (h : n < 16) : hexValue? (hexDigit n) = some n := by
  have hall : ∀ k < 16, hexValue? (hexDigit k) = some k := by decide
  exact hall n h

theorem readUnit_of_lt {n : Nat} (h : n < 0xd800) :
    readUnit none n = some (some (Char.ofNat n), .plain) := by
  rw [readUnit, if_neg (by omega), if_neg (by omega)]

theorem JsonLexer.readAll_jsonChar (before : List JsonToken) (held : List Char) (c : Char) :
    JsonLexer.readAll ⟨before, .text held .plain⟩ (jsonChar c) =
      some ⟨before, .text (c :: held) .plain⟩ := by
  unfold jsonChar
  split
  case h_8 hquote hbackslash _ _ _ _ _ =>
    have hquote : c ≠ '"' := hquote
    have hbackslash : c ≠ '\\' := hbackslash
    by_cases hcontrol : c.toNat < 0x20
    · -- The two last digits of the code unit are the character's own value.
      have hzero : hexValue? '0' = some 0 := rfl
      have hhigh := hexValue?_hexDigit (n := c.toNat / 16) (by omega)
      have hlow := hexValue?_hexDigit (n := c.toNat % 16) (Nat.mod_lt _ (by decide))
      have hunit : 16 * (c.toNat / 16) + c.toNat % 16 = c.toNat := Nat.div_add_mod _ _
      have hread := readUnit_of_lt (Nat.lt_trans hcontrol (by decide : 0x20 < 0xd800))
      rw [if_pos hcontrol]
      simp [readAll, read, TextStage.read, hzero, hhigh, hlow, hunit, hread, Char.ofNat_toNat]
    · rw [if_neg hcontrol]
      simp [readAll, read, TextStage.read, hquote, hbackslash, hcontrol]
  -- The others have an escape of two characters, which the reader knows.
  all_goals rfl

theorem JsonLexer.readAll_flatMap_jsonChar (before : List JsonToken) (held value : List Char) :
    JsonLexer.readAll ⟨before, .text held .plain⟩ (value.flatMap jsonChar) =
      some ⟨before, .text (value.reverse ++ held) .plain⟩ := by
  induction value generalizing held with
  | nil => rfl
  | cons c value ih =>
    rw [List.flatMap_cons, readAll_append, readAll_jsonChar, Option.bind_some, ih,
      List.reverse_cons, List.append_assoc, List.singleton_append]

theorem lexes_jsonString (s : String) : Lexes (jsonString s).toList [.text s] := by
  intro before
  refine ⟨⟨before ++ [.text s], .gap⟩, ?_, rfl⟩
  have hopen : JsonLexer.read ⟨before, .gap⟩ '"' = some ⟨before, .text [] .plain⟩ := rfl
  rw [jsonString, String.toList_ofList, List.cons_append, JsonLexer.readAll_cons, hopen,
    Option.bind_some, JsonLexer.readAll_append, JsonLexer.readAll_flatMap_jsonChar,
    List.append_nil, Option.bind_some, JsonLexer.readAll_cons]
  simp [JsonLexer.read, JsonLexer.readAll]

theorem separator?_of_isDigit (h : c.isDigit = true) : separator? c = none ∧ c ≠ '"' := by
  constructor
  · unfold separator?
    split
    all_goals first | rfl | (exact absurd h (by decide))
  · rintro rfl
    exact absurd h (by decide)

theorem JsonLexer.readAll_digits (before : List JsonToken) (held : List Char) {digits : List Char}
    (h : ∀ c ∈ digits, c.isDigit = true) :
    JsonLexer.readAll ⟨before, .word held⟩ digits =
      some ⟨before, .word (digits.reverse ++ held)⟩ := by
  induction digits generalizing held with
  | nil => rfl
  | cons c digits ih =>
    rw [List.forall_mem_cons] at h
    obtain ⟨hc, hquote⟩ := separator?_of_isDigit h.1
    have hread : JsonLexer.read ⟨before, .word held⟩ c = some ⟨before, .word (c :: held)⟩ := by
      simp [read, readOutside, hc, hquote]
    rw [readAll_cons, hread, Option.bind_some, ih _ h.2, List.reverse_cons, List.append_assoc,
      List.singleton_append]

end Lexing

section Numbers

theorem isDigit_of_mem_toDigits {n : Nat} : ∀ c ∈ Nat.toDigits 10 n, c.isDigit = true :=
  fun _ hc => Nat.isDigit_of_mem_toDigits (by decide) (by decide) hc

theorem toDigits_eq_of_head? {n : Nat} (h : (Nat.toDigits 10 n).head? = some '0') :
    Nat.toDigits 10 n = ['0'] := by
  induction n using Nat.strongRecOn with
  | ind n ih =>
    by_cases hn : n < 10
    · rw [Nat.toDigits_of_lt_base hn] at h ⊢
      obtain h := Option.some.inj h
      rw [h]
    · have hdigits := Nat.toDigits_of_base_le (b := 10) (by decide) (Nat.le_of_not_lt hn)
      rw [hdigits, List.head?_append_of_ne_nil _ Nat.toDigits_ne_nil] at h
      have hvalue := Nat.ofDigitChars_ten_toDigits (n := n / 10)
      rw [ih (n / 10) (by omega) h] at hvalue
      have hzero : Nat.ofDigitChars 10 ['0'] 0 = 0 := rfl
      omega

theorem readDigits?_of_forall {digits : List Char} (hne : digits ≠ [])
    (h : ∀ c ∈ digits, c.isDigit = true) : readDigits? digits = some (digits, []) := by
  rw [readDigits?, List.takeWhile_eq_self_iff.mpr h, List.dropWhile_eq_nil_iff.mpr h]
  cases digits with
  | nil => contradiction
  | cons c rest => rfl

theorem readScalar?_toDigits (n : Nat) :
    readScalar? (Nat.toDigits 10 n) = some (.number n 0) := by
  have hdigits := isDigit_of_mem_toDigits (n := n)
  have hread := readDigits?_of_forall Nat.toDigits_ne_nil hdigits
  have hzeros := toDigits_eq_of_head? (n := n)
  have hvalue := Nat.ofDigitChars_ten_toDigits (n := n)
  generalize Nat.toDigits 10 n = digits at *
  have hother (c : Char) (hc : c.isDigit = false) (rest : List Char) : digits ≠ c :: rest := by
    rintro rfl
    simp [hdigits] at hc
  have hnumber : readNumber? digits = readUnsigned? false digits := by
    unfold readNumber?
    split
    · exact absurd rfl (hother _ rfl _)
    · rfl
  have hplain : ¬ (digits.head? = some '0' ∧ digits ≠ ['0']) := fun h => h.2 (hzeros h.1)
  rw [readScalar?, if_neg (hother _ rfl _), if_neg (hother _ rfl _), if_neg (hother _ rfl _),
    hnumber, readUnsigned?, hread]
  simp [hplain, readFraction?, readExponent?, signedValue, hvalue]

theorem lexes_toString (n : Nat) : Lexes (toString n).toList [.scalar (.number n 0)] := by
  intro before
  rw [Nat.toString_eq_ofList_toDigits, String.toList_ofList]
  have hscalar := readScalar?_toDigits n
  have hdigits := isDigit_of_mem_toDigits (n := n)
  cases hn : Nat.toDigits 10 n with
  | nil => exact absurd hn Nat.toDigits_ne_nil
  | cons c rest =>
    rw [hn] at hscalar hdigits
    rw [List.forall_mem_cons] at hdigits
    obtain ⟨hc, hquote⟩ := separator?_of_isDigit hdigits.1
    have hread : JsonLexer.read ⟨before, .gap⟩ c = some ⟨before, .word [c]⟩ := by
      simp [JsonLexer.read, JsonLexer.readOutside, hc, hquote]
    refine ⟨⟨before, .word (rest.reverse ++ [c])⟩, ?_, ?_⟩
    · rw [JsonLexer.readAll_cons, hread, Option.bind_some, JsonLexer.readAll_digits _ _ hdigits.2]
    · simp [JsonLexer.settled, hscalar]

end Numbers

section Parsing

def Phase.Open (phase : Phase) : Prop :=
  phase = .value ∨ phase = .firstItem

/-- Wherever a value may come, the tokens put this one there. -/
def ReadsAs (tokens : List JsonToken) (v : Json) : Prop :=
  ∀ frames phase rest, Phase.Open phase → JsonParser.readAll ⟨frames, phase⟩ (tokens ++ rest) =
    (JsonParser.put v frames).bind (·.readAll rest)

variable {tokens : List JsonToken} {v : Json}

theorem JsonParser.readAll_cons (p : JsonParser) (t : JsonToken) (tokens : List JsonToken) :
    p.readAll (t :: tokens) = (p.read t).bind (·.readAll tokens) :=
  List.foldlM_cons

theorem readsAs_scalar (v : Json) : ReadsAs [.scalar v] v := by
  rintro frames phase rest (rfl | rfl) <;> rfl

theorem readsAs_text (s : String) : ReadsAs [.text s] (.string s) := by
  rintro frames phase rest (rfl | rfl) <;> rfl

/-- How arrays or objects are read: what opens and closes them, what is put into their frame, and
where an entry of them may start. -/
structure ReadsEntries {α : Type} (opener closer : JsonToken) (frame : List α → Frame)
    (value : List α → Json) (start : Phase → Prop) (reads : List JsonToken → α → Prop) : Prop where
  /-- Right behind the opener an entry or the closer may come. -/
  opens (frames : List Frame) (phase : Phase) (h : phase.Open) : ∃ first, start first ∧
    JsonParser.read ⟨frames, phase⟩ opener = some ⟨frame [] :: frames, first⟩ ∧
    JsonParser.read ⟨frame [] :: frames, first⟩ closer = JsonParser.put (value []) frames
  entry (tokens : List JsonToken) (x : α) (held : List α) (outer : List Frame) (phase : Phase)
    (rest : List JsonToken) (h : reads tokens x) (hphase : start phase) :
    JsonParser.readAll ⟨frame held :: outer, phase⟩ (tokens ++ rest) =
      JsonParser.readAll ⟨frame (held ++ [x]) :: outer, .next⟩ rest
  /-- Behind a comma an entry has to come. -/
  comma (held : List α) (outer : List Frame) : ∃ again, start again ∧
    JsonParser.read ⟨frame held :: outer, .next⟩ .comma = some ⟨frame held :: outer, again⟩
  closes (held : List α) (outer : List Frame) :
    JsonParser.read ⟨frame held :: outer, .next⟩ closer = JsonParser.put (value held) outer

section Entries

variable {α : Type} {opener closer : JsonToken} {frame : List α → Frame} {value : List α → Json}
  {start : Phase → Prop} {reads : List JsonToken → α → Prop} {entries : List (List JsonToken)}
  {xs : List α}

/-- Entries that are separated by commas are put into the frame one after the other. -/
theorem ReadsEntries.readAll (hreads : ReadsEntries opener closer frame value start reads)
    (h : List.Forall₂ reads entries xs) (hne : entries ≠ []) (held : List α) (outer : List Frame)
    {phase : Phase} (hphase : start phase) (rest : List JsonToken) :
    JsonParser.readAll ⟨frame held :: outer, phase⟩
        ([JsonToken.comma].intercalate entries ++ rest) =
      JsonParser.readAll ⟨frame (held ++ xs) :: outer, .next⟩ rest := by
  induction h generalizing held phase with
  | nil => contradiction
  | @cons tokens x entries xs hfirst hrest ih =>
    cases hrest with
    | nil => rw [List.intercalate_singleton, hreads.entry _ _ _ _ _ _ hfirst hphase]
    | cons hnext hlater =>
      obtain ⟨again, hagain, hcomma⟩ := hreads.comma (held ++ [x]) outer
      rw [List.intercalate_cons_cons, List.append_assoc, List.append_assoc,
        hreads.entry _ _ _ _ _ _ hfirst hphase, List.singleton_append, JsonParser.readAll_cons,
        hcomma, Option.bind_some, ih (List.cons_ne_nil _ _) _ hagain, List.append_assoc,
        List.singleton_append]

theorem ReadsEntries.readsAs (hreads : ReadsEntries opener closer frame value start reads)
    (h : List.Forall₂ reads entries xs) :
    ReadsAs (opener :: ([JsonToken.comma].intercalate entries ++ [closer])) (value xs) := by
  intro frames phase rest hphase
  obtain ⟨first, hfirst, hopen, hempty⟩ := hreads.opens frames phase hphase
  rw [List.cons_append, JsonParser.readAll_cons, hopen, Option.bind_some, List.append_assoc]
  cases h with
  | nil => rw [List.intercalate_nil, List.nil_append, List.singleton_append,
      JsonParser.readAll_cons, hempty]
  | cons hentry hentries =>
    rw [hreads.readAll (.cons hentry hentries) (List.cons_ne_nil _ _) [] frames hfirst,
      List.singleton_append, JsonParser.readAll_cons, hreads.closes, List.nil_append]

end Entries

theorem readsEntries_array :
    ReadsEntries .openArray .closeArray .array .array Phase.Open ReadsAs where
  opens := by
    rintro frames phase (rfl | rfl)
    · exact ⟨.firstItem, Or.inr rfl, rfl, rfl⟩
    · exact ⟨.firstItem, Or.inr rfl, rfl, rfl⟩
  entry _ _ held outer phase rest h hphase := h (.array held :: outer) phase rest hphase
  comma _ _ := ⟨.value, Or.inl rfl, rfl⟩
  closes _ _ := rfl

/-- The tokens of a member with that name and value. -/
def ReadsAsMember (tokens : List JsonToken) (member : String × Json) : Prop :=
  ∃ inner, tokens = .text member.1 :: .colon :: inner ∧ ReadsAs inner member.2

theorem readsEntries_object : ReadsEntries .openObject .closeObject .object .object
    (fun phase => phase = .name ∨ phase = .firstName) ReadsAsMember where
  opens := by
    rintro frames phase (rfl | rfl)
    · exact ⟨.firstName, Or.inr rfl, rfl, rfl⟩
    · exact ⟨.firstName, Or.inr rfl, rfl, rfl⟩
  entry := by
    rintro tokens ⟨name, v⟩ held outer phase rest ⟨inner, rfl, hinner⟩ hphase
    have hvalue := hinner (.member held name :: outer) .value rest (Or.inl rfl)
    rcases hphase with rfl | rfl
    · exact hvalue
    · exact hvalue
  comma _ _ := ⟨.name, Or.inl rfl, rfl⟩
  closes _ _ := rfl

theorem readAll_of_readsAs (h : ReadsAs tokens v) :
    (JsonParser.readAll ⟨[], .value⟩ tokens).bind JsonParser.value? = some v := by
  have hread := h [] .value [] (Or.inl rfl)
  rw [List.append_nil] at hread
  rw [hread]
  rfl

end Parsing

end UseCaseFlow
