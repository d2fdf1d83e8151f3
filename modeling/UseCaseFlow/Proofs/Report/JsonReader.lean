/-!
# Reading JSON

A reader for JSON texts, which knows nothing of reports. The characters are taken one by one and
give tokens, and the tokens give a value, with the arrays and objects that are not closed yet on a
stack.
-/

namespace UseCaseFlow

/-- A JSON value. A number is the mantissa times ten to the exponent, and the members of an object
keep their order. -/
inductive Json where
  | null
  | bool (b : Bool)
  | number (mantissa exponent : Int)
  | string (s : String)
  | array (items : List Json)
  | object (members : List (String × Json))

section Scalars

/-- One digit or more, and what follows them. -/
def readDigits? (cs : List Char) : Option (List Char × List Char) :=
  match cs.takeWhile Char.isDigit with
  | [] => none
  | digits => some (digits, cs.dropWhile Char.isDigit)

def readFraction? : List Char → Option (List Char × List Char)
  | '.' :: rest => readDigits? rest
  | rest => some ([], rest)

def signedValue (negative : Bool) (digits : List Char) : Int :=
  let n : Int := Nat.ofDigitChars 10 digits 0
  if negative then -n else n

/-- Digits and nothing behind them. -/
def readPower? (negative : Bool) (cs : List Char) : Option Int :=
  match readDigits? cs with
  | some (digits, []) => some (signedValue negative digits)
  | _ => none

def readExponent? : List Char → Option Int
  | [] => some 0
  | mark :: sign :: rest =>
    if mark = 'e' ∨ mark = 'E' then
      if sign = '-' then readPower? true rest
      else if sign = '+' then readPower? false rest
      else readPower? false (sign :: rest)
    else none
  | _ => none

/-- A number behind its sign. It has no needless zeros in front. -/
def readUnsigned? (negative : Bool) (cs : List Char) : Option Json := do
  let (whole, cs) ← readDigits? cs
  if whole.head? = some '0' ∧ whole ≠ ['0'] then none
  let (fraction, cs) ← readFraction? cs
  let exponent ← readExponent? cs
  return .number (signedValue negative (whole ++ fraction)) (exponent - fraction.length)

def readNumber? (cs : List Char) : Option Json :=
  match cs with
  | '-' :: rest => readUnsigned? true rest
  | _ => readUnsigned? false cs

def readScalar? (cs : List Char) : Option Json :=
  if cs = ['n', 'u', 'l', 'l'] then some .null
  else if cs = ['t', 'r', 'u', 'e'] then some (.bool true)
  else if cs = ['f', 'a', 'l', 's', 'e'] then some (.bool false)
  else readNumber? cs

end Scalars

section Tokens

inductive JsonToken where
  | openArray
  | closeArray
  | openObject
  | closeObject
  | colon
  | comma
  | text (s : String)
  | scalar (v : Json)

/-- Where the reader stands in a string. After the first half of a surrogate pair the second one has
to follow. -/
inductive TextStage where
  | plain
  | escape (high : Option Nat)
  | code (high : Option Nat) (digits : List Nat)
  | pair (high : Nat)
  deriving DecidableEq

def hexValue? (c : Char) : Option Nat :=
  if '0' ≤ c ∧ c ≤ '9' then some (c.toNat - '0'.toNat)
  else if 'a' ≤ c ∧ c ≤ 'f' then some (c.toNat - 'a'.toNat + 10)
  else if 'A' ≤ c ∧ c ≤ 'F' then some (c.toNat - 'A'.toNat + 10)
  else none

def escaped? : Char → Option Char
  | '"' => some '"'
  | '\\' => some '\\'
  | '/' => some '/'
  | 'b' => some '\x08'
  | 'f' => some '\x0c'
  | 'n' => some '\n'
  | 'r' => some '\r'
  | 't' => some '\t'
  | _ => none

/-- What four hexadecimal digits stand for: a character, or one half of a surrogate pair. -/
def readUnit (high : Option Nat) (unit : Nat) : Option (Option Char × TextStage) :=
  match high with
  | none =>
    if 0xd800 ≤ unit ∧ unit < 0xdc00 then some (none, .pair unit)
    else if 0xdc00 ≤ unit ∧ unit < 0xe000 then none
    else some (some (Char.ofNat unit), .plain)
  | some high =>
    if 0xdc00 ≤ unit ∧ unit < 0xe000 then
      some (some (Char.ofNat (0x10000 + (high - 0xd800) * 0x400 + (unit - 0xdc00))), .plain)
    else none

/-- Reads one character of a string, which may complete a character of the text. -/
def TextStage.read (stage : TextStage) (c : Char) : Option (Option Char × TextStage) :=
  match stage with
  | .plain =>
    if c = '\\' then some (none, .escape none)
    else if c.toNat < 0x20 then none
    else some (some c, .plain)
  | .escape none =>
    if c = 'u' then some (none, .code none [])
    else (escaped? c).map fun c => (some c, .plain)
  | .escape (some high) => if c = 'u' then some (none, .code (some high) []) else none
  | .code high digits => do
    let digit ← hexValue? c
    if digits.length < 3 then return (none, .code high (digits ++ [digit]))
    readUnit high ((digits ++ [digit]).foldl (16 * · + ·) 0)
  | .pair high => if c = '\\' then some (none, .escape (some high)) else none

/-- Where the reader stands. What it holds of a word or a string is held in reverse. -/
inductive LexState where
  | gap
  | word (held : List Char)
  | text (held : List Char) (stage : TextStage)

structure JsonLexer where
  tokens : List JsonToken
  state : LexState

/-- The tokens that a character stands for outside of strings, if it separates words. -/
def separator? : Char → Option (List JsonToken)
  | ' ' | '\t' | '\n' | '\r' => some []
  | '[' => some [.openArray]
  | ']' => some [.closeArray]
  | '\x7b' => some [.openObject]
  | '\x7d' => some [.closeObject]
  | ':' => some [.colon]
  | ',' => some [.comma]
  | _ => none

/-- The tokens so far, if one may end here. -/
def JsonLexer.settled (r : JsonLexer) : Option (List JsonToken) :=
  match r.state with
  | .gap => some r.tokens
  | .word held => (readScalar? held.reverse).map fun v => r.tokens ++ [.scalar v]
  | .text _ _ => none

def JsonLexer.readOutside (r : JsonLexer) (c : Char) : Option JsonLexer :=
  match separator? c, r.state with
  | some marks, _ => r.settled.map fun tokens => ⟨tokens ++ marks, .gap⟩
  | none, state =>
    if c = '"' then r.settled.map fun tokens => ⟨tokens, .text [] .plain⟩
    else match state with
      | .word held => some { r with state := .word (c :: held) }
      | _ => some { r with state := .word [c] }

def JsonLexer.read (r : JsonLexer) (c : Char) : Option JsonLexer :=
  match r.state with
  | .text held stage =>
    if stage = .plain ∧ c = '"' then some ⟨r.tokens ++ [.text (String.ofList held.reverse)], .gap⟩
    else (stage.read c).map fun (completed, stage) =>
      { r with state := .text (completed.toList ++ held) stage }
  | _ => r.readOutside c

def JsonLexer.readAll (r : JsonLexer) (cs : List Char) : Option JsonLexer :=
  cs.foldlM JsonLexer.read r

end Tokens

section Values

/-- An array or object that is not closed, or an object whose last member has no value yet. -/
inductive Frame where
  | array (items : List Json)
  | object (members : List (String × Json))
  | member (members : List (String × Json)) (name : String)

/-- What has to come next. -/
inductive Phase where
  | value
  | firstItem
  | firstName
  | name
  | colon
  | next
  | done (v : Json)

structure JsonParser where
  frames : List Frame
  phase : Phase

/-- Puts a value where one had to come. -/
def JsonParser.put (v : Json) : List Frame → Option JsonParser
  | [] => some ⟨[], .done v⟩
  | .array items :: outer => some ⟨.array (items ++ [v]) :: outer, .next⟩
  | .member members name :: outer => some ⟨.object (members ++ [(name, v)]) :: outer, .next⟩
  | .object _ :: _ => none

def JsonParser.startValue (frames : List Frame) : JsonToken → Option JsonParser
  | .scalar v => put v frames
  | .text s => put (.string s) frames
  | .openArray => some ⟨.array [] :: frames, .firstItem⟩
  | .openObject => some ⟨.object [] :: frames, .firstName⟩
  | _ => none

def JsonParser.startMember : List Frame → JsonToken → Option JsonParser
  | .object members :: outer, .text name => some ⟨.member members name :: outer, .colon⟩
  | _, _ => none

def JsonParser.close : List Frame → JsonToken → Option JsonParser
  | .array items :: outer, .closeArray => put (.array items) outer
  | .object members :: outer, .closeObject => put (.object members) outer
  | _, _ => none

def JsonParser.read (p : JsonParser) (t : JsonToken) : Option JsonParser :=
  match p.phase, t with
  | .firstItem, .closeArray | .firstName, .closeObject => close p.frames t
  | .value, t | .firstItem, t => startValue p.frames t
  | .name, t | .firstName, t => startMember p.frames t
  | .colon, .colon => some ⟨p.frames, .value⟩
  | .next, .comma =>
    match p.frames with
    | .array items :: outer => some ⟨.array items :: outer, .value⟩
    | .object members :: outer => some ⟨.object members :: outer, .name⟩
    | _ => none
  | .next, t => close p.frames t
  | _, _ => none

def JsonParser.readAll (p : JsonParser) (tokens : List JsonToken) : Option JsonParser :=
  tokens.foldlM JsonParser.read p

def JsonParser.value? (p : JsonParser) : Option Json :=
  match p.phase with
  | .done v => some v
  | _ => none

end Values

/-- The value of a JSON text; none if the text is none. -/
def readJson (text : String) : Option Json := do
  let lexer ← JsonLexer.readAll ⟨[], .gap⟩ text.toList
  let tokens ← lexer.settled
  let parser ← JsonParser.readAll ⟨[], .value⟩ tokens
  parser.value?

example : readJson " [-12.5e3, \"\\ud83d\\ude00\\/\", true,[ ] ]" = some (.array [.number (-125) 2,
    .string (String.ofList [Char.ofNat 0x1f600, '/']), .bool true, .array []]) := rfl

example : readJson "01" = none ∧ readJson "[1,]" = none ∧ readJson "[1\x7d" = none ∧
    readJson "\"\n\"" = none := ⟨rfl, rfl, rfl, rfl⟩

end UseCaseFlow
