import UseCaseFlow.Report.Basic
/-!
# JSON reports

The rows as an array of objects, indented by two spaces. Strings escape quotes, backslashes and the
characters below the space; all others are written as they are.
-/
namespace UseCaseFlow

/-- The digit of a value below 16, in lower case. -/
def hexDigit (n : Nat) : Char :=
  if n < 10 then Char.ofNat ('0'.toNat + n) else Char.ofNat ('a'.toNat + (n - 10))

def jsonChar (c : Char) : List Char :=
  match c with
  | '"' => ['\\', '"']
  | '\\' => ['\\', '\\']
  | '\x08' => ['\\', 'b']
  | '\x0c' => ['\\', 'f']
  | '\n' => ['\\', 'n']
  | '\r' => ['\\', 'r']
  | '\t' => ['\\', 't']
  | _ =>
    if c.toNat < 0x20 then
      ['\\', 'u', '0', '0', hexDigit (c.toNat / 16), hexDigit (c.toNat % 16)]
    else [c]

def jsonString (s : String) : String :=
  String.ofList ('"' :: s.toList.flatMap jsonChar ++ ['"'])

/-- The members of a row's object: names and values as they are written. -/
def ReportRow.jsonMembers (row : ReportRow) : List (String × String) :=
  [("req", jsonString row.key.req), ("ucid", jsonString row.key.ucid),
    ("entities", toString row.metrics.entities),
    ("actors", toString row.metrics.actors),
    ("explicit", toString row.metrics.explicit),
    ("actors_explicit", toString row.metrics.explicitActors),
    ("interactions", toString row.metrics.interactions),
    ("user_level_interactions", toString row.metrics.userLevel),
    ("consecutive_interactions", toString row.metrics.consecutive)]

def jsonMember (member : String × String) : String :=
  "    " ++ jsonString member.1 ++ ": " ++ member.2

def ReportRow.json (row : ReportRow) : String :=
  "  \x7b\n" ++ ",\n".intercalate (row.jsonMembers.map jsonMember) ++ "\n  \x7d"

def Report.json (report : Report) : String :=
  if report.rows.isEmpty then "[]"
  else "[\n" ++ ",\n".intercalate (report.rows.map ReportRow.json) ++ "\n]"

end UseCaseFlow
