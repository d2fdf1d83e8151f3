import UseCaseFlow.Report.Basic
/-!
# CSV reports

A header and one record for each row, each ended by a line feed. A key part that could be taken for
a separator, a quote or a line end is put in quotes, and quotes in it are doubled.
-/
namespace UseCaseFlow

def csvHeader : List String :=
  ["req", "ucid", "entities", "actors", "actors_explicit", "interactions", "pureinteractions",
    "consecutive"]

def needsQuotes (c : Char) : Bool :=
  c == ',' || c == '"' || c == '\n' || c == '\r'

def doubleQuote (c : Char) : List Char :=
  if c = '"' then ['"', '"'] else [c]

def csvField (value : String) : String :=
  if value.toList.any needsQuotes then
    String.ofList ('"' :: value.toList.flatMap doubleQuote ++ ['"'])
  else value

def ReportRow.csvFields (row : ReportRow) : List String :=
  [csvField row.key.req, csvField row.key.ucid, toString row.metrics.entities,
    toString row.metrics.actors, toString row.metrics.explicitActors,
    toString row.metrics.interactions, toString row.metrics.userLevel,
    toString row.metrics.consecutive]

def csvRecord (fields : List String) : String :=
  ",".intercalate fields

def Report.csvRecords (report : Report) : List String :=
  csvRecord csvHeader :: report.rows.map fun row => csvRecord row.csvFields

def Report.csv (report : Report) : String :=
  report.csvRecords.foldl (fun text record => text ++ record ++ "\n") ""

/-- Writes the report record by record, each with its line end. -/
def Report.writeCsv {m : Type → Type} [Monad m] (report : Report) (write : String → m Unit) :
    m Unit :=
  report.csvRecords.forM fun record => write (record ++ "\n")

end UseCaseFlow
