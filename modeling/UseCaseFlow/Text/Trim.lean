import UseCaseFlow.Text.Blank
/-!
# Trimming and first words

Text without the blanks around it, and the first run of characters that are not blank.
Trimmed text neither starts nor ends with a blank.
-/
namespace UseCaseFlow.Text

def trimStart (cs : List Char) : List Char :=
  cs.dropWhile isBlank

def trimEnd (cs : List Char) : List Char :=
  (cs.reverse.dropWhile isBlank).reverse

def trim (cs : List Char) : List Char :=
  trimEnd (trimStart cs)

/-- The first word of the text; empty if the text is blank. -/
def firstWord (cs : List Char) : List Char :=
  (trimStart cs).takeWhile fun c => !isBlank c

def trimmed (s : String) : String :=
  String.ofList (trim s.toList)

end UseCaseFlow.Text
