/-!
# Lines of a text

A line ends at a line feed, and a carriage return right before the line feed belongs to the line
end. Text after the last line feed is a line of its own if it is not empty.
-/
namespace UseCaseFlow.Text

/-- A finished line, from its characters in reverse. -/
def closeLine : List Char → List Char
  | '\r' :: held => held.reverse
  | held => held.reverse

/-- Lines of the remaining text, where `held` is the open line in reverse. -/
def linesFrom : List Char → List Char → List (List Char)
  | [], [] => []
  | held, [] => [held.reverse]
  | held, '\n' :: rest => closeLine held :: linesFrom [] rest
  | held, c :: rest => linesFrom (c :: held) rest

def lines (cs : List Char) : List (List Char) :=
  linesFrom [] cs

@[simp] theorem lines_nil : lines [] = [] := rfl

end UseCaseFlow.Text
