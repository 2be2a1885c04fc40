/-! Lines of a text, each ended by a line feed; the last one may lack it. -/
namespace Baby.Text

def linesOf : List Char → List Char → List (List Char)
  | [], [] => []
  | acc, [] => [acc.reverse]
  | acc, c :: cs => if c = '\n' then acc.reverse :: linesOf [] cs else linesOf (c :: acc) cs

def lines (s : String) : List String := (linesOf [] s.toList).map String.ofList

end Baby.Text
