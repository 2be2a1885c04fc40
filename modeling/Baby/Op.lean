/-! The operators, with one canonical spelling each. -/
namespace Baby

inductive Op where
  | add | sub | mul | div
  | gt | lt | ge | le
  | identical | notIdentical | equal | notEqual
  | and | or | not
  | assign | assignRef | assignVal
  deriving DecidableEq, Repr

namespace Op

def text : Op → String
  | add => "+" | sub => "-" | mul => "*" | div => "/"
  | gt => ">" | lt => "<" | ge => ">=" | le => "<="
  | identical => "=&=" | notIdentical => "!&=" | equal => "=*=" | notEqual => "!*="
  | and => "&" | or => "|" | not => "!"
  | assign => "=" | assignRef => "=&" | assignVal => "=*"

end Op
end Baby
