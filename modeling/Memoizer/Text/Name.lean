namespace Memoizer.Text

def isNameChar (c : Char) : Bool :=
  c.isAlphanum || c == '_' || c == '$'

/-- A non-empty text of ASCII letters, digits, `_` and `$` that starts with no digit. -/
def isName (s : String) : Bool :=
  match s.toList with
  | [] => false
  | c :: rest => !c.isDigit && isNameChar c && rest.all isNameChar

end Memoizer.Text
