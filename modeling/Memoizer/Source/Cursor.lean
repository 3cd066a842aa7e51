import Memoizer.Source.Token

namespace Memoizer.Source

/-- A point of a text, by what follows it and how many characters that is. -/
structure Mark where
  text : List Char
  left : Nat

def Mark.drop (m : Mark) (n : Nat) : Mark := ⟨m.text.drop n, m.left - n⟩

def Mark.slice (m : Mark) (left : Nat) : String := String.ofList (m.text.take (m.left - left))

/-- A token with the marks in front of it and behind it, whether a line ends in front of it, and how much text is left
behind the token before. -/
structure Cursor where
  token : Token
  here : Mark
  next : Mark
  newline : Bool
  behind : Nat

def Cursor.at (m : Mark) : Cursor :=
  match skipBlanks .code false 0 m.text with
  | none => ⟨.invalid, m, m, false, m.left⟩
  | some (newline, taken) =>
    let here := m.drop taken
    let (token, size) := lex here.text
    ⟨token, here, here.drop size, newline, m.left⟩

def Cursor.advance (c : Cursor) : Cursor := Cursor.at c.next

def Cursor.isPunct (c : Cursor) (p : String) : Bool := c.token == .punct p

def Cursor.isWord (c : Cursor) (w : String) : Bool := c.token == .name w false

def Cursor.isName (c : Cursor) : Bool :=
  match c.token with
  | .name .. => true
  | _ => false

end Memoizer.Source
