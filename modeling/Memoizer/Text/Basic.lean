namespace Memoizer.Text

def join (sep : String) : List String → String
  | [] => ""
  | [s] => s
  | s :: t :: rest => s ++ sep ++ join sep (t :: rest)

def startsWith (start s : String) : Bool :=
  start.toList.isPrefixOf s.toList

def occursIn (part : List Char) : List Char → Bool
  | [] => part.isEmpty
  | c :: rest => part.isPrefixOf (c :: rest) || occursIn part rest

def parens (s : String) : String :=
  "(" ++ s ++ ")"

def brackets (s : String) : String :=
  "[" ++ s ++ "]"

/-- The parts between braces, separated by commas; nothing between them if there is none. -/
def braces : List String → String
  | [] => "\x7b\x7d"
  | parts => "\x7b " ++ join ", " parts ++ " \x7d"

def parensIf (wrap : Bool) (s : String) : String :=
  if wrap then parens s else s

end Memoizer.Text
