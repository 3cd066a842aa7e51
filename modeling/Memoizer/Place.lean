namespace Memoizer

structure Place where
  file : String
  line : Nat
  col : Nat
deriving DecidableEq

/-- Line and column in four bytes each. There is no place where the column, one more than the characters in front, does
not fit. -/
def Place.ofCounts (file : String) (line chars : Nat) : Option Place :=
  if chars % 4294967296 + 1 < 4294967296 then some ⟨file, line % 4294967296, chars % 4294967296 + 1⟩ else none

def Place.text (p : Place) : String :=
  p.file ++ ":" ++ toString p.line ++ ":" ++ toString p.col

end Memoizer
