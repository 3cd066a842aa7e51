import Memoizer.Place

namespace Memoizer

def byteLength : List Char → Nat
  | [] => 0
  | c :: cs => c.utf8Size + byteLength cs

@[simp] theorem byteLength_append (cs ds : List Char) : byteLength (cs ++ ds) = byteLength cs + byteLength ds := by
  induction cs with
  | nil => simp [byteLength]
  | cons c cs ih => simp [byteLength, ih, Nat.add_assoc]

def dropBytes : Nat → List Char → List Char
  | _, [] => []
  | n, c :: cs => if n = 0 then c :: cs else dropBytes (n - c.utf8Size) cs

def takeBytes : Nat → List Char → List Char
  | _, [] => []
  | n, c :: cs => if n = 0 then [] else c :: takeBytes (n - c.utf8Size) cs

def lineStartsFrom (offset : Nat) : List Char → List Nat
  | [] => []
  | c :: cs =>
    let next := offset + c.utf8Size
    if c = '\n' then next :: lineStartsFrom next cs else lineStartsFrom next cs

structure SourceText where
  file : String
  text : List Char
  lineStarts : List Nat

namespace SourceText

def ofString (file source : String) : SourceText :=
  ⟨file, source.toList, 0 :: lineStartsFrom 0 source.toList⟩

/-- The line is the last one that starts at or before the offset; the column counts the characters
from there. -/
def placeAt (s : SourceText) (offset : Nat) : Option Place :=
  let line := (s.lineStarts.takeWhile (· ≤ offset)).length
  let start := s.lineStarts.getD (line - 1) 0
  Place.ofCounts s.file line (takeBytes (offset - start) (dropBytes start s.text)).length

end SourceText

end Memoizer
