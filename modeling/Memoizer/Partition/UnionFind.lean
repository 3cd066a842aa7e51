namespace Memoizer

structure UnionFind where
  parent : Array Nat
  rank : Array Nat

namespace UnionFind

def ofSize (n : Nat) : UnionFind := ⟨Array.range n, Array.replicate n 0⟩

def size (u : UnionFind) : Nat := u.parent.size

def parentOf (parent : Array Nat) (x : Nat) : Nat := parent.getD x x

def climb (parent : Array Nat) : Nat → Nat → Nat
  | 0, x => x
  | fuel + 1, x => if parentOf parent x = x then x else climb parent fuel (parentOf parent x)

/-- The representative of the class of `x`. A path has no more steps than there are elements. -/
def root (u : UnionFind) (x : Nat) : Nat := climb u.parent u.size x

def compress (root : Nat) : Nat → Array Nat → Nat → Array Nat
  | 0, parent, _ => parent
  | fuel + 1, parent, x =>
    if x = root then parent else compress root fuel (parent.setIfInBounds x root) (parentOf parent x)

def find (u : UnionFind) (x : Nat) : Nat × UnionFind :=
  let r := u.root x
  (r, { u with parent := compress r u.size u.parent x })

def link (u : UnionFind) (a b : Nat) : UnionFind :=
  if a = b then u
  else if u.rank.getD a 0 < u.rank.getD b 0 then { u with parent := u.parent.setIfInBounds a b }
  else
    { parent := u.parent.setIfInBounds b a
      rank := if u.rank.getD a 0 = u.rank.getD b 0 then u.rank.setIfInBounds a (u.rank.getD a 0 + 1) else u.rank }

def union (u : UnionFind) (a b : Nat) : UnionFind :=
  let (ra, u) := u.find a
  let (rb, u) := u.find b
  u.link ra rb

def findAll (u : UnionFind) : List Nat → List Nat
  | [] => []
  | x :: xs =>
    let (r, u) := u.find x
    r :: findAll u xs

end UnionFind

end Memoizer
