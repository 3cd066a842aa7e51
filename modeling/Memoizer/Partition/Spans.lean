import Memoizer.Facts
import Memoizer.Partition.UnionFind

namespace Memoizer

structure Span where
  start : InstId
  stop : InstId
deriving DecidableEq

namespace Span

def size (s : Span) : Nat := s.stop + 1 - s.start

def ids (s : Span) : List InstId := List.range' s.start s.size

def contains (s : Span) (id : InstId) : Bool := s.start ≤ id && id ≤ s.stop

def le (s t : Span) : Bool := s.start < t.start || (s.start == t.start && s.stop ≤ t.stop)

/-- Spans in ascending order with those that overlap or share an end joined into `last`. -/
def mergeFrom (last : Span) : List Span → List Span
  | [] => [last]
  | s :: spans =>
    if s.start ≤ last.stop then mergeFrom ⟨last.start, max last.stop s.stop⟩ spans
    else last :: mergeFrom s spans

def merge : List Span → List Span
  | [] => []
  | s :: spans => mergeFrom s spans

end Span

def groups (facts : SideTable Facts) : UnionFind :=
  facts.zipIdx.foldl
    (fun u p => if p.1.memo then p.1.mutators.foldl (fun u m => u.union p.2 m) u else u)
    (UnionFind.ofSize facts.length)

def hull? : List InstId → Option Span
  | first :: second :: rest => some ⟨first, (second :: rest).getLastD second⟩
  | _ => none

def membersOf (roots : List Nat) (root : Nat) : List InstId :=
  (roots.zipIdx.filter (·.1 == root)).map (·.2)

def hulls (roots : List Nat) : List Span :=
  (List.range roots.length).filterMap fun r => hull? (membersOf roots r)

/-- A value worth memoizing has to stay together with the calls that may mutate it, and with all that lies between. -/
def mergedSpans (facts : SideTable Facts) : List Span :=
  let roots := (groups facts).findAll (List.range facts.length)
  Span.merge ((hulls roots).mergeSort Span.le)

end Memoizer
