import Memoizer.Error
import Memoizer.Partition.Spans

namespace Memoizer

structure Block where
  span : Span
  insts : List (InstId × Inst)
  deps : List InstId

def Block.keys (block : Block) : List InstId := block.insts.map Prod.fst

inductive PartItem
  | pass (id : InstId)
  | block (b : Block)

def PartItem.ids : PartItem → List InstId
  | .pass id => [id]
  | .block b => b.span.ids

namespace Body

def isDeclare (b : Body) (id : InstId) : Bool := (b.op? id).any Op.isDeclare

/-- The block of a span. It depends on what its instructions read and are not themselves. -/
def blockOf (b : Body) (facts : SideTable Facts) (span : Span) : Block :=
  let insts := span.ids.filterMap fun id => (b.insts.get? id).map (id, ·)
  let reads := span.ids.flatMap fun id => (factsAt facts id).dependencies
  ⟨span, insts, IdSet.ofList (reads.filter fun d => !(insts.map Prod.fst).contains d)⟩

def spanItem (b : Body) (facts : SideTable Facts) (span : Span) : Except Error PartItem :=
  if span.ids.all (· < b.size) then
    -- A span that holds nothing but one declaration has nothing to memoize.
    if span.start == span.stop && b.isDeclare span.start then .ok (.pass span.start)
    else .ok (.block (b.blockOf facts span))
  else .error .fault

def passes (start stop : InstId) : List PartItem := (List.range' start (stop - start)).map .pass

/-- Goes through the body from `next`. The instructions in front of a span pass through; behind it
the walk goes on where the span stops, which may lie further back. It ends at the end of the body,
with spans left over or not. -/
def tile (b : Body) (facts : SideTable Facts) (next : InstId) : List Span → Except Error (List PartItem)
  | [] => .ok (passes next b.size)
  | span :: spans =>
    let front := passes next (min span.start b.size)
    if max next span.start < b.size then do
      let item ← b.spanItem facts span
      let items ← b.tile facts (span.stop + 1) spans
      .ok (front ++ item :: items)
    else .ok front

def partitionSpans (b : Body) (facts : SideTable Facts) (spans : List Span) : Except Error (List PartItem) :=
  b.tile facts 0 spans

def partition (b : Body) (facts : SideTable Facts) : Except Error (List PartItem) :=
  b.partitionSpans facts (mergedSpans facts)

end Body

end Memoizer
