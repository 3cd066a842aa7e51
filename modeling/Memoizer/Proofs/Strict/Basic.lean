import Memoizer.Compile

namespace Memoizer.Strict

-- Here every id is looked up for real, every recursion counts its steps, and what the program counts in one or four
-- bytes has to fit there; `none` is a run that goes wrong.

def valuePath (b : Body) : Nat → InstId → Option (Option String)
  | 0, _ => none
  | steps + 1, id => do
    match ← b.op? id with
    | .param name => some (some name)
    | .declare _ _ name _ => some (some name)
    | .constant (.global name) => some (some name)
    | .read object property =>
      let base ← valuePath b steps object
      some (base.map (· ++ "." ++ property.name))
    | _ => some none

def pathRoot (b : Body) : Nat → InstId → Option InstId
  | 0, _ => none
  | steps + 1, id => do
    match ← b.op? id with
    | .read object _ => pathRoot b steps object
    | _ => some id

def calleeName (b : Body) (steps : Nat) (receiver : InstId) (property : Option Property) :
    Option (Option String) := do
  match ← valuePath b steps receiver, property with
  | some base, some p => some (some (base ++ "." ++ p.name))
  | some base, none => some (some base)
  | none, some p => some (some p.name)
  | none, none => some none

def globalCalleeName (b : Body) (steps : Nat) (receiver : InstId) (property : Option Property) :
    Option (Option String) := do
  match ← b.op? (← pathRoot b steps receiver) with
  | .constant (.global _) => calleeName b steps receiver property
  | _ => some none

def seedsChange (b : Body) (steps : Nat) (c : Config) : Op → Option Bool
  | .param _ => some true
  | .call receiver property _ => do
    let name ← calleeName b steps receiver property
    some (name.any c.isHook)
  | _ => some false

def isExpensive (b : Body) (steps : Nat) (c : Config) : Op → Option Bool
  | .object _ => some true
  | .call receiver property _ =>
    if Body.isExpensiveProperty c property then some true
    else do
      let name ← globalCalleeName b steps receiver property
      some (name.any c.isExpensiveCallee)
  | _ => some false

/-- The flag of an operand has to be there when it is asked for. -/
def sweep (seed : Op → Option Bool) (insts : Arena Inst) : Option (SideTable Bool) :=
  insts.foldlM (fun flags inst => do
    let seeded ← seed inst.op
    let inputs ← inst.op.operands.mapM (flags[·]?)
    some (flags ++ [seeded || inputs.any id])) []

def addMutator (writable : SideTable Bool) (id : InstId) (facts : SideTable Facts) (k : InstId) :
    Option (SideTable Facts) := do
  let w ← writable[k]?
  let f ← facts[k]?
  some (if w then facts.set k (f.addMutator id) else facts)

def addMutators (writable : SideTable Bool) (facts : SideTable Facts) (id : InstId) (op : Op) :
    Option (SideTable Facts) :=
  if op.isCall then op.operands.foldlM (addMutator writable id) facts else some facts

def describe (b : Body) (steps : Nat) (c : Config) (changes writable : SideTable Bool) (id : InstId) (op : Op)
    (f : Facts) : Option Facts := do
  let reads ← op.operands.mapM fun k => changes[k]?.map (k, ·)
  let dependencies := IdSet.ofList ((reads.filter (·.2)).map (·.1))
  let expensive ← isExpensive b steps c op
  some
    { f with
      mayChange := ← changes[id]?
      writable := ← writable[id]?
      dependencies
      memo := expensive && !dependencies.isEmpty }

def record (b : Body) (steps : Nat) (c : Config) (changes writable : SideTable Bool) (facts : SideTable Facts)
    (id : InstId) (op : Op) : Option (SideTable Facts) := do
  let f ← describe b steps c changes writable id op (← facts[id]?)
  addMutators writable (facts.set id f) id op

def analyze (b : Body) (steps : Nat) (c : Config) : Option (SideTable Facts) := do
  let changes ← sweep (seedsChange b steps c) b.insts
  let writable ← sweep (fun op => some (Body.seedsWritable op)) b.insts
  b.insts.entries.foldlM (fun facts p => record b steps c changes writable facts p.1 p.2.op) (.ofLen b.size)

def setFlag (used : List Bool) (k : InstId) : Option (List Bool) :=
  if k < used.length then some (used.set k true) else none

def consumed (b : Body) : Option (List Bool) :=
  b.insts.foldlM (fun used inst => inst.op.operands.foldlM setFlag used) (List.replicate b.size false)

def climb (parent : Array Nat) : Nat → Nat → Option Nat
  | 0, _ => none
  | steps + 1, x => do
    let p ← parent[x]?
    if p = x then some x else climb parent steps p

def compress (root : Nat) : Nat → Array Nat → Nat → Option (Array Nat)
  | 0, _, _ => none
  | steps + 1, parent, x =>
    if x = root then some parent
    else do
      let next ← parent[x]?
      compress root steps (parent.setIfInBounds x root) next

def find (steps : Nat) (u : UnionFind) (x : Nat) : Option (Nat × UnionFind) := do
  let root ← climb u.parent steps x
  let parent ← compress root steps u.parent x
  some (root, { u with parent })

def raise (rank : Array Nat) (a : Nat) : Option (Array Nat) := do
  let r ← rank[a]?
  if r + 1 < 256 then some (rank.setIfInBounds a (r + 1)) else none

def link (u : UnionFind) (a b : Nat) : Option UnionFind :=
  if a = b then some u
  else do
    let ra ← u.rank[a]?
    let rb ← u.rank[b]?
    if ra < rb then if a < u.size then some { u with parent := u.parent.setIfInBounds a b } else none
    else if b < u.size then
      let rank ← if ra = rb then raise u.rank a else some u.rank
      some ⟨u.parent.setIfInBounds b a, rank⟩
    else none

def union (steps : Nat) (u : UnionFind) (a b : Nat) : Option UnionFind := do
  let (ra, u) ← find steps u a
  let (rb, u) ← find steps u b
  link u ra rb

def findAll (steps : Nat) (u : UnionFind) : List Nat → Option (List Nat)
  | [] => some []
  | x :: xs => do
    let (r, u) ← find steps u x
    let rs ← findAll steps u xs
    some (r :: rs)

/-- The ids are counted in four bytes, the ranks are not. -/
def ofSize (n : Nat) : UnionFind := ⟨Array.range (n % 4294967296), Array.replicate n 0⟩

def groups (steps : Nat) (facts : SideTable Facts) : Option UnionFind :=
  facts.zipIdx.foldlM
    (fun u p => if p.1.memo then p.1.mutators.foldlM (fun u m => union steps u p.2 m) u else some u)
    (ofSize facts.length)

def mergedSpans (steps : Nat) (facts : SideTable Facts) : Option (List Span) := do
  let u ← groups steps facts
  let roots ← findAll steps u (List.range facts.length)
  some (Span.merge ((hulls roots).mergeSort Span.le))

def blockOf (b : Body) (facts : SideTable Facts) (span : Span) : Option Block := do
  let insts ← span.ids.mapM fun id => b.insts[id]?.map (id, ·)
  let infos ← span.ids.mapM (facts[·]?)
  let reads := infos.flatMap Facts.dependencies
  some ⟨span, insts, IdSet.ofList (reads.filter fun d => !(insts.map Prod.fst).contains d)⟩

def spanItem (b : Body) (facts : SideTable Facts) (span : Span) : Option PartItem := do
  if span.start == span.stop && (← b.op? span.start).isDeclare then some (.pass span.start)
  else
    let block ← blockOf b facts span
    some (.block block)

def tile (b : Body) (facts : SideTable Facts) (next : InstId) : List Span → Option (List PartItem)
  | [] => some (Body.passes next b.size)
  | span :: spans =>
    let front := Body.passes next (min span.start b.size)
    if max next span.start < b.size then do
      let item ← spanItem b facts span
      let items ← tile b facts (span.stop + 1) spans
      some (front ++ item :: items)
    else some front

def partition (b : Body) (steps : Nat) (facts : SideTable Facts) : Option (List PartItem) := do
  let spans ← mergedSpans steps facts
  tile b facts 0 spans

def rebuildOperand (value : InstId → Option Expr) : Operand → Option Expr
  | .literal lit => some (.literal lit)
  | .value k => value k

def rebuildExpr (b : Body) : Nat → InstId → Option Expr
  | 0, _ => none
  | steps + 1, id => do
    match ← b.op? id with
    | .param name => some (.ident name)
    | .declare _ pattern name _ => some (pattern.reference name)
    | .constant c => some c.rebuild
    | .read base property =>
      let object ← rebuildExpr b steps base
      some (property.accessOf object)
    | .object props =>
      let members ← props.mapM fun p => do
        let value ← rebuildOperand (rebuildExpr b steps) p.2
        some (ObjectMember.property (.ident p.1) value false)
      some (.object members)
    | .call receiver property args =>
      let base ← rebuildExpr b steps receiver
      let args ← args.mapM (rebuildOperand (rebuildExpr b steps))
      match property with
      | some p => some (.call (p.accessOf base) args)
      | none => some (.call base args)
    | .ret (some k) => rebuildExpr b steps k
    | .ret none => some .undefined

def rebuildStmt (b : Body) (steps : Nat) (id : InstId) (isRoot : Bool) : Option (Option Stmt) := do
  match ← b.insts[id]? with
  | ⟨.declare kind pattern _ value, place⟩ =>
    let init ← rebuildExpr b steps value
    some (some (.decl kind [.mk pattern (some init)] place))
  | ⟨.ret (some k), place⟩ =>
    let value ← rebuildExpr b steps k
    some (some (.ret (some value) place))
  | ⟨.ret none, place⟩ => some (some (.ret none place))
  | ⟨.call .., place⟩ =>
    if isRoot then do
      let value ← rebuildExpr b steps id
      some (some (.expr value place))
    else some none
  | _ => some none

def reconstruct (b : Body) (steps : Nat) : Option (List Stmt) := do
  let used ← consumed b
  let stmts ← (List.range b.size).mapM fun id => do rebuildStmt b steps id (!(← used[id]?))
  some (stmts.filterMap id)

def firstMemo (facts : SideTable Facts) : List InstId → Option (Option InstId)
  | [] => some none
  | id :: ids => do
    let f ← facts[id]?
    if f.memo then some (some id) else firstMemo facts ids

def dependencyNames (b : Body) (ids : List InstId) : Option (List String) := do
  let ops ← ids.mapM b.op?
  some (firstOccurrences (ops.flatMap Op.boundNames))

/-- The number of the next declaration has to fit into four bytes. -/
def memoDecl (b : Body) (steps : Nat) (c : Config) (facts : SideTable Facts) (n : Nat) (block : Block) :
    Option BlockResult := do
  if block.deps.isEmpty then some (b.withoutInputs block)
  else match ← firstMemo facts block.keys with
    | none => some (b.withoutMember block)
    | some target =>
      let deps ← dependencyNames b block.deps
      let value ← rebuildExpr b steps target
      let inst ← b.insts[target]?
      if n + 1 < 4294967296 then some (b.memoized c n target value deps inst.place) else none

def memoDecls (b : Body) (steps : Nat) (c : Config) (facts : SideTable Facts) (n : Nat) :
    List PartItem → Option (List Stmt × List Line)
  | [] => some ([], [])
  | .pass _ :: items => memoDecls b steps c facts n items
  | .block block :: items => do
    let result ← memoDecl b steps c facts n block
    let rest ← memoDecls b steps c facts (n + result.decl.toList.length) items
    some (result.decl.toList ++ rest.1, result.line :: rest.2)

/-- A fault of the lowering goes wrong, too. -/
def compile (f : Function) (steps : Nat) (c : Config) (log : Log) : Option (EStateM.Result Error Log Compiled) :=
  match f.lower log with
  | .error .fault _ => none
  | .error e log => some (.error e log)
  | .ok body log => do
    let facts ← analyze body steps c
    let items ← partition body steps facts
    let (decls, lines) ← if c.passes.irBlocks then memoDecls body steps c facts 0 items else some ([], [])
    let outcome := f.wrapStmts c
    let compiled : Compiled := ⟨decls ++ outcome.value, decls.length, outcome.count⟩
    some (.ok compiled (((log.append lines).append outcome.lines).append [f.summary compiled]))

end Memoizer.Strict
