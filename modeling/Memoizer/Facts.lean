import Memoizer.Body.Basic
import Memoizer.Config.Basic
import Memoizer.IdSet

namespace Memoizer

/-- What is known of an instruction: whether its value may change from one run of the function to the next, its operands
that may change, the calls that have it as an operand while it is writable, and whether it is worth memoizing. -/
structure Facts where
  mayChange : Bool := false
  writable : Bool := false
  dependencies : List InstId := []
  mutators : List InstId := []
  memo : Bool := false
deriving DecidableEq

instance : Inhabited Facts := ⟨{}⟩

def Facts.addMutator (id : InstId) (f : Facts) : Facts := { f with mutators := IdSet.insert id f.mutators }

/-- One pass over the instructions: a flag is set by its seed or by the flag of an operand. Operands refer backward, so
a flag is final before any later instruction asks for it. -/
def sweep (seed : Op → Bool) (insts : Arena Inst) : SideTable Bool :=
  insts.entries.foldl (fun (flags : SideTable Bool) p =>
    flags.set p.1 (seed p.2.op || p.2.op.operands.any flags.get)) []

namespace Body

def seedsChange (b : Body) (c : Config) : Op → Bool
  | .param _ => true
  | .call receiver property _ => (b.calleeName receiver property).any c.isHook
  | _ => false

def seedsWritable : Op → Bool
  | .object _ => true
  | .call .. => true
  | _ => false

def changeFlags (b : Body) (c : Config) : SideTable Bool := sweep (b.seedsChange c) b.insts

def writableFlags (b : Body) : SideTable Bool := sweep seedsWritable b.insts

def isExpensiveProperty (c : Config) : Option Property → Bool
  | some (.named name) => c.isExpensiveMethod name
  | _ => false

def isExpensive (b : Body) (c : Config) : Op → Bool
  | .object _ => true
  | .call receiver property _ =>
    isExpensiveProperty c property || (b.globalCalleeName receiver property).any c.isExpensiveCallee
  | _ => false

section Table

variable (b : Body) (c : Config) (changes writable : SideTable Bool)

def describe (id : InstId) (op : Op) (f : Facts) : Facts :=
  let dependencies := IdSet.ofList (op.operands.filter changes.get)
  { f with
    mayChange := changes.get id
    writable := writable.get id
    dependencies
    memo := b.isExpensive c op && !dependencies.isEmpty }

def addMutators (facts : SideTable Facts) (id : InstId) (op : Op) : SideTable Facts :=
  if op.isCall then
    op.operands.foldl (fun (facts : SideTable Facts) k =>
      if writable.get k then facts.modify k (Facts.addMutator id) else facts) facts
  else facts

/-- One turn of the loop: it fills the entry of the instruction and writes into those of its operands. -/
def record (facts : SideTable Facts) (id : InstId) (op : Op) : SideTable Facts :=
  addMutators writable (facts.modify id (b.describe c changes writable id op)) id op

def recordAll (facts : SideTable Facts) (insts : Arena Inst) : SideTable Facts :=
  insts.entries.foldl (fun facts p => b.record c changes writable facts p.1 p.2.op) facts

end Table

def analyze (b : Body) (c : Config) : SideTable Facts :=
  b.recordAll c (b.changeFlags c) b.writableFlags (.ofLen b.size) b.insts

end Body

def factsAt (facts : SideTable Facts) (id : InstId) : Facts := facts.get id

end Memoizer
