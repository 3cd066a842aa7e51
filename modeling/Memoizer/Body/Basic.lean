import Memoizer.Arena
import Memoizer.Inst
import Memoizer.Text.Basic

namespace Memoizer

structure Body where
  name : String
  insts : Arena Inst := []

namespace Body

def size (b : Body) : Nat := b.insts.size

def op? (b : Body) (id : InstId) : Option Op := (b.insts.get? id).map Inst.op

def placeAt (b : Body) (id : InstId) : Option Place := (b.insts.get? id).bind Inst.place

def Backward (b : Body) : Prop :=
  ∀ (id : InstId) (op : Op), b.op? id = some op → ∀ k ∈ op.operands, k < id

def emit? (b : Body) (inst : Inst) : Option Body :=
  if inst.op.operands.all (· < b.size) then some { b with insts := b.insts.push inst } else none

/-- The last instruction that binds `name`. There is no block scoping: the latest binding wins. -/
def resolve (b : Body) (name : String) : Option InstId :=
  b.insts.entries.foldl (fun found p => if p.2.op.boundNames.contains name then some p.1 else found) none

def dependencyNames (b : Body) (id : InstId) : List String :=
  match b.op? id with
  | some op => op.boundNames
  | none => []

/-- The name of the binding or global that `id` stands for, or the dotted path of a property read
from one. Operands refer backward, so looking only below `id` loses nothing. -/
def valuePath (b : Body) (id : InstId) : Option String :=
  match b.op? id with
  | some (.param name) => some name
  | some (.declare _ _ name _) => some name
  | some (.constant (.global name)) => some name
  | some (.read object property) =>
    if object < id then (b.valuePath object).map (· ++ "." ++ property.name) else none
  | _ => none
termination_by id

def calleeName (b : Body) (receiver : InstId) (property : Option Property) : Option String :=
  match b.valuePath receiver, property with
  | some base, some p => some (base ++ "." ++ p.name)
  | some base, none => some base
  | none, some p => some p.name
  | none, none => none

def pathRoot (b : Body) (id : InstId) : InstId :=
  match b.op? id with
  | some (.read object _) => if object < id then b.pathRoot object else id
  | _ => id
termination_by id

def isGlobal (b : Body) (id : InstId) : Bool :=
  match b.op? id with
  | some (.constant (.global _)) => true
  | _ => false

def globalCalleeName (b : Body) (receiver : InstId) (property : Option Property) : Option String :=
  if b.isGlobal (b.pathRoot receiver) then b.calleeName receiver property else none

def isConsumed (b : Body) (id : InstId) : Bool :=
  b.insts.any (·.op.operands.contains id)

end Body

end Memoizer
