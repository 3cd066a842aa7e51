import Memoizer.Config.Basic
import Memoizer.Json.Decode

namespace Memoizer

open Json

def setting {σ α : Type} (key : String) (decode : Decoder α) (set : σ → α → σ) : RecordField σ where
  key := key
  enter := fun s cs => (decode cs).map fun p => (set s p.1, p.2)

def Passes.fields : List (RecordField Passes) :=
  [setting "ir_blocks" bool fun p v => { p with irBlocks := v },
    setting "direct_rewrite" bool fun p v => { p with wrapping := v },
    setting "imports" bool fun p v => { p with imports := v }]

def Config.fields : List (RecordField Config) :=
  [setting "runtime_module" string fun c v => { c with runtimeModule := v },
    setting "memo_primitive" string fun c v => { c with memoPrimitive := v },
    setting "state_primitive" string fun c v => { c with statePrimitive := v },
    setting "hook_prefix" string fun c v => { c with hookPrefix := v },
    setting "expensive_methods" (list string) fun c v => { c with expensiveMethods := v },
    setting "expensive_callees" (list string) fun c v => { c with expensiveCallees := v },
    setting "free_ident_blacklist" (list string) fun c v => { c with ignoredNames := v },
    setting "passes" (record Passes.fields {}) fun c v => { c with passes := v }]

def Config.ofJson (text : String) : Except Fault Config := decode (record Config.fields {}) text

end Memoizer
