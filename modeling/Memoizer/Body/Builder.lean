import Memoizer.Body.Basic

namespace Memoizer

structure Builder where
  body : Body
  place : Option Place := none

namespace Builder

def start (name : String) : Builder := { body := ⟨name, []⟩ }

def emit? (b : Builder) (op : Op) : Option (InstId × Builder) :=
  (b.body.emit? ⟨op, b.place⟩).map fun body => (b.body.insts.nextKey, { b with body })

end Builder

/-- What a declaration of the pattern is called: a name as it is, any other pattern by all its names. -/
def Pattern.bindingName : Pattern → String
  | .ident name => name
  | p => Text.brackets (Text.join ", " p.boundNames)

def Op.ofDeclaration (kind : DeclKind) (pattern : Pattern) (value : InstId) : Op :=
  .declare kind pattern pattern.bindingName value

end Memoizer
