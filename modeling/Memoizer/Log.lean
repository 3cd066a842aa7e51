namespace Memoizer

inductive Level
  | fatal
  | warn
  | success
  | info
deriving DecidableEq

def Level.glyph : Level → String
  | .fatal => "❌ "
  | .warn => "⚠️ "
  | .success => "✅ "
  | .info => ""

structure Line where
  level : Level
  message : String
deriving DecidableEq

def Line.text (l : Line) : String := l.level.glyph ++ l.message

structure Log where
  lines : List Line := []
deriving DecidableEq

namespace Log

def push (log : Log) (level : Level) (message : String) : Log :=
  ⟨log.lines ++ [⟨level, message⟩]⟩

def append (log : Log) (lines : List Line) : Log := ⟨log.lines ++ lines⟩

def rendered (log : Log) : List String := log.lines.map Line.text

def count (log : Log) (level : Level) : Nat := log.lines.countP (·.level == level)

end Log

end Memoizer
