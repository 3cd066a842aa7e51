import Memoizer.Text.Basic

namespace Memoizer

inductive Cause
  | parameterKey
  | noInitializer (names : List String)
deriving DecidableEq

def Cause.message : Cause → String
  | .parameterKey => "destructured parameter key is not an identifier"
  | .noInitializer names => "declaration of `" ++ Text.join ", " names ++ "` has no initializer"

/-- A `fault` is an instruction id outside the body, or an operand that refers forward. -/
inductive Error
  | structural (function : String) (cause : Cause)
  | fault
deriving DecidableEq

def Error.message : Error → String
  | .structural function cause => "cannot lower `" ++ function ++ "`: " ++ cause.message
  | .fault => "instruction out of range"

end Memoizer
