import Memoizer.Source.TypeText

namespace Memoizer.Source

structure Key where
  key : PropKey
  shorthand : Option String := none

def propertyKey (g : Grammar) : Reader Key := do
  let m ← start
  match (← get).token with
  | .name text _ => do
    advance
    return { key := .ident text, shorthand := if isVariable (← read) text then some text else none }
  | .string value => do
    advance
    return { key := .string value }
  | .number value => do
    advance
    return { key := .number value }
  | .bigint => do
    advance
    return { key := .computed (.verbatim (← textFrom m)) }
  | .punct "[" => do
    advance
    let expr ← enclosed g.value
    punct "]"
    return { key := .computed expr }
  | _ => failure

def bindingElement (g : Grammar) : Reader Pattern := do
  let target ← g.pattern
  if ← skipPunct "=" then return .assign target (← enclosed g.value)
  return target

/-- The elements of an array pattern behind its bracket. A comma without an element in front of it
is a hole; a comma behind the last element adds nothing. -/
def arrayPattern (g : Grammar) : Reader Pattern := do
  let elems ← iterate (fun (elems : List (Option Pattern)) => do
    if ← skipPunct "]" then return .inr elems
    if ← skipPunct "," then return .inl (elems ++ [none])
    if ← skipPunct "..." then
      let target ← g.pattern
      punct "]"
      return .inr (elems ++ [some (.rest target)])
    let elems := elems ++ [some (← bindingElement g)]
    if ← skipPunct "]" then return .inr elems
    punct ","
    return .inl elems) []
  return .array elems

def patternProp (g : Grammar) : Reader PatternProp := do
  let key ← propertyKey g
  if ← skipPunct ":" then return .mk key.key (← bindingElement g) false
  match key.shorthand with
  | none => failure
  | some name => do
    if ← skipPunct "=" then return .mk key.key (.assign (.ident name) (← enclosed g.value)) true
    return .mk key.key (.ident name) true

def objectPattern (g : Grammar) : Reader Pattern :=
  iterate (fun (props : List PatternProp) => do
    if ← skipPunct "\x7d" then return .inr (.object props none)
    if ← skipPunct "..." then
      let rest ← g.pattern
      punct "\x7d"
      return .inr (.object props (some rest))
    let props := props ++ [← patternProp g]
    if ← skipPunct "\x7d" then return .inr (.object props none)
    punct ","
    return .inl props) []

def bindingPattern (g : Grammar) : Reader Pattern := do
  if ← skipPunct "[" then arrayPattern g
  else if ← skipPunct "\x7b" then objectPattern g
  else return .ident (← variableName)

end Memoizer.Source
