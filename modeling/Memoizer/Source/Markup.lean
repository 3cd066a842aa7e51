import Memoizer.Source.Grammar

namespace Memoizer.Source

/-- Repeats a step over marks until it gives a final one; every step has to take some text. -/
def iterateMarks (step : Mark → Reader (Mark ⊕ Mark)) (m : Mark) : Reader Mark := fun ctx cursor =>
  match step m ctx cursor with
  | none => none
  | some (.inr m', cursor') => some (m', cursor')
  | some (.inl m', cursor') => if m'.left < m.left then iterateMarks step m' ctx cursor' else none
termination_by m.left

def skipInside (m : Mark) : Reader Mark :=
  match skipBlanks .code false 0 m.text with
  | some (_, taken) => return m.drop taken
  | none => failure

def Mark.startsWith (m : Mark) (c : Char) : Bool := m.text.head? == some c

def expectChar (c : Char) (m : Mark) : Reader Mark :=
  if m.startsWith c then return m.drop 1 else failure

def isMarkupNamePart (c : Char) : Bool := isNamePart c || c == '-' || c == ':' || c == '.'

def markupName (m : Mark) : Reader (String × Mark) :=
  let run := m.text.takeWhile isMarkupNamePart
  if run.head?.any isNameStart then return (String.ofList run, m.drop run.length) else failure

def markupQuoted (quote : Char) (m : Mark) : Reader Mark :=
  expectChar quote (m.drop (m.text.takeWhile (· != quote)).length)

def container (g : Grammar) (mayBeEmpty : Bool) (m : Mark) : Reader Mark := do
  resume m
  unless mayBeEmpty && (← atPunct "\x7d") do
    let _ ← skipPunct "..."
    let _ ← enclosed g.expression
  let c ← get
  if c.isPunct "\x7d" then return c.next else failure

def attributeValue (g : Grammar) (m : Mark) : Reader Mark := do
  let m ← skipInside m
  match m.text.head? with
  | some '"' => markupQuoted '"' (m.drop 1)
  | some '\'' => markupQuoted '\'' (m.drop 1)
  | some '{' => container g false (m.drop 1)
  | some '<' => g.element (m.drop 1)
  | _ => failure

def markupAttribute (g : Grammar) (m : Mark) : Reader Mark := do
  if m.startsWith '{' then container g false (m.drop 1)
  else do
    let (_, m) ← markupName m
    let behind ← skipInside m
    if behind.startsWith '=' then attributeValue g (behind.drop 1) else return m

def attributes (g : Grammar) (m : Mark) : Reader Mark :=
  iterateMarks (fun m => do
    let m ← skipInside m
    if m.startsWith '/' || m.startsWith '>' then return .inr m
    return .inl (← markupAttribute g m)) m

def isMarkupText (c : Char) : Bool := c != '<' && c != '{' && c != '>' && c != '}'

def closingTag (name : String) (m : Mark) : Reader Mark := do
  let m ← skipInside m
  if name.isEmpty then expectChar '>' m
  else do
    let (closed, m) ← markupName m
    let m ← skipInside m
    if closed == name then expectChar '>' m else failure

def children (g : Grammar) (name : String) (m : Mark) : Reader Mark :=
  iterateMarks (fun m => do
    match m.text with
    | '{' :: _ => return .inl (← container g true (m.drop 1))
    | '<' :: '/' :: _ => return .inr (← closingTag name (m.drop 2))
    | '<' :: _ => return .inl (← g.element (m.drop 1))
    | _ =>
      let run := m.text.takeWhile isMarkupText
      return .inl (m.drop run.length)) m

def element (g : Grammar) (m : Mark) : Reader Mark := do
  let m ← skipInside m
  if m.startsWith '>' then children g "" (m.drop 1)
  else do
    let (name, m) ← markupName m
    let m ← attributes g m
    if m.startsWith '/' then expectChar '>' (← skipInside (m.drop 1))
    else children g name (m.drop 1)

def markupNode (g : Grammar) : Reader Node := do
  let m ← start
  let behind ← g.element (m.drop 1)
  resume behind
  verbatimNode m

end Memoizer.Source
