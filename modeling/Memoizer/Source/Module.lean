import Memoizer.Source.Statement

namespace Memoizer.Source

def importAttribute : Reader Unit := do
  match (← get).token with
  | .string _ => advance
  | _ => do
    let _ ← anyName
  punct ":"
  let _ ← stringToken

def importAttributes : Reader Unit := do
  if ← skipWord "with" then
    punct "\x7b"
    let _ ← commaList "\x7d" importAttribute

def fromSource : Reader String := do
  let source ← stringToken
  importAttributes
  semicolon
  return source

/-- A name or a quoted name, and whether it could name a variable. -/
def exportedName : Reader (String × Bool) := do
  match (← get).token with
  | .string value => do
    advance
    return (value, false)
  | _ => do
    let name ← anyName
    return (name, isVariable (← read) name)

def skipTypeWord : Reader Unit := do
  let c ← get
  let next := c.advance
  if (← read).language.typed && c.isWord "type" && next.isName && !next.isWord "as" then advance

def namedSpec : Reader ImportSpec := do
  skipTypeWord
  let (imported, mayBeLocal) ← exportedName
  if ← skipWord "as" then return .named imported (← variableName)
  if mayBeLocal then return .named imported imported else failure

def namespaceSpec : Reader ImportSpec := do
  punct "*"
  word "as"
  return .namespace (← variableName)

def bracedSpecs : Reader (List ImportSpec) := do
  if ← atPunct "*" then return [← namespaceSpec]
  punct "\x7b"
  commaList "\x7d" namedSpec

def importSpecs : Reader (List ImportSpec) := do
  if ← atPunct "*" then bracedSpecs
  else if ← atPunct "\x7b" then bracedSpecs
  else do
    let first := ImportSpec.default (← variableName)
    if ← skipPunct "," then return first :: (← bracedSpecs) else return [first]

def marksTypes (typed : Bool) (c : Cursor) : Bool :=
  let next := c.advance
  typed && c.isWord "type" &&
    (next.isPunct "\x7b" || next.isPunct "*" || (next.isName && (!next.isWord "from" || next.advance.isWord "from")))

def rawItem (m : Mark) : Reader Item := return .raw (← textFrom m)

def importItem (m : Mark) : Reader Item := do
  word "import"
  match (← get).token with
  | .string _ => return .importDecl ⟨← fromSource, []⟩
  | _ => do
    let isType := marksTypes (← read).language.typed (← get)
    if isType then advance
    let specs ← importSpecs
    word "from"
    let source ← fromSource
    if isType then rawItem m else return .importDecl ⟨source, specs⟩

/-- A function with a name and a body is read as one; any other is raw. -/
def functionItem (m : Mark) (exported : Export) (parts : FunctionParts) : Reader Item := do
  match parts.name, parts.body with
  | some name, some body =>
    return .function ⟨name, parts.params, body, parts.async, parts.generator, exported, some (← placeOf parts.start)⟩
  | none, _ => if exported == .default then rawItem m else failure
  | _, none => rawItem m

def exportDefault (g : Grammar) (m : Mark) : Reader Item := do
  match ← function? g with
  | some parts => functionItem m .default parts
  | none => do
    if ← atWord "class" then
      let _ ← classRest g
    else
      let _ ← g.value
      semicolon
    rawItem m

def exportStar : Reader Unit := do
  if ← skipWord "as" then
    let _ ← exportedName
  word "from"
  let _ ← fromSource

def exportSpec : Reader Unit := do
  skipTypeWord
  let _ ← exportedName
  if ← skipWord "as" then
    let _ ← exportedName

def exportNames : Reader Unit := do
  let _ ← commaList "\x7d" exportSpec
  if ← skipWord "from" then
    let _ ← fromSource
  else semicolon

def exportDeclaration (g : Grammar) (m : Mark) : Reader Item := do
  match ← function? g with
  | some parts => functionItem m .named parts
  | none => do
    if ← atWord "class" then classDeclaration g
    else
      let start ← start
      match ← declWord? with
      | some declWord =>
        let _ ← declaration g start declWord
      | none => failure
    rawItem m

def exportItem (g : Grammar) (m : Mark) : Reader Item := do
  word "export"
  if ← skipWord "default" then exportDefault g m
  else if ← skipPunct "*" then do
    exportStar
    rawItem m
  else if ← skipPunct "\x7b" then do
    exportNames
    rawItem m
  else exportDeclaration g m

def atImport : Reader Bool := do
  let c ← get
  let next := c.advance
  return c.isWord "import" && !next.isPunct "(" && !next.isPunct "."

inductive TopLevel
  | item (item : Item)
  | directive

def topLevel (g : Grammar) : Reader TopLevel := do
  let m ← start
  if ← atImport then return .item (← importItem m)
  if ← atWord "export" then return .item (← exportItem g m)
  match ← function? g with
  | some parts => return .item (← functionItem m .none parts)
  | none => do
    let stmt ← statement g
    if stmt.isDirective then return .directive else return .item (.raw (← textFrom m))

/-- The items of a text. String statements in front of the first item are directives and no items. -/
def topLevels (g : Grammar) : Reader (List Item) := do
  iterate (fun (items : List Item) => do
    if (← get).token == .done then return .inr items
    let m ← start
    match ← topLevel g with
    | .item item => return .inl (items ++ [item])
    | .directive => if items.isEmpty then return .inl [] else return .inl (items ++ [.raw (← textFrom m)])) []

def skipHashbang (cs : List Char) : List Char :=
  if ['#', '!'].isPrefixOf cs then cs.dropWhile (!isLineEnd ·) else cs

/-- The part of a file name behind its last point; a point at its beginning counts as part of the name. -/
def extension? (file : String) : Option String :=
  let base := (file.toList.reverse.takeWhile (· != '/'))
  let ext := base.takeWhile (· != '.')
  let stem := base.drop (ext.length + 1)
  if stem.isEmpty then none else some (String.ofList ext.reverse)

def Language.ofFile (file : String) : Language :=
  match extension? file with
  | some "js" => {}
  | some "mjs" => {}
  | some "cjs" => { isModule := false }
  | some "ts" => { typed := true }
  | some "mts" => { typed := true }
  | some "cts" => { isModule := false, typed := true }
  | some "tsx" => { markup := true, typed := true }
  | _ => { markup := true }

def failureMessage (file : String) : String := "parse error in " ++ file

def readModule (file source : String) : Option Module :=
  let text := SourceText.ofString file source
  let size := text.text.length
  let rest := skipHashbang text.text
  let language := Language.ofFile file
  let ctx : Context := { source := text, size, language, awaits := language.isModule }
  match topLevels (grammar (size + 1)) ctx (Cursor.at ⟨rest, rest.length⟩) with
  | some (items, _) => some ⟨items⟩
  | none => none

end Memoizer.Source
