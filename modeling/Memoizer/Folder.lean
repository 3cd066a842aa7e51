namespace Memoizer

structure Files (m : Type → Type) where
  read : String → m (Option String)
  write : String → String → m Bool

/-- The files of a folder and of the folders in it, by the names that lead to them. -/
structure Folder where
  files : List (List String × String)

namespace Folder

def isFolder (f : Folder) (path : List String) : Bool :=
  path.isEmpty || f.files.any fun file => path.isPrefixOf file.1 && path != file.1

/-- Where steps lead from a path. Every step but the first starts in a folder; none leaves the
outermost one. -/
def walk (f : Folder) : List String → List String → Option (List String)
  | path, [] => some path
  | path, step :: steps =>
    if !f.isFolder path then none
    else if step == "" || step == "." then f.walk path steps
    else if step == ".." then (if path.isEmpty then none else f.walk path.dropLast steps)
    else f.walk (path ++ [step]) steps

def resolve (f : Folder) (path : String) : Option (List String) :=
  -- An absolute path leads out of the folder.
  if path.toList.head? == some '/' then none else f.walk [] (path.splitOn "/")

def ofList (files : List (String × String)) : Folder :=
  ⟨files.map fun file => (file.1.splitOn "/", file.2)⟩

def lookup (f : Folder) (path : List String) : Option String :=
  (f.files.find? (·.1 == path)).map (·.2)

def read (f : Folder) (path : String) : Option String := (f.resolve path).bind f.lookup

def write? (f : Folder) (path text : String) : Option Folder :=
  match f.resolve path with
  | none => none
  | some names =>
    if f.isFolder names then none else some ⟨(names, text) :: f.files.filter (·.1 != names)⟩

def asFiles : Files (StateM Folder) where
  read path := return (← get).read path
  write path text := do
    match (← get).write? path text with
    | some f => do
      set f
      return true
    | none => return false

end Folder

end Memoizer
