import QuestScript.Text.Utf8

/-!
# Files

What the command needs of a file system: to read and write files and to make folders. `Folder` is
a file system that is a value, seen from a working folder.
-/

namespace QuestScript

/-- Why a file cannot be used. -/
inductive FileError where
  | missing
  | alreadyThere
  | notFolder
  | isFolder
  | notText
  | other (text : String)
  deriving DecidableEq, Inhabited

/-- The wording of a file error. -/
def FileError.message : FileError → String
  | .missing => "No such file or directory (os error 2)"
  | .alreadyThere => "File exists (os error 17)"
  | .notFolder => "Not a directory (os error 20)"
  | .isFolder => "Is a directory (os error 21)"
  | .notText => "stream did not contain valid UTF-8"
  | .other text => text

/-- Access to files by their paths. -/
structure Files (m : Type → Type) where
  read : String → m (Except FileError (List UInt8))
  write : String → List UInt8 → m (Except FileError Unit)
  /-- Makes one folder. The folder above it has to be there. -/
  makeFolder : String → m (Except FileError Unit)

namespace Path

/-- The steps of a path, from the top down. A step may stay where it is or go up. -/
def steps (path : String) : List String :=
  (path.splitOn "/").filter (· ≠ "")

/-- The names in a path, from the top down. -/
def names (path : String) : List String :=
  (steps path).filter (· ≠ ".")

/-- The paths of the folders above a path, the innermost first. -/
def above (path : String) : List String :=
  let top := if path.startsWith "/" then "/" else ""
  let names := names path
  ((List.range names.length).drop 1).reverse.map fun n =>
    top ++ String.intercalate "/" (names.take n)

/-- The path of a file in a folder. -/
def join (folder file : String) : String :=
  if folder.endsWith "/" then folder ++ file else folder ++ "/" ++ file

/-- The name of a file without its last extension. A point at its start begins no extension. -/
def stemOfName (name : String) : String :=
  let reversed := name.toList.reverse
  match reversed.dropWhile (· != '.') with
  | '.' :: c :: front => String.ofList (c :: front).reverse
  | _ => name

/-- The name of the file of a path, without its last extension. -/
def stem? (path : String) : Option String :=
  match (names path).getLast? with
  | none | some ".." => none
  | some name => some (stemOfName name)

end Path

namespace Files

variable {m : Type → Type} [Monad m]

/-- There is a folder at the path: only then is its own entry taken. -/
def isFolder (files : Files m) (path : String) : m Bool := do
  match ← files.makeFolder (Path.join path ".") with
  | .error .alreadyThere => pure true
  | _ => pure false

/-- What an attempt to make a folder amounts to: it is no failure if the folder is there. -/
def settle (files : Files m) (path : String) :
    Except FileError Unit → m (Except FileError Unit)
  | .ok () => pure (.ok ())
  | .error error => do
    if ← files.isFolder path then pure (.ok ()) else pure (.error error)

/-- Makes a folder, given its path and those of the folders above it, the innermost first. The
folders above are made if something is missing on the way, and then the folder is tried once
more. -/
def makeFoldersFrom (files : Files m) : List String → m (Except FileError Unit)
  | [] => pure (.ok ())
  | path :: above => do
    match ← files.makeFolder path with
    | .error .missing =>
      match ← files.makeFoldersFrom above with
      | .ok () => files.settle path (← files.makeFolder path)
      | .error error => pure (.error error)
    | outcome => files.settle path outcome

/-- Makes a folder and those above it, as far as they are missing. The path is followed as it is
written, so a last step that stays where it is needs a folder to stay in. -/
def makeFolders (files : Files m) (path : String) : m (Except FileError Unit) :=
  files.makeFoldersFrom (path :: Path.above path)

end Files

/-- What stands at a place. -/
inductive Node where
  | file (content : List UInt8)
  | folder
  deriving DecidableEq, Inhabited

/-- The files and folders below a working folder, by the names that lead to them. -/
structure Folder where
  nodes : List (List String × Node) := []
  deriving DecidableEq, Inhabited

namespace Folder

/-- What stands at a place. The working folder, those above it and the topmost one are there. -/
def node? (root : Folder) (place : List String) : Option Node :=
  if place.all (· == "..") || place == ["/"] then some .folder else root.nodes.lookup place

/-- The place above a place. -/
def above (place : List String) : List String :=
  if place.all (· == "..") then place ++ [".."]
  else if place == ["/"] then place
  else place.dropLast

/-- Goes from a place to a name in it. -/
def enter (root : Folder) (place : List String) (name : String) :
    Except FileError (List String) :=
  match root.node? place with
  | none => .error .missing
  | some (.file _) => .error .notFolder
  | some .folder =>
    if name = "" ∨ name = "." then .ok place
    else if name = ".." then .ok (above place)
    else .ok (place ++ [name])

/-- Where a path starts. -/
def start (path : String) : List String :=
  if path.startsWith "/" then ["/"] else []

/-- The place that a path leads to. -/
def resolve (root : Folder) (path : String) : Except FileError (List String) :=
  (path.splitOn "/").foldlM root.enter (start path)

/-- Puts a file or folder at a place. -/
def put (root : Folder) (place : List String) (node : Node) : Folder :=
  ⟨root.nodes.filter (·.1 != place) ++ [(place, node)]⟩

/-- Reads a file. -/
def read (root : Folder) (path : String) : Except FileError (List UInt8) := do
  match root.node? (← root.resolve path) with
  | none => .error .missing
  | some .folder => .error .isFolder
  | some (.file content) => .ok content

/-- Writes a file, over the one that is there. -/
def write (root : Folder) (path : String) (content : List UInt8) : Except FileError Folder := do
  let place ← root.resolve path
  match root.node? place with
  | some .folder => .error .isFolder
  | _ => .ok (root.put place (.file content))

/-- Makes one folder. The folder above it has to be there. -/
def makeFolder (root : Folder) (path : String) : Except FileError Folder := do
  let place ← (Path.steps path).foldlM root.enter (start path)
  match root.node? place with
  | some _ => .error .alreadyThere
  | none => .ok (root.put place .folder)

/-- Changes the folder, unless that fails. -/
def update (change : Folder → Except FileError Folder) :
    StateM Folder (Except FileError Unit) := do
  match change (← get) with
  | .ok root =>
    set root
    pure (.ok ())
  | .error error => pure (.error error)

/-- Access to the files of a folder. -/
def files : Files (StateM Folder) where
  read path := do pure ((← get).read path)
  write path content := update (·.write path content)
  makeFolder path := update (·.makeFolder path)

end Folder

end QuestScript
