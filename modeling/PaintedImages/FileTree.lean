import PaintedImages.Text.Parts
import PaintedImages.Fault
import PaintedImages.Text.Utf8

/-! Trees of directories and files, and what reading, writing and making directories does to them.
There are no links, and nobody is kept from anything. A path is followed name by name from the root,
or from the directory where the paths begin that do not start with a slash. -/
namespace PaintedImages

abbrev Location := List String

inductive Node where
  | directory
  | file (content : Bytes)
  deriving DecidableEq, Repr

structure FileTree where
  nodes : List (Location × Node) := []
  start : Location := []
  deriving DecidableEq, Repr

namespace FileTree

def nameLimit : Nat := 255

def pathLimit : Nat := 4096

def node? (t : FileTree) (place : Location) : Option Node :=
  if place.isEmpty then some .directory else t.nodes.lookup place

def setNode (place : Location) (node : Node) : List (Location × Node) → List (Location × Node)
  | [] => [(place, node)]
  | (p, n) :: rest =>
    if p = place then (place, node) :: rest else (p, n) :: setNode place node rest

def put (t : FileTree) (place : Location) (node : Node) : FileTree :=
  { t with nodes := setNode place node t.nodes }

def enter (t : FileTree) (place : Location) (name : String) : Except FileFault Location :=
  match t.node? place with
  | none => .error .notFound
  | some (.file _) => .error .notDirectory
  | some .directory =>
    if nameLimit < (Utf8.encode name).length then .error .nameTooLong
    else if name = "." then .ok place
    else if name = ".." then .ok place.dropLast
    else .ok (place ++ [name])

def names (path : String) : List String :=
  ((Parts.between '/' path.toList).filter (!·.isEmpty)).map String.ofList

def startsAtRoot (path : String) : Bool := path.toList.head? == some '/'

def endsInSlash (path : String) : Bool := path.toList.getLast? == some '/'

def locate (t : FileTree) (path : String) : Except FileFault Location :=
  if path.toList.contains '\x00' then .error .nulInName
  else if path.isEmpty then .error .notFound
  else if pathLimit ≤ (Utf8.encode path).length then .error .nameTooLong
  else (names path).foldlM t.enter (if startsAtRoot path then [] else t.start)

def isDirectory (t : FileTree) (path : String) : Bool :=
  match t.locate path with
  | .ok place => t.node? place == some .directory
  | .error _ => false

def read (t : FileTree) (path : String) : Except FileFault Bytes := do
  let place ← t.locate path
  match t.node? place with
  | none => .error .notFound
  | some .directory => .error .isDirectory
  | some (.file content) => if endsInSlash path then .error .notDirectory else .ok content

def write (t : FileTree) (path : String) (content : Bytes) : Except FileFault FileTree := do
  let place ← t.locate path
  if endsInSlash path ∨ t.node? place = some .directory then .error .isDirectory
  else .ok (t.put place (.file content))

def makeDirectory (t : FileTree) (path : String) : Except FileFault FileTree := do
  let place ← t.locate path
  if (t.node? place).isSome then .error .alreadyExists else .ok (t.put place .directory)

structure Attempt where
  tree : FileTree
  fault : Option FileFault := none
  deriving DecidableEq, Repr

def ensure (t : FileTree) (path : String) : Attempt :=
  match t.makeDirectory path with
  | .ok t => ⟨t, none⟩
  | .error fault => ⟨t, if t.isDirectory path then none else some fault⟩

def isIdle (part : List Char) : Bool := part.isEmpty || part = ['.']

def above (first : List Char) : List (List Char) → List String
  | [] => []
  | part :: rest =>
    if isIdle part then above first rest
    else
      String.ofList (['/'].intercalate (first :: (rest.dropWhile isIdle).reverse)) ::
        above first rest

def lineage (path : String) : List String :=
  match Parts.between '/' path.toList with
  | first :: rest => (path :: above first rest.reverse).filter (!·.isEmpty)
  | [] => []

def ensureLineage (t : FileTree) : List String → Attempt
  | [] => ⟨t, none⟩
  | path :: rest =>
    match t.makeDirectory path with
    | .error .notFound =>
      let attempt := t.ensureLineage rest
      if attempt.fault.isSome then attempt else attempt.tree.ensure path
    | _ => t.ensure path

def makeDirectories (t : FileTree) (path : String) : Attempt := t.ensureLineage (lineage path)

def join (directory name : String) : String :=
  if directory.isEmpty || endsInSlash directory then directory ++ name
  else directory ++ "/" ++ name

end FileTree
end PaintedImages
