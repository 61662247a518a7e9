import PaintedImages.Output.Effect
import PaintedImages.Record

/-! Images as files of a directory, each under its record's name, numbered from one. A record whose
payload cannot be had ends the writing. -/
namespace PaintedImages.Images

def placed (directory : String) (records : List Record) : List (String × Record) :=
  records.zipIdx.map fun (record, i) =>
    (FileTree.join directory (record.fileName (i + 1)), record)

def paths (directory : String) (records : List Record) : List String :=
  (placed directory records).map Prod.fst

def save (path : String) (record : Record) : Effect :=
  match record.payload with
  | .ok payload => .savePayload path payload
  | .error fault => .fail fault

def effects (directory : String) (records : List Record) : List Effect :=
  .makeDirectories directory ::
    (placed directory records).map fun (path, record) => save path record

def write (tree : FileTree) (directory : String) (records : List Record) :
    FileTree × Except Fault (List String) :=
  let outcome := Effect.runAll tree (effects directory records)
  (outcome.tree, outcome.fault.elim (.ok (paths directory records)) .error)

end PaintedImages.Images
