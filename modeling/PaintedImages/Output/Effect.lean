import PaintedImages.FileTree

/-! Effects: what is to be done with results outside the library, as data. Effects are carried out
in order, up to the first that fails or to the one at which the process gives up. -/
namespace PaintedImages

inductive Effect where
  | makeDirectories (path : String)
  | savePayload (path : String) (payload : Bytes)
  | saveText (path : String) (text : String)
  | print (text : String)
  | fail (fault : Fault)
  | abort
  deriving DecidableEq, Repr

structure Outcome where
  tree : FileTree
  printed : String := ""
  fault : Option Fault := none
  aborted : Bool := false
  deriving DecidableEq, Repr

def Outcome.ended (o : Outcome) : Bool := o.fault.isSome || o.aborted

namespace Effect

def fault (effect : Effect) (cause : FileFault) : Fault :=
  match effect with
  | savePayload path _ => .other (.unwritten path cause)
  | saveText _ _ => .other (.unsaved cause)
  | _ => .file cause

def saved (effect : Effect) (tree : FileTree) : Except FileFault FileTree → Outcome
  | .ok tree => { tree }
  | .error cause => { tree, fault := some (effect.fault cause) }

def run (effect : Effect) (tree : FileTree) : Outcome :=
  match effect with
  | makeDirectories path =>
    let attempt := tree.makeDirectories path
    { tree := attempt.tree, fault := attempt.fault.map effect.fault }
  | savePayload path payload => effect.saved tree (tree.write path payload)
  | saveText path text => effect.saved tree (tree.write path (Utf8.encode text))
  | print text => { tree, printed := text }
  | fail fault => { tree, fault := some fault }
  | abort => { tree, aborted := true }

def runAll (tree : FileTree) : List Effect → Outcome
  | [] => { tree }
  | effect :: rest =>
    let first := effect.run tree
    if first.ended then first
    else
      let last := runAll first.tree rest
      { last with printed := first.printed ++ last.printed }

end Effect
end PaintedImages
