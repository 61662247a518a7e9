import PaintedImages.Command.Action
import PaintedImages.Proofs.Absorbing

/-! Commands that are refused. Whatever a command does with a document, it reads the pages that are
asked for and opens the file first, an overview the file before the pages and the others the pages
before the file. The first of the two that fails is all there is to the run: it is told, and no file
or directory changes. -/
namespace PaintedImages

def FailsFirst (first second : Fault → Prop) (fault : Fault) : Prop :=
  first fault ∨ (∀ cause, ¬first cause) ∧ second fault

theorem failsFirstExists {first second : Fault → Prop}
    (failed : (∃ fault, first fault) ∨ ∃ fault, second fault) :
    ∃ fault, FailsFirst first second fault := by
  by_cases early : ∃ fault, first fault
  · obtain ⟨fault, found⟩ := early
    exact ⟨fault, .inl found⟩
  · obtain ⟨fault, found⟩ := failed.resolve_left early
    exact ⟨fault, .inr ⟨not_exists.mp early, found⟩⟩

namespace Request

def UnreadPages (r : Request) (fault : Fault) : Prop :=
  ∃ text, r.pages = some text ∧ PageSelection.parse text = .error fault

def Unopened (files : Source.Files) (r : Request) (fault : Fault) : Prop :=
  ((Source.file r.file).document files).value = .error fault

section Faults
variable {files : Source.Files} {r : Request} {fault : Fault}

theorem selectionUnread : r.selection = .error fault ↔ r.UnreadPages fault := by
  cases asked : r.pages with
  | none => simp [selection, UnreadPages, asked]
  | some text => simp [selection, UnreadPages, asked]

theorem optionsUnread (unread : r.UnreadPages fault) : r.options = .error fault := by
  rw [options, selectionUnread.mpr unread]
  rfl

theorem optionsRead (read : ∀ cause, ¬r.UnreadPages cause) :
    ∃ options, r.options = .ok options := by
  cases chosen : r.selection with
  | error cause => exact absurd (selectionUnread.mp chosen) (read cause)
  | ok pages =>
    rw [options, chosen]
    exact ⟨_, rfl⟩

theorem reportFails (failed : FailsFirst r.UnreadPages (r.Unopened files) fault) :
    r.report files = .error fault := by
  obtain unread | ⟨read, unopened⟩ := failed
  · rw [report, optionsUnread unread]
    rfl
  · obtain ⟨options, chosen⟩ := optionsRead read
    have ended : ((Source.file r.file).extract files options).value = .error fault := by
      rw [Source.extractExact, unopened]
      rfl
    rw [report, chosen]
    exact ended

theorem infoFails (failed : FailsFirst (r.Unopened files) r.UnreadPages fault) :
    Command.infoEffects files r = .error fault := by
  rw [Command.infoEffects]
  obtain unopened | ⟨opened, unread⟩ := failed
  · rw [unopened]
    rfl
  · cases found : ((Source.file r.file).document files).value with
    | error cause => exact absurd found (opened cause)
    | ok document =>
      rw [optionsUnread unread]
      rfl

end Faults
end Request

namespace Command

def request? : Command → Option Request
  | extract r _ => some r
  | json r _ _ _ => some r
  | info r => some r
  | version => none

def Refused (files : Source.Files) (fault : Fault) : Command → Prop
  | extract r _ => FailsFirst r.UnreadPages (r.Unopened files) fault
  | json r _ _ _ => FailsFirst r.UnreadPages (r.Unopened files) fault
  | info r => FailsFirst (r.Unopened files) r.UnreadPages fault
  | version => False

section Refusals
variable {files : Source.Files} {command : Command} {r : Request}

theorem refusedExists (asked : command.request? = some r)
    (wrong : (∃ fault, r.UnreadPages fault) ∨ ∃ fault, r.Unopened files fault) :
    ∃ fault, command.Refused files fault := by
  cases command with
  | extract request directory =>
    cases asked
    exact failsFirstExists wrong
  | json request output layout statistics =>
    cases asked
    exact failsFirstExists wrong
  | info request =>
    cases asked
    exact failsFirstExists wrong.symm
  | version => contradiction

theorem effectsRefused {fault : Fault} (refused : command.Refused files fault) :
    command.effects files = [.fail fault] := by
  cases command with
  | extract request directory => rw [effects, Request.reportFails refused, orFail]
  | json request output layout statistics =>
    rw [effects, Request.reportFails refused, orFail]
  | info request => rw [effects, Request.infoFails refused, orFail]
  | version => contradiction

end Refusals

theorem refusedUntouched {environment : String → Option String} {tree : FileTree}
    {arguments : List String} {command : Command} {r : Request}
    (accepted : parse environment arguments = .ok command) (asked : command.request? = some r)
    (wrong : (∃ fault, r.UnreadPages fault) ∨ ∃ fault, r.Unopened tree.read fault) :
    ∃ fault, command.Refused tree.read fault ∧
      run environment tree arguments =
        ({ status := 1, output := "", errors := "Error: " ++ fault.message ++ "\n" }, tree) := by
  obtain ⟨fault, refused⟩ := refusedExists asked wrong
  refine ⟨fault, refused, ?_⟩
  rw [run, accepted]
  dsimp only
  rw [effectsRefused refused]
  rfl

/- Pages that run backwards, asked of a file that is no document, with an output directory in place:
each command tells of what it comes to first. -/
theorem reversedPagesRefused :
    let tree : FileTree := { nodes := [(["out"], .directory), (["a.pdf"], .file [37])] }
    let r : Request :=
      { file := "a.pdf", pages := some "9-2", policy := .raw, defaultFormat := "jpg" }
    let extracting := ["extract", "a.pdf", "-o", "out", "--pages", "9-2"]
    let looking := ["info", "a.pdf", "--pages", "9-2"]
    let reversed : Fault := .pages (.reversed "9-2")
    let failed (fault : Fault) : Ending × FileTree :=
      ({ status := 1, output := "", errors := "Error: " ++ fault.message ++ "\n" }, tree)
    r.UnreadPages reversed ∧ r.Unopened tree.read .unknownFormat ∧
    parse (fun _ => none) extracting = .ok (.extract r (some "out")) ∧
    run (fun _ => none) tree extracting = failed reversed ∧
    parse (fun _ => none) looking = .ok (.info r) ∧
    run (fun _ => none) tree looking = failed .unknownFormat := by
  intro tree r extracting looking reversed failed
  have backwards : PageSelection.parse "9-2" = .error reversed := rfl
  have unread : r.UnreadPages reversed := ⟨"9-2", rfl, backwards⟩
  have unopened : ((Source.file r.file).document tree.read).value = .error .unknownFormat := by
    simp only [tree, r]
    rfl
  have first : parse (fun _ => none) extracting = .ok (.extract r (some "out")) := by
    decide +kernel
  have second : parse (fun _ => none) looking = .ok (.info r) := by decide +kernel
  refine ⟨unread, unopened, first, ?_, second, ?_⟩
  · obtain ⟨fault, refused, ended⟩ := refusedUntouched first rfl (.inl ⟨reversed, unread⟩)
    obtain ⟨text, given, found⟩ | ⟨read, _⟩ := refused
    · cases given
      cases found.symm.trans backwards
      exact ended
    · exact absurd unread (read reversed)
  · obtain ⟨fault, refused, ended⟩ := refusedUntouched second rfl (.inr ⟨_, unopened⟩)
    obtain found | ⟨opened, _⟩ := refused
    · cases found.symm.trans unopened
      exact ended
    · exact absurd unopened (opened .unknownFormat)

end Command
end PaintedImages
