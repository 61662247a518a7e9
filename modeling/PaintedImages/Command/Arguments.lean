import PaintedImages.Extraction.Options
import PaintedImages.Json.Writer
import PaintedImages.Text.Parts

/-! Command lines. A command has a file to work on and options, which are given by a long name or a
letter, at most once each; options come in any order, and after two hyphens alone everything is a
file. Arguments are read from left to right, and the first that is out of place ends the reading. -/
namespace PaintedImages

structure Request where
  file : String
  pages : Option String
  policy : DecodePolicy
  defaultFormat : String
  deriving DecidableEq, Repr

inductive Command where
  | extract (request : Request) (directory : Option String)
  | json (request : Request) (output : Option String) (layout : Layout) (statistics : Bool)
  | info (request : Request)
  | version
  deriving DecidableEq, Repr

namespace Command

inductive Stop where
  | usage | help | version
  deriving DecidableEq, Repr

structure Choice where
  name : String
  letter : Option Char := none
  needsValue : Bool := true
  accepts : String → Bool := fun _ => true

structure Given where
  options : List (String × String) := []
  file : Option String := none
  deriving DecidableEq, Repr

inductive Form where
  | separator
  | long (name : String) (value : Option String)
  | short (letter : Char) (attached : List Char)
  | plain
  deriving DecidableEq, Repr

def form (argument : String) : Form :=
  match argument.toList with
  | ['-', '-'] => .separator
  | '-' :: '-' :: rest =>
    match Parts.around '=' rest with
    | some (name, value) => .long (String.ofList name) (some (String.ofList value))
    | none => .long (String.ofList rest) none
  | '-' :: letter :: rest => .short letter rest
  | _ => .plain

def attachedValue : List Char → Option String
  | [] => none
  | '=' :: rest => some (String.ofList rest)
  | rest => some (String.ofList rest)

namespace Given

def add (given : Given) (choice : Choice) (value : String) : Except Stop Given :=
  if (given.options.lookup choice.name).isSome || !choice.accepts value then .error .usage
  else .ok { given with options := (choice.name, value) :: given.options }

def addFile (takesFile : Bool) (given : Given) (file : String) : Except Stop Given :=
  if !takesFile || given.file.isSome || file.isEmpty then .error .usage
  else .ok { given with file := some file }

def has (given : Given) (name : String) : Bool := (given.options.lookup name).isSome

end Given

def choice (choices : List Choice) : Form → Except Stop (Choice × Option String)
  | .long name value =>
    if name = "help" ∧ value = none then .error .help
    else match choices.find? fun c => c.name == name with
      | some c => if value.isSome && !c.needsValue then .error .usage else .ok (c, value)
      | none => .error .usage
  | .short letter attached =>
    if letter = 'h' then .error .help
    else match choices.find? fun c => c.letter == some letter with
      | some c => .ok (c, attachedValue attached)
      | none => .error .usage
  | _ => .error .usage

def collect (choices : List Choice) (takesFile : Bool) (given : Given) :
    List String → Except Stop Given
  | [] => .ok given
  | argument :: rest =>
    match form argument with
    | .separator => rest.foldlM (Given.addFile takesFile) given
    | .plain => do collect choices takesFile (← given.addFile takesFile argument) rest
    | form => do
      let (c, value) ← choice choices form
      match c.needsValue, value, rest with
      | false, _, rest => collect choices takesFile (← given.add c "") rest
      | true, some value, rest => collect choices takesFile (← given.add c value) rest
      | true, none, [] => .error .usage
      | true, none, value :: rest =>
        if Command.form value = .plain then
          collect choices takesFile (← given.add c value) rest
        else .error .usage

def policyOf? (name : String) : Option DecodePolicy :=
  [DecodePolicy.raw, .unfiltered].find? fun policy => policy.name == name

def requestChoices : List Choice :=
  [{ name := "pages" },
    { name := "decode", accepts := fun value => (policyOf? value).isSome },
    { name := "default-format" }]

def outputChoice : Choice :=
  { name := "output", letter := some 'o', accepts := fun value => !value.isEmpty }

def flag (name : String) : Choice := { name, needsValue := false }

def request (environment : String → Option String) (given : Given) : Except Stop Request := do
  let file ← given.file.elim (.error .usage) .ok
  let setting (option key default : String) : String :=
    ((given.options.lookup option).orElse fun _ => environment key).getD default
  let policy ← (policyOf? (setting "decode" "PDFIMG_DECODE" "raw")).elim (.error .usage) .ok
  .ok {
    file, policy
    pages := given.options.lookup "pages"
    defaultFormat := setting "default-format" "PDFIMG_DEFAULT_FORMAT" "jpg" }

def stop (argument : String) : Stop :=
  match form argument with
  | .long "version" none => .version
  | .short 'V' _ => .version
  | .long "help" none => .help
  | .short 'h' _ => .help
  | _ => .usage

def parse (environment : String → Option String) : List String → Except Stop Command
  | "extract" :: rest => do
    let given ← collect (outputChoice :: requestChoices) true {} rest
    .ok (.extract (← request environment given) (given.options.lookup "output"))
  | "json" :: rest => do
    let given ←
      collect (outputChoice :: flag "compact" :: flag "stats" :: requestChoices) true {} rest
    let layout := if given.has "compact" then .compact else .pretty
    .ok (.json (← request environment given) (given.options.lookup "output") layout
      (given.has "stats"))
  | "info" :: rest => do
    .ok (.info (← request environment (← collect requestChoices true {} rest)))
  | "version" :: rest => do
    let _ ← collect [] false {} rest
    .ok .version
  | ["help"] => .error .help
  | ["help", command] =>
    .error (if ["extract", "json", "info", "version", "help"].contains command then .help
      else .usage)
  | argument :: _ => .error (stop argument)
  | [] => .error .usage

end Command
end PaintedImages
