/-! Diagnostics. A computation that may report something on its way is a value together with the
messages it emitted, in order. -/
namespace PaintedImages

inductive Severity where
  | debug | info | warning | failure
  deriving DecidableEq, Repr

def Severity.label : Severity → String
  | .debug => "DEBUG"
  | .info => "INFO"
  | .warning => "WARN"
  | .failure => "ERROR"

structure Message where
  severity : Severity
  text : String
  deriving DecidableEq, Repr

def Message.line (m : Message) : String := m.severity.label ++ " " ++ m.text

structure Traced (α : Type) where
  value : α
  log : List Message
  deriving DecidableEq, Repr

namespace Traced
variable {α β ε : Type}

def silent (a : α) : Traced α := ⟨a, []⟩

def bind (x : Traced α) (f : α → Traced β) : Traced β :=
  ⟨(f x.value).value, x.log ++ (f x.value).log⟩

def map (f : α → β) (x : Traced α) : Traced β := ⟨f x.value, x.log⟩

instance : Monad Traced where
  pure := silent
  bind := bind
  map := map

def andThen (x : Traced (Except ε α)) (f : α → Traced (Except ε β)) : Traced (Except ε β) :=
  match x.value with
  | .ok a => ⟨(f a).value, x.log ++ (f a).log⟩
  | .error e => ⟨.error e, x.log⟩

end Traced
end PaintedImages
