import PaintedImages.Json.Value

/-! Calls from a host and the replies to them, as JSON values. Both can also be written as lists: a
call by its fields in order, a reply by its status and its fields in order. -/
namespace PaintedImages

structure Call where
  method : String
  arguments : Json := .null
  deriving Repr, BEq

def Call.ofJson? : Json → Option Call
  | .object members => do
    let method ← (← members.lookup "method").text?
    some ⟨method, (members.lookup "arguments").getD .null⟩
  | .array [.string method] => some ⟨method, .null⟩
  | .array [.string method, arguments] => some ⟨method, arguments⟩
  | _ => none

inductive Reply where
  | success (result : Json)
  | failure (code message : String) (details : Option String)
  | notImplemented
  deriving Repr, BEq

namespace Reply

def toJson : Reply → Json
  | success result => .object [("status", .string "success"), ("result", result)]
  | failure code message details =>
    .object [("status", .string "error"), ("code", .string code), ("message", .string message),
      ("details", details.elim .null .string)]
  | notImplemented => .object [("status", .string "notImplemented")]

def optionalText? : Json → Option (Option String)
  | .null => some none
  | .string s => some (some s)
  | _ => none

def ofFields? (field : String → Option Json) : String → Option Reply
  | "success" => (field "result").map success
  | "error" => do
    let code ← (← field "code").text?
    let message ← (← field "message").text?
    some (failure code message (← optionalText? ((field "details").getD .null)))
  | "notImplemented" => some notImplemented
  | _ => none

def ofJson? : Json → Option Reply
  | .object members => do
    let status ← (← members.lookup "status").text?
    ofFields? (fun name => members.lookup name) status
  | .array [.string "success", result] => some (success result)
  | .array [.string "error", .string code, .string message, details] =>
    (optionalText? details).map (failure code message)
  | .array [.string "notImplemented"] => some notImplemented
  | _ => none

end Reply
end PaintedImages
