import PaintedImages.Extraction.Walk

/-! Reports: the records of an extraction and its statistics, and their JSON form. -/
namespace PaintedImages

structure Report where
  records : List Record := []
  statistics : Statistics := {}
  deriving DecidableEq, Repr

namespace Report

def ofWalk (w : Walk) : Report := ⟨w.collector.records, w.statistics⟩

def extract (source : PageSource) (options : Options) : Traced Report :=
  ((Walk.document source options.pages (.start options)).map ofWalk).bind fun report =>
    ⟨report, [⟨.info, report.statistics.summary⟩]⟩

end Report

def Statistics.toJson (s : Statistics) : Json :=
  .object (s.fields.map fun field => (field.1, Json.ofNat field.2.toNat))

namespace Statistics

abbrev Draft := List (String × UInt32)

def names : List String := ({} : Statistics).fields.map Prod.fst

def draftField (name : String) : Option (Draft → Json.Reader Draft) :=
  if names.contains name then
    some fun d t =>
      (Json.once Json.word (List.lookup name d) t).bind fun r =>
        r.1.map fun n => ((name, n) :: d, r.2)
  else none

def ofDraft (d : Draft) : Option Statistics :=
  (names.mapM fun name => List.lookup name d).bind ofList

/-- Statistics are an object with all counters, among others, or a list of just these. -/
def read : Json.Reader Statistics := fun t =>
  match Json.skipSpace t with
  | '[' :: _ => do
    let (counters, t) ← Json.list Json.word t
    some (← ofList counters, t)
  | _ => do
    let (d, t) ← Json.fieldsOf draftField [] t
    some (← ofDraft d, t)

end Statistics

namespace Report

def toJson (r : Report) : Json :=
  .object [("records", .array (r.records.map Record.toJson)), ("stats", r.statistics.toJson)]

abbrev Draft := Option (List Record) × Option Statistics

def draftField (name : String) : Option (Draft → Json.Reader Draft) :=
  if name = "records" then
    some fun d t => (Json.once Record.readList d.1 t).map fun r => ((r.1, d.2), r.2)
  else if name = "stats" then
    some fun d t => (Json.once Statistics.read d.2 t).map fun r => ((d.1, r.1), r.2)
  else none

def read : Json.Reader Report := fun t =>
  match Json.skipSpace t with
  | '[' :: rest => do
    let (records, t) ← Record.readList rest
    let t ← Json.expect ',' t
    let (statistics, t) ← Statistics.read t
    let t ← Json.expect ']' t
    some (⟨records, statistics⟩, t)
  | _ => do
    let ((records, statistics), t) ← Json.fieldsOf draftField (none, none) t
    some (⟨← records, ← statistics⟩, t)

def render (layout : Layout) (r : Report) : String := Json.render layout r.toJson

def parse? (text : String) : Option Report := Json.readAll read text

end Report
end PaintedImages
