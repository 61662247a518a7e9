import Mathlib.Data.List.Nodup
import PaintedImages.Extraction.Report
import PaintedImages.Proofs.JsonText

/-! Records and reports read back from their JSON. Whatever the two texts of a record and the ten
counters of a report are, and in either layout, what was written is what is read. The fields of an
object are met in the order in which they are written; that each counter is written once is what
lets all of them be read. -/
namespace PaintedImages

namespace Json
section Readers
variable {α β : Type} {reader : Reader α} {written : Text} {a : α}

theorem onceTakes (read : Takes reader written a) : Takes (once reader none) written (some a) := by
  intro space tail blank ends
  simp only [once, Option.isSome_none, read space tail blank ends, Option.map_some]
  rfl

theorem mapTakes (f : α → β) (read : Takes reader written a) :
    Takes (fun t => (reader t).map fun r => (f r.1, r.2)) written (f a) := by
  intro space tail blank ends
  simp only [read space tail blank ends, Option.map_some]

theorem readAllTakes (read : Takes reader written a) :
    readAll reader (String.ofList written) = some a := by
  have whole := read [] [] noSpaces trivial
  rw [List.nil_append, List.append_nil] at whole
  simp only [readAll, String.toList_ofList, whole, bind, Option.bind]
  rfl

end Readers

/- A type read from an object has its reader look for the bracket of a list first. -/
theorem skipSpaceObject (layout : Layout) (depth : Nat) (parts : List Text) {space : Text}
    (blank : Spaces space) (tail : Text) :
    ∃ rest, skipSpace (space ++ (enclosed layout depth '\x7b' '\x7d' parts ++ tail)) =
      '\x7b' :: rest := by
  obtain ⟨rest, form⟩ := enclosedStarts layout depth '\x7b' '\x7d' parts
  have visible : isSpace '\x7b' = false := rfl
  rw [skipSpaceAppend blank, form, List.cons_append, skipSpaceVisible visible]
  exact ⟨_, rfl⟩

end Json

namespace Record

theorem recordFilled (layout : Layout) (depth : Nat) (r : Record) :
    Json.Filled draftField layout (none, none)
      (Json.writeMembers layout depth [("format", .string r.format), ("data", .string r.data)])
      (some r.format, some r.data) := by
  have format := Json.mapTakes (fun found : Option String => (found, (none : Option String)))
    (Json.onceTakes (Json.textTakes r.format))
  have data := Json.mapTakes (fun found : Option String => (some r.format, found))
    (Json.onceTakes (Json.textTakes r.data))
  exact .cons rfl format (.cons rfl data (.nil _))

theorem recordTakes (layout : Layout) (depth : Nat) (r : Record) :
    Json.Takes read (Json.write layout depth r.toJson) r := by
  intro space tail blank ends
  have fields := Json.fieldsTake depth (recordFilled layout (depth + 1) r)
    space tail blank ends
  obtain ⟨rest, start⟩ := Json.skipSpaceObject layout depth
    (Json.writeMembers layout (depth + 1) [("format", .string r.format), ("data", .string r.data)])
    blank tail
  simp only [toJson, Json.write, read, start, fields, bind, Option.bind]
  rfl

theorem recordsTake (layout : Layout) (depth : Nat) (records : List Record) :
    Json.Takes readList (Json.write layout depth (.array (records.map toJson))) records := by
  have parts : ∀ part ∈ Json.writeItems layout (depth + 1) (records.map toJson),
      Json.Starts part := by
    induction records with
    | nil => nofun
    | cons r rest ih =>
      intro part mem
      rcases List.mem_cons.mp mem with rfl | later
      · obtain ⟨more, form⟩ := Json.enclosedStarts layout (depth + 1) '\x7b' '\x7d'
          (Json.writeMembers layout (depth + 2)
            [("format", .string r.format), ("data", .string r.data)])
        exact ⟨'\x7b', more, form, by decide, by decide, by decide⟩
      · exact ih part later
  have read : List.Forall₂ (Json.Takes read)
      (Json.writeItems layout (depth + 1) (records.map toJson)) records := by
    induction records with
    | nil => exact .nil
    | cons r rest ih =>
      refine .cons (recordTakes layout (depth + 1) r) (ih ?_)
      exact fun part mem => parts part (List.mem_cons_of_mem _ mem)
  exact Json.bracketedTakes (by decide) (.inl rfl) parts read

end Record

namespace Statistics

def members (counters : List (String × UInt32)) : List (String × Json) :=
  counters.map fun counter => (counter.1, Json.ofNat counter.2.toNat)

theorem counterTakes (layout : Layout) (depth : Nat) {name : String} {draft : Draft}
    (fresh : draft.lookup name = none) (n : UInt32) :
    Json.Takes (fun t => (Json.once Json.word (draft.lookup name) t).bind fun r =>
        r.1.map fun n => ((name, n) :: draft, r.2))
      (Json.write layout depth (Json.ofNat n.toNat)) ((name, n) :: draft) := by
  intro space tail blank ends
  have read := Json.onceTakes (Json.wordTakes layout depth n) space tail blank ends
  simp only [fresh, read, Option.bind_some, Option.map_some]

/- The draft holds the counters read so far, the last one first. -/
theorem countersFilled (layout : Layout) (depth : Nat) {counters : List (String × UInt32)}
    {draft : Draft} (known : ∀ counter ∈ counters, names.contains counter.1 = true)
    (distinct : (counters.map Prod.fst ++ draft.map Prod.fst).Nodup) :
    Json.Filled draftField layout draft (Json.writeMembers layout depth (members counters))
      (counters.reverse ++ draft) := by
  induction counters generalizing draft with
  | nil => exact .nil draft
  | cons counter rest ih =>
    obtain ⟨name, n⟩ := counter
    obtain ⟨apart, others⟩ := List.nodup_cons.mp distinct
    have fresh : draft.lookup name = none := by
      rw [List.lookup_eq_none_iff]
      intro entry mem
      have drafted : entry.1 ∈ draft.map Prod.fst := List.mem_map_of_mem mem
      have other : name ≠ entry.1 := fun same =>
        apart (List.mem_append_right _ (same ▸ drafted))
      simpa using other
    have field : draftField name = some fun d t =>
        (Json.once Json.word (List.lookup name d) t).bind fun r =>
          r.1.map fun n => ((name, n) :: d, r.2) := if_pos (known _ List.mem_cons_self)
    rw [List.reverse_cons, List.append_assoc]
    refine .cons field (counterTakes layout depth fresh n) (ih ?_ (List.nodup_middle.mpr distinct))
    exact fun counter mem => known counter (List.mem_cons_of_mem _ mem)

theorem statisticsTake (layout : Layout) (depth : Nat) (s : Statistics) :
    Json.Takes read (Json.write layout depth s.toJson) s := by
  intro space tail blank ends
  have known : ∀ counter ∈ s.fields, names.contains counter.1 = true := by
    simp only [fields, List.forall_mem_cons]
    decide
  have distinct : (s.fields.map Prod.fst ++ ([] : Draft).map Prod.fst).Nodup := by
    simp only [fields, List.map_cons, List.map_nil]
    decide
  have counters := Json.fieldsTake depth (countersFilled layout (depth + 1) known distinct)
    space tail blank ends
  have drafted : ofDraft (s.fields.reverse ++ []) = some s := rfl
  obtain ⟨rest, start⟩ := Json.skipSpaceObject layout depth
    (Json.writeMembers layout (depth + 1) (members s.fields)) blank tail
  change read (space ++ (Json.enclosed layout depth '\x7b' '\x7d'
    (Json.writeMembers layout (depth + 1) (members s.fields)) ++ tail)) = _
  simp only [read, start, counters, drafted, bind, Option.bind]
  rfl

end Statistics

namespace Report

theorem reportFilled (layout : Layout) (depth : Nat) (r : Report) :
    Json.Filled draftField layout (none, none)
      (Json.writeMembers layout depth
        [("records", .array (r.records.map Record.toJson)), ("stats", r.statistics.toJson)])
      (some r.records, some r.statistics) := by
  have records := Json.mapTakes
    (fun found : Option (List Record) => (found, (none : Option Statistics)))
    (Json.onceTakes (Record.recordsTake layout depth r.records))
  have statistics := Json.mapTakes (fun found : Option Statistics => (some r.records, found))
    (Json.onceTakes (Statistics.statisticsTake layout depth r.statistics))
  exact .cons rfl records (.cons rfl statistics (.nil _))

theorem reportTakes (layout : Layout) (depth : Nat) (r : Report) :
    Json.Takes read (Json.write layout depth r.toJson) r := by
  intro space tail blank ends
  have fields := Json.fieldsTake depth (reportFilled layout (depth + 1) r)
    space tail blank ends
  obtain ⟨rest, start⟩ := Json.skipSpaceObject layout depth (Json.writeMembers layout (depth + 1)
    [("records", .array (r.records.map Record.toJson)), ("stats", r.statistics.toJson)])
    blank tail
  simp only [toJson, Json.write, read, start, fields, bind, Option.bind]
  rfl

theorem writtenReadBack (layout : Layout) :
    (∀ records, Record.parse (Record.render layout records) = .ok records) ∧
    ∀ report : Report, parse? (report.render layout) = some report := by
  constructor
  · intro records
    have read := Json.readAllTakes (Record.recordsTake layout 0 records)
    simp only [Record.parse, Record.render, Json.render, read]
    rfl
  · intro report
    exact Json.readAllTakes (reportTakes layout 0 report)

end Report
end PaintedImages
