import PaintedImages.Proofs.Counting
import PaintedImages.Proofs.OpeningFaults

/-! Where faults end. Opening a document can fail, and does for five kinds of causes only; what
fails after that, in a page, an operator, a lookup or a filter, is counted and goes no further. So
extraction fails just where opening does, and with the same fault. -/
namespace PaintedImages

inductive Fault.EndsOpening : Fault → Prop where
  | file (cause : FileFault) : EndsOpening (.file cause)
  | unknownFormat : EndsOpening .unknownFormat
  | unsupportedVersion (version : String) : EndsOpening (.unsupportedVersion version)
  | encrypted : EndsOpening .encrypted
  | document (cause : DocumentFault) : EndsOpening (.document cause)

theorem Fault.concernsEnds {fault : Fault} (concerns : fault.concernsDocument = true) :
    fault.EndsOpening := by
  cases fault with
  | file cause => exact .file cause
  | unknownFormat => exact .unknownFormat
  | unsupportedVersion version => exact .unsupportedVersion version
  | document cause => exact .document cause
  | _ => contradiction

namespace Source
section Extraction
variable (files : Files) (options : Options) (source : Source)

theorem extractExact : (source.extract files options).value =
    (source.document files).value.map fun document =>
      (Report.extract document.source options).value := by
  simp only [extract, Traced.andThen]
  cases (source.document files).value <;> rfl

theorem recordsExact : (source.records files options).value =
    (source.extract files options).value.map Report.records := rfl

theorem extractEnds {fault : Fault} (failed : (source.extract files options).value = .error fault) :
    fault.EndsOpening := by
  have records : (source.records files options).value = .error fault := by
    rw [recordsExact, failed]
    rfl
  exact Fault.concernsEnds (recordsConcern records)

end Extraction

theorem onlyOpeningFails (files : Files) (options : Options) (source : Source) :
    let result := (source.extract files options).value
    (∀ fault, result = .error fault ↔ (source.document files).value = .error fault) ∧
    (∀ fault, result = .error fault → fault.EndsOpening) ∧
    ∀ document, (source.document files).value = .ok document →
      ∃ report, result = .ok report ∧ ∀ c : Counter, c.value report.statistics =
        UInt32.ofNat (c.count
          (document.source.events options (document.source.selected options.pages))) := by
  intro result
  have opened : result = (source.document files).value.map fun document =>
      (Report.extract document.source options).value := extractExact files options source
  refine ⟨fun fault => ?_, fun fault failed => extractEnds files options source failed,
    fun document found => ?_⟩
  · rw [opened]
    cases (source.document files).value with
    | error cause => simp [Except.map]
    | ok document => simp [Except.map]
  · rw [opened, found]
    exact ⟨_, rfl, Report.extractCounted document.source options⟩

/- A file that is not there, and bytes that are no document. -/
theorem unopenedEnds :
    let files : Files := fun _ => .error .notFound
    ((Source.file "a.pdf").extract files {}).value = .error (.file .notFound) ∧
    (Fault.file .notFound).EndsOpening ∧
    ((Source.memory [37]).extract files {}).value = .error .unknownFormat := by
  intro files
  have missing := onlyOpeningFails files {} (.file "a.pdf")
  have unknown := onlyOpeningFails files {} (.memory [37])
  have failed : ((Source.file "a.pdf").extract files {}).value = .error (.file .notFound) :=
    (missing.1 _).mpr rfl
  exact ⟨failed, missing.2.1 _ failed, (unknown.1 _).mpr rfl⟩

end Source
end PaintedImages
