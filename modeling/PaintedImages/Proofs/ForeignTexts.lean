import PaintedImages.Host.Foreign
import PaintedImages.Proofs.LossyText
import PaintedImages.Proofs.OpeningFaults

/-! What a host whose texts end at a NUL gets to see of an extraction from bytes. The records arrive
whole, since their text has no control characters left. A fault arrives with its own wording but for
one kind of file: where a zero byte stands in the place of the version, the wording would quote it,
and nothing of the wording arrives. -/
namespace PaintedImages

namespace Json

theorem hexDigitNoNul {n : Nat} (small : n < 16) : Bytes.hexDigit n ≠ '\x00' := by
  have every : ∀ n < 16, Bytes.hexDigit n ≠ '\x00' := by decide
  exact every n small

theorem escapeNoNul (c : Char) : '\x00' ∉ escape c := by
  unfold escape
  iterate 7
    split
    · decide
  split
  · rename_i control
    have high := hexDigitNoNul (n := c.toNat / 16) (by omega)
    have low := hexDigitNoNul (n := c.toNat % 16) (by omega)
    simp [backslash, Ne.symm high, Ne.symm low]
  · rename_i printable
    rw [List.mem_singleton]
    rintro rfl
    exact printable (by decide)

theorem quotedNoNul (s : String) : '\x00' ∉ quoted s := by
  have inside : '\x00' ∉ s.toList.flatMap escape := by
    rw [List.mem_flatMap]
    rintro ⟨c, _, mem⟩
    exact escapeNoNul c mem
  simp [quoted, quote, inside]

theorem gapNoNul (layout : Layout) (depth : Nat) : '\x00' ∉ gap layout depth := by
  cases layout <;> simp [gap]

theorem enclosedNoNul (layout : Layout) (depth : Nat) {opening closing : Char}
    (starts : '\x00' ≠ opening) (ends : '\x00' ≠ closing) {parts : List (List Char)}
    (inside : ∀ part ∈ parts, '\x00' ∉ part) :
    '\x00' ∉ enclosed layout depth opening closing parts := by
  unfold enclosed
  cases parts with
  | nil => simp [starts, ends]
  | cons first rest =>
    have head : '\x00' ∉ first := inside first List.mem_cons_self
    have tail : ∀ part ∈ rest, '\x00' ∉ part := fun part mem =>
      inside part (List.mem_cons_of_mem _ mem)
    simpa [starts, ends, gapNoNul, head] using tail

end Json

namespace Record

theorem writeNoNul (layout : Layout) (depth : Nat) (r : Record) :
    '\x00' ∉ Json.write layout depth r.toJson := by
  simp only [toJson, Json.write, Json.writeMembers]
  apply Json.enclosedNoNul
  · decide
  · decide
  · have colon : '\x00' ∉ Json.colon layout := by
      cases layout <;> decide
    simp [Json.quotedNoNul, colon]

theorem renderNoNul (layout : Layout) (records : List Record) :
    '\x00' ∉ (render layout records).toList := by
  have items : ∀ part ∈ Json.writeItems layout 1 (records.map toJson), '\x00' ∉ part := by
    induction records with
    | nil => nofun
    | cons r rest ih =>
      intro part mem
      obtain rfl | later := List.mem_cons.mp mem
      · exact writeNoNul layout 1 r
      · exact ih part later
  rw [render, Json.render, String.toList_ofList, Json.write]
  exact Json.enclosedNoNul layout 0 (by decide) (by decide) items

end Record

theorem literalNoNul {text : List Char} (clean : '\x00' ∉ text) :
    '\x00' ∉ (String.ofList text).toList := by
  rwa [String.toList_ofList]

theorem appendNoNul {first second : String} (left : '\x00' ∉ first.toList)
    (right : '\x00' ∉ second.toList) : '\x00' ∉ (first ++ second).toList := by
  rw [String.toList_append, List.mem_append, not_or]
  exact ⟨left, right⟩

theorem versionNul (version : String) :
    '\x00' ∈ (Fault.unsupportedVersion version).message.toList ↔ '\x00' ∈ version.toList := by
  have wording : '\x00' ∉ "Unsupported PDF version: ".toList := literalNoNul (by decide)
  change '\x00' ∈ ("Unsupported PDF version: " ++ version).toList ↔ _
  rw [String.toList_append, List.mem_append]
  simp only [wording, false_or]

theorem codeNoNul (fault : Fault) : '\x00' ∉ fault.code.toList := by
  unfold Fault.code
  split
  · exact literalNoNul (by decide)
  · exact literalNoNul (by decide)

theorem openingNoNul : ∀ fault ∈ openingFaults, '\x00' ∉ fault.message.toList := by
  have wording {cause : DocumentFault} (clean : '\x00' ∉ cause.message.toList) :
      '\x00' ∉ (Fault.document cause).message.toList :=
    appendNoNul (literalNoNul (by decide)) clean
  simp only [openingFaults, List.forall_mem_cons]
  refine ⟨wording ?_, wording ?_, wording ?_, wording ?_, wording ?_, wording ?_,
    appendNoNul ?_ ?_, nofun⟩
  all_goals exact literalNoNul (by decide)

namespace Header

def zeroInVersion (data : Bytes) : Bool :=
  match Bytes.strip magic data with
  | some (major :: point :: minor :: _) => [major, point, minor].contains 0
  | _ => false

/- A zero is neither a digit nor a period, so that it always spoils the version. -/
theorem detectZero {data : Bytes} (zero : zeroInVersion data = true) :
    ∃ version, detect data = .error (.unsupportedVersion version) ∧ '\x00' ∈ version.toList := by
  unfold zeroInVersion at zero
  split at zero
  · rename_i major point minor rest found
    have mem : 0 ∈ [major, point, minor] := by simpa using zero
    refine ⟨Utf8.lossy [major, point, minor], ?_, (Utf8.lossyZero _).mpr mem⟩
    have spoiled : ¬ (Bytes.isDigit major && point == 46 && Bytes.isDigit minor) = true := by
      intro proper
      simp only [Bool.and_eq_true, beq_iff_eq] at proper
      simp only [List.mem_cons, List.not_mem_nil, or_false] at mem
      obtain rfl | rfl | rfl := mem
      · exact absurd proper.1.1 (by decide)
      · exact absurd proper.1.2 (by decide)
      · exact absurd proper.2 (by decide)
    simp only [detect, found, if_neg spoiled]
  · contradiction

theorem detectNoNul {data : Bytes} (proper : zeroInVersion data = false) {fault : Fault}
    (failed : detect data = .error fault) : '\x00' ∉ fault.message.toList := by
  unfold detect at failed
  split at failed
  · rename_i major point minor rest found
    dsimp only at failed
    split at failed
    · contradiction
    · cases failed
      rw [versionNul, Utf8.lossyZero]
      simpa [zeroInVersion, found] using proper
  · cases failed
    exact literalNoNul (by decide)

end Header

namespace Source

/- An extraction from bytes fails only where the document cannot be opened. -/
theorem memoryFails {files : Files} {options : Options} {data : Bytes} {fault : Fault}
    (failed : ((memory data).records files options).value = .error fault) :
    Header.detect data = .error fault ∨ fault ∈ openingFaults := by
  obtain unread | ⟨found, same, opening⟩ := recordsFail failed
  · contradiction
  · cases same
    exact opening

theorem memoryZero (files : Files) (options : Options) {data : Bytes}
    (zero : Header.zeroInVersion data = true) :
    ∃ version, ((memory data).records files options).value =
      .error (.unsupportedVersion version) ∧ '\x00' ∈ version.toList := by
  obtain ⟨version, refused, mem⟩ := Header.detectZero zero
  refine ⟨version, ?_, mem⟩
  simp only [records, extract, document, read, Document.ofBytes, refused]
  rfl

end Source

namespace ForeignResult

def texts : ForeignResult → List String
  | success data => [data]
  | failure code message => [code, message]

theorem passedWhole {text : String} (clean : '\x00' ∉ text.toList) : passed text = text := by
  rw [passed, if_neg]
  simpa using clean

theorem passedNoNul (text : String) : '\x00' ∉ (passed text).toList := by
  unfold passed
  split
  · decide
  · rename_i clean
    simpa using clean

theorem resultNoNul (result : Except Fault (List Record)) :
    ∀ text ∈ (ofResult result).texts, '\x00' ∉ text.toList := by
  intro text mem
  cases result with
  | ok records =>
    rw [List.mem_singleton.mp mem]
    exact passedNoNul _
  | error fault =>
    obtain rfl | mem := List.mem_cons.mp mem
    · exact passedNoNul _
    · rw [List.mem_singleton.mp mem]
      exact passedNoNul _

/- None of the texts given to a host ends before its end. -/
theorem bytesPassed (files : Source.Files) (data : Bytes) :
    let result := (ofBytes files (some data)).value
    (result = match ((Source.memory data).records files {}).value with
      | .ok records => .success (Record.render .compact records)
      | .error fault => .failure fault.code
        (if Header.zeroInVersion data then "" else fault.message)) ∧
    ∀ text ∈ result.texts, '\x00' ∉ text.toList := by
  intro result
  refine ⟨?_, resultNoNul _⟩
  change ofResult ((Source.memory data).records files {}).value = _
  cases extracted : ((Source.memory data).records files {}).value with
  | ok records =>
    rw [ofResult, passedWhole (Record.renderNoNul _ records)]
  | error fault =>
    rw [ofResult, passedWhole (codeNoNul fault)]
    cases zero : Header.zeroInVersion data with
    | true =>
      obtain ⟨version, refused, mem⟩ := Source.memoryZero files {} zero
      cases extracted.symm.trans refused
      rw [passed, if_pos (by simpa using (versionNul version).mpr mem)]
      rfl
    | false =>
      have clean : '\x00' ∉ fault.message.toList := by
        obtain refused | opening := Source.memoryFails extracted
        · exact Header.detectNoNul zero refused
        · exact openingNoNul fault opening
      rw [passedWhole clean]
      rfl

theorem zeroVersionUnworded :
    let files : Source.Files := fun _ => .error .notFound
    let data : Bytes := [37, 80, 68, 70, 45, 49, 46, 0]
    Header.zeroInVersion data = true ∧
    ((Source.memory data).records files {}).value = .error (.unsupportedVersion "1.\x00") ∧
    (ofBytes files (some data)).value = .failure "ExtractionError" "" := by
  intro files data
  have zero : Header.zeroInVersion data = true := by decide
  have version : Utf8.lossy [49, 46, 0] = "1.\x00" := by
    simp [Utf8.lossy, Utf8.scan, Utf8.lead, Utf8.follow]
  have refused : ((Source.memory data).records files {}).value =
      .error (.unsupportedVersion "1.\x00") := by
    rw [← version]
    rfl
  refine ⟨zero, refused, ?_⟩
  rw [(bytesPassed files data).1, refused]
  exact congrArg (ForeignResult.failure _) (if_pos zero)

end ForeignResult
end PaintedImages
