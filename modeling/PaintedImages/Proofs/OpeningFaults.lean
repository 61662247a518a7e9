import PaintedImages.Source

/-! Why a document cannot be opened. The header aside, every cause is one of seven, none of which
says anything of what stands in the file; a reader of the texts has nothing to fear from them. -/
namespace PaintedImages

def openingFaults : List Fault :=
  [.document .header, .document .startOffset, .document .previousOffset, .document .hybridOffset,
    .document .trailer, .document .crossReferences, .file .endOfData]

def Opens {α : Type} (x : Except Fault α) : Prop :=
  ∀ fault, x = .error fault → fault ∈ openingFaults

section Opens
variable {α β : Type}

theorem opensOk (a : α) : Opens (.ok a) := nofun

theorem opensError {fault : Fault} (mem : fault ∈ openingFaults) :
    Opens (.error fault : Except Fault α) := by
  intro other same
  cases same
  exact mem

theorem opensBind {x : Except Fault α} {f : α → Except Fault β} (first : Opens x)
    (next : ∀ a, Opens (f a)) : Opens (x >>= f) := by
  cases x with
  | error fault => exact opensError (first fault rfl)
  | ok a => exact next a

/- What a choice goes on with is looked at once. -/
theorem opensChoice {c : Prop} [Decidable c] {x : Except Fault α} {f : α → Except Fault β}
    {other : Except Fault β} (first : Opens x) (second : (∀ a, Opens (f a)) → Opens other)
    (next : ∀ a, Opens (f a)) : Opens (if c then x >>= f else other) := by
  split
  · exact opensBind first next
  · exact second next

theorem opensElim (o : Option α) {fault : Fault} (mem : fault ∈ openingFaults) :
    Opens (o.elim (.error fault) .ok) := by
  cases o with
  | none => exact opensError mem
  | some a => exact opensOk a

end Opens

namespace CrossReferences

theorem fieldOpens (width : Nat) (bs : Bytes) : Opens (field width bs) := by
  simp only [field]
  split
  · exact opensError (by decide)
  · exact opensOk _

theorem binaryRowsOpens (first second third count number : Nat) (refs : CrossReferences)
    (bs : Bytes) : Opens (binaryRows first second third count number refs bs) := by
  induction count generalizing number refs bs with
  | zero => exact opensOk _
  | succ count ih =>
    simp only [binaryRows]
    refine opensChoice (opensOk _) (opensBind (fieldOpens _ _)) fun found => ?_
    obtain ⟨kind, bs⟩ := found
    dsimp only
    split
    · exact opensBind (fieldOpens _ _) fun _ => opensBind (fieldOpens _ _) fun _ => ih _ _ _
    · split
      · exact opensBind (fieldOpens _ _) fun _ => opensBind (fieldOpens _ _) fun _ => ih _ _ _
      · split
        · exact opensBind (fieldOpens _ _) fun _ => opensBind (fieldOpens _ _) fun _ => ih _ _ _
        · exact ih _ _ _

theorem binarySectionsOpens (first second third : Nat) (pieces : List Int)
    (refs : CrossReferences) (bs : Bytes) :
    Opens (binarySections first second third pieces refs bs) := by
  induction pieces, refs, bs using binarySections.induct with
  | case1 start count rest refs bs ih =>
    exact opensBind (binaryRowsOpens _ _ _ _ _ _ _) fun found => ih found.1 found.2
  | case2 pieces refs bs other =>
    obtain _ | ⟨start, _ | ⟨count, rest⟩⟩ := pieces
    · exact opensOk _
    · exact opensOk _
    · exact (other start count rest rfl).elim

theorem ofStreamOpens (d : Dictionary) (content : Bytes) : Opens (ofStream d content) := by
  simp only [ofStream]
  refine opensChoice (opensOk _) (fun next => ?_) fun content => ?_
  · split
    · exact opensBind (opensOk _) next
    · exact opensError (by decide)
  · split
    · split
      · exact opensError (by decide)
      · exact opensBind (binarySectionsOpens _ _ _ _ _ _) fun _ => opensOk _
    · exact opensError (by decide)

end CrossReferences

namespace File

theorem crossReferencesOpens (data : Bytes) (offset : Nat) :
    Opens (crossReferences data offset) := by
  unfold crossReferences
  split
  · split
    · exact opensOk _
    · exact opensError (by decide)
  · split
    · exact CrossReferences.ofStreamOpens _ _
    · exact opensError (by decide)
    · exact opensError (by decide)

theorem olderOpens (data : Bytes) (fuel : Nat) (seen : List Int) (hybrid link : Option Int)
    (refs : CrossReferences) : Opens (older data fuel seen hybrid link refs) := by
  induction fuel generalizing seen hybrid link refs with
  | zero => exact opensOk _
  | succ fuel ih =>
    cases link with
    | none => exact opensOk _
    | some place =>
      unfold older
      split
      · exact opensOk _
      · split
        · exact opensError (by decide)
        · refine opensBind (crossReferencesOpens _ _) fun found => ?_
          obtain ⟨found, trailer⟩ := found
          dsimp only
          split
          · split
            · exact opensError (by decide)
            · exact opensBind (crossReferencesOpens _ _) fun _ => opensBind (opensOk _) fun _ =>
                ih _ _ _ _
          · exact opensBind (opensOk _) fun _ => ih _ _ _ _

theorem documentOpens (data : Bytes) : Opens (document data) := by
  unfold document
  refine opensBind (opensElim _ (by decide)) fun version => ?_
  refine opensBind (opensElim _ (by decide)) fun start => ?_
  refine opensBind (crossReferencesOpens _ _) fun found => ?_
  refine opensBind (olderOpens _ _ _ _ _ _) fun refs => ?_
  split
  · exact opensError (by decide)
  · exact opensOk _

end File

def Fault.concernsDocument : Fault → Bool
  | .file _ | .unknownFormat | .unsupportedVersion _ | .document _ => true
  | _ => false

theorem Header.detectConcerns {data : Bytes} {fault : Fault}
    (refused : detect data = .error fault) :
    fault.concernsDocument = true := by
  unfold detect at refused
  split at refused
  · dsimp only at refused
    split at refused
    · contradiction
    · cases refused
      rfl
  · cases refused
    rfl

namespace Source

/- Reading, then the header, then the document: nothing later on can fail. -/
theorem recordsFail {files : Files} {options : Options} {source : Source} {fault : Fault}
    (failed : (source.records files options).value = .error fault) :
    source.read files = .error fault ∨
    ∃ data, source.read files = .ok data ∧
      (Header.detect data = .error fault ∨ fault ∈ openingFaults) := by
  have opened : (source.document files).value = .error fault := by
    simp only [records, extract, Traced.map, Traced.andThen] at failed
    cases found : (source.document files).value with
    | error cause =>
      rw [found] at failed
      cases failed
      rfl
    | ok document =>
      rw [found] at failed
      contradiction
  cases readable : source.read files with
  | error cause =>
    simp only [document, readable] at opened
    cases opened
    exact .inl rfl
  | ok data =>
    simp only [document, readable, Document.ofBytes] at opened
    refine .inr ⟨data, rfl, ?_⟩
    split at opened
    · rename_i cause found
      cases opened
      exact .inl found
    · exact .inr (File.documentOpens data fault opened)

theorem readConcerns {files : Files} {source : Source} {fault : Fault}
    (unread : source.read files = .error fault) : fault.concernsDocument = true := by
  cases source with
  | memory data => contradiction
  | file path =>
    cases found : files path with
    | ok data =>
      simp only [Source.read, found] at unread
      contradiction
    | error cause =>
      simp only [Source.read, found] at unread
      cases unread
      rfl

theorem recordsConcern {files : Files} {options : Options} {source : Source} {fault : Fault}
    (failed : (source.records files options).value = .error fault) :
    fault.concernsDocument = true := by
  rcases recordsFail failed with unread | ⟨data, _, refused | opening⟩
  · exact readConcerns unread
  · exact Header.detectConcerns refused
  · have every : ∀ fault ∈ openingFaults, fault.concernsDocument = true := by decide
    exact every fault opening

end Source
end PaintedImages
