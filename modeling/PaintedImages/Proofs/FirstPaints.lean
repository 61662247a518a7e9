import Mathlib.Logic.ExistsUnique
import PaintedImages.Proofs.Walking

/-! An extraction told without its state. Its records are the first paints of each fingerprint on
the selected pages that can be read, in the order of pages and operators. Pages, names and images
that cannot be read are passed over; nothing is said here of the counters. -/
namespace PaintedImages

namespace PageSource

def samples (source : PageSource) (options : Options) : List Sample :=
  (source.images (source.selected options.pages)).filterMap (Sample.ofImage? options)

def firstPaints (source : PageSource) (options : Options) : List Record :=
  (firsts Sample.fingerprint (source.samples options)).map (Sample.record options)

end PageSource

def Record.fingerprint? (r : Record) : Option Fingerprint := r.payload.toOption.map Fingerprint.of

theorem Sample.recordFingerprint (options : Options) (s : Sample) :
    (s.record options).fingerprint? = some s.fingerprint := by
  rw [Record.fingerprint?, s.recordPayload]
  rfl

namespace Report

theorem extractRecords (source : PageSource) (options : Options) :
    (extract source options).value.records = source.firstPaints options := by
  change (Walk.document source options.pages (.start options)).value.collector.records = _
  have unseen (l : List Sample) :
      l.filter (fun s => s.fingerprint ∉ (Collector.empty options).seen) = l :=
    List.filter_eq_self.mpr fun s _ => by simp [Collector.empty]
  rw [Walk.documentCollector, Walk.start,
    Collector.gatherRecords (Collector.emptyConfigured options), unseen]
  rfl

theorem fingerprintsNodup (source : PageSource) (options : Options) :
    ((source.firstPaints options).map Record.fingerprint?).Nodup := by
  have keys : (source.firstPaints options).map Record.fingerprint? =
      ((firsts Sample.fingerprint (source.samples options)).map Sample.fingerprint).map some := by
    simp only [PageSource.firstPaints, List.map_map, Function.comp_def, Sample.recordFingerprint]
  rw [keys]
  exact List.Pairwise.map some (fun _ _ different same => different (Option.some.inj same))
    (firstsNodup _)

/- The text of a record decides its fingerprint, so that equal texts would be equal fingerprints. -/
theorem dataNodup (source : PageSource) (options : Options) :
    ((source.firstPaints options).map Record.data).Nodup := by
  have keys : (source.firstPaints options).map Record.fingerprint? =
      ((source.firstPaints options).map Record.data).map fun data =>
        Record.fingerprint? ⟨"", data⟩ := by
    simp only [List.map_map]
    rfl
  have unique := fingerprintsNodup source options
  rw [keys] at unique
  exact List.Pairwise.of_map _ (fun _ _ different same =>
    different (congrArg (fun data => Record.fingerprint? ⟨"", data⟩) same)) unique

theorem sampleRecorded {source : PageSource} {options : Options} {s : Sample}
    (mem : s ∈ source.samples options) :
    ∃ r ∈ source.firstPaints options, r.fingerprint? = some s.fingerprint := by
  obtain ⟨first, kept, same⟩ : ∃ first ∈ firsts Sample.fingerprint (source.samples options),
      first.fingerprint = s.fingerprint := firstsCover mem
  refine ⟨first.record options, List.mem_map.mpr ⟨first, kept, rfl⟩, ?_⟩
  rw [Sample.recordFingerprint, same]

theorem extractFirstPaints (source : PageSource) (options : Options) :
    (extract source options).value.records = source.firstPaints options ∧
    ((extract source options).value.records.map Record.data).Nodup ∧
    ∀ s ∈ source.samples options, ∃! i : Nat, ∃ r,
      (extract source options).value.records[i]? = some r ∧
        r.fingerprint? = some s.fingerprint := by
  rw [extractRecords]
  refine ⟨rfl, dataNodup source options, ?_⟩
  intro s mem
  obtain ⟨r, kept, same⟩ := sampleRecorded mem
  obtain ⟨i, bound, found⟩ := List.mem_iff_getElem.mp kept
  have position : (source.firstPaints options)[i]? = some r :=
    List.getElem?_eq_some_iff.mpr ⟨bound, found⟩
  refine ⟨i, ⟨r, position, same⟩, ?_⟩
  rintro j ⟨other, place, equal⟩
  have left : ((source.firstPaints options).map Record.fingerprint?)[i]? =
      some (some s.fingerprint) := by rw [List.getElem?_map, position, Option.map_some, same]
  have right : ((source.firstPaints options).map Record.fingerprint?)[j]? =
      some (some s.fingerprint) := by rw [List.getElem?_map, place, Option.map_some, equal]
  exact ((List.getElem?_inj (by simpa using bound) (fingerprintsNodup source options)).mp
    (left.trans right.symm)).symm

def sharedImage : PageSource where
  pages := .ofList [(2, ⟨20, 0⟩), (1, ⟨10, 0⟩)]
  operations page :=
    if page = ⟨10, 0⟩ then .silent (.ok [⟨"q", []⟩, ⟨"Do", [.name [65]]⟩])
    else .silent (.ok [⟨"Do", [.name [66]]⟩, ⟨"Do", [.name [67]]⟩])
  lookup page name :=
    if page = ⟨10, 0⟩ ∧ name = [65] ∨ page = ⟨20, 0⟩ ∧ name = [67] then
      .silent (.ok (some (.image { content := [255, 216], filters := [.dct] })))
    else .silent (.ok none)

theorem sharedImageOnce :
    let s : Sample := ⟨{ content := [255, 216], filters := [.dct] }, [255, 216]⟩
    s ∈ sharedImage.samples {} ∧
    ∃! i : Nat, ∃ r, (extract sharedImage {}).value.records[i]? = some r ∧
      r.fingerprint? = some s.fingerprint := by
  intro s
  have painted : s ∈ sharedImage.samples {} := by decide
  exact ⟨painted, (extractFirstPaints sharedImage {}).2.2 s painted⟩

end Report
end PaintedImages
