import Mathlib.Data.List.Nodup
import PaintedImages.Command.Overview
import PaintedImages.Proofs.Balance

/-! The formats in an overview. Counting the labels of records parts the records: each label that
occurs is counted once, in the order of the first occurrences, and no record is counted twice or
passed over. The walk counts the records apart from that, in a word; where the word has room for
them the two numbers agree. -/
namespace PaintedImages

namespace Overview

structure Tallied (labels : List String) (counts : List (String × Nat)) : Prop where
  distinct : (counts.map Prod.fst).Nodup
  covered : ∀ label, label ∈ counts.map Prod.fst ↔ label ∈ labels
  ordered : (counts.map Prod.fst).Pairwise (labels.idxOf · < labels.idxOf ·)
  counted : ∀ entry ∈ counts, entry.2 = labels.count entry.1
  total : (counts.map Prod.snd).sum = labels.length

section Bump
variable (label : String) {labels : List String} {counts : List (String × Nat)}

theorem bumpLabels (counts : List (String × Nat)) :
    (bump label counts).map Prod.fst =
      if label ∈ counts.map Prod.fst then counts.map Prod.fst
      else counts.map Prod.fst ++ [label] := by
  induction counts with
  | nil => rfl
  | cons entry rest ih =>
    obtain ⟨l, n⟩ := entry
    simp only [bump]
    split
    · rename_i same
      simp [same]
    · rename_i other
      have later : label ∈ l :: rest.map Prod.fst ↔ label ∈ rest.map Prod.fst := by
        simp [Ne.symm other]
      simp only [List.map_cons, ih, later]
      split
      · rfl
      · rfl

theorem bumpTotal (counts : List (String × Nat)) :
    ((bump label counts).map Prod.snd).sum = (counts.map Prod.snd).sum + 1 := by
  induction counts with
  | nil => rfl
  | cons entry rest ih =>
    obtain ⟨l, n⟩ := entry
    simp only [bump]
    split
    · simp only [List.map_cons, List.sum_cons]
      omega
    · simp only [List.map_cons, List.sum_cons, ih]
      omega

/- Labels are distinct, so the scan stops at the only entry of the label. -/
theorem bumpMember (distinct : (counts.map Prod.fst).Nodup) {entry : String × Nat}
    (mem : entry ∈ bump label counts) :
    (entry.1 ≠ label ∧ entry ∈ counts) ∨
    (entry = (label, 1) ∧ label ∉ counts.map Prod.fst) ∨
    ∃ n, entry = (label, n + 1) ∧ (label, n) ∈ counts := by
  induction counts with
  | nil =>
    have only : entry = (label, 1) := by simpa [bump] using mem
    exact .inr (.inl ⟨only, List.not_mem_nil⟩)
  | cons head rest ih =>
    obtain ⟨l, n⟩ := head
    obtain ⟨apart, others⟩ := List.nodup_cons.mp distinct
    simp only [bump] at mem
    split at mem
    · rename_i same
      subst same
      cases mem with
      | head => exact .inr (.inr ⟨n, rfl, List.mem_cons_self⟩)
      | tail _ later =>
        have listed : entry.1 ∈ rest.map Prod.fst := List.mem_map_of_mem later
        exact .inl ⟨fun same => apart (same ▸ listed), List.mem_cons_of_mem _ later⟩
    · rename_i other
      cases mem with
      | head => exact .inl ⟨other, List.mem_cons_self⟩
      | tail _ later =>
        obtain ⟨different, kept⟩ | ⟨new, absent⟩ | ⟨m, more, found⟩ := ih others later
        · exact .inl ⟨different, List.mem_cons_of_mem _ kept⟩
        · refine .inr (.inl ⟨new, ?_⟩)
          simpa [Ne.symm other] using absent
        · exact .inr (.inr ⟨m, more, List.mem_cons_of_mem _ found⟩)

theorem bumpCounts (h : Tallied labels counts) {entry : String × Nat}
    (mem : entry ∈ bump label counts) : entry.2 = (labels ++ [label]).count entry.1 := by
  rw [List.count_append]
  obtain ⟨other, kept⟩ | ⟨rfl, absent⟩ | ⟨n, rfl, found⟩ := bumpMember label h.distinct mem
  · rw [List.count_singleton, if_neg (by simpa using Ne.symm other), h.counted entry kept]
    rfl
  · rw [List.count_singleton_self, List.count_eq_zero.mpr (absent ∘ (h.covered label).mpr)]
  · rw [List.count_singleton_self, ← h.counted _ found]

/- A label that comes later does not change where the others came first. -/
theorem earlierFirst (h : Tallied labels counts) {l : String} (mem : l ∈ counts.map Prod.fst) :
    (labels ++ [label]).idxOf l = labels.idxOf l :=
  List.idxOf_append_of_mem ((h.covered l).mp mem)

theorem orderKept (h : Tallied labels counts) : (counts.map Prod.fst).Pairwise
    ((labels ++ [label]).idxOf · < (labels ++ [label]).idxOf ·) := by
  refine h.ordered.imp_of_mem fun first second before => ?_
  rw [earlierFirst label h first, earlierFirst label h second]
  exact before

theorem bumpTallied (h : Tallied labels counts) :
    Tallied (labels ++ [label]) (bump label counts) := by
  have counted : ∀ entry ∈ bump label counts, entry.2 = (labels ++ [label]).count entry.1 :=
    fun _ => bumpCounts label h
  have ordered := orderKept label h
  have total : ((bump label counts).map Prod.snd).sum = (labels ++ [label]).length := by
    rw [bumpTotal, h.total, List.length_append, List.length_singleton]
  by_cases known : label ∈ counts.map Prod.fst
  · have same := (bumpLabels label counts).trans (if_pos known)
    refine ⟨same ▸ h.distinct, fun l => ?_, same ▸ ordered, counted, total⟩
    have listed := (h.covered label).mp known
    rw [same, h.covered, List.mem_append, List.mem_singleton]
    exact ⟨.inl, fun mem => mem.elim id fun same => same ▸ listed⟩
  · have more := (bumpLabels label counts).trans (if_neg known)
    have unlisted := known ∘ (h.covered label).mpr
    have apart : ∀ l ∈ counts.map Prod.fst, ∀ last ∈ [label], l ≠ last := by
      intro l mem last only same
      rw [same, List.mem_singleton.mp only] at mem
      exact known mem
    refine ⟨?_, fun l => ?_, ?_, counted, total⟩
    · rw [more]
      exact List.nodup_append.mpr ⟨h.distinct, List.nodup_singleton _, apart⟩
    · rw [more, List.mem_append, List.mem_append, h.covered]
    · rw [more]
      refine List.pairwise_append.mpr ⟨ordered, List.pairwise_singleton _ _, ?_⟩
      intro l mem last only
      rw [List.mem_singleton.mp only, earlierFirst label h mem,
        List.idxOf_append_of_notMem unlisted]
      have inside := List.idxOf_lt_length_of_mem ((h.covered l).mp mem)
      omega

end Bump

theorem countedTallied {labels : List String} {counts : List (String × Nat)}
    (h : Tallied labels counts) (records : List Record) :
    Tallied (labels ++ records.map Record.format)
      (records.foldl (fun counts record => bump record.format counts) counts) := by
  induction records generalizing labels counts with
  | nil => simpa using h
  | cons record rest ih =>
    have next := ih (bumpTallied record.format h)
    rwa [List.append_assoc, List.singleton_append] at next

theorem formatsTallied (records : List Record) :
    Tallied (records.map Record.format) (formats records) := by
  have start : Tallied [] [] := ⟨.nil, by simp, .nil, nofun, rfl⟩
  exact countedTallied start records

end Overview

namespace Walk

def Recorded (w : Walk) : Prop :=
  w.statistics.imagesCollected = UInt32.ofNat w.collector.records.length

theorem countCollected (s : Statistics) (p : Painting) :
    (s.count p).imagesCollected = s.imagesCollected + UInt32.ofNat p.recordCount := by
  cases p with
  | added name index => rfl
  | _ => exact (UInt32.add_zero _).symm

section Runs
variable (source : PageSource)

theorem stepRecorded {w : Walk} (h : w.Recorded) (number : UInt32) (page : ObjectId)
    (op : Operation) : (step source number page w op).value.Recorded := by
  unfold step
  split
  · rw [Recorded, countCollected, paintRecords, UInt32.ofNat_add, h]
  · exact h

theorem stepsRecorded {w : Walk} (h : w.Recorded) (number : UInt32) (page : ObjectId)
    (ops : List Operation) : (steps source number page w ops).value.Recorded := by
  induction ops generalizing w with
  | nil => exact h
  | cons op rest ih => exact ih (stepRecorded source h number page op)

theorem pageOrSkipRecorded {w : Walk} (h : w.Recorded) (number : UInt32) (id : ObjectId) :
    (pageOrSkip source number id w).value.Recorded := by
  rw [pageOrSkipExact]
  obtain ⟨fault, _, same⟩ | ⟨ops, _, same⟩ := pageExact source number id w
  · rw [same]
    exact h
  · rw [same]
    exact stepsRecorded source h number id ops

theorem pagesRecorded {w : Walk} (h : w.Recorded) (entries : List (UInt32 × ObjectId)) :
    (pages source w entries).value.Recorded := by
  induction entries generalizing w with
  | nil => exact h
  | cons entry rest ih =>
    obtain ⟨number, id⟩ := entry
    exact ih (pageOrSkipRecorded source h number id)

end Runs
end Walk

namespace Report

theorem extractRecorded (source : PageSource) (options : Options) :
    let report := (extract source options).value
    report.statistics.imagesCollected = UInt32.ofNat report.records.length := by
  have start : Walk.Recorded { Walk.start options with
      statistics := { pageCount := Walk.saturated source.pages.size } } := rfl
  exact Walk.pagesRecorded source start _

end Report

namespace Overview

theorem formatsPartRecords :
    (∀ records : List Record,
      let labels := records.map Record.format
      let counts := formats records
      (counts.map Prod.fst).Nodup ∧
      (∀ label, label ∈ counts.map Prod.fst ↔ label ∈ labels) ∧
      (counts.map Prod.fst).Pairwise (labels.idxOf · < labels.idxOf ·) ∧
      (∀ entry ∈ counts, entry.2 = records.countP (·.format = entry.1) ∧ 1 ≤ entry.2) ∧
      (counts.map Prod.snd).sum = records.length) ∧
    ∀ (source : PageSource) (options : Options),
      let report := (Report.extract source options).value
      let s := report.statistics
      report.records.length < 2 ^ 32 → ∀ (file version : String) (pageCount : Nat),
        text file version pageCount options.policy report =
          String.intercalate "\n" (documentSection file version pageCount ::
            titled "Image Statistics"
              [labelled "Decode policy" options.policy.name,
                numbered "Pages walked" s.pagesWalked.toNat,
                numbered "Images painted" s.imagesSeen.toNat,
                numbered "Unique images" ((formats report.records).map Prod.snd).sum,
                numbered "Duplicates" s.duplicatesSkipped.toNat,
                numbered "Forms/other XObjects" s.nonImageXObjects.toNat] ::
            (failureSections s ++ formatSections report.records)) := by
  constructor
  · intro records labels counts
    obtain ⟨distinct, covered, ordered, each, total⟩ := formatsTallied records
    refine ⟨distinct, covered, ordered, fun entry mem => ?_, by simpa using total⟩
    have counted : entry.2 = labels.count entry.1 := each entry mem
    have occurs : entry.1 ∈ labels := (covered entry.1).mp (List.mem_map_of_mem mem)
    refine ⟨?_, counted ▸ List.count_pos_iff.mpr occurs⟩
    rw [counted, List.count_eq_countP, List.countP_map]
    rfl
  · intro source options report s few file version pageCount
    have counted : s.imagesCollected = UInt32.ofNat report.records.length :=
      Report.extractRecorded source options
    have total : ((formats report.records).map Prod.snd).sum = s.imagesCollected.toNat := by
      rw [counted, UInt32.toNat_ofNat', Nat.mod_eq_of_lt few, (formatsTallied _).total,
        List.length_map]
    rw [total]
    rfl

def mixedFormats : PageSource where
  pages := .ofList [(1, ⟨10, 0⟩)]
  operations _ := .silent (.ok [⟨"Do", [.name [65]]⟩, ⟨"Do", [.name [66]]⟩, ⟨"Do", [.name [65]]⟩,
    ⟨"Do", [.name [67]]⟩])
  lookup _ name :=
    let filters : List Filter := if name = [66] then [] else [.dct]
    .silent (.ok (some (.image { content := name, filters })))

theorem mixedFormatsParted :
    let report := (Report.extract mixedFormats {}).value
    formats report.records = [("jpg", 2), ("png", 1)] ∧ report.records.length = 3 ∧
    report.records.length < 2 ^ 32 ∧
    text "a.pdf" "1.7" 1 .raw report =
      String.intercalate "\n" [documentSection "a.pdf" "1.7" 1,
        titled "Image Statistics"
          [labelled "Decode policy" "raw", numbered "Pages walked" 1, numbered "Images painted" 4,
            numbered "Unique images" 3, numbered "Duplicates" 1,
            numbered "Forms/other XObjects" 0],
        titled "Formats" [numbered "jpg" 2, numbered "png" 1]] := by
  intro report
  have counts : formats report.records = [("jpg", 2), ("png", 1)] := by decide +kernel
  have statistics : report.statistics = ⟨1, 1, 0, 4, 3, 1, 0, 0, 0, 0⟩ := by decide +kernel
  obtain ⟨_, _, _, _, total⟩ := formatsPartRecords.1 report.records
  rw [counts] at total
  have few : report.records.length < 2 ^ 32 := by
    rw [← total]
    decide
  have listed : formatSections report.records =
      [titled "Formats" [numbered "jpg" 2, numbered "png" 1]] := by
    rw [formatSections, counts]
    decide +kernel
  have told := formatsPartRecords.2 mixedFormats {} few "a.pdf" "1.7" 1
  refine ⟨counts, total.symm, few, told.trans ?_⟩
  change String.intercalate "\n" (_ :: titled _ [_, numbered _ report.statistics.pagesWalked.toNat,
    numbered _ report.statistics.imagesSeen.toNat,
    numbered _ ((formats report.records).map Prod.snd).sum,
    numbered _ report.statistics.duplicatesSkipped.toNat,
    numbered _ report.statistics.nonImageXObjects.toNat] ::
    (failureSections report.statistics ++ formatSections report.records)) = _
  rw [listed, counts, statistics]
  rfl

end Overview
end PaintedImages
