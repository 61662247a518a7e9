import PaintedImages.Command.Action
import PaintedImages.Proofs.Balance
import PaintedImages.Proofs.Counting
import PaintedImages.Proofs.WrittenReports

/-! The total of what was left out. Four counters are added as words, so the total is their sum
where a word can hold it, and where none can the program ends, and an overview with it before its
section on failures. A report that was read can hold any four words; in a walk the total is the
number of failing events, as long as that fits a word. -/
namespace PaintedImages

def Event.fails : Event → Bool
  | .skipped | .unresolved | .malformed | .unreadable | .undecodable => true
  | .walked | .notImage | .sampled => false

/- No event of this kind is counted twice. -/
theorem Counter.countFails (es : List Event) :
    es.countP Event.fails = pagesSkipped.count es + unresolvedReferences.count es +
      malformedOperators.count es + decodeFailures.count es := by
  induction es with
  | nil => rfl
  | cons e rest ih =>
    have head : [e].countP Event.fails = pagesSkipped.count [e] + unresolvedReferences.count [e] +
        malformedOperators.count [e] + decodeFailures.count [e] := by cases e <;> rfl
    rw [← List.singleton_append, List.countP_append, head, ih]
    simp only [countAppend]
    omega

namespace Statistics

def failureTotal (s : Statistics) : Nat :=
  s.pagesSkipped.toNat + s.unresolvedReferences.toNat + s.malformedOperators.toNat +
    s.decodeFailures.toNat

def HasFailures (s : Statistics) : Prop :=
  s.pagesSkipped ≠ 0 ∨ s.unresolvedReferences ≠ 0 ∨ s.malformedOperators ≠ 0 ∨ s.decodeFailures ≠ 0

instance (s : Statistics) : Decidable s.HasFailures :=
  inferInstanceAs (Decidable (_ ∨ _ ∨ _ ∨ _))

def word? (n : Nat) : Option UInt32 := if n < 2 ^ 32 then some (UInt32.ofNat n) else none

theorem wordOf (n : UInt32) : word? n.toNat = some n := by
  rw [word?, if_pos n.toNat_lt, UInt32.ofNat_toNat]

theorem wordExact {n : Nat} {w : UInt32} : word? n = some w ↔ w.toNat = n := by
  constructor
  · intro held
    rw [word?] at held
    split at held
    · rename_i small
      cases held
      exact UInt32.toNat_ofNat_of_lt' small
    · contradiction
  · rintro rfl
    exact wordOf w

theorem plusWord (n : Nat) (b : UInt32) : (word? n).bind (plus · b) = word? (n + b.toNat) := by
  by_cases small : n < 2 ^ 32
  · have same : (UInt32.ofNat n).toNat = n := UInt32.toNat_ofNat_of_lt' small
    rw [word?, if_pos small, Option.bind_some, plus, same, word?, UInt32.ofNat_add,
      UInt32.ofNat_toNat]
    rfl
  · rw [word?, if_neg small, word?, if_neg (by omega), Option.bind_none]

/- A partial sum that is too large leaves all that follow too large. -/
theorem failuresExact (s : Statistics) : s.failures = word? s.failureTotal := by
  have first := plusWord s.pagesSkipped.toNat s.unresolvedReferences
  rw [wordOf, Option.bind_some] at first
  change (plus s.pagesSkipped s.unresolvedReferences).bind (fun total =>
    (plus total s.malformedOperators).bind (plus · s.decodeFailures)) = _
  rw [first, ← Option.bind_assoc, plusWord, plusWord, failureTotal]

theorem hasFailuresExact (s : Statistics) : s.HasFailures ↔ s.failureTotal ≠ 0 := by
  have zero (n : UInt32) : n ≠ 0 ↔ n.toNat ≠ 0 := by
    rw [ne_eq, ne_eq, ← UInt32.toNat_inj]
    rfl
  simp only [HasFailures, failureTotal, zero]
  omega

end Statistics

namespace Overview

def skippedSection (s : Statistics) : String :=
  titled "Skipped"
    [numbered "Unreadable pages" s.pagesSkipped.toNat,
      numbered "Unresolved names" s.unresolvedReferences.toNat,
      numbered "Malformed operators" s.malformedOperators.toNat,
      numbered "Undecodable images" s.decodeFailures.toNat]

theorem failureSectionsExact (s : Statistics) :
    failureSections s = if s.HasFailures then [skippedSection s] else [] := by
  have nothing : s.failures = some 0 ↔ ¬ s.HasFailures := by
    rw [s.failuresExact, Statistics.wordExact, s.hasFailuresExact, not_not]
    exact eq_comm
  rw [failureSections]
  by_cases left : s.HasFailures
  · rw [if_neg (nothing.not.mpr (not_not.mpr left)), if_pos left]
    rfl
  · rw [if_pos (nothing.mpr left), if_neg left]

/- What an overview prints, and where the process ends. -/
theorem overviewRun (tree : FileTree) (file version : String) (pageCount : Nat)
    (policy : DecodePolicy) (report : Report) :
    Effect.runAll tree (Command.overviewEffects file version pageCount policy report) =
      if report.statistics.failureTotal < 2 ^ 32 then
        { tree, printed := text file version pageCount policy report }
      else
        { tree, aborted := true
          printed := opening file version pageCount policy report.statistics } := by
  rw [Command.overviewEffects, report.statistics.failuresExact, Statistics.word?]
  by_cases held : report.statistics.failureTotal < 2 ^ 32
  · rw [if_pos held, if_pos held]
    simp [Effect.runAll, Effect.run, Outcome.ended]
  · rw [if_neg held, if_neg held]
    simp [Effect.runAll, Effect.run, Outcome.ended]

end Overview

namespace Report

theorem failuresCounted (source : PageSource) (options : Options)
    (few : (source.events options (source.selected options.pages)).countP Event.fails < 2 ^ 32) :
    (extract source options).value.statistics.failureTotal =
      (source.events options (source.selected options.pages)).countP Event.fails := by
  have counted := extractCounted source options
  have skipped := counted .pagesSkipped
  have unresolved := counted .unresolvedReferences
  have malformed := counted .malformedOperators
  have undecoded := counted .decodeFailures
  simp only [Counter.value] at skipped unresolved malformed undecoded
  rw [Counter.countFails] at few ⊢
  rw [Statistics.failureTotal, skipped, unresolved, malformed, undecoded]
  simp only [UInt32.toNat_ofNat']
  omega

theorem failuresTold (report : Report) (source : PageSource) (options : Options) :
    let s := report.statistics
    let walked := (extract source options).value.statistics
    let failing := (source.events options (source.selected options.pages)).countP Event.fails
    (∃ json, parse? json = some report) ∧
    (∀ total, s.failures = some total ↔ total.toNat = s.failureTotal) ∧
    (s.failures = none ↔ 2 ^ 32 ≤ s.failureTotal) ∧
    (∀ (tree : FileTree) (file version : String) (pageCount : Nat) (policy : DecodePolicy),
      let before := [Overview.documentSection file version pageCount,
        Overview.statisticsSection policy s]
      let skipped := if s.HasFailures then [Overview.skippedSection s] else []
      Effect.runAll tree (Command.overviewEffects file version pageCount policy report) =
        if s.failureTotal < 2 ^ 32 then
          { tree, printed := String.intercalate "\n"
              (before ++ skipped ++ Overview.formatSections report.records) }
        else { tree, printed := String.intercalate "\n" before, aborted := true }) ∧
    (failing < 2 ^ 32 → walked.failures = some (UInt32.ofNat failing)) := by
  intro s walked failing
  have written := Json.readAllTakes (reportTakes .compact 0 report)
  refine ⟨⟨_, written⟩, fun total => ?_, ?_, fun tree file version pageCount policy => ?_,
    fun few => ?_⟩
  · rw [s.failuresExact, Statistics.wordExact]
  · rw [s.failuresExact, Statistics.word?, ite_eq_right_iff]
    simp
  · rw [Overview.overviewRun, Overview.text, Overview.failureSectionsExact]
    rfl
  · rw [walked.failuresExact, failuresCounted source options few, Statistics.word?, if_pos few]

/- As many pages as a word can count, and one name more; and a walk with one failure of each of
three kinds. -/
theorem fullWordAborts :
    let s : Statistics := { pagesSkipped := 4294967295, unresolvedReferences := 1 }
    let walked := (extract Walk.brokenPages {}).value.statistics
    let failing := (Walk.brokenPages.events {} (Walk.brokenPages.selected .all)).countP Event.fails
    s.HasFailures ∧ s.failureTotal = 4294967296 ∧ s.failures = none ∧
    Effect.runAll {} (Command.overviewEffects "a.pdf" "1.7" 1 .raw ⟨[], s⟩) =
      { tree := {}, aborted := true, printed := String.intercalate "\n"
          [Overview.documentSection "a.pdf" "1.7" 1, Overview.statisticsSection .raw s] } ∧
    failing < 2 ^ 32 ∧ walked.failures = some (UInt32.ofNat failing) ∧ failing = 3 := by
  intro s walked failing
  have three : failing = 3 := by decide
  have few : failing < 2 ^ 32 := by
    rw [three]
    decide
  have total : s.failureTotal = 4294967296 := by decide
  have full : 2 ^ 32 ≤ s.failureTotal := by
    rw [total]
    decide
  obtain ⟨_, _, ended, told, counted⟩ := failuresTold ⟨[], s⟩ Walk.brokenPages {}
  refine ⟨.inl (by decide), total, ended.mpr full, ?_, few, counted few, three⟩
  exact (told {} "a.pdf" "1.7" 1 .raw).trans (if_neg (Nat.not_lt.mpr full))

end Report
end PaintedImages
