import PaintedImages.Proofs.Balance
import PaintedImages.Proofs.Selecting

/-! Faults stay where they are. A page that cannot be read leaves the walk as it was, so that an
extraction goes as if the page were blank but for one count; and operators that come to no payload
can be left out, anywhere and any number of them, with the same records. What leaving them out does
to the counters is not said here. -/
namespace PaintedImages

def Statistics.skippedInstead (s : Statistics) (pages : Nat) : Statistics :=
  { s with
    pagesWalked := s.pagesWalked - UInt32.ofNat pages
    pagesSkipped := s.pagesSkipped + UInt32.ofNat pages }

theorem Statistics.countSkippedInstead (s : Statistics) (pages : Nat) (p : Painting) :
    (s.skippedInstead pages).count p = (s.count p).skippedInstead pages := by
  cases p <;> rfl

namespace PageSource

def cleared (source : PageSource) (blank : ObjectId → Bool) : PageSource :=
  { source with
    operations := fun page =>
      if blank page then .silent (.ok []) else source.operations page }

theorem clearedAgree (source : PageSource) {blank : ObjectId → Bool} {page : ObjectId}
    (other : ¬ blank page = true) : (source.cleared blank).AgreeOn source page := by
  refine ⟨?_, fun _ _ _ _ _ _ => rfl⟩
  simp only [cleared, if_neg other]

inductive Thins (source : PageSource) (options : Options) (page : ObjectId) :
    List Operation → List Operation → Prop where
  | nil : Thins source options page [] []
  | keep {ops left} (op : Operation) (rest : Thins source options page ops left) :
      Thins source options page (op :: ops) (op :: left)
  | drop {op ops left} (idle : source.event? options page op ≠ some .sampled)
      (rest : Thins source options page ops left) : Thins source options page (op :: ops) left

structure Thinned (source thinned : PageSource) (options : Options) : Prop where
  pages : thinned.pages = source.pages
  lookup : ∀ page name, (thinned.lookup page name).value = (source.lookup page name).value
  unreadable : ∀ page fault, (source.operations page).value = .error fault →
    (thinned.operations page).value = .error fault
  operators : ∀ page ops, (source.operations page).value = .ok ops →
    ∃ left, (thinned.operations page).value = .ok left ∧ source.Thins options page ops left

def shown (source : PageSource) (options : Options) (page : ObjectId) (ops : List Operation) :
    List Sample :=
  (ops.filterMap (source.painted? page)).filterMap (Sample.ofImage? options)

section Thinning
variable {source : PageSource} {options : Options} {page : ObjectId}

theorem idleShowsNone {op : Operation} (idle : source.event? options page op ≠ some .sampled) :
    (source.painted? page op).toList.filterMap (Sample.ofImage? options) = [] := by
  cases painted : source.painted? page op with
  | none => rfl
  | some image =>
    cases payload : options.payload image with
    | error fault => exact List.filterMap_cons_none (Sample.ofImageError payload)
    | ok bytes =>
      refine absurd ?_ idle
      unfold painted? at painted
      split at painted
      · split at painted
        · split at painted
          · cases painted
            simp only [event?, *, if_true]
          · contradiction
        · contradiction
      · contradiction

theorem shownCons (op : Operation) (ops : List Operation) :
    source.shown options page (op :: ops) =
      (source.painted? page op).toList.filterMap (Sample.ofImage? options) ++
        source.shown options page ops := by
  rw [shown, filterMapHead, List.filterMap_append]
  rfl

theorem thinsShown {ops left : List Operation} (thins : source.Thins options page ops left) :
    source.shown options page left = source.shown options page ops := by
  induction thins with
  | nil => rfl
  | keep op rest ih => rw [shownCons, shownCons, ih]
  | drop idle rest ih => rw [shownCons, idleShowsNone idle, ih, List.nil_append]

theorem samplesThinned {thinned : PageSource} (h : source.Thinned thinned options) :
    thinned.samples options = source.samples options := by
  have same (page : ObjectId) : thinned.painted? page = source.painted? page := by
    funext op
    simp only [painted?, h.lookup]
  have shows (page : ObjectId) : thinned.shown options page (thinned.readable page) =
      source.shown options page (source.readable page) := by
    rw [readable, readable, shown, same]
    cases found : (source.operations page).value with
    | error fault => rw [h.unreadable page fault found]; rfl
    | ok ops =>
      obtain ⟨left, stays, thins⟩ := h.operators page ops found
      rw [stays]
      exact thinsShown thins
  have selected : thinned.selected options.pages = source.selected options.pages := by
    rw [PageSource.selected, PageSource.selected, h.pages]
  rw [samples, samples, selected]
  induction source.selected options.pages with
  | nil => rfl
  | cons entry rest ih =>
    rw [Walk.imagesCons, Walk.imagesCons, List.filterMap_append, List.filterMap_append, ih]
    congr 1
    exact shows entry.2

end Thinning

end PageSource

namespace Walk

def skippedInstead (w : Walk) (pages : Nat) : Walk :=
  { w with statistics := w.statistics.skippedInstead pages }

section Blank
variable (source : PageSource)

theorem pageFailed {id : ObjectId} {fault : Fault}
    (found : (source.operations id).value = .error fault) (number : UInt32) (w : Walk) :
    (page source number id w).value = .error (.pageContent number fault.message) := by
  obtain ⟨_, again, failed⟩ | ⟨ops, read, _⟩ := pageExact source number id w
  · cases found.symm.trans again
    exact failed
  · rw [found] at read
    contradiction

theorem pageWalked {id : ObjectId} {ops : List Operation}
    (found : (source.operations id).value = .ok ops) (number : UInt32) (w : Walk) :
    (page source number id w).value = .ok { (steps source number id w ops).value with
      statistics := { (steps source number id w ops).value.statistics with
        pagesWalked := (steps source number id w ops).value.statistics.pagesWalked + 1 } } := by
  obtain ⟨_, failed, _⟩ | ⟨_, again, walked⟩ := pageExact source number id w
  · rw [found] at failed
    contradiction
  · cases found.symm.trans again
    exact walked

theorem stepSkipped (number : UInt32) (id : ObjectId) (w : Walk) (k : Nat) (op : Operation) :
    (step source number id (w.skippedInstead k) op).value =
      (step source number id w op).value.skippedInstead k := by
  by_cases paints : op.paints = true
  · simp only [step, if_pos paints, skippedInstead, Statistics.countSkippedInstead]
  · simp only [step, if_neg paints, Traced.silentValue]

theorem stepsSkipped (number : UInt32) (id : ObjectId) (w : Walk) (k : Nat)
    (ops : List Operation) :
    (steps source number id (w.skippedInstead k) ops).value =
      (steps source number id w ops).value.skippedInstead k := by
  induction ops generalizing w with
  | nil => rfl
  | cons op rest ih => simp only [steps, Traced.bindValue, stepSkipped, ih]

theorem pageSkipped (number : UInt32) (id : ObjectId) (w : Walk) (k : Nat) :
    (pageOrSkip source number id (w.skippedInstead k)).value =
      (pageOrSkip source number id w).value.skippedInstead k := by
  rw [pageOrSkipExact, pageOrSkipExact]
  cases found : (source.operations id).value with
  | error fault =>
    have later (n m : UInt32) : n + m + 1 = n + 1 + m := by grind
    rw [pageFailed source found, pageFailed source found]
    simp only [skippedInstead, Statistics.skippedInstead, later]
  | ok ops =>
    have later (n m : UInt32) : n - m + 1 = n + 1 - m := by grind
    rw [pageWalked source found, pageWalked source found, stepsSkipped]
    simp only [skippedInstead, Statistics.skippedInstead, later]

theorem pageBlank {blank : ObjectId → Bool} {id : ObjectId} (isBlank : blank id = true)
    {fault : Fault} (failed : (source.operations id).value = .error fault) (number : UInt32)
    (w : Walk) (k : Nat) :
    (pageOrSkip source number id (w.skippedInstead k)).value =
      (pageOrSkip (source.cleared blank) number id w).value.skippedInstead (k + 1) := by
  have empty : ((source.cleared blank).operations id).value = .ok [] := by
    simp only [PageSource.cleared, isBlank, if_true, Traced.silentValue]
  have next : UInt32.ofNat (k + 1) = UInt32.ofNat k + 1 := UInt32.ofNat_add k 1
  have walked (n m : UInt32) : n + 1 - (m + 1) = n - m := by grind
  rw [pageOrSkipExact, pageOrSkipExact, pageFailed source failed, pageWalked _ empty]
  simp only [steps, Traced.silentValue, skippedInstead, Statistics.skippedInstead, next, walked,
    UInt32.add_assoc]

theorem pagesBlank {blank : ObjectId → Bool}
    (unread : ∀ id, blank id = true → source.isUnreadable id = true) (w : Walk) (k : Nat)
    (entries : List (UInt32 × ObjectId)) :
    (pages source (w.skippedInstead k) entries).value =
      (pages (source.cleared blank) w entries).value.skippedInstead
        (k + entries.countP fun entry => blank entry.2) := by
  induction entries generalizing w k with
  | nil => rfl
  | cons entry rest ih =>
    obtain ⟨number, id⟩ := entry
    by_cases isBlank : blank id = true
    · obtain ⟨fault, failed⟩ : ∃ fault, (source.operations id).value = .error fault := by
        have unreadable := unread id isBlank
        rw [PageSource.isUnreadable] at unreadable
        cases found : (source.operations id).value with
        | error fault => exact ⟨fault, rfl⟩
        | ok ops =>
          rw [found] at unreadable
          contradiction
      have count : ((number, id) :: rest).countP (fun entry => blank entry.2) =
          rest.countP (fun entry => blank entry.2) + 1 := List.countP_cons_of_pos isBlank
      rw [pages, Traced.bindValue, pageBlank source isBlank failed, ih, pages, Traced.bindValue,
        count, Nat.add_right_comm, Nat.add_assoc]
    · have count : ((number, id) :: rest).countP (fun entry => blank entry.2) =
          rest.countP (fun entry => blank entry.2) := List.countP_cons_of_neg isBlank
      have agree := pageAgree (source.clearedAgree isBlank) number w
      rw [pages, Traced.bindValue, pageSkipped, ih, pages, Traced.bindValue, count,
        pageOrSkipExact (source.cleared blank), agree, ← pageOrSkipExact]

theorem documentBlank {blank : ObjectId → Bool}
    (unread : ∀ id, blank id = true → source.isUnreadable id = true) (selection : PageSelection)
    (w : Walk) :
    (document source selection w).value =
      (document (source.cleared blank) selection w).value.skippedInstead
        ((source.selected selection).countP fun entry => blank entry.2) := by
  let counted : Walk := { w with
    statistics := { w.statistics with pageCount := saturated source.pages.size } }
  have whole := pagesBlank source unread counted 0 (source.selected selection)
  have zero : UInt32.ofNat 0 = 0 := rfl
  have start : counted.skippedInstead 0 = counted := by
    simp only [skippedInstead, Statistics.skippedInstead, zero, UInt32.add_zero, UInt32.sub_zero]
  rw [start, Nat.zero_add] at whole
  exact whole

end Blank
end Walk

namespace Report

theorem extractBlank (source : PageSource) (options : Options) {blank : ObjectId → Bool}
    (unread : ∀ id, blank id = true → source.isUnreadable id = true) :
    (extract source options).value.records =
      (extract (source.cleared blank) options).value.records ∧
    (extract source options).value.statistics =
      (extract (source.cleared blank) options).value.statistics.skippedInstead
        ((source.selected options.pages).countP fun entry => blank entry.2) := by
  have walked := Walk.documentBlank source unread options.pages (.start options)
  exact ⟨congrArg (fun w => w.collector.records) walked, congrArg Walk.statistics walked⟩

theorem extractThinned {source thinned : PageSource} {options : Options}
    (h : source.Thinned thinned options) :
    (extract thinned options).value.records = (extract source options).value.records := by
  rw [extractRecords, extractRecords, PageSource.firstPaints, PageSource.firstPaints,
    PageSource.samplesThinned h]

/- The pages left blank may be any of those that cannot be read. -/
theorem faultsIsolated (source : PageSource) (options : Options) :
    (∀ id fault, (source.operations id).value = .error fault → ∀ number (w : Walk),
      (Walk.page source number id w).value = .error (.pageContent number fault.message) ∧
      Walk.visit source options.pages w (.page number id) = w) ∧
    (∀ blank : ObjectId → Bool, (∀ id, blank id = true → source.isUnreadable id = true) →
      let skipped := (source.selected options.pages).filter fun entry => blank entry.2
      let report := (extract source options).value
      let blanked := (extract (source.cleared blank) options).value
      report.records = blanked.records ∧
      report.statistics = { blanked.statistics with
        pagesWalked := blanked.statistics.pagesWalked - UInt32.ofNat skipped.length
        pagesSkipped := blanked.statistics.pagesSkipped + UInt32.ofNat skipped.length }) ∧
    ∀ thinned, source.Thinned thinned options →
      (extract thinned options).value.records = (extract source options).value.records := by
  refine ⟨?_, ?_, fun thinned h => extractThinned h⟩
  · intro id fault found number w
    have failed := Walk.pageFailed source found number w
    refine ⟨failed, ?_⟩
    simp only [Walk.visit, failed]
  · intro blank unread skipped report blanked
    have same := extractBlank source options unread
    rw [List.countP_eq_length_filter] at same
    exact same

theorem sharedImageIsolated :
    let source := sharedImageTorn
    let options : Options := {}
    let blank (page : ObjectId) : Bool := page = ⟨30, 0⟩
    let thinned : PageSource := { source with
      operations := fun page =>
        if page = ⟨10, 0⟩ then .silent (.ok [⟨"Do", [.name [65]]⟩])
        else .silent (.error (.document .contentStream)) }
    (source.operations ⟨30, 0⟩).value = .error (.document .contentStream) ∧
    (∀ id, blank id = true → source.isUnreadable id = true) ∧ source.Thinned thinned options ∧
    Walk.visit source options.pages (.start options) (.page 2 ⟨30, 0⟩) = .start options ∧
    (extract source options).value.records =
      (extract (source.cleared blank) options).value.records ∧
    (extract thinned options).value.records = (extract source options).value.records := by
  intro source options blank thinned
  have failed : (source.operations ⟨30, 0⟩).value = .error (.document .contentStream) := rfl
  have unread (id : ObjectId) (isBlank : blank id = true) : source.isUnreadable id = true := by
    rw [of_decide_eq_true isBlank]
    rfl
  have thins : source.Thinned thinned options := by
    refine ⟨rfl, fun _ _ => rfl, ?_, ?_⟩
    · intro page fault found
      by_cases first : page = ⟨10, 0⟩
      · subst first
        contradiction
      · simpa only [thinned, source, sharedImageTorn, if_neg first] using found
    · intro page ops found
      by_cases first : page = ⟨10, 0⟩
      · subst first
        cases found
        exact ⟨_, rfl, .drop (by decide) (.keep _ .nil)⟩
      · simp only [source, sharedImageTorn, if_neg first] at found
        contradiction
  obtain ⟨pages, blanked, left⟩ := faultsIsolated source options
  exact ⟨failed, unread, thins, (pages _ _ failed 2 (.start options)).2,
    (blanked blank unread).1, left thinned thins⟩

end Report
end PaintedImages
