import Mathlib.Algebra.Group.Nat.Defs
import PaintedImages.Proofs.Counting
import PaintedImages.Proofs.FirstPaints

/-! Extractions from some pages of a document. Of a source, an extraction sees how many pages there
are and, on the pages selected, the operators and what the names they paint stand for; sources that
agree on these give the same report, whatever else they hold. Two extractions from page lists that
follow each other give together what one from both gives, once the images that the first found are
taken out of the second. Lists that overlap or are mixed in order are not compared here. -/
namespace PaintedImages

namespace PageSource

structure AgreeOn (a b : PageSource) (page : ObjectId) : Prop where
  operations : (a.operations page).value = (b.operations page).value
  lookup : ∀ op ∈ a.readable page, op.keyword = "Do" → ∀ name rest,
    op.operands = .name name :: rest → (a.lookup page name).value = (b.lookup page name).value

structure Agree (a b : PageSource) (selection : PageSelection) : Prop where
  size : a.pages.size = b.pages.size
  selected : a.selected selection = b.selected selection
  page : ∀ entry ∈ a.selected selection, a.AgreeOn b entry.2

def isUnreadable (source : PageSource) (page : ObjectId) : Bool :=
  match (source.operations page).value with
  | .ok _ => false
  | .error _ => true

end PageSource

namespace Walk

section Agreement
variable {a b : PageSource} {id : ObjectId}

theorem stepAgree {op : Operation} (same : op.keyword = "Do" → ∀ name rest,
    op.operands = .name name :: rest → (a.lookup id name).value = (b.lookup id name).value)
    (number : UInt32) (w : Walk) :
    (step a number id w op).value = (step b number id w op).value := by
  by_cases paints : op.paints = true
  · have painted : (paint a id w.collector op).value = (paint b id w.collector op).value := by
      cases h : op.paintedName with
      | error cause => simp only [paint, h]
      | ok name =>
        obtain ⟨rest, operands⟩ := paintedNameOk h
        simp only [paint, h, find, Traced.bindValue,
          same ((paintsExact op).mp paints) name rest operands]
    simp only [step, if_pos paints, painted]
  · simp only [step, if_neg paints]

theorem stepsAgree {ops : List Operation} (same : ∀ op ∈ ops, op.keyword = "Do" → ∀ name rest,
    op.operands = .name name :: rest → (a.lookup id name).value = (b.lookup id name).value)
    (number : UInt32) (w : Walk) :
    (steps a number id w ops).value = (steps b number id w ops).value := by
  induction ops generalizing w with
  | nil => rfl
  | cons op rest ih =>
    simp only [steps, Traced.bindValue, stepAgree (same op List.mem_cons_self),
      ih fun next mem => same next (List.mem_cons_of_mem _ mem)]

theorem pageAgree (agree : a.AgreeOn b id) (number : UInt32) (w : Walk) :
    (page a number id w).value = (page b number id w).value := by
  obtain ⟨operations, same⟩ := agree
  rw [PageSource.readable] at same
  simp only [page, Traced.bindValue, ← operations]
  cases h : (a.operations id).value with
  | error fault => rfl
  | ok ops =>
    rw [h] at same
    simp only [stepsAgree same]

theorem pagesAgree {entries : List (UInt32 × ObjectId)}
    (agree : ∀ entry ∈ entries, a.AgreeOn b entry.2) (w : Walk) :
    (pages a w entries).value = (pages b w entries).value := by
  induction entries generalizing w with
  | nil => rfl
  | cons entry rest ih =>
    obtain ⟨number, id⟩ := entry
    simp only [pages, Traced.bindValue, pageOrSkipExact, pageAgree (agree _ List.mem_cons_self),
      ih fun next mem => agree next (List.mem_cons_of_mem _ mem)]

end Agreement

end Walk

namespace PageSource

section Pages
variable (source : PageSource) (options : Options)

theorem operatorEvent {page : ObjectId} {op : Operation} {e : Event}
    (event : source.event? options page op = some e) : e ≠ .walked ∧ e ≠ .skipped := by
  by_cases paints : op.paints = true
  · rw [Walk.paintEvent source page (Collector.emptyConfigured options) paints] at event
    cases event
    cases (Walk.paint source page (Collector.empty options) op).value.1 <;>
      exact ⟨nofun, nofun⟩
  · rw [Walk.eventNone source paints] at event
    contradiction

theorem operatorsUncounted {c : Counter} (pages : c = .pagesWalked ∨ c = .pagesSkipped)
    (page : ObjectId) (ops : List Operation) :
    c.count (ops.filterMap (source.event? options page)) = 0 := by
  rw [Counter.count, List.countP_eq_zero]
  intro e mem
  obtain ⟨op, _, event⟩ := List.mem_filterMap.mp mem
  obtain ⟨notWalked, notSkipped⟩ := operatorEvent source options event
  obtain rfl | rfl := pages
  · simpa [Counter.kinds] using notWalked
  · simpa [Counter.kinds] using notSkipped

/- Each page is counted once, and skipped just if it cannot be read. -/
theorem pageOnce (page : ObjectId) :
    Counter.pagesWalked.count (source.pageEvents options page) +
      Counter.pagesSkipped.count (source.pageEvents options page) = 1 ∧
    Counter.pagesSkipped.count (source.pageEvents options page) =
      if source.isUnreadable page then 1 else 0 := by
  rw [pageEvents, isUnreadable]
  cases (source.operations page).value with
  | error fault => exact ⟨rfl, rfl⟩
  | ok ops =>
    simp only [Counter.countAppend, operatorsUncounted source options (.inl rfl),
      operatorsUncounted source options (.inr rfl)]
    exact ⟨rfl, rfl⟩

theorem pagesOnce (entries : List (UInt32 × ObjectId)) :
    Counter.pagesWalked.count (source.events options entries) +
      Counter.pagesSkipped.count (source.events options entries) = entries.length ∧
    Counter.pagesSkipped.count (source.events options entries) =
      entries.countP fun entry => source.isUnreadable entry.2 := by
  induction entries with
  | nil => exact ⟨rfl, rfl⟩
  | cons entry rest ih =>
    have split : source.events options (entry :: rest) =
        source.pageEvents options entry.2 ++ source.events options rest := rfl
    obtain ⟨one, skipped⟩ := pageOnce source options entry.2
    rw [split, Counter.countAppend, Counter.countAppend, List.length_cons, List.countP_cons]
    omega

end Pages

theorem numbersAscending (source : PageSource) (selection : PageSelection) :
    ((source.selected selection).map Prod.fst).Pairwise (· < ·) :=
  source.pages.ascending.sublist (List.filter_sublist.map Prod.fst)

/- A number stands for one page, so a word counts the pages if some number stands for none. -/
theorem selectedFew {source : PageSource} {selection : PageSelection}
    (free : ∃ number, number ∉ (source.selected selection).map Prod.fst) :
    (source.selected selection).length < 2 ^ 32 := by
  obtain ⟨number, absent⟩ := free
  have different : (number :: (source.selected selection).map Prod.fst).Nodup :=
    List.nodup_cons.mpr ⟨absent, (numbersAscending source selection).imp UInt32.ne_of_lt⟩
  have natural : ((number :: (source.selected selection).map Prod.fst).map UInt32.toNat).Nodup :=
    List.Pairwise.map _ (fun _ _ apart same => apart (UInt32.toNat_inj.mp same)) different
  have words : (number :: (source.selected selection).map Prod.fst).map UInt32.toNat ⊆
      List.range (2 ^ 32) := by
    intro n mem
    obtain ⟨word, _, rfl⟩ := List.mem_map.mp mem
    exact List.mem_range.mpr word.toNat_lt
  have fits := natural.length_le_of_subset words
  rw [List.length_map, List.length_cons, List.length_map, List.length_range] at fits
  exact fits

end PageSource

namespace Report

theorem extractAgree {options : Options} {a b : PageSource} (agree : a.Agree b options.pages) :
    (extract a options).value = (extract b options).value := by
  have size : a.pages.entries.length = b.pages.entries.length := agree.size
  have selected : a.pages.entries.filter (fun entry => options.pages.includes entry.1) =
      b.pages.entries.filter (fun entry => options.pages.includes entry.1) := agree.selected
  have walked : (Walk.document a options.pages (.start options)).value =
      (Walk.document b options.pages (.start options)).value := by
    rw [Walk.document, Walk.document, ← selected, PageMap.size, PageMap.size, size]
    exact Walk.pagesAgree agree.page _
  change ofWalk _ = ofWalk _
  rw [walked]

theorem selectedPagesTold {options : Options} {a b : PageSource}
    (agree : a.Agree b options.pages) :
    let pages := a.selected options.pages
    let s := (extract a options).value.statistics
    (extract a options).value = (extract b options).value ∧
    s.pagesWalked + s.pagesSkipped = UInt32.ofNat pages.length ∧
    s.pagesSkipped = UInt32.ofNat (pages.countP fun entry => a.isUnreadable entry.2) ∧
    ((∃ number, number ∉ pages.map Prod.fst) →
      s.pagesWalked.toNat + s.pagesSkipped.toNat = pages.length ∧
      s.pagesSkipped.toNat = pages.countP fun entry => a.isUnreadable entry.2) := by
  intro pages s
  obtain ⟨all, unreadable⟩ := PageSource.pagesOnce a options pages
  have walked : s.pagesWalked = UInt32.ofNat (Counter.pagesWalked.count (a.events options pages)) :=
    extractCounted a options .pagesWalked
  have skipped :
      s.pagesSkipped = UInt32.ofNat (Counter.pagesSkipped.count (a.events options pages)) :=
    extractCounted a options .pagesSkipped
  refine ⟨extractAgree agree, ?_, ?_, ?_⟩
  · rw [walked, skipped, ← UInt32.ofNat_add, all]
  · rw [skipped, unreadable]
  · intro free
    have few : pages.length < 2 ^ 32 := PageSource.selectedFew free
    have read : s.pagesWalked.toNat = Counter.pagesWalked.count (a.events options pages) := by
      rw [walked, UInt32.toNat_ofNat']
      exact Nat.mod_eq_of_lt (by omega)
    have passed : s.pagesSkipped.toNat = Counter.pagesSkipped.count (a.events options pages) := by
      rw [skipped, UInt32.toNat_ofNat']
      exact Nat.mod_eq_of_lt (by omega)
    rw [read, passed]
    exact ⟨all, unreadable⟩

def sharedImageTorn : PageSource where
  pages := .ofList [(1, ⟨10, 0⟩), (2, ⟨30, 0⟩)]
  operations page :=
    if page = ⟨10, 0⟩ then .silent (.ok [⟨"q", []⟩, ⟨"Do", [.name [65]]⟩])
    else .silent (.error (.document .contentStream))
  lookup page name :=
    if page = ⟨10, 0⟩ ∧ name = [65] then
      .silent (.ok (some (.image { content := [255, 216], filters := [.dct] })))
    else .silent (.ok (some .form))

theorem sharedImageSelected :
    let options : Options := { pages := .pages [1] }
    let s := (extract sharedImage options).value.statistics
    sharedImage.Agree sharedImageTorn options.pages ∧
    (extract sharedImage options).value = (extract sharedImageTorn options).value ∧
    s.pagesWalked.toNat + s.pagesSkipped.toNat = 1 ∧ s.pagesSkipped.toNat = 0 := by
  intro options s
  have selected : sharedImage.selected options.pages = [(1, ⟨10, 0⟩)] := rfl
  have agree : sharedImage.Agree sharedImageTorn options.pages := by
    refine ⟨rfl, rfl, ?_⟩
    intro entry mem
    rw [selected, List.mem_singleton] at mem
    subst mem
    refine ⟨rfl, ?_⟩
    intro op mem paints name rest operands
    have ops : sharedImage.readable ⟨10, 0⟩ = [⟨"q", []⟩, ⟨"Do", [.name [65]]⟩] := rfl
    rw [ops] at mem
    rcases List.mem_cons.mp mem with rfl | mem
    · contradiction
    · rw [List.mem_singleton.mp mem] at operands
      cases operands
      rfl
  have told := selectedPagesTold agree
  exact ⟨agree, told.1, told.2.2.2 ⟨0, by decide⟩⟩

end Report

namespace PageSource

theorem filterApart {p q : UInt32 × ObjectId → Bool}
    (apart : ∀ x y, p x = true → q y = true → x.1 < y.1) {entries : List (UInt32 × ObjectId)}
    (ascending : (entries.map Prod.fst).Pairwise (· < ·)) :
    entries.filter (fun entry => p entry || q entry) = entries.filter p ++ entries.filter q := by
  induction entries with
  | nil => rfl
  | cons entry rest ih =>
    rw [List.map_cons, List.pairwise_cons] at ascending
    obtain ⟨below, ascending⟩ := ascending
    by_cases left : p entry = true
    · have notRight : ¬ q entry = true := fun right =>
        UInt32.lt_irrefl _ (apart entry entry left right)
      rw [List.filter_cons_of_pos (by simp [left]), List.filter_cons_of_pos left,
        List.filter_cons_of_neg notRight, ih ascending, List.cons_append]
    · by_cases right : q entry = true
      · -- all later numbers are greater, so none of them is of the first kind
        have nothing : rest.filter p = [] := by
          rw [List.filter_eq_nil_iff]
          intro next mem later
          exact UInt32.lt_asymm (below _ (List.mem_map_of_mem mem)) (apart _ _ later right)
        rw [List.filter_cons_of_pos (by simp [right]), List.filter_cons_of_neg left,
          List.filter_cons_of_pos right, ih ascending, nothing]
        rfl
      · rw [List.filter_cons_of_neg (by simp [left, right]), List.filter_cons_of_neg left,
          List.filter_cons_of_neg right, ih ascending]

theorem selectedAppend (source : PageSource) {first second : List UInt32}
    (apart : ∀ x ∈ first, ∀ y ∈ second, x < y) :
    source.selected (.pages (first ++ second)) =
      source.selected (.pages first) ++ source.selected (.pages second) := by
  rw [selected, selected, selected, ← filterApart ?_ source.pages.ascending]
  · simp only [PageSelection.includes, List.contains_append]
  · intro x y left right
    exact apart x.1 (by simpa [PageSelection.includes] using left) y.1
      (by simpa [PageSelection.includes] using right)

theorem imagesAppend (source : PageSource) (before after : List (UInt32 × ObjectId)) :
    source.images (before ++ after) = source.images before ++ source.images after := by
  simp only [images, operators, List.flatMap_append, List.filterMap_append]

end PageSource

namespace Collector

/- What was seen are the fingerprints of the records, the latest first. -/
theorem recordsSeen {options : Options} {c : Collector} (setup : c.Configured options)
    (same : c.records.map Record.fingerprint? = (c.seen.map some).reverse) (images : List Image) :
    (c.gather images).records.map Record.fingerprint? =
      ((c.gather images).seen.map some).reverse := by
  induction images generalizing c with
  | nil => exact same
  | cons image rest ih =>
    apply ih (offerConfigured setup image)
    obtain ⟨fault, _, offered⟩ | ⟨s, _, _, ⟨_, offered⟩ | ⟨_, offered⟩⟩ := offerCases setup image
    · rw [offered]
      exact same
    · rw [offered]
      exact same
    · rw [offered]
      simp only [extended, List.map_append, same, List.map_cons, List.map_nil,
        Sample.recordFingerprint, List.reverse_cons]

theorem recordedExact (options : Options) (images : List Image) (f : Fingerprint) :
    some f ∈ ((empty options).gather images).records.map Record.fingerprint? ↔
      f ∈ ((empty options).gather images).seen := by
  rw [recordsSeen (emptyConfigured options) rfl images]
  simp

end Collector

namespace Report

theorem countersMerged (source : PageSource) (options : Options) {first second : List UInt32}
    (apart : ∀ x ∈ first, ∀ y ∈ second, x < y) (c : Counter) :
    let report (pages : List UInt32) :=
      (extract source { options with pages := .pages pages }).value
    c.value (report (first ++ second)).statistics =
      c.value (report first).statistics + c.value (report second).statistics := by
  intro report
  simp only [report, extractCounted, ← UInt32.ofNat_add]
  rw [source.selectedAppend apart, PageSource.eventsAppend, Counter.countAppend]
  rfl

theorem recordsGathered (source : PageSource) (options : Options) :
    (extract source options).value.records =
      ((Collector.empty options).gather (source.images (source.selected options.pages))).records :=
  congrArg Collector.records (Walk.documentCollector source options.pages (.start options))

theorem recordsMerged (source : PageSource) (options : Options) {first second : List UInt32}
    (apart : ∀ x ∈ first, ∀ y ∈ second, x < y) :
    let report (pages : List UInt32) :=
      (extract source { options with pages := .pages pages }).value
    (report (first ++ second)).records = (report first).records ++
      (report second).records.filter fun r =>
        r.fingerprint? ∉ (report first).records.map Record.fingerprint? := by
  intro report
  let before := (Collector.empty options).gather (source.images (source.selected (.pages first)))
  have left : (report first).records = before.records := recordsGathered source _
  have setup : before.Configured options :=
    Collector.gatherConfigured (Collector.emptyConfigured options) _
  have whole : (report (first ++ second)).records =
      (before.gather (source.images (source.selected (.pages second)))).records := by
    have gathered := recordsGathered source { options with pages := .pages (first ++ second) }
    rw [source.selectedAppend apart, PageSource.imagesAppend, Collector.gatherAppend] at gathered
    exact gathered
  have right : (report second).records = (firsts Sample.fingerprint
      ((source.images (source.selected (.pages second))).filterMap
        (Sample.ofImage? options))).map (Sample.record options) :=
    extractRecords source _
  have known (s : Sample) : (s.record options).fingerprint? ∉
      before.records.map Record.fingerprint? ↔ s.fingerprint ∉ before.seen := by
    rw [Sample.recordFingerprint, Collector.recordedExact]
  rw [whole, Collector.gatherRecords setup, left, right, List.filter_map]
  simp only [Function.comp_def, known]

theorem rangesMerged (source : PageSource) (options : Options) {first second : List UInt32}
    (apart : ∀ x ∈ first, ∀ y ∈ second, x < y) :
    let report (pages : List UInt32) :=
      (extract source { options with pages := .pages pages }).value
    let r := report first
    let s := report second
    let t := report (first ++ second)
    t.records = r.records ++
      s.records.filter (fun record => record.fingerprint? ∉ r.records.map Record.fingerprint?) ∧
    t.statistics.imagesCollected + t.statistics.duplicatesSkipped =
      (r.statistics.imagesCollected + r.statistics.duplicatesSkipped) +
        (s.statistics.imagesCollected + s.statistics.duplicatesSkipped) ∧
    t.statistics.pagesWalked = r.statistics.pagesWalked + s.statistics.pagesWalked ∧
    t.statistics.pagesSkipped = r.statistics.pagesSkipped + s.statistics.pagesSkipped ∧
    t.statistics.imagesSeen = r.statistics.imagesSeen + s.statistics.imagesSeen ∧
    t.statistics.nonImageXObjects =
      r.statistics.nonImageXObjects + s.statistics.nonImageXObjects ∧
    t.statistics.unresolvedReferences =
      r.statistics.unresolvedReferences + s.statistics.unresolvedReferences ∧
    t.statistics.malformedOperators =
      r.statistics.malformedOperators + s.statistics.malformedOperators ∧
    t.statistics.decodeFailures = r.statistics.decodeFailures + s.statistics.decodeFailures := by
  intro report r s t
  have counters := countersMerged source options apart
  exact ⟨recordsMerged source options apart, counters .imagesRead, counters .pagesWalked,
    counters .pagesSkipped, counters .imagesSeen, counters .nonImageXObjects,
    counters .unresolvedReferences, counters .malformedOperators, counters .decodeFailures⟩

theorem rangesMergedShared :
    let report (pages : List UInt32) :=
      (extract sharedImage { pages := .pages pages }).value
    (∀ x ∈ [1], ∀ y ∈ [3, 2], (x : UInt32) < y) ∧
    (report ([1] ++ [3, 2])).records = (report [1]).records ++ (report [3, 2]).records.filter
      (fun record => record.fingerprint? ∉ (report [1]).records.map Record.fingerprint?) := by
  intro report
  have apart : ∀ x ∈ [1], ∀ y ∈ [3, 2], (x : UInt32) < y := by simp
  exact ⟨apart, (rangesMerged sharedImage {} apart).1⟩

end Report
end PaintedImages
