import PaintedImages.Proofs.Balance
import PaintedImages.Proofs.Selecting

/-! Walking pages again. Calls on a walk come to pages one after another, and whatever a page showed
stays known to the collection; so records are only ever added at the end, and a page met before
shows nothing but duplicates. Whether two pages share images plays no part. -/
namespace PaintedImages

def PageSource.sampleCount (source : PageSource) (options : Options) (page : ObjectId) : Nat :=
  (source.readable page).countP fun op => source.event? options page op = some .sampled

namespace Collector
variable {options : Options} {c : Collector}

theorem gatherKnown (setup : c.Configured options) {images : List Image}
    (known : ∀ s ∈ images.filterMap (Sample.ofImage? options), s.fingerprint ∈ c.seen) :
    c.gather images = c := by
  induction images with
  | nil => rfl
  | cons image rest ih =>
    have later : ∀ s ∈ rest.filterMap (Sample.ofImage? options), s.fingerprint ∈ c.seen := by
      intro s mem
      apply known
      rw [filterMapHead]
      exact List.mem_append_right _ mem
    have kept : (c.offer image).2 = c := by
      obtain ⟨fault, _, same⟩ | ⟨s, rfl, h, ⟨_, same⟩ | ⟨new, _⟩⟩ := offerCases setup image
      · rw [same]
      · rw [same]
      · refine absurd (known s ?_) new
        rw [List.filterMap_cons_some (Sample.ofImageOk h)]
        exact List.mem_cons_self
    change (c.offer image).2.gather rest = c
    rw [kept, ih later]

theorem gatherGrows (c : Collector) (images : List Image) :
    c.records <+: (c.gather images).records := by
  -- any collection is one that some options set up
  have setup : c.Configured ⟨c.policy, c.defaultFormat, .all, c.sizeLimit⟩ := ⟨rfl, rfl, rfl⟩
  rw [gatherRecords setup]
  exact List.prefix_append _ _

end Collector

namespace Walk

section Known
variable (source : PageSource) {options : Options}

/- An operator adds a record just if it paints something new. -/
theorem stepKnown (number : UInt32) (id : ObjectId) {w : Walk}
    (setup : w.collector.Configured options) (op : Operation)
    (known : ∀ s ∈ (source.painted? id op).toList.filterMap (Sample.ofImage? options),
      s.fingerprint ∈ w.collector.seen) :
    (step source number id w op).value.collector = w.collector ∧
    (step source number id w op).value.statistics.imagesCollected =
      w.statistics.imagesCollected := by
  have kept : (step source number id w op).value.collector = w.collector := by
    rw [stepCollector, Collector.gatherKnown setup known]
  refine ⟨kept, ?_⟩
  by_cases paints : op.paints = true
  · simp only [step, if_pos paints] at kept ⊢
    have grown := paintRecords source id w.collector op
    rw [kept] at grown
    cases painting : (paint source id w.collector op).value.1 with
    | added name index =>
      rw [painting, Painting.recordCount] at grown
      omega
    | _ => rfl
  · simp only [step, if_neg paints, Traced.silentValue]

theorem stepsKnown (number : UInt32) (id : ObjectId) {w : Walk}
    (setup : w.collector.Configured options) {ops : List Operation}
    (known : ∀ s ∈ (ops.filterMap (source.painted? id)).filterMap (Sample.ofImage? options),
      s.fingerprint ∈ w.collector.seen) :
    (steps source number id w ops).value.collector = w.collector ∧
    (steps source number id w ops).value.statistics.imagesCollected =
      w.statistics.imagesCollected := by
  induction ops generalizing w with
  | nil => exact ⟨rfl, rfl⟩
  | cons op rest ih =>
    rw [filterMapHead, List.filterMap_append] at known
    obtain ⟨collector, counter⟩ := stepKnown source number id setup op fun s mem =>
      known s (List.mem_append_left _ mem)
    rw [steps, Traced.bindValue, ← collector, ← counter]
    apply ih
    · rw [collector]
      exact setup
    · intro s mem
      rw [collector]
      exact known s (List.mem_append_right _ mem)

end Known

structure Repeated (images : Nat) (w next : Walk) : Prop where
  records : next.collector.records = w.collector.records
  imagesCollected : next.statistics.imagesCollected = w.statistics.imagesCollected
  duplicatesSkipped : next.statistics.duplicatesSkipped =
    w.statistics.duplicatesSkipped + UInt32.ofNat images

theorem imagesReadCount {source : PageSource} {options : Options} (id : ObjectId) :
    Counter.imagesRead.count (source.pageEvents options id) = source.sampleCount options id := by
  rw [PageSource.pageEvents, PageSource.sampleCount, PageSource.readable]
  cases (source.operations id).value with
  | error fault => rfl
  | ok ops =>
    rw [Counter.countAppend, Counter.count, List.countP_filterMap]
    refine (Nat.add_zero _).trans (List.countP_congr fun op _ => ?_)
    cases source.event? options id op <;> simp [Counter.kinds]

theorem pageRepeated {source : PageSource} {options : Options} {id : ObjectId}
    {ops : List Operation} (found : (source.operations id).value = .ok ops) {w : Walk}
    (setup : w.collector.Configured options)
    (known : ∀ s ∈ (ops.filterMap (source.painted? id)).filterMap (Sample.ofImage? options),
      s.fingerprint ∈ w.collector.seen) (number : UInt32) :
    ∃ next, (page source number id w).value = .ok next ∧
      Repeated (source.sampleCount options id) w next := by
  obtain ⟨fault, failed, _⟩ | ⟨_, again, walked⟩ := pageExact source number id w
  · rw [failed] at found
    contradiction
  · cases found.symm.trans again
    obtain ⟨collector, collected⟩ := stepsKnown source number id setup known
    have counted := pageOrSkipCounted source number id setup .imagesRead
    rw [pageOrSkipExact, walked, imagesReadCount] at counted
    refine ⟨_, walked, congrArg Collector.records collector, collected, ?_⟩
    simp only [Counter.value, collected, UInt32.add_assoc] at counted
    exact (UInt32.add_right_inj _).mp counted

theorem pagesAppend (source : PageSource) (w : Walk) (before after : List (UInt32 × ObjectId)) :
    (pages source w (before ++ after)).value =
      (pages source (pages source w before).value after).value := by
  induction before generalizing w with
  | nil => rfl
  | cons entry rest ih =>
    simp only [List.cons_append, pages, Traced.bindValue, ih]

def Visit.pages (source : PageSource) (selection : PageSelection) :
    Visit → List (UInt32 × ObjectId)
  | .document => source.selected selection
  | .page number id => [(number, id)]

section Visits
variable {source : PageSource}

theorem visitCollector {selection : PageSelection} (w : Walk) (call : Visit) :
    (visit source selection w call).collector =
      w.collector.gather (source.images (call.pages source selection)) := by
  cases call with
  | document => exact documentCollector source selection w
  | page number id =>
    have walked := pageOrSkipCollector source number id w
    rw [pageOrSkipExact] at walked
    rw [Visit.pages, imagesCons, Collector.gatherAppend, ← walked, visit]
    cases (page source number id w).value <;> rfl

theorem visitsCollector {selection : PageSelection} (w : Walk) (calls : List Visit) :
    (visits source selection w calls).collector =
      w.collector.gather (source.images (calls.flatMap (Visit.pages source selection))) := by
  induction calls generalizing w with
  | nil => rfl
  | cons call rest ih =>
    change (visits source selection (visit source selection w call) rest).collector = _
    rw [ih, visitCollector, List.flatMap_cons, PageSource.imagesAppend, Collector.gatherAppend]

theorem imagesMet {entries : List (UInt32 × ObjectId)} {number : UInt32} {id : ObjectId}
    (met : (number, id) ∈ entries) {image : Image}
    (mem : image ∈ (source.readable id).filterMap (source.painted? id)) :
    image ∈ source.images entries := by
  obtain ⟨before, after, rfl⟩ := List.append_of_mem met
  rw [PageSource.imagesAppend, imagesCons]
  exact List.mem_append_right _ (List.mem_append_left _ mem)

/- All that matters of the walk so far is which pages it came to. -/
theorem pageRewalked {options : Options} {w : Walk} {entries : List (UInt32 × ObjectId)}
    (reached : w.collector = (Collector.empty options).gather (source.images entries))
    {earlier : UInt32} {id : ObjectId} (met : (earlier, id) ∈ entries) {ops : List Operation}
    (found : (source.operations id).value = .ok ops) (number : UInt32) :
    ∃ next, (page source number id w).value = .ok next ∧
      Repeated (source.sampleCount options id) w next := by
  have setup : w.collector.Configured options := by
    rw [reached]
    exact Collector.gatherConfigured (Collector.emptyConfigured options) _
  refine pageRepeated found setup ?_ number
  intro s mem
  obtain ⟨image, painted, sampled⟩ := List.mem_filterMap.mp mem
  have read : source.readable id = ops := by rw [PageSource.readable, found]
  rw [reached, Collector.seenGather (Collector.emptyConfigured options)]
  exact .inr ⟨s, List.mem_filterMap.mpr ⟨image, imagesMet met (read ▸ painted), sampled⟩, rfl⟩

end Visits

/- A page may be met before by a call of its own or within a call on the document, and its turn may
come again in either way. -/
theorem pagesRevisited (source : PageSource) (options : Options) (calls : List Visit) :
    let w := visits source options.pages (start options) calls
    let met := calls.flatMap (Visit.pages source options.pages)
    (∀ call, w.collector.records <+: (visit source options.pages w call).collector.records) ∧
    (∀ earlier id ops, (earlier, id) ∈ met → (source.operations id).value = .ok ops →
      ∀ number, ∃ next, (page source number id w).value = .ok next ∧
        Repeated (source.sampleCount options id) w next) ∧
    ∀ before number id after, source.selected options.pages = before ++ (number, id) :: after →
      let counted := { w with
        statistics := { w.statistics with pageCount := saturated source.pages.size } }
      let here := (pages source counted before).value
      let next := (pageOrSkip source number id here).value
      (document source options.pages w).value = (pages source next after).value ∧
      ∀ earlier ops, (earlier, id) ∈ met ++ before → (source.operations id).value = .ok ops →
        Repeated (source.sampleCount options id) here next := by
  intro w met
  have reached : w.collector = (Collector.empty options).gather (source.images met) :=
    visitsCollector (start options) calls
  refine ⟨?_, ?_, ?_⟩
  · intro call
    rw [visitCollector]
    exact Collector.gatherGrows _ _
  · intro earlier id ops known found number
    exact pageRewalked reached known found number
  · intro before number id after selected counted here next
    constructor
    · change (pages source counted (source.selected options.pages)).value = _
      rw [selected, pagesAppend]
      rfl
    · intro earlier ops known found
      have arrived : here.collector =
          (Collector.empty options).gather (source.images (met ++ before)) := by
        rw [PageSource.imagesAppend, Collector.gatherAppend, ← reached]
        exact pagesCollector source counted before
      obtain ⟨again, walked, repeated⟩ := pageRewalked arrived known found number
      have same : next = again := by
        simp only [next, pageOrSkipExact, walked]
      rw [same]
      exact repeated

theorem sharedImageRevisited :
    let source := Report.sharedImage
    let options : Options := {}
    let calls : List Visit := [.document, .page 1 ⟨10, 0⟩]
    let w := visits source options.pages (start options) calls
    let met := calls.flatMap (Visit.pages source options.pages)
    let ops : List Operation := [⟨"Do", [.name [66]]⟩, ⟨"Do", [.name [67]]⟩]
    let counted := { w with
      statistics := { w.statistics with pageCount := saturated source.pages.size } }
    let here := (pages source counted [(1, ⟨10, 0⟩)]).value
    let next := (pageOrSkip source 2 ⟨20, 0⟩ here).value
    (2, ⟨20, 0⟩) ∈ met ∧ (source.operations ⟨20, 0⟩).value = .ok ops ∧
    source.selected options.pages = [(1, ⟨10, 0⟩)] ++ (2, ⟨20, 0⟩) :: [] ∧
    (∃ again, (page source 2 ⟨20, 0⟩ w).value = .ok again ∧ Repeated 1 w again) ∧
    Repeated 1 here next := by
  intro source options calls w met ops counted here next
  have known : (2, ⟨20, 0⟩) ∈ met := by decide
  have found : (source.operations ⟨20, 0⟩).value = .ok ops := rfl
  have selected : source.selected options.pages = [(1, ⟨10, 0⟩)] ++ (2, ⟨20, 0⟩) :: [] := rfl
  have one : source.sampleCount options ⟨20, 0⟩ = 1 := by decide
  obtain ⟨_, alone, within⟩ := pagesRevisited source options calls
  have again := alone 2 ⟨20, 0⟩ ops known found 2
  have inside := (within _ _ _ _ selected).2 2 ops (List.mem_append_left _ known) found
  rw [one] at again inside
  exact ⟨known, found, selected, again, inside⟩

end Walk
end PaintedImages
