import PaintedImages.Proofs.Walking

/-! The counters told without the walk's state. A walk is a list of events, each of them fixed by
the source and the options alone: a page is read or passed over, and an operator that paints comes
to one of six ends. Whether an image is new or a duplicate hangs on what was painted before, so the
two counters for these are one here. Every counter is the number of events of its kinds, as far as a
word can tell. -/
namespace PaintedImages

inductive Event where
  | walked | skipped | malformed | unresolved | unreadable | notImage | undecodable | sampled
  deriving DecidableEq, Repr

def Painting.event : Painting → Event
  | .malformed _ => .malformed
  | .unresolved _ => .unresolved
  | .unreadable _ _ => .unreadable
  | .notImage _ _ => .notImage
  | .added _ _ => .sampled
  | .duplicate _ _ => .sampled
  | .undecodable _ _ => .undecodable

namespace PageSource

def event? (source : PageSource) (options : Options) (page : ObjectId) (op : Operation) :
    Option Event :=
  if op.keyword = "Do" then
    match op.operands with
    | .name name :: _ =>
      match (source.lookup page name).value with
      | .error _ => some .unreadable
      | .ok none => some .unresolved
      | .ok (some (.image image)) =>
        match options.payload image with
        | .ok _ => some .sampled
        | .error _ => some .undecodable
      | .ok (some _) => some .notImage
    | _ => some .malformed
  else none

def pageEvents (source : PageSource) (options : Options) (page : ObjectId) : List Event :=
  match (source.operations page).value with
  | .ok ops => ops.filterMap (source.event? options page) ++ [.walked]
  | .error _ => [.skipped]

def events (source : PageSource) (options : Options) (pages : List (UInt32 × ObjectId)) :
    List Event :=
  pages.flatMap fun entry => source.pageEvents options entry.2

theorem eventsAppend (source : PageSource) (options : Options)
    (before after : List (UInt32 × ObjectId)) :
    source.events options (before ++ after) =
      source.events options before ++ source.events options after :=
  List.flatMap_append

end PageSource

inductive Counter where
  | pagesWalked | pagesSkipped | imagesSeen | imagesRead | nonImageXObjects | unresolvedReferences
  | malformedOperators | decodeFailures
  deriving DecidableEq, Repr

namespace Counter

def value (s : Statistics) : Counter → UInt32
  | pagesWalked => s.pagesWalked
  | pagesSkipped => s.pagesSkipped
  | imagesSeen => s.imagesSeen
  | imagesRead => s.imagesCollected + s.duplicatesSkipped
  | nonImageXObjects => s.nonImageXObjects
  | unresolvedReferences => s.unresolvedReferences
  | malformedOperators => s.malformedOperators
  | decodeFailures => s.decodeFailures

def kinds : Counter → List Event
  | pagesWalked => [.walked]
  | pagesSkipped => [.skipped]
  | imagesSeen => [.sampled, .undecodable]
  | imagesRead => [.sampled]
  | nonImageXObjects => [.notImage]
  | unresolvedReferences => [.unresolved]
  | malformedOperators => [.malformed]
  | decodeFailures => [.unreadable, .undecodable]

def count (c : Counter) (es : List Event) : Nat := es.countP (· ∈ c.kinds)

theorem countAppend (c : Counter) (before after : List Event) :
    c.count (before ++ after) = c.count before + c.count after :=
  List.countP_append

theorem countSingle (c : Counter) (e : Event) :
    UInt32.ofNat (c.count [e]) = if e ∈ c.kinds then 1 else 0 := by
  rw [count, List.countP_singleton]
  by_cases kind : e ∈ c.kinds
  · simp [kind]
  · simp [kind]

end Counter

def Statistics.Counted (before : Statistics) (es : List Event) (after : Statistics) : Prop :=
  ∀ c : Counter, c.value after = c.value before + UInt32.ofNat (c.count es)

namespace Statistics

theorem countedNone (s : Statistics) : s.Counted [] s := fun _ => (UInt32.add_zero _).symm

theorem Counted.append {a b c : Statistics} {es fs : List Event} (first : a.Counted es b)
    (second : b.Counted fs c) : a.Counted (es ++ fs) c := by
  intro counter
  rw [second, first, Counter.countAppend, UInt32.ofNat_add, UInt32.add_assoc]

/- An outcome moves the counters of its event by one and leaves the others. -/
theorem countCounted (s : Statistics) (p : Painting) : s.Counted [p.event] (s.count p) := by
  intro counter
  rw [Counter.countSingle]
  cases p <;> cases counter <;>
    simp [Counter.value, count, Counter.kinds, Painting.event, UInt32.add_assoc, UInt32.add_comm 1]

end Statistics

namespace Walk

theorem answeredEvent {options : Options} {c : Collector} (setup : c.Configured options)
    (name : Bytes) (image : Image) :
    (answered name (c.offer image).1).event =
      match options.payload image with
      | .ok _ => .sampled
      | .error _ => .undecodable := by
  obtain ⟨fault, h, same⟩ | ⟨s, _, h, ⟨_, same⟩ | ⟨_, same⟩⟩ := Collector.offerCases setup image
  · rw [same, h]; rfl
  · rw [same, h]; rfl
  · rw [same, h]; rfl

section Runs
variable (source : PageSource) {options : Options}

theorem paintEvent (page : ObjectId) {c : Collector} (setup : c.Configured options)
    {op : Operation} (paints : op.paints = true) :
    source.event? options page op = some (paint source page c op).value.1.event := by
  rw [paintsExact] at paints
  rw [PageSource.event?, if_pos paints]
  obtain ⟨cause, h, same⟩ | ⟨name, h, outcome⟩ := paintCases source page c op
  · rw [same]
    split
    · exact absurd ‹_› (paintedNameError h _ _)
    · rfl
  · obtain ⟨rest, operands⟩ := paintedNameOk h
    obtain ⟨fault, found, same⟩ | ⟨found, same⟩ | ⟨x, found, other, same⟩ | ⟨image, found, same⟩ :=
      outcome
    · simp only [same, operands, found]
      rfl
    · simp only [same, operands, found]
      rfl
    · simp only [same, operands, found]
      cases x with
      | image image => exact absurd rfl (other image)
      | form => rfl
      | other kind => rfl
    · simp only [same, operands, found, answeredEvent setup]
      cases options.payload image <;> rfl

theorem eventNone {page : ObjectId} {op : Operation} (other : ¬ op.paints = true) :
    source.event? options page op = none := by
  rw [paintsExact] at other
  rw [PageSource.event?, if_neg other]

theorem stepCounted (number : UInt32) (page : ObjectId) {w : Walk}
    (setup : w.collector.Configured options) (op : Operation) :
    w.statistics.Counted (source.event? options page op).toList
      (step source number page w op).value.statistics := by
  by_cases paints : op.paints = true
  · rw [paintEvent source page setup paints]
    simp only [step, if_pos paints]
    exact Statistics.countCounted _ _
  · rw [eventNone source paints]
    simp only [step, if_neg paints]
    exact Statistics.countedNone _

theorem stepConfigured (number : UInt32) (page : ObjectId) {w : Walk}
    (setup : w.collector.Configured options) (op : Operation) :
    (step source number page w op).value.collector.Configured options := by
  rw [stepCollector]
  exact Collector.gatherConfigured setup _

theorem stepsCounted (number : UInt32) (page : ObjectId) {w : Walk}
    (setup : w.collector.Configured options) (ops : List Operation) :
    w.statistics.Counted (ops.filterMap (source.event? options page))
      (steps source number page w ops).value.statistics := by
  induction ops generalizing w with
  | nil => exact Statistics.countedNone _
  | cons op rest ih =>
    rw [filterMapHead]
    exact (stepCounted source number page setup op).append
      (ih (stepConfigured source number page setup op))

theorem pageOrSkipCounted (number : UInt32) (id : ObjectId) {w : Walk}
    (setup : w.collector.Configured options) :
    w.statistics.Counted (source.pageEvents options id)
      (pageOrSkip source number id w).value.statistics := by
  rw [pageOrSkipExact, PageSource.pageEvents]
  obtain ⟨fault, h, same⟩ | ⟨ops, h, same⟩ := pageExact source number id w
  · rw [h, same]
    intro counter
    rw [Counter.countSingle]
    cases counter <;> simp [Counter.value, Counter.kinds]
  · rw [h, same]
    refine (stepsCounted source number id setup ops).append fun counter => ?_
    rw [Counter.countSingle]
    cases counter <;> simp [Counter.value, Counter.kinds]

theorem pagesCounted {w : Walk} (setup : w.collector.Configured options)
    (entries : List (UInt32 × ObjectId)) :
    w.statistics.Counted (source.events options entries)
      (pages source w entries).value.statistics := by
  induction entries generalizing w with
  | nil => exact Statistics.countedNone _
  | cons entry rest ih =>
    obtain ⟨number, id⟩ := entry
    have next : (pageOrSkip source number id w).value.collector.Configured options := by
      rw [pageOrSkipCollector]
      exact Collector.gatherConfigured setup _
    exact (pageOrSkipCounted source number id setup).append (ih next)

theorem documentCounted {w : Walk} (setup : w.collector.Configured options)
    (selection : PageSelection) :
    w.statistics.Counted (source.events options (source.selected selection))
      (document source selection w).value.statistics := by
  intro counter
  let counted : Walk := { w with
    statistics := { w.statistics with pageCount := saturated source.pages.size } }
  have same : counter.value counted.statistics = counter.value w.statistics := by
    cases counter <;> rfl
  rw [← same]
  exact pagesCounted source (w := counted) setup (source.selected selection) counter

end Runs

end Walk

namespace Report

theorem extractCounted (source : PageSource) (options : Options) (c : Counter) :
    c.value (extract source options).value.statistics =
      UInt32.ofNat (c.count (source.events options (source.selected options.pages))) := by
  have start : c.value (Walk.start options).statistics = 0 := by cases c <;> rfl
  have counted := Walk.documentCounted source (w := .start options)
    (Collector.emptyConfigured options) options.pages c
  rw [start, UInt32.zero_add] at counted
  exact counted

end Report
end PaintedImages
