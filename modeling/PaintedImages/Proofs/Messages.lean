import Mathlib.Data.List.Forall2
import PaintedImages.Proofs.Counting
import PaintedImages.Proofs.Selecting
import PaintedImages.Proofs.Balance

/-! The messages of an extraction. A page that cannot be read is told once; a page that is walked is
told once, and then each painting operator on it once, in order; the last message is the summary.
Only what a counter counts as a fault is told as a warning, so the warnings can be counted from the
report. A source that tells something itself adds to this, and so do filters, which are run where
payloads are unfiltered; both are left out here. -/
namespace PaintedImages

structure PageSource.Quiet (source : PageSource) : Prop where
  operations : ∀ page, (source.operations page).log = []
  lookup : ∀ page name, (source.lookup page name).log = []

def Message.warns (m : Message) : Bool := m.severity = .warning

inductive PaintTold (source : PageSource) (number : UInt32) (page : ObjectId) (op : Operation) :
    Message → Prop where
  | malformed {cause : OperandFault} {m : Message} (operand : op.paintedName = .error cause)
      (told : m = (Painting.malformed cause).message number page)
      (severity : m.severity = .warning) : PaintTold source number page op m
  | unreadable {name : Bytes} {fault : Fault} {m : Message} (operand : op.paintedName = .ok name)
      (found : (source.lookup page name).value = .error fault)
      (told : m = (Painting.unreadable name fault).message number page)
      (severity : m.severity = .warning) : PaintTold source number page op m
  | unresolved {name : Bytes} {m : Message} (operand : op.paintedName = .ok name)
      (found : (source.lookup page name).value = .ok none)
      (told : m = (Painting.unresolved name).message number page)
      (severity : m.severity = .debug) : PaintTold source number page op m
  | notImage {name : Bytes} {x : XObject} {m : Message} (operand : op.paintedName = .ok name)
      (found : (source.lookup page name).value = .ok (some x)) (other : ∀ image, x ≠ .image image)
      (told : m = (Painting.notImage name x.kind).message number page)
      (severity : m.severity = .debug) : PaintTold source number page op m
  | added {name : Bytes} {image : Image} {index : Nat} {m : Message}
      (operand : op.paintedName = .ok name)
      (found : (source.lookup page name).value = .ok (some (.image image)))
      (told : m = (Painting.added name index).message number page)
      (severity : m.severity = .debug) : PaintTold source number page op m
  | duplicate {name : Bytes} {image : Image} {m : Message} (operand : op.paintedName = .ok name)
      (found : (source.lookup page name).value = .ok (some (.image image)))
      (told : m = (Painting.duplicate name (.of image.content)).message number page)
      (severity : m.severity = .debug) : PaintTold source number page op m

inductive PageTold (source : PageSource) : UInt32 × ObjectId → List Message → Prop where
  | skipped {number : UInt32} {page : ObjectId} {fault : Fault}
      (unread : (source.operations page).value = .error fault) :
      PageTold source (number, page) [Walk.skipNote number (.pageContent number fault.message)]
  | walked {number : UInt32} {page : ObjectId} {ops : List Operation} {told : List Message}
      (read : (source.operations page).value = .ok ops)
      (each : List.Forall₂ (PaintTold source number page) (ops.filter Operation.paints) told) :
      PageTold source (number, page) (Walk.operatorsNote number ops.length :: told)

namespace Walk
section Runs
variable {source : PageSource} (quiet : source.Quiet) {options : Options}
  (raw : options.policy = .raw)
include quiet raw

theorem paintQuiet (page : ObjectId) {c : Collector} (setup : c.Configured options)
    (op : Operation) : (paint source page c op).log = [] := by
  have policy : c.policy = .raw := setup.policy.trans raw
  rw [paint]
  cases op.paintedName with
  | error cause => rfl
  | ok name =>
    simp only [find, Traced.bind, quiet.lookup, List.nil_append]
    cases (source.lookup page name).value with
    | error fault => rfl
    | ok found =>
      cases found with
      | none => rfl
      | some x =>
        cases x with
        | image image =>
          simp only [take, Collector.collect, Collector.payload, policy]
          rfl
        | form => rfl
        | other kind => rfl

omit quiet in
theorem paintTold (number : UInt32) (page : ObjectId) {c : Collector}
    (setup : c.Configured options) (op : Operation) :
    PaintTold source number page op ((paint source page c op).value.1.message number page) := by
  obtain ⟨cause, operand, same⟩ | ⟨name, operand, outcome⟩ := paintCases source page c op
  · rw [same]
    exact .malformed operand rfl rfl
  · obtain ⟨fault, found, same⟩ | ⟨found, same⟩ | ⟨x, found, other, same⟩ | ⟨image, found, same⟩ :=
      outcome
    · rw [same]
      exact .unreadable operand found rfl rfl
    · rw [same]
      exact .unresolved operand found rfl rfl
    · rw [same]
      exact .notImage operand found other rfl rfl
    · rw [same]
      have payload : options.payload image = .ok image.content := by rw [Options.payload, raw]
      obtain ⟨fault, failed, _⟩ | ⟨s, rfl, stored, ⟨_, offered⟩ | ⟨_, offered⟩⟩ :=
        Collector.offerCases setup image
      · rw [payload] at failed
        contradiction
      · rw [payload] at stored
        have content : s.fingerprint = .of s.image.content := by
          rw [Sample.fingerprint, ← Except.ok.inj stored]
        rw [offered, answered, content]
        exact .duplicate operand found rfl rfl
      · rw [offered]
        exact .added operand found rfl rfl

theorem stepTold (number : UInt32) (page : ObjectId) {w : Walk}
    (setup : w.collector.Configured options) (op : Operation) :
    List.Forall₂ (PaintTold source number page) ([op].filter Operation.paints)
      (step source number page w op).log := by
  by_cases paints : op.paints = true
  · rw [List.filter_cons_of_pos paints]
    simp only [step, if_pos paints, paintQuiet quiet raw page setup, List.nil_append]
    exact .cons (paintTold raw number page setup op) .nil
  · rw [List.filter_cons_of_neg paints]
    simp only [step, if_neg paints]
    exact .nil

theorem stepsTold (number : UInt32) (page : ObjectId) {w : Walk}
    (setup : w.collector.Configured options) (ops : List Operation) :
    List.Forall₂ (PaintTold source number page) (ops.filter Operation.paints)
      (steps source number page w ops).log := by
  induction ops generalizing w with
  | nil => exact .nil
  | cons op rest ih =>
    rw [← List.singleton_append, List.filter_append]
    exact List.rel_append (stepTold quiet raw number page setup op)
      (ih (stepConfigured source number page setup op))

theorem pageOrSkipTold (number : UInt32) (page : ObjectId) {w : Walk}
    (setup : w.collector.Configured options) :
    PageTold source (number, page) (pageOrSkip source number page w).log := by
  simp only [pageOrSkip, Walk.page, Traced.bind, quiet.operations, List.nil_append]
  cases read : (source.operations page).value with
  | error fault => exact .skipped read
  | ok ops =>
    simp only [Traced.silent, List.append_nil]
    exact .walked read (stepsTold quiet raw number page setup ops)

theorem pagesTold {w : Walk} (setup : w.collector.Configured options)
    (entries : List (UInt32 × ObjectId)) :
    ∃ blocks, (pages source w entries).log = blocks.flatten ∧
      List.Forall₂ (PageTold source) entries blocks := by
  induction entries generalizing w with
  | nil => exact ⟨[], rfl, .nil⟩
  | cons entry rest ih =>
    obtain ⟨number, page⟩ := entry
    have next : (pageOrSkip source number page w).value.collector.Configured options := by
      rw [pageOrSkipCollector]
      exact Collector.gatherConfigured setup _
    obtain ⟨blocks, log, told⟩ := ih next
    refine ⟨_ :: blocks, ?_, .cons (pageOrSkipTold quiet raw number page setup) told⟩
    rw [pages, Traced.bind, log, List.flatten_cons]

end Runs
end Walk

namespace PageTold
variable {source : PageSource} {options : Options}

/- Just the faults that a counter counts are told as warnings. -/
theorem paintWarns (raw : options.policy = .raw) {number : UInt32} {page : ObjectId}
    {op : Operation} {m : Message} (paints : op.paints = true)
    (told : PaintTold source number page op m) :
    ∃ e, source.event? options page op = some e ∧
      [m].countP Message.warns = Counter.malformedOperators.count [e] +
        Counter.decodeFailures.count [e] := by
  rw [Walk.paintsExact] at paints
  rw [PageSource.event?, if_pos paints]
  have warned (h : m.severity = .warning) : [m].countP Message.warns = 1 := by
    simp [Message.warns, h]
  have unwarned (h : m.severity = .debug) : [m].countP Message.warns = 0 := by
    simp [Message.warns, h]
  cases told with
  | malformed operand _ severity =>
    refine ⟨.malformed, ?_, warned severity⟩
    split
    · exact absurd ‹_› (Walk.paintedNameError operand _ _)
    · rfl
  | unreadable operand found _ severity =>
    obtain ⟨rest, operands⟩ := Walk.paintedNameOk operand
    exact ⟨.unreadable, by simp only [operands, found], warned severity⟩
  | unresolved operand found _ severity =>
    obtain ⟨rest, operands⟩ := Walk.paintedNameOk operand
    exact ⟨.unresolved, by simp only [operands, found], unwarned severity⟩
  | @notImage _ x _ operand found other _ severity =>
    obtain ⟨rest, operands⟩ := Walk.paintedNameOk operand
    refine ⟨.notImage, ?_, unwarned severity⟩
    cases x with
    | image image => exact absurd rfl (other image)
    | form => simp only [operands, found]
    | other kind => simp only [operands, found]
  | added operand found _ severity | duplicate operand found _ severity =>
    obtain ⟨rest, operands⟩ := Walk.paintedNameOk operand
    exact ⟨.sampled, by simp only [operands, found, Options.payload, raw], unwarned severity⟩

theorem paintsWarn (raw : options.policy = .raw) {number : UInt32} {page : ObjectId}
    {ops : List Operation} {told : List Message}
    (each : List.Forall₂ (PaintTold source number page) (ops.filter Operation.paints) told) :
    told.countP Message.warns =
      Counter.malformedOperators.count (ops.filterMap (source.event? options page)) +
        Counter.decodeFailures.count (ops.filterMap (source.event? options page)) := by
  induction ops generalizing told with
  | nil =>
    cases each
    rfl
  | cons op rest ih =>
    rw [filterMapHead, Counter.countAppend, Counter.countAppend]
    by_cases paints : op.paints = true
    · rw [List.filter_cons_of_pos paints] at each
      cases each with
      | @cons _ m _ told first each =>
        obtain ⟨e, event, warns⟩ := paintWarns raw paints first
        rw [← List.singleton_append, List.countP_append, warns, ih each, event, Option.toList_some]
        omega
    · rw [List.filter_cons_of_neg paints] at each
      rw [Walk.eventNone source paints, ih each]
      exact congrArg₂ _ (Nat.zero_add _).symm (Nat.zero_add _).symm

/- What a page tells is as much as it holds, and warns of as much as is counted as a fault. -/
theorem counted (raw : options.policy = .raw) {entry : UInt32 × ObjectId} {block : List Message}
    (told : PageTold source entry block) :
    block.length = 1 + source.paintCount entry.2 ∧
    block.countP Message.warns =
      Counter.pagesSkipped.count (source.pageEvents options entry.2) +
        Counter.malformedOperators.count (source.pageEvents options entry.2) +
        Counter.decodeFailures.count (source.pageEvents options entry.2) ∧
    Counter.malformedOperators.count (source.pageEvents options entry.2) +
      Counter.decodeFailures.count (source.pageEvents options entry.2) ≤
        source.paintCount entry.2 := by
  cases told with
  | @skipped number page fault unread =>
    simp only [PageSource.paintCount, PageSource.readable, PageSource.pageEvents, unread]
    exact ⟨rfl, rfl, Nat.le_refl _⟩
  | @walked number page ops told read each =>
    have events : source.pageEvents options page =
        ops.filterMap (source.event? options page) ++ [.walked] := by
      rw [PageSource.pageEvents, read]
    have paints : source.paintCount page = told.length := by
      rw [PageSource.paintCount, PageSource.readable, read, ← each.length_eq,
        List.countP_eq_length_filter]
    have warns := paintsWarn raw each
    have quiet : (Walk.operatorsNote number ops.length).warns = false := rfl
    have skipped : Counter.pagesSkipped.count [Event.walked] = 0 := rfl
    have malformed : Counter.malformedOperators.count [Event.walked] = 0 := rfl
    have failed : Counter.decodeFailures.count [Event.walked] = 0 := rfl
    have few := told.countP_le_length (p := Message.warns)
    rw [events, paints, Counter.countAppend, Counter.countAppend, Counter.countAppend,
      source.operatorsUncounted options (.inr rfl), skipped, malformed, failed, List.length_cons,
      List.countP_cons, quiet, if_neg Bool.false_ne_true]
    omega

theorem allCounted (raw : options.policy = .raw) {entries : List (UInt32 × ObjectId)}
    {blocks : List (List Message)} (told : List.Forall₂ (PageTold source) entries blocks) :
    blocks.flatten.length =
      entries.length + (entries.map fun entry => source.paintCount entry.2).sum ∧
    blocks.flatten.countP Message.warns =
      Counter.pagesSkipped.count (source.events options entries) +
        Counter.malformedOperators.count (source.events options entries) +
        Counter.decodeFailures.count (source.events options entries) ∧
    Counter.malformedOperators.count (source.events options entries) +
      Counter.decodeFailures.count (source.events options entries) ≤
        (entries.map fun entry => source.paintCount entry.2).sum := by
  induction told with
  | nil => exact ⟨rfl, rfl, Nat.le_refl _⟩
  | @cons entry block entries blocks first rest ih =>
    have split : source.events options (entry :: entries) =
        source.pageEvents options entry.2 ++ source.events options entries := rfl
    obtain ⟨size, warns, few⟩ := counted raw first
    rw [split, List.flatten_cons, List.length_append, List.countP_append, Counter.countAppend,
      Counter.countAppend, Counter.countAppend, List.length_cons, List.map_cons, List.sum_cons]
    omega

end PageTold

namespace Report

section Whole
variable {source : PageSource} {options : Options} (quiet : source.Quiet)
  (raw : options.policy = .raw)
include quiet raw

theorem messagesTold :
    ∃ blocks, (extract source options).log =
        blocks.flatten ++ [⟨.info, (extract source options).value.statistics.summary⟩] ∧
      List.Forall₂ (PageTold source) (source.selected options.pages) blocks := by
  have setup : (Walk.start options).collector.Configured options :=
    Collector.emptyConfigured options
  obtain ⟨blocks, walked, told⟩ := Walk.pagesTold quiet raw (w := { Walk.start options with
    statistics := { pageCount := Walk.saturated source.pages.size } }) setup
      (source.selected options.pages)
  refine ⟨blocks, ?_, told⟩
  rw [← walked]
  rfl

theorem messagesCounted :
    let pages := source.selected options.pages
    let paints := (pages.map fun entry => source.paintCount entry.2).sum
    let log := (extract source options).log
    log.length = pages.length + paints + 1 ∧
    log.countP Message.warns =
      Counter.pagesSkipped.count (source.events options pages) +
        Counter.malformedOperators.count (source.events options pages) +
        Counter.decodeFailures.count (source.events options pages) ∧
    Counter.malformedOperators.count (source.events options pages) +
      Counter.decodeFailures.count (source.events options pages) ≤ paints := by
  intro pages paints log
  obtain ⟨blocks, whole, told⟩ := messagesTold quiet raw
  have whole : log = _ := whole
  obtain ⟨size, warns, faults⟩ := PageTold.allCounted raw told
  refine ⟨?_, ?_, faults⟩
  · rw [whole, List.length_append, size, List.length_singleton]
  · rw [whole, List.countP_append, warns, List.countP_singleton]
    rfl

end Whole

theorem everythingTold {source : PageSource} {options : Options} (quiet : source.Quiet)
    (raw : options.policy = .raw)
    (few : ((source.selected options.pages).map fun entry => source.paintCount entry.2).sum <
      2 ^ 32) :
    let pages := source.selected options.pages
    let paints := (pages.map fun entry => source.paintCount entry.2).sum
    let log := (extract source options).log
    let s := (extract source options).value.statistics
    (∃ blocks, log = blocks.flatten ++ [⟨.info, s.summary⟩] ∧
      List.Forall₂ (PageTold source) pages blocks) ∧
    UInt32.ofNat (log.countP Message.warns) =
      s.pagesSkipped + s.malformedOperators + s.decodeFailures ∧
    UInt32.ofNat log.length = s.pagesWalked + s.pagesSkipped + 1 + UInt32.ofNat paints ∧
    ((∃ number, number ∉ pages.map Prod.fst) →
      log.countP Message.warns =
        s.pagesSkipped.toNat + s.malformedOperators.toNat + s.decodeFailures.toNat ∧
      log.length = s.pagesWalked.toNat + s.pagesSkipped.toNat + 1 + paints) := by
  intro pages paints log s
  obtain ⟨length, count, faults⟩ :
      log.length = pages.length + paints + 1 ∧
      log.countP Message.warns =
        Counter.pagesSkipped.count (source.events options pages) +
          Counter.malformedOperators.count (source.events options pages) +
          Counter.decodeFailures.count (source.events options pages) ∧
      Counter.malformedOperators.count (source.events options pages) +
        Counter.decodeFailures.count (source.events options pages) ≤ paints :=
    messagesCounted quiet raw
  obtain ⟨once, _⟩ := source.pagesOnce options pages
  have walkedWord :
      s.pagesWalked = UInt32.ofNat (Counter.pagesWalked.count (source.events options pages)) :=
    extractCounted source options .pagesWalked
  have skippedWord :
      s.pagesSkipped = UInt32.ofNat (Counter.pagesSkipped.count (source.events options pages)) :=
    extractCounted source options .pagesSkipped
  have malformedWord : s.malformedOperators =
      UInt32.ofNat (Counter.malformedOperators.count (source.events options pages)) :=
    extractCounted source options .malformedOperators
  have failedWord : s.decodeFailures =
      UInt32.ofNat (Counter.decodeFailures.count (source.events options pages)) :=
    extractCounted source options .decodeFailures
  refine ⟨messagesTold quiet raw, ?_, ?_, fun free => ?_⟩
  · rw [count, UInt32.ofNat_add, UInt32.ofNat_add, skippedWord, malformedWord, failedWord]
  · rw [walkedWord, skippedWord, ← UInt32.ofNat_add, once, length, UInt32.ofNat_add,
      UInt32.ofNat_add, UInt32.add_assoc, UInt32.add_assoc, UInt32.add_comm (UInt32.ofNat paints)]
    rfl
  · have fewPages : pages.length < 2 ^ 32 := PageSource.selectedFew free
    have fewPaints : paints < 2 ^ 32 := few
    have fits {n : Nat} (small : n < 2 ^ 32) : (UInt32.ofNat n).toNat = n := by
      rw [UInt32.toNat_ofNat', Nat.mod_eq_of_lt small]
    rw [count, length, walkedWord, skippedWord, malformedWord, failedWord, fits (by omega),
      fits (by omega), fits (by omega), fits (by omega)]
    exact ⟨rfl, by omega⟩

theorem brokenPagesTold :
    let log := (extract Walk.brokenPages {}).log
    let s := (extract Walk.brokenPages {}).value.statistics
    Walk.brokenPages.Quiet ∧
    log.countP Message.warns =
      s.pagesSkipped.toNat + s.malformedOperators.toNat + s.decodeFailures.toNat ∧
    log.length = s.pagesWalked.toNat + s.pagesSkipped.toNat + 1 + 3 := by
  intro log s
  have quiet : Walk.brokenPages.Quiet := by
    refine ⟨fun page => ?_, fun _ _ => rfl⟩
    simp only [Walk.brokenPages]
    split <;> rfl
  have told := @everythingTold _ {} quiet rfl (by decide)
  exact ⟨quiet, told.2.2.2 ⟨0, by decide⟩⟩

end Report
end PaintedImages
