import Mathlib.Algebra.GroupWithZero.Nat
import PaintedImages.Proofs.Walking

/-! The counters of a walk. However a walk is called, page by page or over the whole document and
with pages that cannot be read in between, each painting operator met so far stands in one of six
counters, and the records are as many as one of them says. Counters are words: the statements hold
as long as fewer operators were met than a word can count. -/
namespace PaintedImages

def PageSource.paintCount (source : PageSource) (page : ObjectId) : Nat :=
  (source.readable page).countP Operation.paints

def Painting.recordCount : Painting → Nat
  | .added _ _ => 1
  | _ => 0

structure Statistics.Balanced (s : Statistics) (met records : Nat) : Prop where
  total : met = s.malformedOperators.toNat + s.unresolvedReferences.toNat +
    s.nonImageXObjects.toNat + s.imagesCollected.toNat + s.duplicatesSkipped.toNat +
    s.decodeFailures.toNat
  recorded : s.imagesCollected.toNat = records
  readSeen : s.imagesCollected.toNat + s.duplicatesSkipped.toNat ≤ s.imagesSeen.toNat
  seenRead : s.imagesSeen.toNat ≤
    s.imagesCollected.toNat + s.duplicatesSkipped.toNat + s.decodeFailures.toNat

namespace Statistics

theorem nextWord {n : UInt32} (small : n.toNat + 1 < 2 ^ 32) : (n + 1).toNat = n.toNat + 1 := by
  rw [UInt32.toNat_add, UInt32.toNat_one, Nat.mod_eq_of_lt small]

/- Every counter is at most the number of operators met before, so none wraps. -/
theorem countBalanced {s : Statistics} {met records : Nat} (h : s.Balanced met records)
    (few : met + 1 < 2 ^ 32) (p : Painting) :
    (s.count p).Balanced (met + 1) (records + p.recordCount) := by
  obtain ⟨total, recorded, readSeen, seenRead⟩ := h
  cases p with
  | malformed cause =>
    have step := nextWord (n := s.malformedOperators) (by omega)
    refine ⟨?_, recorded, readSeen, seenRead⟩
    simp only [count, step]
    omega
  | unresolved name =>
    have step := nextWord (n := s.unresolvedReferences) (by omega)
    refine ⟨?_, recorded, readSeen, seenRead⟩
    simp only [count, step]
    omega
  | notImage name kind =>
    have step := nextWord (n := s.nonImageXObjects) (by omega)
    refine ⟨?_, recorded, readSeen, seenRead⟩
    simp only [count, step]
    omega
  | unreadable name fault =>
    have step := nextWord (n := s.decodeFailures) (by omega)
    refine ⟨?_, recorded, readSeen, ?_⟩
    all_goals
      simp only [count, step]
      omega
  | added name index =>
    have step := nextWord (n := s.imagesCollected) (by omega)
    have seen := nextWord (n := s.imagesSeen) (by omega)
    refine ⟨?_, ?_, ?_, ?_⟩
    all_goals
      simp only [count, step, seen, Painting.recordCount]
      omega
  | duplicate name fingerprint =>
    have step := nextWord (n := s.duplicatesSkipped) (by omega)
    have seen := nextWord (n := s.imagesSeen) (by omega)
    refine ⟨?_, recorded, ?_, ?_⟩
    all_goals
      simp only [count, step, seen]
      omega
  | undecodable name fault =>
    have step := nextWord (n := s.decodeFailures) (by omega)
    have seen := nextWord (n := s.imagesSeen) (by omega)
    refine ⟨?_, recorded, ?_, ?_⟩
    all_goals
      simp only [count, step, seen]
      omega

end Statistics

namespace Walk

def Balanced (w : Walk) (met : Nat) : Prop :=
  w.statistics.Balanced met w.collector.records.length

theorem startBalanced (options : Options) : (start options).Balanced 0 :=
  ⟨rfl, rfl, Nat.le_refl 0, Nat.le_refl 0⟩

theorem paintRecords (source : PageSource) (page : ObjectId) (c : Collector) (op : Operation) :
    (paint source page c op).value.2.records.length =
      c.records.length + (paint source page c op).value.1.recordCount := by
  obtain ⟨cause, _, same⟩ | ⟨name, _, ⟨fault, _, same⟩ | ⟨_, same⟩ | ⟨x, _, _, same⟩ |
    ⟨image, _, same⟩⟩ := paintCases source page c op
  · rw [same]; rfl
  · rw [same]; rfl
  · rw [same]; rfl
  · rw [same]; rfl
  · rw [same]
    -- any collection is one that some options set up
    have setup : c.Configured ⟨c.policy, c.defaultFormat, .all, c.sizeLimit⟩ := ⟨rfl, rfl, rfl⟩
    obtain ⟨fault, _, offered⟩ | ⟨s, _, _, ⟨_, offered⟩ | ⟨_, offered⟩⟩ :=
      Collector.offerCases setup image
    · rw [offered]; rfl
    · rw [offered]; rfl
    · rw [offered]
      exact List.length_append

section Pages
variable (source : PageSource)

theorem stepBalanced {w : Walk} {met : Nat} (h : w.Balanced met) {op : Operation}
    (few : met + [op].countP Operation.paints < 2 ^ 32) (number : UInt32) (page : ObjectId) :
    (step source number page w op).value.Balanced (met + [op].countP Operation.paints) := by
  by_cases paints : op.paints = true
  · rw [List.countP_singleton, if_pos paints] at few ⊢
    simp only [step, if_pos paints, Balanced, paintRecords]
    exact Statistics.countBalanced h few _
  · rw [List.countP_singleton, if_neg paints]
    simp only [step, if_neg paints]
    exact h

theorem stepsBalanced {w : Walk} {met : Nat} (h : w.Balanced met) {ops : List Operation}
    (few : met + ops.countP Operation.paints < 2 ^ 32) (number : UInt32) (page : ObjectId) :
    (steps source number page w ops).value.Balanced (met + ops.countP Operation.paints) := by
  induction ops generalizing w met with
  | nil => exact h
  | cons op rest ih =>
    have split : (op :: rest).countP Operation.paints =
        [op].countP Operation.paints + rest.countP Operation.paints := by
      rw [← List.singleton_append, List.countP_append]
    rw [split, ← Nat.add_assoc] at few ⊢
    exact ih (stepBalanced source h (by omega) number page) few

theorem pageBalanced {w next : Walk} {met : Nat} (h : w.Balanced met) {id : ObjectId}
    (few : met + source.paintCount id < 2 ^ 32) {number : UInt32}
    (walked : (page source number id w).value = .ok next) :
    next.Balanced (met + source.paintCount id) := by
  obtain ⟨fault, _, same⟩ | ⟨ops, found, same⟩ := pageExact source number id w
  · rw [same] at walked
    contradiction
  · rw [same] at walked
    cases walked
    have count : source.paintCount id = ops.countP Operation.paints := by
      rw [PageSource.paintCount, PageSource.readable, found]
    rw [count] at few ⊢
    have balanced := stepsBalanced source h few number id
    exact ⟨balanced.total, balanced.recorded, balanced.readSeen, balanced.seenRead⟩

theorem pageFails {w : Walk} {id : ObjectId} {number : UInt32} {fault : Fault}
    (failed : (page source number id w).value = .error fault) : source.paintCount id = 0 := by
  obtain ⟨cause, found, _⟩ | ⟨ops, _, same⟩ := pageExact source number id w
  · rw [PageSource.paintCount, PageSource.readable, found]
    rfl
  · rw [same] at failed
    contradiction

theorem pageOrSkipBalanced {w : Walk} {met : Nat} (h : w.Balanced met) {id : ObjectId}
    (few : met + source.paintCount id < 2 ^ 32) (number : UInt32) :
    (pageOrSkip source number id w).value.Balanced (met + source.paintCount id) := by
  rw [pageOrSkipExact]
  cases walked : (page source number id w).value with
  | ok next => exact pageBalanced source h few walked
  | error fault =>
    rw [pageFails source walked]
    exact ⟨h.total, h.recorded, h.readSeen, h.seenRead⟩

theorem pagesBalanced {w : Walk} {met : Nat} (h : w.Balanced met)
    {entries : List (UInt32 × ObjectId)}
    (few : met + (entries.map fun entry => source.paintCount entry.2).sum < 2 ^ 32) :
    (pages source w entries).value.Balanced
      (met + (entries.map fun entry => source.paintCount entry.2).sum) := by
  induction entries generalizing w met with
  | nil => exact h
  | cons entry rest ih =>
    obtain ⟨number, id⟩ := entry
    simp only [List.map_cons, List.sum_cons, ← Nat.add_assoc] at few ⊢
    exact ih (pageOrSkipBalanced source h (by omega) number) few

end Pages

inductive Visit where
  | document
  | page (number : UInt32) (id : ObjectId)
  deriving DecidableEq, Repr

def visit (source : PageSource) (selection : PageSelection) (w : Walk) : Visit → Walk
  | .document => (document source selection w).value
  | .page number id =>
    match (page source number id w).value with
    | .ok next => next
    | .error _ => w

def visits (source : PageSource) (selection : PageSelection) (w : Walk) (calls : List Visit) :
    Walk :=
  calls.foldl (visit source selection) w

def Visit.paintCount (source : PageSource) (selection : PageSelection) : Visit → Nat
  | .document => ((source.selected selection).map fun entry => source.paintCount entry.2).sum
  | .page _ id => source.paintCount id

def paintsMet (source : PageSource) (selection : PageSelection) (calls : List Visit) : Nat :=
  (calls.map (Visit.paintCount source selection)).sum

theorem visitBalanced {source : PageSource} {selection : PageSelection} {w : Walk} {met : Nat}
    (h : w.Balanced met) {call : Visit} (few : met + call.paintCount source selection < 2 ^ 32) :
    (visit source selection w call).Balanced (met + call.paintCount source selection) := by
  cases call with
  | document =>
    let counted : Walk := { w with
      statistics := { w.statistics with pageCount := saturated source.pages.size } }
    have same : counted.Balanced met := ⟨h.total, h.recorded, h.readSeen, h.seenRead⟩
    exact pagesBalanced source same few
  | page number id =>
    simp only [visit, Visit.paintCount] at few ⊢
    cases walked : (page source number id w).value with
    | ok next => exact pageBalanced source h few walked
    | error fault =>
      rw [pageFails source walked]
      exact h

theorem visitsBalanced {source : PageSource} {selection : PageSelection} {w : Walk} {met : Nat}
    (h : w.Balanced met) {calls : List Visit}
    (few : met + paintsMet source selection calls < 2 ^ 32) :
    (visits source selection w calls).Balanced (met + paintsMet source selection calls) := by
  induction calls generalizing w met with
  | nil => exact h
  | cons call rest ih =>
    simp only [paintsMet, List.map_cons, List.sum_cons, ← Nat.add_assoc] at few ⊢
    exact ih (visitBalanced h (by omega)) few

theorem everyPaintCounted (source : PageSource) (options : Options) {calls before : List Visit}
    (few : paintsMet source options.pages calls < 2 ^ 32) (called : before <+: calls) :
    let w := visits source options.pages (start options) before
    let s := w.statistics
    paintsMet source options.pages before =
      s.malformedOperators.toNat + s.unresolvedReferences.toNat + s.nonImageXObjects.toNat +
        s.imagesCollected.toNat + s.duplicatesSkipped.toNat + s.decodeFailures.toNat ∧
    s.imagesCollected.toNat = w.collector.records.length ∧
    s.imagesCollected.toNat + s.duplicatesSkipped.toNat ≤ s.imagesSeen.toNat ∧
    s.imagesSeen.toNat ≤
      s.imagesCollected.toNat + s.duplicatesSkipped.toNat + s.decodeFailures.toNat := by
  obtain ⟨rest, rfl⟩ := called
  have fewer : 0 + paintsMet source options.pages before < 2 ^ 32 := by
    simp only [paintsMet, List.map_append, List.sum_append] at few ⊢
    omega
  have balanced := visitsBalanced (startBalanced options) fewer
  exact ⟨(Nat.zero_add _).symm.trans balanced.total, balanced.recorded, balanced.readSeen,
    balanced.seenRead⟩

def brokenPages : PageSource where
  pages := .ofList [(1, ⟨10, 0⟩), (2, ⟨20, 0⟩)]
  operations page :=
    if page = ⟨10, 0⟩ then
      .silent (.ok [⟨"Do", []⟩, ⟨"q", []⟩, ⟨"Do", [.name [65]]⟩, ⟨"Do", [.name [66]]⟩])
    else .silent (.error (.document .contentStream))
  lookup _ name := .silent (.ok (if name = [65] then some .form else none))

theorem brokenPagesCounted :
    let calls : List Visit := [.page 1 ⟨10, 0⟩, .page 2 ⟨20, 0⟩, .document, .page 1 ⟨10, 0⟩]
    let before : List Visit := [.page 1 ⟨10, 0⟩, .page 2 ⟨20, 0⟩, .document]
    let s := (visits brokenPages .all (start {}) before).statistics
    paintsMet brokenPages .all calls < 2 ^ 32 ∧ before <+: calls ∧
    6 = s.malformedOperators.toNat + s.unresolvedReferences.toNat + s.nonImageXObjects.toNat +
        s.imagesCollected.toNat + s.duplicatesSkipped.toNat + s.decodeFailures.toNat := by
  intro calls before s
  have few : paintsMet brokenPages .all calls < 2 ^ 32 := by decide
  have called : before <+: calls := ⟨[.page 1 ⟨10, 0⟩], rfl⟩
  exact ⟨few, called, (everyPaintCounted brokenPages {} few called).1⟩

end Walk
end PaintedImages
