import PaintedImages.Extraction.Report
import PaintedImages.Proofs.Collecting

/-! What walking does, said once. An operator that paints has one of four outcomes, and the last of
them is a call to the collection; so the collection after a walk is the collection after a run of
calls, one for each image painted on a page that can be read, in order. Messages play no part. -/
namespace PaintedImages

namespace Traced
variable {α β : Type}

@[simp] theorem silentValue (a : α) : (silent a).value = a := rfl

@[simp] theorem bindValue (x : Traced α) (f : α → Traced β) :
    (x.bind f).value = (f x.value).value := rfl

@[simp] theorem mapValue (f : α → β) (x : Traced α) : (x.map f).value = f x.value := rfl

end Traced

theorem filterMapHead {α β : Type} (f : α → Option β) (a : α) (rest : List α) :
    (a :: rest).filterMap f = (f a).toList ++ rest.filterMap f := by
  cases h : f a <;> simp [h]

namespace PageSource

def painted? (source : PageSource) (page : ObjectId) (op : Operation) : Option Image :=
  if op.keyword = "Do" then
    match op.operands with
    | .name name :: _ =>
      match (source.lookup page name).value with
      | .ok (some (.image image)) => some image
      | _ => none
    | _ => none
  else none

def readable (source : PageSource) (page : ObjectId) : List Operation :=
  match (source.operations page).value with
  | .ok ops => ops
  | .error _ => []

def selected (source : PageSource) (selection : PageSelection) : List (UInt32 × ObjectId) :=
  source.pages.entries.filter fun entry => selection.includes entry.1

def operators (source : PageSource) (pages : List (UInt32 × ObjectId)) :
    List (ObjectId × Operation) :=
  pages.flatMap fun entry => (source.readable entry.2).map fun op => (entry.2, op)

def images (source : PageSource) (pages : List (UInt32 × ObjectId)) : List Image :=
  (source.operators pages).filterMap fun entry => source.painted? entry.1 entry.2

end PageSource

namespace Walk

def answered (name : Bytes) : Except Fault Collected → Painting
  | .ok (.added index) => .added name index
  | .ok (.duplicate fingerprint) => .duplicate name fingerprint
  | .error fault => .undecodable name fault

theorem takeExact (c : Collector) (name : Bytes) (image : Image) :
    (take c name image).value = (answered name (c.offer image).1, (c.offer image).2) := by
  simp only [take, Traced.mapValue, Collector.offer]
  cases (c.collect image).value with
  | error fault => rfl
  | ok result =>
    obtain ⟨answer, next⟩ := result
    cases answer <;> rfl

/- Everything a painting operator can do. Only an image reaches the collection. -/
theorem paintCases (source : PageSource) (page : ObjectId) (c : Collector) (op : Operation) :
    (∃ cause, op.paintedName = .error cause ∧
      (paint source page c op).value = (.malformed cause, c)) ∨
    ∃ name, op.paintedName = .ok name ∧
      ((∃ fault, (source.lookup page name).value = .error fault ∧
        (paint source page c op).value = (.unreadable name fault, c)) ∨
      ((source.lookup page name).value = .ok none ∧
        (paint source page c op).value = (.unresolved name, c)) ∨
      (∃ x, (source.lookup page name).value = .ok (some x) ∧ (∀ image, x ≠ .image image) ∧
        (paint source page c op).value = (.notImage name x.kind, c)) ∨
      ∃ image, (source.lookup page name).value = .ok (some (.image image)) ∧
        (paint source page c op).value =
          (answered name (c.offer image).1, (c.offer image).2)) := by
  cases h : op.paintedName with
  | error cause =>
    refine .inl ⟨cause, rfl, ?_⟩
    simp only [paint, h, Traced.silentValue]
  | ok name =>
    refine .inr ⟨name, rfl, ?_⟩
    simp only [paint, h, find, Traced.bindValue]
    cases (source.lookup page name).value with
    | error fault => exact .inl ⟨fault, rfl, rfl⟩
    | ok found =>
      cases found with
      | none => exact .inr (.inl ⟨rfl, rfl⟩)
      | some x =>
        cases x with
        | image image => exact .inr (.inr (.inr ⟨image, rfl, takeExact c name image⟩))
        | form => exact .inr (.inr (.inl ⟨.form, rfl, by simp, rfl⟩))
        | other kind => exact .inr (.inr (.inl ⟨.other kind, rfl, by simp, rfl⟩))

theorem paintedNameOk {op : Operation} {name : Bytes} (h : op.paintedName = .ok name) :
    ∃ rest, op.operands = .name name :: rest := by
  unfold Operation.paintedName at h
  split at h
  · rename_i rest found
    cases h
    exact ⟨rest, found⟩
  · contradiction
  · contradiction

theorem paintedNameError {op : Operation} {cause : OperandFault}
    (h : op.paintedName = .error cause) (name : Bytes) (rest : List Operand) :
    op.operands ≠ .name name :: rest := by
  intro found
  simp [Operation.paintedName, found] at h

theorem paintsExact (op : Operation) : op.paints = true ↔ op.keyword = "Do" :=
  decide_eq_true_iff

theorem paintedNone {source : PageSource} {page : ObjectId} {op : Operation}
    (other : ¬ op.paints = true) : source.painted? page op = none := by
  rw [paintsExact] at other
  rw [PageSource.painted?, if_neg other]

theorem paintCollector {source : PageSource} {page : ObjectId} {op : Operation}
    (paints : op.paints = true) (c : Collector) :
    (paint source page c op).value.2 = c.gather (source.painted? page op).toList := by
  rw [paintsExact] at paints
  rw [PageSource.painted?, if_pos paints]
  obtain ⟨cause, h, same⟩ | ⟨name, h, outcome⟩ := paintCases source page c op
  · rw [same]
    split
    · exact absurd ‹_› (paintedNameError h _ _)
    · rfl
  · obtain ⟨rest, operands⟩ := paintedNameOk h
    obtain ⟨fault, found, same⟩ | ⟨found, same⟩ | ⟨x, found, other, same⟩ | ⟨image, found, same⟩ :=
      outcome
    · simp only [same, operands, found]
      rfl
    · simp only [same, operands, found]
      rfl
    · simp only [same, operands, found]
      cases x with
      | image image => exact absurd rfl (other image)
      | form => rfl
      | other kind => rfl
    · simp only [same, operands, found]
      rfl

theorem stepCollector (source : PageSource) (number : UInt32) (page : ObjectId) (w : Walk)
    (op : Operation) :
    (step source number page w op).value.collector =
      w.collector.gather (source.painted? page op).toList := by
  by_cases paints : op.paints = true
  · simp only [step, if_pos paints]
    exact paintCollector paints w.collector
  · simp only [step, if_neg paints, paintedNone paints]
    rfl

theorem stepsCollector (source : PageSource) (number : UInt32) (page : ObjectId) (w : Walk)
    (ops : List Operation) :
    (steps source number page w ops).value.collector =
      w.collector.gather (ops.filterMap (source.painted? page)) := by
  induction ops generalizing w with
  | nil => rfl
  | cons op rest ih =>
    rw [steps, Traced.bindValue, ih, stepCollector, filterMapHead, Collector.gatherAppend]

theorem pageExact (source : PageSource) (number : UInt32) (id : ObjectId) (w : Walk) :
    (∃ fault, (source.operations id).value = .error fault ∧
      (page source number id w).value = .error (.pageContent number fault.message)) ∨
    ∃ ops, (source.operations id).value = .ok ops ∧
      (page source number id w).value = .ok { (steps source number id w ops).value with
        statistics := { (steps source number id w ops).value.statistics with
          pagesWalked := (steps source number id w ops).value.statistics.pagesWalked + 1 } } := by
  simp only [page, Traced.bindValue]
  cases (source.operations id).value with
  | error fault => exact .inl ⟨fault, rfl, rfl⟩
  | ok ops => exact .inr ⟨ops, rfl, rfl⟩

theorem pageOrSkipExact (source : PageSource) (number : UInt32) (id : ObjectId) (w : Walk) :
    (pageOrSkip source number id w).value =
      match (page source number id w).value with
      | .ok next => next
      | .error _ => { w with statistics := { w.statistics with
          pagesSkipped := w.statistics.pagesSkipped + 1 } } := by
  simp only [pageOrSkip, Traced.bindValue]
  cases (page source number id w).value <;> rfl

theorem pageOrSkipCollector (source : PageSource) (number : UInt32) (id : ObjectId) (w : Walk) :
    (pageOrSkip source number id w).value.collector =
      w.collector.gather ((source.readable id).filterMap (source.painted? id)) := by
  rw [pageOrSkipExact, PageSource.readable]
  obtain ⟨fault, h, same⟩ | ⟨ops, h, same⟩ := pageExact source number id w
  · rw [h, same]
    rfl
  · rw [h, same]
    exact stepsCollector source number id w ops

theorem imagesCons (source : PageSource) (entry : UInt32 × ObjectId)
    (rest : List (UInt32 × ObjectId)) :
    source.images (entry :: rest) =
      (source.readable entry.2).filterMap (source.painted? entry.2) ++ source.images rest := by
  simp only [PageSource.images, PageSource.operators, List.flatMap_cons, List.filterMap_append,
    List.filterMap_map, Function.comp_def]

theorem pagesCollector (source : PageSource) (w : Walk) (entries : List (UInt32 × ObjectId)) :
    (pages source w entries).value.collector = w.collector.gather (source.images entries) := by
  induction entries generalizing w with
  | nil => rfl
  | cons entry rest ih =>
    obtain ⟨number, id⟩ := entry
    rw [pages, Traced.bindValue, ih, pageOrSkipCollector, imagesCons, Collector.gatherAppend]

theorem documentCollector (source : PageSource) (selection : PageSelection) (w : Walk) :
    (document source selection w).value.collector =
      w.collector.gather (source.images (source.selected selection)) :=
  pagesCollector source _ _

end Walk
end PaintedImages
