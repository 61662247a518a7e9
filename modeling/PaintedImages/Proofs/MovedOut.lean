import Mathlib.Data.List.Forall2
import PaintedImages.Document.Contents

/-! Values moved out of a document. Where one document has a value in a list or under a key, the
other may have a reference to an object of its own that holds the value; any number of values may
be moved at once, also out of values already moved. Every read that follows references finds the
same in both. Reads that do not are left to the module on indirect values. -/
namespace PaintedImages

mutual

/-- The same object, up to the values moved out of it; nothing refers to an object of the second
document alone. -/
inductive Kept (fresh : List (ObjectId × Object)) : Object → Object → Prop where
  | null : Kept fresh .null .null
  | boolean (value : Bool) : Kept fresh (.boolean value) (.boolean value)
  | integer (value : Int) : Kept fresh (.integer value) (.integer value)
  | real (bits : UInt32) : Kept fresh (.real bits) (.real bits)
  | name (name : Bytes) : Kept fresh (.name name) (.name name)
  | string (bytes : Bytes) : Kept fresh (.string bytes) (.string bytes)
  | reference {id : ObjectId} (known : fresh.lookup id = none) :
      Kept fresh (.reference id) (.reference id)
  | array {items items' : List Object} (inner : MovedItems fresh items items') :
      Kept fresh (.array items) (.array items')
  | dictionary {d d' : Dictionary} (inner : MovedEntries fresh d d') :
      Kept fresh (.dictionary d) (.dictionary d')
  | stream {d d' : Dictionary} (inner : MovedEntries fresh d d') (content : Bytes) :
      Kept fresh (.stream d content) (.stream d' content)

inductive Moved (fresh : List (ObjectId × Object)) : Object → Object → Prop where
  | kept {o o' : Object} (same : Kept fresh o o') : Moved fresh o o'
  | out {o stored : Object} {id : ObjectId} (direct : o.reference? = none)
      (held : fresh.lookup id = some stored) (same : Kept fresh o stored) :
      Moved fresh o (.reference id)

inductive MovedItems (fresh : List (ObjectId × Object)) : List Object → List Object → Prop where
  | nil : MovedItems fresh [] []
  | cons {o o' : Object} {rest rest' : List Object} (head : Moved fresh o o')
      (tail : MovedItems fresh rest rest') : MovedItems fresh (o :: rest) (o' :: rest')

inductive MovedEntries (fresh : List (ObjectId × Object)) : Dictionary → Dictionary → Prop where
  | nil : MovedEntries fresh [] []
  | cons (key : Bytes) {o o' : Object} {rest rest' : Dictionary} (head : Moved fresh o o')
      (tail : MovedEntries fresh rest rest') :
      MovedEntries fresh ((key, o) :: rest) ((key, o') :: rest')

end

structure MovedOut (fresh : List (ObjectId × Object)) (doc doc' : Document) : Prop where
  held : ∀ id o, fresh.lookup id = some o → doc'.objects.lookup id = some o
  kept : ∀ id, fresh.lookup id = none →
    Option.Rel (Kept fresh) (doc.objects.lookup id) (doc'.objects.lookup id)

theorem keptLookup {r : Object → Object → Prop} {objects objects' : List (ObjectId × Object)}
    (same : List.Forall₂ (fun a b => b.1 = a.1 ∧ r a.2 b.2) objects objects')
    (id : ObjectId) : Option.Rel r (objects.lookup id) (objects'.lookup id) := by
  induction same with
  | nil => exact .none
  | @cons a b _ _ head _ ih =>
    obtain ⟨key, object⟩ := a
    obtain ⟨key', object'⟩ := b
    obtain ⟨rfl, kept⟩ := head
    simp only [List.lookup_cons]
    cases id == key' with
    | true => exact .some kept
    | false => exact ih

/- Fresh objects may simply stand after the others. -/
theorem movedOutOfList {fresh objects' : List (ObjectId × Object)} {doc doc' : Document}
    (added : doc'.objects = objects' ++ fresh)
    (apart : ∀ entry ∈ objects', fresh.lookup entry.1 = none)
    (same : List.Forall₂ (fun a b => b.1 = a.1 ∧ Kept fresh a.2 b.2) doc.objects objects') :
    MovedOut fresh doc doc' := by
  constructor
  · intro id o held
    have absent : objects'.lookup id = none := by
      rw [List.lookup_eq_none_iff]
      intro entry mem
      rw [bne_iff_ne]
      rintro rfl
      rw [apart entry mem] at held
      contradiction
    rw [added, List.lookup_append, absent, held]
    rfl
  · intro id absent
    rw [added, List.lookup_append, absent, Option.or_none]
    exact keptLookup same id

inductive Alike {α : Type} (r : α → α → Prop) :
    Except DocumentFault α → Except DocumentFault α → Prop where
  | error (fault : DocumentFault) : Alike r (.error fault) (.error fault)
  | ok {a a' : α} (related : r a a') : Alike r (.ok a) (.ok a')

variable {fresh : List (ObjectId × Object)} {o o' : Object} {d d' : Dictionary}

theorem relCases {α β : Type} {r : α → β → Prop} {x : Option α} {y : Option β}
    (h : Option.Rel r x y) : (x = none ∧ y = none) ∨ ∃ a b, x = some a ∧ y = some b ∧ r a b := by
  cases h with
  | none => exact .inl ⟨rfl, rfl⟩
  | some related => exact .inr ⟨_, _, rfl, rfl, related⟩

theorem alikeCases {α : Type} {r : α → α → Prop} {x y : Except DocumentFault α} (h : Alike r x y) :
    (∃ fault, x = .error fault ∧ y = .error fault) ∨ ∃ a b, x = .ok a ∧ y = .ok b ∧ r a b := by
  cases h with
  | error fault => exact .inl ⟨fault, rfl, rfl⟩
  | ok related => exact .inr ⟨_, _, rfl, rfl, related⟩

theorem keptName (h : Kept fresh o o') : o'.name? = o.name? := by
  cases h <;> rfl

theorem keptInteger (h : Kept fresh o o') : o'.integer? = o.integer? := by
  cases h <;> rfl

theorem keptReference (h : Kept fresh o o') : o'.reference? = o.reference? := by
  cases h <;> rfl

theorem keptKnown {id : ObjectId} (h : Kept fresh o o') (refers : o.reference? = some id) :
    fresh.lookup id = none := by
  cases h with
  | reference known =>
    cases refers
    exact known
  | _ => contradiction

theorem keptDictionary (h : Kept fresh o o') :
    Option.Rel (MovedEntries fresh) o.dictionary? o'.dictionary? := by
  cases h with
  | dictionary inner => exact .some inner
  | _ => exact .none

theorem movedLookup (h : MovedEntries fresh d d') (key : Bytes) :
    Option.Rel (Moved fresh) (List.lookup key d) (List.lookup key d') := by
  induction d generalizing d' with
  | nil =>
    cases h
    exact .none
  | cons entry rest ih =>
    cases h with
    | cons k head tail =>
      simp only [List.lookup_cons]
      cases key == k with
      | true => exact .some head
      | false => exact ih tail

theorem movedFind (h : MovedEntries fresh d d') (key : String) :
    Option.Rel (Moved fresh) (d.find? key) (d'.find? key) :=
  movedLookup h (Bytes.ofText key)

namespace Document
variable {doc doc' : Document}

theorem followDirect (doc : Document) (direct : o.reference? = none) (limit : Nat) :
    doc.follow limit o = .ok o := by
  cases o with
  | reference id => contradiction
  | _ => unfold follow; rfl

theorem resolveDirect (doc : Document) (direct : o.reference? = none) : doc.resolve o = .ok o := by
  cases o with
  | reference id => contradiction
  | _ => rfl

theorem referenceStands {id : ObjectId} (refers : o.reference? = some id) : o = .reference id := by
  cases o with
  | reference =>
    cases refers
    rfl
  | _ => contradiction

structure Linked (doc doc' : Document) (r : Object → Object → Prop) : Prop where
  same : ∀ {o o' : Object}, r o o' → o'.reference? = o.reference?
  along : ∀ {o o' : Object} {id : ObjectId}, r o o' → o.reference? = some id →
    Option.Rel r (doc.objects.lookup id) (doc'.objects.lookup id)

section Links
variable {r : Object → Object → Prop} (linked : Linked doc doc' r)
include linked

theorem followLinked (h : r o o') (limit : Nat) :
    Alike r (doc.follow limit o) (doc'.follow limit o') := by
  induction limit generalizing o o' with
  | zero =>
    cases refers : o.reference? with
    | none =>
      rw [followDirect doc refers, followDirect doc' ((linked.same h).trans refers)]
      exact .ok h
    | some id =>
      rw [referenceStands refers, referenceStands ((linked.same h).trans refers)]
      obtain ⟨absent, absent'⟩ | ⟨p, p', found, found', _⟩ := relCases (linked.along h refers)
      · simp only [follow, absent, absent']
        exact .error _
      · simp only [follow, found, found']
        exact .error _
  | succ limit ih =>
    cases refers : o.reference? with
    | none =>
      rw [followDirect doc refers, followDirect doc' ((linked.same h).trans refers)]
      exact .ok h
    | some id =>
      rw [referenceStands refers, referenceStands ((linked.same h).trans refers)]
      obtain ⟨absent, absent'⟩ | ⟨p, p', found, found', related⟩ := relCases (linked.along h refers)
      · simp only [follow, absent, absent']
        exact .error _
      · simp only [follow, found, found']
        exact ih related

theorem getLinked {id : ObjectId}
    (related : Option.Rel r (doc.objects.lookup id) (doc'.objects.lookup id)) :
    Alike r (doc.get id) (doc'.get id) := by
  obtain ⟨absent, absent'⟩ | ⟨p, p', found, found', value⟩ := relCases related
  · simp only [get, absent, absent']
    exact .error _
  · simp only [get, found, found']
    exact followLinked linked value referenceLimit

theorem resolveLinked (h : r o o') : Alike r (doc.resolve o) (doc'.resolve o') := by
  cases refers : o.reference? with
  | none =>
    rw [resolveDirect doc refers, resolveDirect doc' ((linked.same h).trans refers)]
    exact .ok h
  | some id =>
    have related := linked.along h refers
    rw [referenceStands refers, referenceStands ((linked.same h).trans refers)]
    exact getLinked linked related

end Links

theorem dictionaryAlike {r : Object → Object → Prop} {q : Dictionary → Dictionary → Prop}
    (inner : ∀ {o o' : Object}, r o o' → Option.Rel q o.dictionary? o'.dictionary?)
    (h : Alike r (doc.resolve o) (doc'.resolve o')) :
    Option.Rel q (doc.resolveDictionary? o) (doc'.resolveDictionary? o') := by
  simp only [resolveDictionary?]
  obtain ⟨fault, failed, failed'⟩ | ⟨p, p', resolved, resolved', same⟩ := alikeCases h
  · rw [failed, failed']
    exact .none
  · rw [resolved, resolved']
    exact inner same

/- No chain of references grows: a moved value was direct, so its new reference is never met on the
way of another. -/
theorem movedLinked (moved : MovedOut fresh doc doc') : Linked doc doc' (Kept fresh) where
  same := keptReference
  along h refers := moved.kept _ (keptKnown h refers)

/- The one step that makes a moved value as good as a direct one. -/
theorem resolveMoved (moved : MovedOut fresh doc doc') (h : Moved fresh o o') :
    Alike (Kept fresh) (doc.resolve o) (doc'.resolve o') := by
  cases h with
  | kept same => exact resolveLinked (movedLinked moved) same
  | @out _ stored id direct held same =>
    have direct' : stored.reference? = none := (keptReference same).trans direct
    have found : doc'.resolve (.reference id) = .ok stored := by
      simp only [resolve, get, moved.held id stored held]
      exact followDirect doc' direct' referenceLimit
    rw [resolveDirect doc direct, found]
    exact .ok same

theorem dictionaryMoved (moved : MovedOut fresh doc doc') (h : Moved fresh o o') :
    Option.Rel (MovedEntries fresh) (doc.resolveDictionary? o) (doc'.resolveDictionary? o') :=
  dictionaryAlike keptDictionary (resolveMoved moved h)

theorem getDictionaryKept (moved : MovedOut fresh doc doc') {id : ObjectId}
    (known : fresh.lookup id = none) :
    Alike (MovedEntries fresh) (doc.getDictionary id) (doc'.getDictionary id) := by
  simp only [getDictionary]
  obtain ⟨fault, failed, failed'⟩ | ⟨p, p', resolved, resolved', same⟩ :=
    alikeCases (getLinked (movedLinked moved) (moved.kept id known))
  · rw [failed, failed']
    exact .error fault
  · rw [resolved, resolved']
    cases same with
    | dictionary inner => exact .ok inner
    | _ => exact .error _

section Filters

theorem filterEntryMoved (moved : MovedOut fresh doc doc') (h : Moved fresh o o') :
    doc'.filterEntry o' = doc.filterEntry o := by
  simp only [filterEntry]
  obtain ⟨fault, failed, failed'⟩ | ⟨p, p', resolved, resolved', same⟩ :=
    alikeCases (resolveMoved moved h)
  · rw [failed, failed']
  · rw [resolved, resolved']
    cases same <;> rfl

theorem filterEntriesMoved (moved : MovedOut fresh doc doc') {items items' : List Object}
    (h : MovedItems fresh items items') :
    items'.mapM doc'.filterEntry = items.mapM doc.filterEntry := by
  induction items generalizing items' with
  | nil =>
    cases h
    rfl
  | cons item rest ih =>
    cases h with
    | cons head tail => rw [List.mapM_cons, List.mapM_cons, filterEntryMoved moved head, ih tail]

theorem filtersMoved (moved : MovedOut fresh doc doc') (h : MovedEntries fresh d d') :
    doc'.filters d' = doc.filters d := by
  simp only [filters]
  obtain ⟨absent, absent'⟩ | ⟨p, p', found, found', value⟩ := relCases (movedFind h "Filter")
  · rw [absent, absent']
  · rw [found, found']
    obtain ⟨fault, failed, failed'⟩ | ⟨q, q', resolved, resolved', same⟩ :=
      alikeCases (resolveMoved moved value)
    · simp only [failed, failed']
      rfl
    · simp only [resolved, resolved']
      cases same with
      | array inner => exact filterEntriesMoved moved inner
      | _ => rfl

end Filters

def stored? (doc : Document) (d : Dictionary) (key : String) : Option Object :=
  (d.find? key).bind fun o => (doc.resolve o).toOption

def sizeBelow (bound : Nat) : Object → Option Nat
  | .integer n => if 0 ≤ n ∧ n < (bound : Int) then some n.toNat else none
  | _ => none

theorem sizeStored (doc : Document) (d : Dictionary) (key : String) (bound : Nat) :
    doc.size? d key bound = (doc.stored? d key).bind (sizeBelow bound) := by
  rw [size?, stored?, Option.bind_assoc]
  congr 1
  funext o
  cases (doc.resolve o).toOption with
  | none => rfl
  | some o => cases o <;> rfl

section Entries
variable (moved : MovedOut fresh doc doc') (h : MovedEntries fresh d d')
include moved h

theorem storedMoved (key : String) :
    Option.Rel (Kept fresh) (doc.stored? d key) (doc'.stored? d' key) := by
  simp only [stored?]
  obtain ⟨absent, absent'⟩ | ⟨p, p', found, found', value⟩ := relCases (movedFind h key)
  · rw [absent, absent']
    exact .none
  · rw [found, found', Option.bind_some, Option.bind_some]
    obtain ⟨fault, failed, failed'⟩ | ⟨q, q', resolved, resolved', same⟩ :=
      alikeCases (resolveMoved moved value)
    · rw [failed, failed']
      exact .none
    · rw [resolved, resolved']
      exact .some same

theorem sizeMoved (key : String) (bound : Nat) :
    doc'.size? d' key bound = doc.size? d key bound := by
  rw [sizeStored, sizeStored]
  obtain ⟨absent, absent'⟩ | ⟨p, p', found, found', same⟩ := relCases (storedMoved moved h key)
  · rw [absent, absent']
  · rw [found, found']
    cases same <;> rfl

theorem subdictionaryMoved (key : String) :
    Option.Rel (MovedEntries fresh) ((d.find? key).bind doc.resolveDictionary?)
      ((d'.find? key).bind doc'.resolveDictionary?) := by
  obtain ⟨absent, absent'⟩ | ⟨p, p', found, found', value⟩ := relCases (movedFind h key)
  · rw [absent, absent']
    exact .none
  · rw [found, found']
    exact dictionaryMoved moved value

end Entries

def parent? (doc : Document) (node : ObjectId) : Option ObjectId :=
  (doc.getDictionary node).toOption.bind fun d => (d.find? "Parent").bind Object.reference?

def ownResources? (doc : Document) (node : ObjectId) : Option Dictionary :=
  (doc.getDictionary node).toOption.bind fun d => (d.find? "Resources").bind doc.resolveDictionary?

theorem resourcesFromSucc (doc : Document) (limit : Nat) (node : ObjectId) :
    doc.resourcesFrom (limit + 1) node =
      (doc.ownResources? node).or ((doc.parent? node).bind (doc.resourcesFrom limit)) := by
  rw [resourcesFrom, ownResources?, parent?]
  cases doc.getDictionary node with
  | error fault => rfl
  | ok d =>
    simp only [Except.toOption, Option.bind_some]
    cases (d.find? "Resources").bind doc.resolveDictionary? with
    | some resources => rfl
    | none =>
      cases d.find? "Parent" with
      | none => rfl
      | some o => cases o <;> rfl

def ancestors (doc : Document) : (limit : Nat) → ObjectId → List ObjectId
  | 0, _ => []
  | limit + 1, node => node :: (doc.parent? node).elim [] (doc.ancestors limit)

def named? (doc : Document) (page : ObjectId) (name : Bytes) : Option Object :=
  ((doc.xobjects? page).bind (List.lookup name)).bind fun o => (doc.resolve o).toOption

theorem lookupNamed (doc : Document) (page : ObjectId) (name : Bytes) :
    doc.lookup page name =
      match doc.named? page name with
      | none => .ok none
      | some o => (doc.xobject o).map some := by
  simp only [lookup, named?]
  cases (doc.xobjects? page).bind (List.lookup name) with
  | none => rfl
  | some o =>
    simp only [Option.bind_some]
    cases doc.resolve o <;> rfl

section Resources
variable (moved : MovedOut fresh doc doc')
include moved

/- A parent is named by a reference, and a reference is never moved. -/
theorem parentKnown {page node : ObjectId} (known : fresh.lookup page = none)
    (above : doc.parent? page = some node) : fresh.lookup node = none := by
  obtain ⟨fault, failed, _⟩ | ⟨d, d', found, _, inner⟩ := alikeCases (getDictionaryKept moved known)
  · rw [parent?, failed] at above
    contradiction
  · rw [parent?, found, Except.toOption, Option.bind_some] at above
    obtain ⟨o, entry, refers⟩ := Option.bind_eq_some_iff.mp above
    obtain ⟨absent, _⟩ | ⟨p, p', here, _, value⟩ := relCases (movedFind inner "Parent")
    · rw [absent] at entry
      contradiction
    · rw [here] at entry
      cases entry
      cases value with
      | kept same => exact keptKnown same refers
      | out direct _ _ =>
        rw [direct] at refers
        contradiction

theorem ownResourcesKept {page : ObjectId} (known : fresh.lookup page = none) :
    Option.Rel (MovedEntries fresh) (doc.ownResources? page) (doc'.ownResources? page) := by
  simp only [ownResources?]
  obtain ⟨fault, failed, failed'⟩ | ⟨d, d', found, found', inner⟩ :=
    alikeCases (getDictionaryKept moved known)
  · rw [failed, failed']
    exact .none
  · rw [found, found']
    exact subdictionaryMoved moved inner "Resources"

theorem resourcesKept {limit : Nat} {page : ObjectId} (known : fresh.lookup page = none)
    (parents : ∀ node ∈ doc.ancestors limit page, doc'.parent? node = doc.parent? node) :
    Option.Rel (MovedEntries fresh) (doc.resourcesFrom limit page)
      (doc'.resourcesFrom limit page) := by
  induction limit generalizing page with
  | zero => exact .none
  | succ limit ih =>
    have above := parents page List.mem_cons_self
    rw [resourcesFromSucc, resourcesFromSucc, above]
    obtain ⟨absent, absent'⟩ | ⟨d, d', found, found', inner⟩ :=
      relCases (ownResourcesKept moved known)
    · rw [absent, absent']
      cases parent : doc.parent? page with
      | none => exact .none
      | some node =>
        have rest : ∀ n ∈ doc.ancestors limit node, doc'.parent? n = doc.parent? n := by
          intro n mem
          apply parents n
          rw [ancestors, parent]
          exact List.mem_cons_of_mem _ mem
        exact ih (parentKnown moved known parent) rest
    · rw [found, found']
      exact .some inner

theorem namedMoved {page : ObjectId} (known : fresh.lookup page = none)
    (parents : ∀ node ∈ doc.ancestors ancestorLimit page, doc'.parent? node = doc.parent? node)
    (name : Bytes) :
    Option.Rel (Kept fresh) (doc.named? page name) (doc'.named? page name) := by
  simp only [named?, xobjects?, resources]
  obtain ⟨absent, absent'⟩ | ⟨d, d', found, found', inner⟩ :=
    relCases (resourcesKept moved known parents)
  · rw [absent, absent']
    exact .none
  · rw [found, found', Option.bind_some, Option.bind_some]
    obtain ⟨absent, absent'⟩ | ⟨x, x', found, found', inner⟩ :=
      relCases (subdictionaryMoved moved inner "XObject")
    · rw [absent, absent']
      exact .none
    · rw [found, found', Option.bind_some, Option.bind_some]
      obtain ⟨absent, absent'⟩ | ⟨p, p', found, found', value⟩ := relCases (movedLookup inner name)
      · rw [absent, absent']
        exact .none
      · rw [found, found', Option.bind_some, Option.bind_some]
        obtain ⟨fault, failed, failed'⟩ | ⟨q, q', resolved, resolved', same⟩ :=
          alikeCases (resolveMoved moved value)
        · rw [failed, failed']
          exact .none
        · rw [resolved, resolved']
          exact .some same

end Resources

end Document
end PaintedImages
