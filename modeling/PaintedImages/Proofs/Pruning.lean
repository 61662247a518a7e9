import PaintedImages.Proofs.Indirection

/-! Entries that stand for nothing. A value is blank if it is null or a reference that leads to null
or to no object. One document may have blank entries of its dictionaries where the other has none
under these keys; any number may be dropped at once, at any depth. References are followed alike in
both, and an entry that is read for what it resolves to is missed only where null is told from
nothing. Values in a list are never dropped, since others would move up. -/
namespace PaintedImages

inductive Blank (doc : Document) (o : Object) : Prop where
  | null (found : doc.resolve o = .ok .null)
  | missing {gone : ObjectId} (lost : doc.resolve o = .error (.missingObject gone))

inductive PrunedEntries (doc : Document) (r : Object → Object → Prop) :
    Dictionary → Dictionary → Prop where
  | nil : PrunedEntries doc r [] []
  | kept (key : Bytes) {o o' : Object} {rest rest' : Dictionary} (head : r o o')
      (tail : PrunedEntries doc r rest rest') :
      PrunedEntries doc r ((key, o) :: rest) ((key, o') :: rest')
  | dropped {key : Bytes} {o : Object} {rest rest' : Dictionary} (blank : Blank doc o)
      (last : List.lookup key rest = none) (tail : PrunedEntries doc r rest rest') :
      PrunedEntries doc r ((key, o) :: rest) rest'

inductive Pruned (doc : Document) : Object → Object → Prop where
  | same (o : Object) : Pruned doc o o
  | array {items items' : List Object} (inner : List.Forall₂ (Pruned doc) items items') :
      Pruned doc (.array items) (.array items')
  | dictionary {d d' : Dictionary} (inner : PrunedEntries doc (Pruned doc) d d') :
      Pruned doc (.dictionary d) (.dictionary d')
  | stream {d d' : Dictionary} (inner : PrunedEntries doc (Pruned doc) d d') (content : Bytes) :
      Pruned doc (.stream d content) (.stream d' content)

def PrunedFrom (doc doc' : Document) : Prop :=
  ∀ id, Option.Rel (Pruned doc) (doc.objects.lookup id) (doc'.objects.lookup id)

inductive Faded (doc : Document) : Option Object → Option Object → Prop where
  | same {x y : Option Object} (related : Option.Rel (Pruned doc) x y) : Faded doc x y
  | null : Faded doc (some .null) none

variable {doc doc' : Document} {o o' : Object} {d d' : Dictionary}

theorem Blank.plain (blank : Blank doc o) : o = .null ∨ ∃ id, o = .reference id := by
  cases o with
  | null => exact .inl rfl
  | reference id => exact .inr ⟨id, rfl⟩
  | _ =>
    cases blank with
    | null found => cases found
    | missing lost => cases lost

theorem Blank.name (blank : Blank doc o) : o.name? = none := by
  obtain rfl | ⟨id, rfl⟩ := blank.plain <;> rfl

theorem Blank.integer (blank : Blank doc o) : o.integer? = none := by
  obtain rfl | ⟨id, rfl⟩ := blank.plain <;> rfl

theorem Blank.dictionary (blank : Blank doc o) : doc.resolveDictionary? o = none := by
  cases blank with
  | null found => simp only [Document.resolveDictionary?, found]; rfl
  | missing lost => simp only [Document.resolveDictionary?, lost]; rfl

theorem Blank.unfound {id : ObjectId} (blank : Blank doc (.reference id)) :
    (doc.getDictionary id).toOption = none := by
  cases blank with
  | null found =>
    have found : doc.get id = .ok .null := found
    simp only [Document.getDictionary, found]
    rfl
  | missing lost =>
    have lost : doc.get id = .error _ := lost
    simp only [Document.getDictionary, lost]
    rfl

theorem prunedReference (h : Pruned doc o o') : o'.reference? = o.reference? := by
  cases h <;> rfl

theorem prunedName (h : Pruned doc o o') : o'.name? = o.name? := by
  cases h <;> rfl

theorem prunedInteger (h : Pruned doc o o') : o'.integer? = o.integer? := by
  cases h <;> rfl

theorem entriesSame (d : Dictionary) : PrunedEntries doc (Pruned doc) d d := by
  induction d with
  | nil => exact .nil
  | cons entry rest ih => exact .kept entry.1 (.same entry.2) ih

theorem itemsSame (items : List Object) : List.Forall₂ (Pruned doc) items items := by
  induction items with
  | nil => exact .nil
  | cons o rest ih => exact .cons (.same o) ih

theorem prunedDictionary (h : Pruned doc o o') :
    Option.Rel (PrunedEntries doc (Pruned doc)) o.dictionary? o'.dictionary? := by
  cases h with
  | same =>
    cases o with
    | dictionary d => exact .some (entriesSame d)
    | _ => exact .none
  | dictionary inner => exact .some inner
  | _ => exact .none

/- A key is found in both with related values, or in the first alone with a blank one. -/
theorem entriesLookup {r : Object → Object → Prop} (h : PrunedEntries doc r d d') (key : Bytes) :
    Option.Rel r (List.lookup key d) (List.lookup key d') ∨
      ∃ o, List.lookup key d = some o ∧ Blank doc o ∧ List.lookup key d' = none := by
  induction h with
  | nil => exact .inl .none
  | kept k head tail ih =>
    simp only [List.lookup_cons]
    cases key == k with
    | true => exact .inl (.some head)
    | false => exact ih
  | @dropped k o rest rest' blank last tail ih =>
    simp only [List.lookup_cons]
    cases same : key == k with
    | true =>
      rw [beq_iff_eq] at same
      subst same
      rw [last] at ih
      obtain related | ⟨_, found, _⟩ := ih
      · obtain ⟨_, absent⟩ | ⟨_, _, found, _⟩ := relCases related
        · exact .inr ⟨o, rfl, blank, absent⟩
        · contradiction
      · contradiction
    | false => exact ih

theorem entriesFind {r : Object → Object → Prop} (h : PrunedEntries doc r d d') (key : String) :
    Option.Rel r (d.find? key) (d'.find? key) ∨
      ∃ o, d.find? key = some o ∧ Blank doc o ∧ d'.find? key = none :=
  entriesLookup h (Bytes.ofText key)

/- What is read directly off an entry is read off no blank one. -/
theorem entriesDirect {α : Type} {f : Object → Option α}
    (same : ∀ {o o' : Object}, Pruned doc o o' → f o' = f o)
    (blanked : ∀ {o : Object}, Blank doc o → f o = none) (h : PrunedEntries doc (Pruned doc) d d')
    (key : String) : (d'.find? key).bind f = (d.find? key).bind f := by
  obtain related | ⟨o, found, blank, absent⟩ := entriesFind h key
  · obtain ⟨absent, absent'⟩ | ⟨p, p', found, found', value⟩ := relCases related
    · rw [absent, absent']
    · rw [found, found']
      exact same value
  · rw [found, absent]
    exact (blanked blank).symm

theorem entriesParameters (h : PrunedEntries doc (Pruned doc) d d') :
    DecodeParameters.ofDictionary d' = DecodeParameters.ofDictionary d := by
  have number (key : String) : (d'.find? key).bind Object.integer? =
      (d.find? key).bind Object.integer? := entriesDirect prunedInteger Blank.integer h key
  simp only [DecodeParameters.ofDictionary, number]

namespace Document
section Reads
variable (pruned : PrunedFrom doc doc')
include pruned

theorem prunedLinked : Linked doc doc' (Pruned doc) where
  same := prunedReference
  along _ _ := pruned _

theorem resolvePruned (h : Pruned doc o o') :
    Alike (Pruned doc) (doc.resolve o) (doc'.resolve o') :=
  resolveLinked (prunedLinked pruned) h

theorem getDictionaryPruned (id : ObjectId) :
    Alike (PrunedEntries doc (Pruned doc)) (doc.getDictionary id) (doc'.getDictionary id) := by
  simp only [getDictionary]
  obtain ⟨fault, failed, failed'⟩ | ⟨p, p', found, found', same⟩ :=
    alikeCases (getLinked (prunedLinked pruned) (pruned id))
  · rw [failed, failed']
    exact .error fault
  · rw [found, found']
    cases same with
    | same =>
      cases p with
      | dictionary d => exact .ok (entriesSame d)
      | _ => exact .error _
    | dictionary inner => exact .ok inner
    | _ => exact .error _

theorem dictionaryPruned (h : Pruned doc o o') :
    Option.Rel (PrunedEntries doc (Pruned doc)) (doc.resolveDictionary? o)
      (doc'.resolveDictionary? o') :=
  dictionaryAlike prunedDictionary (resolvePruned pruned h)

theorem lookupPruned (h : PrunedEntries doc (Pruned doc) d d') (key : Bytes) :
    Faded doc ((List.lookup key d).bind fun o => (doc.resolve o).toOption)
      ((List.lookup key d').bind fun o => (doc'.resolve o).toOption) := by
  obtain related | ⟨o, found, blank, absent⟩ := entriesLookup h key
  · obtain ⟨absent, absent'⟩ | ⟨p, p', found, found', value⟩ := relCases related
    · rw [absent, absent']
      exact .same .none
    · rw [found, found', Option.bind_some, Option.bind_some]
      obtain ⟨fault, failed, failed'⟩ | ⟨q, q', resolved, resolved', same⟩ :=
        alikeCases (resolvePruned pruned value)
      · rw [failed, failed']
        exact .same .none
      · rw [resolved, resolved']
        exact .same (.some same)
  · rw [found, absent, Option.bind_some]
    cases blank with
    | null resolved =>
      rw [resolved]
      exact .null
    | missing lost =>
      rw [lost]
      exact .same .none

theorem storedPruned (h : PrunedEntries doc (Pruned doc) d d') (key : String) :
    Faded doc (doc.stored? d key) (doc'.stored? d' key) :=
  lookupPruned pruned h (Bytes.ofText key)

/- Whatever takes null for nothing reads the same. -/
theorem storedRead {α : Type} {f : Object → Option α} (null : f .null = none)
    (same : ∀ {o o' : Object}, Pruned doc o o' → f o' = f o)
    (h : PrunedEntries doc (Pruned doc) d d')
    (key : String) : (doc'.stored? d' key).bind f = (doc.stored? d key).bind f := by
  have faded := storedPruned pruned h key
  generalize doc.stored? d key = x at faded ⊢
  generalize doc'.stored? d' key = y at faded ⊢
  cases faded with
  | same related =>
    obtain ⟨rfl, rfl⟩ | ⟨p, p', rfl, rfl, value⟩ := relCases related
    · rfl
    · exact same value
  | null => exact null.symm

theorem sizePruned (h : PrunedEntries doc (Pruned doc) d d') (key : String) (bound : Nat) :
    doc'.size? d' key bound = doc.size? d key bound := by
  rw [sizeStored, sizeStored]
  refine storedRead pruned rfl (fun same => ?_) h key
  cases same <;> rfl

theorem colorSpacePruned (h : PrunedEntries doc (Pruned doc) d d') :
    doc'.colorSpace? d' = doc.colorSpace? d := by
  rw [colorSpaceStored, colorSpaceStored]
  refine storedRead pruned rfl (fun same => ?_) h "ColorSpace"
  cases same with
  | array inner =>
    cases inner with
    | nil => rfl
    | @cons o _ _ _ head _ =>
      cases head with
      | same => cases o <;> rfl
      | _ => rfl
  | _ => rfl

theorem subdictionaryPruned (h : PrunedEntries doc (Pruned doc) d d') (key : String) :
    Option.Rel (PrunedEntries doc (Pruned doc)) ((d.find? key).bind doc.resolveDictionary?)
      ((d'.find? key).bind doc'.resolveDictionary?) := by
  obtain related | ⟨o, found, blank, absent⟩ := entriesFind h key
  · obtain ⟨absent, absent'⟩ | ⟨p, p', found, found', value⟩ := relCases related
    · rw [absent, absent']
      exact .none
    · rw [found, found']
      exact dictionaryPruned pruned value
  · rw [found, absent, Option.bind_some, blank.dictionary]
    exact .none

end Reads

/-! Streams. -/

/-- What shows of an entry dropped from a stream: a filter that led nowhere, or parameters that
stood before others under the shorter key. -/
inductive Shows (doc : Document) (s s' : Dictionary) : Prop where
  | filter {o : Object} {gone : ObjectId} (stood : s.find? "Filter" = some o)
      (lost : doc.resolve o = .error (.missingObject gone)) (dropped : s'.find? "Filter" = none)
  | parameters {o under : Object} (stood : s.find? "DecodeParms" = some o)
      (dropped : s'.find? "DecodeParms" = none) (other : s'.find? "DP" = some under)

section Streams
variable (pruned : PrunedFrom doc doc') {s s' : Dictionary}
include pruned

theorem filterEntryPruned (h : Pruned doc o o') : doc'.filterEntry o' = doc.filterEntry o := by
  simp only [filterEntry]
  obtain ⟨fault, failed, failed'⟩ | ⟨p, p', resolved, resolved', same⟩ :=
    alikeCases (resolvePruned pruned h)
  · rw [failed, failed']
  · rw [resolved, resolved']
    cases same <;> rfl

theorem filterEntriesPruned {items items' : List Object}
    (h : List.Forall₂ (Pruned doc) items items') :
    items'.mapM doc'.filterEntry = items.mapM doc.filterEntry := by
  induction h with
  | nil => rfl
  | cons head _ ih => rw [List.mapM_cons, List.mapM_cons, filterEntryPruned pruned head, ih]

theorem filtersPruned (h : PrunedEntries doc (Pruned doc) s s') (hidden : ¬ Shows doc s s') :
    doc'.filters s' = doc.filters s := by
  simp only [filters]
  obtain related | ⟨o, found, blank, absent⟩ := entriesFind h "Filter"
  · obtain ⟨absent, absent'⟩ | ⟨p, p', found, found', value⟩ := relCases related
    · rw [absent, absent']
    · rw [found, found']
      obtain ⟨fault, failed, failed'⟩ | ⟨q, q', resolved, resolved', same⟩ :=
        alikeCases (resolvePruned pruned value)
      · simp only [failed, failed']
        rfl
      · simp only [resolved, resolved']
        cases same with
        | same =>
          cases q with
          | array items => exact filterEntriesPruned pruned (itemsSame items)
          | _ => rfl
        | array inner => exact filterEntriesPruned pruned inner
        | _ => rfl
  · cases blank with
    | null resolved =>
      simp only [found, absent, resolved]
      rfl
    | missing lost => exact absurd (.filter found lost absent) hidden

theorem resolvedPruned {items items' : List Object}
    (h : List.Forall₂ (Pruned doc) items items') :
    items'.map (fun o => (doc'.resolveDictionary? o).map DecodeParameters.ofDictionary) =
      items.map fun o => (doc.resolveDictionary? o).map DecodeParameters.ofDictionary := by
  induction h with
  | nil => rfl
  | cons head _ ih =>
    rw [List.map_cons, List.map_cons, ih]
    congr 1
    obtain ⟨absent, absent'⟩ | ⟨p, p', found, found', inner⟩ :=
      relCases (dictionaryPruned pruned head)
    · rw [absent, absent']
    · rw [found, found', Option.map_some, Option.map_some, entriesParameters inner]

theorem parameterEntryPruned (h : PrunedEntries doc (Pruned doc) s s') (hidden : ¬ Shows doc s s') :
    Faded doc
      (((s.find? "DecodeParms").orElse fun _ => s.find? "DP").bind fun o =>
        (doc.resolve o).toOption)
      (((s'.find? "DecodeParms").orElse fun _ => s'.find? "DP").bind fun o =>
        (doc'.resolve o).toOption) := by
  have faded := storedPruned pruned h "DecodeParms"
  simp only [stored?] at faded
  obtain related | ⟨o, found, blank, absent⟩ := entriesFind h "DecodeParms"
  · obtain ⟨absent, absent'⟩ | ⟨p, p', found, found', value⟩ := relCases related
    · rw [absent, absent']
      exact storedPruned pruned h "DP"
    · rw [found, found'] at faded ⊢
      exact faded
  · have uncovered : s'.find? "DP" = none := by
      cases under : s'.find? "DP" with
      | none => rfl
      | some other => exact absurd (.parameters found absent under) hidden
    rw [found, absent] at faded ⊢
    rw [show ((none : Option Object).orElse fun _ => s'.find? "DP") = none from uncovered]
    exact faded

theorem parametersPruned (h : PrunedEntries doc (Pruned doc) s s') (hidden : ¬ Shows doc s s')
    (count : Nat) : doc'.parameters s' count = doc.parameters s count := by
  have faded := parameterEntryPruned pruned h hidden
  simp only [parameters]
  generalize (((s.find? "DecodeParms").orElse fun _ => s.find? "DP").bind fun o =>
    (doc.resolve o).toOption) = x at faded ⊢
  generalize (((s'.find? "DecodeParms").orElse fun _ => s'.find? "DP").bind fun o =>
    (doc'.resolve o).toOption) = y at faded ⊢
  cases faded with
  | same related =>
    obtain ⟨rfl, rfl⟩ | ⟨p, p', rfl, rfl, value⟩ := relCases related
    · rfl
    · cases value with
      | same =>
        cases p with
        | array items => simp only [resolvedPruned pruned (itemsSame items)]
        | _ => rfl
      | array inner => simp only [resolvedPruned pruned inner]
      | dictionary inner => simp only [entriesParameters inner]
      | stream _ _ => rfl
  | null => rfl

theorem imagePruned (h : PrunedEntries doc (Pruned doc) s s') (hidden : ¬ Shows doc s s')
    (content : Bytes) : doc'.image s' content = doc.image s content := by
  simp only [image, filtersPruned pruned h hidden, parametersPruned pruned h hidden,
    sizePruned pruned h, colorSpacePruned pruned h]

theorem streamContentPruned (h : PrunedEntries doc (Pruned doc) s s') (hidden : ¬ Shows doc s s')
    (content : Bytes) : doc'.streamContent s' content = doc.streamContent s content := by
  simp only [streamContent, filtersPruned pruned h hidden, parametersPruned pruned h hidden]

/- The subtype is read where it stands, and no blank value is a name. -/
theorem xobjectStreamPruned (h : PrunedEntries doc (Pruned doc) s s') (hidden : ¬ Shows doc s s')
    (content : Bytes) : doc'.xobject (.stream s' content) = doc.xobject (.stream s content) := by
  have subtype := entriesDirect prunedName Blank.name h "Subtype"
  simp only [xobject, subtype, imagePruned pruned h hidden]

theorem xobjectPruned (h : Pruned doc o o')
    (hidden : ∀ s s' content, o = .stream s content → o' = .stream s' content → ¬ Shows doc s s') :
    doc'.xobject o' = doc.xobject o := by
  cases h with
  | same =>
    cases o with
    | stream s content =>
      exact xobjectStreamPruned pruned (entriesSame s) (hidden s s content rfl rfl) content
    | _ => rfl
  | stream inner content =>
    exact xobjectStreamPruned pruned inner (hidden _ _ content rfl rfl) content
  | _ => rfl

end Streams

section Resources
variable (pruned : PrunedFrom doc doc')
include pruned

theorem ownResourcesPruned (node : ObjectId) :
    Option.Rel (PrunedEntries doc (Pruned doc)) (doc.ownResources? node)
      (doc'.ownResources? node) := by
  simp only [ownResources?]
  obtain ⟨fault, failed, failed'⟩ | ⟨d, d', found, found', inner⟩ :=
    alikeCases (getDictionaryPruned pruned node)
  · rw [failed, failed']
    exact .none
  · rw [found, found']
    exact subdictionaryPruned pruned inner "Resources"

/- A blank parent is a reference to no node, so nothing is found above it either. -/
theorem parentPruned (node : ObjectId) :
    doc'.parent? node = doc.parent? node ∨
      ∃ above, doc.parent? node = some above ∧ (doc.getDictionary above).toOption = none ∧
        doc'.parent? node = none := by
  simp only [parent?]
  obtain ⟨fault, failed, failed'⟩ | ⟨d, d', found, found', inner⟩ :=
    alikeCases (getDictionaryPruned pruned node)
  · exact .inl (by rw [failed, failed'])
  · rw [found, found', Except.toOption, Except.toOption, Option.bind_some, Option.bind_some]
    obtain related | ⟨o, stood, blank, absent⟩ := entriesFind inner "Parent"
    · obtain ⟨absent, absent'⟩ | ⟨p, p', stood, stood', value⟩ := relCases related
      · exact .inl (by rw [absent, absent'])
      · rw [stood, stood']
        exact .inl (prunedReference value)
    · rw [stood, absent]
      obtain rfl | ⟨above, rfl⟩ := blank.plain
      · exact .inl rfl
      · exact .inr ⟨above, rfl, blank.unfound, rfl⟩

theorem resourcesPruned (limit : Nat) (node : ObjectId) :
    Option.Rel (PrunedEntries doc (Pruned doc)) (doc.resourcesFrom limit node)
      (doc'.resourcesFrom limit node) := by
  induction limit generalizing node with
  | zero => exact .none
  | succ limit ih =>
    rw [resourcesFromSucc, resourcesFromSucc]
    obtain ⟨absent, absent'⟩ | ⟨d, d', found, found', inner⟩ :=
      relCases (ownResourcesPruned pruned node)
    · rw [absent, absent', Option.none_or, Option.none_or]
      obtain same | ⟨above, parent, nowhere, parent'⟩ := parentPruned pruned node
      · rw [same]
        cases doc.parent? node with
        | none => exact .none
        | some above => exact ih above
      · have unfound : doc.resourcesFrom limit above = none := by
          cases limit with
          | zero => rfl
          | succ limit =>
            rw [resourcesFromSucc, ownResources?, Document.parent?, nowhere]
            rfl
        rw [parent, parent', Option.bind_some, unfound]
        exact .none
    · rw [found, found']
      exact .some inner

theorem namedPruned (page : ObjectId) (name : Bytes) :
    Faded doc (doc.named? page name) (doc'.named? page name) := by
  simp only [named?, xobjects?, resources]
  obtain ⟨absent, absent'⟩ | ⟨d, d', found, found', inner⟩ :=
    relCases (resourcesPruned pruned ancestorLimit page)
  · rw [absent, absent']
    exact .same .none
  · rw [found, found', Option.bind_some, Option.bind_some]
    obtain ⟨absent, absent'⟩ | ⟨x, x', found, found', inner⟩ :=
      relCases (subdictionaryPruned pruned inner "XObject")
    · rw [absent, absent']
      exact .same .none
    · rw [found, found']
      exact lookupPruned pruned inner name

end Resources
end Document
end PaintedImages
