import PaintedImages.Proofs.Pruning

/-! What blank entries are taken for. Blank parameters are no parameters, in a list at their own
place; with blank resources a node uses those above it; a name that leads to no object names
nothing. Blank contents are a fault, though, and a name that stands for null names an object of that
kind. These two, and what shows of an entry dropped from a stream, are all that dropping blank
entries changes in the content of a page and in what it names. -/
namespace PaintedImages.Document
variable {doc doc' : Document}

inductive ContentsFault (doc : Document) (o : Object) : DocumentFault → Prop where
  | null (found : doc.resolve o = .ok .null) : ContentsFault doc o (.contents .null)
  | missing {gone : ObjectId} (lost : doc.resolve o = .error (.missingObject gone)) :
      ContentsFault doc o (.missingObject gone)

theorem blankContents {page : ObjectId} {d : Dictionary} {o : Object}
    (found : doc.getDictionary page = .ok d) (entry : d.find? "Contents" = some o)
    (blank : Blank doc o) :
    ∃ fault, ContentsFault doc o fault ∧
      doc.pageContent page = .silent (.error (.document fault)) := by
  cases blank with
  | null resolved =>
    refine ⟨_, .null resolved, ?_⟩
    simp only [pageContent, found, entry, resolved]
    rfl
  | missing lost =>
    refine ⟨_, .missing lost, ?_⟩
    simp only [pageContent, found, entry, lost]

theorem blankNamed {page : ObjectId} {x : Dictionary} {name : Bytes} {o : Object}
    (found : doc.xobjects? page = some x) (entry : x.lookup name = some o) :
    (doc.resolve o = .ok .null → doc.lookup page name = .ok (some (.other "Null"))) ∧
    ∀ gone, doc.resolve o = .error (.missingObject gone) → doc.lookup page name = .ok none := by
  refine ⟨fun resolved => ?_, fun gone lost => ?_⟩
  · simp only [lookup, found, Option.bind_some, entry, resolved]
    rfl
  · simp only [lookup, found, Option.bind_some, entry, lost]

theorem blankParameters {s : Dictionary} {o : Object} (entry : s.find? "DecodeParms" = some o)
    (blank : Blank doc o) (count : Nat) : doc.parameters s count = [] := by
  cases blank with
  | null resolved =>
    simp only [parameters, entry, Option.orElse, Option.bind_some, resolved]
    exact List.take_nil
  | missing lost =>
    simp only [parameters, entry, Option.orElse, Option.bind_some, lost]
    exact List.take_nil

theorem blankElement {s : Dictionary} {o e : Object} {items : List Object} {i count : Nat}
    (entry : s.find? "DecodeParms" = some o) (list : doc.resolve o = .ok (.array items))
    (element : items[i]? = some e) (blank : Blank doc e) (inside : i < count) :
    (doc.parameters s count)[i]? = some none := by
  simp only [parameters, entry, Option.orElse, Option.bind_some, list, Except.toOption]
  rw [List.getElem?_take_of_lt inside, List.getElem?_map, element, Option.map_some,
    blank.dictionary]
  rfl

theorem blankResources {node : ObjectId} {d : Dictionary} {o : Object}
    (found : doc.getDictionary node = .ok d) (entry : d.find? "Resources" = some o)
    (blank : Blank doc o) (limit : Nat) :
    doc.resourcesFrom (limit + 1) node = (doc.parent? node).bind (doc.resourcesFrom limit) := by
  have own : doc.ownResources? node = none := by
    simp only [ownResources?, found, Except.toOption, Option.bind_some, entry, blank.dictionary]
  rw [resourcesFromSucc, own, Option.none_or]

def ContentsDropped (doc doc' : Document) (page : ObjectId) : Prop :=
  ∃ d d' o, doc.getDictionary page = .ok d ∧ doc'.getDictionary page = .ok d' ∧
    d.find? "Contents" = some o ∧ d'.find? "Contents" = none

section Contents
variable (pruned : PrunedFrom doc doc')
include pruned

theorem partsPruned {items items' : List Object} (h : List.Forall₂ (Pruned doc) items items')
    (hidden : ∀ e ∈ (doc.streamParts items).zip (doc'.streamParts items'),
      ¬ Shows doc e.1.1 e.2.1) :
    doc'.parts items' = doc.parts items := by
  induction h with
  | nil => rfl
  | cons head tail ih =>
    simp only [streamParts, parts] at hidden ⊢
    obtain ⟨fault, failed, failed'⟩ | ⟨q, q', resolved, resolved', same⟩ :=
      alikeCases (resolvePruned pruned head)
    · rw [failed, failed']
    · rw [resolved, resolved'] at hidden ⊢
      cases same with
      | same =>
        cases q with
        | stream s content =>
          simp only [List.zip_cons_cons, List.forall_mem_cons] at hidden
          simp only [streamContentPruned pruned (entriesSame s) hidden.1, ih hidden.2]
        | _ => rfl
      | stream inner content =>
        simp only [List.zip_cons_cons, List.forall_mem_cons] at hidden
        simp only [streamContentPruned pruned inner hidden.1, ih hidden.2]
      | _ => rfl

theorem contentPruned {page : ObjectId} (stands : ¬ ContentsDropped doc doc' page)
    (hidden : ∀ e ∈ (doc.contentStreams page).zip (doc'.contentStreams page),
      ¬ Shows doc e.1.1 e.2.1) :
    doc'.pageContent page = doc.pageContent page := by
  simp only [contentStreams, stored?] at hidden
  simp only [pageContent]
  obtain ⟨fault, failed, failed'⟩ | ⟨d, d', found, found', inner⟩ :=
    alikeCases (getDictionaryPruned pruned page)
  · rw [failed, failed']
  · rw [found, found', Except.toOption, Except.toOption, Option.bind_some,
      Option.bind_some] at hidden
    rw [found, found']
    obtain related | ⟨o, entry, _, absent⟩ := entriesFind inner "Contents"
    · obtain ⟨absent, absent'⟩ | ⟨p, p', entry, entry', value⟩ := relCases related
      · simp only [absent, absent']
      · rw [entry, entry', Option.bind_some, Option.bind_some] at hidden
        simp only [entry, entry']
        obtain ⟨fault, failed, failed'⟩ | ⟨q, q', resolved, resolved', same⟩ :=
          alikeCases (resolvePruned pruned value)
        · rw [failed, failed']
        · rw [resolved, resolved'] at hidden ⊢
          cases same with
          | same =>
            cases q with
            | stream s content =>
              exact streamContentPruned pruned (entriesSame s) (hidden _ List.mem_cons_self) content
            | array items => exact partsPruned pruned (itemsSame items) hidden
            | _ => rfl
          | stream inner content =>
            exact streamContentPruned pruned inner (hidden _ List.mem_cons_self) content
          | array inner => exact partsPruned pruned inner hidden
          | _ => rfl
    · exact absurd ⟨d, d', o, found, found', entry, absent⟩ stands

theorem namePruned {page : ObjectId} {name : Bytes}
    (stands : doc.named? page name = some .null → doc'.named? page name ≠ none)
    (hidden : ∀ s s' content, doc.named? page name = some (.stream s content) →
      doc'.named? page name = some (.stream s' content) → ¬ Shows doc s s') :
    doc'.lookup page name = doc.lookup page name := by
  rw [lookupNamed, lookupNamed]
  have faded := namedPruned pruned page name
  generalize doc.named? page name = x at faded stands hidden ⊢
  generalize doc'.named? page name = y at faded stands hidden ⊢
  cases faded with
  | same related =>
    obtain ⟨rfl, rfl⟩ | ⟨p, p', rfl, rfl, value⟩ := relCases related
    · rfl
    · have same := xobjectPruned pruned value fun s s' content stood stood' =>
        hidden s s' content (congrArg some stood) (congrArg some stood')
      simp only [same]
  | null => exact absurd rfl (stands rfl)

end Contents

theorem blanksTold (doc : Document) (page : ObjectId) :
    (∀ d o, doc.getDictionary page = .ok d → d.find? "Contents" = some o → Blank doc o →
      ∃ fault, ContentsFault doc o fault ∧
        doc.pageContent page = .silent (.error (.document fault))) ∧
    (∀ x name o, doc.xobjects? page = some x → x.lookup name = some o →
      (doc.resolve o = .ok .null → doc.lookup page name = .ok (some (.other "Null"))) ∧
      ∀ gone, doc.resolve o = .error (.missingObject gone) → doc.lookup page name = .ok none) ∧
    (∀ (s : Dictionary) o count, s.find? "DecodeParms" = some o → Blank doc o →
      doc.parameters s count = []) ∧
    (∀ (s : Dictionary) o items i e count, s.find? "DecodeParms" = some o →
      doc.resolve o = .ok (.array items) → items[i]? = some e → Blank doc e → i < count →
      (doc.parameters s count)[i]? = some none) ∧
    (∀ node d o limit, doc.getDictionary node = .ok d → d.find? "Resources" = some o →
      Blank doc o →
      doc.resourcesFrom (limit + 1) node = (doc.parent? node).bind (doc.resourcesFrom limit)) ∧
    ∀ doc', PrunedFrom doc doc' →
      (¬ ContentsDropped doc doc' page →
        (∀ e ∈ (doc.contentStreams page).zip (doc'.contentStreams page),
          ¬ Shows doc e.1.1 e.2.1) →
        doc'.pageContent page = doc.pageContent page) ∧
      ∀ name, (doc.named? page name = some .null → doc'.named? page name ≠ none) →
        (∀ s s' content, doc.named? page name = some (.stream s content) →
          doc'.named? page name = some (.stream s' content) → ¬ Shows doc s s') →
        doc'.lookup page name = doc.lookup page name :=
  ⟨fun _ _ found entry blank => blankContents found entry blank,
    fun _ _ _ found entry => blankNamed found entry,
    fun _ _ count entry blank => blankParameters entry blank count,
    fun _ _ _ _ _ _ entry list element blank inside =>
      blankElement entry list element blank inside,
    fun _ _ _ limit found entry blank => blankResources found entry blank limit,
    fun _ pruned => ⟨contentPruned pruned, fun _ => namePruned pruned⟩⟩

def blankPage : Document where
  version := "1.4"
  objects :=
    [(⟨1, 0⟩, .dictionary
      [(Bytes.ofText "Contents", .null), (Bytes.ofText "Resources", .reference ⟨9, 0⟩),
        (Bytes.ofText "Parent", .reference ⟨2, 0⟩)]),
    (⟨2, 0⟩, .dictionary [(Bytes.ofText "Resources", .dictionary [(Bytes.ofText "XObject",
      .dictionary [(Bytes.ofText "Im", .reference ⟨3, 0⟩),
        (Bytes.ofText "Fm", .reference ⟨9, 0⟩)])])]),
    (⟨3, 0⟩, .null)]
  trailer := []

def prunedPage : Document where
  version := "1.4"
  objects :=
    [(⟨1, 0⟩, .dictionary [(Bytes.ofText "Parent", .reference ⟨2, 0⟩)]),
    (⟨2, 0⟩, .dictionary [(Bytes.ofText "Resources", .dictionary [(Bytes.ofText "XObject",
      .dictionary [])])]),
    (⟨3, 0⟩, .null)]
  trailer := []

theorem blankPagePruned : PrunedFrom blankPage prunedPage := by
  have lost : Blank blankPage (.reference ⟨9, 0⟩) := .missing rfl
  have entries : PrunedEntries blankPage (Pruned blankPage)
      [(Bytes.ofText "Contents", .null), (Bytes.ofText "Resources", .reference ⟨9, 0⟩),
        (Bytes.ofText "Parent", .reference ⟨2, 0⟩)]
      [(Bytes.ofText "Parent", .reference ⟨2, 0⟩)] :=
    .dropped (.null rfl) rfl (.dropped lost rfl (entriesSame _))
  have names : PrunedEntries blankPage (Pruned blankPage)
      [(Bytes.ofText "Im", .reference ⟨3, 0⟩), (Bytes.ofText "Fm", .reference ⟨9, 0⟩)] [] :=
    .dropped (.null rfl) rfl (.dropped lost rfl .nil)
  have above := Pruned.dictionary <| .kept (Bytes.ofText "Resources") (.dictionary <|
    .kept (Bytes.ofText "XObject") (.dictionary names) .nil) .nil
  exact keptLookup <| .cons ⟨rfl, .dictionary entries⟩ <| .cons ⟨rfl, above⟩ <|
    .cons ⟨rfl, .same _⟩ .nil

theorem blanksShow :
    PrunedFrom blankPage prunedPage ∧
    blankPage.pageContent ⟨1, 0⟩ = .silent (.error (.document (.contents .null))) ∧
    prunedPage.pageContent ⟨1, 0⟩ = .silent (.ok []) ∧
    blankPage.lookup ⟨1, 0⟩ (Bytes.ofText "Im") = .ok (some (.other "Null")) ∧
    prunedPage.lookup ⟨1, 0⟩ (Bytes.ofText "Im") = .ok none ∧
    prunedPage.lookup ⟨1, 0⟩ (Bytes.ofText "Fm") =
      blankPage.lookup ⟨1, 0⟩ (Bytes.ofText "Fm") := by
  obtain ⟨contents, names, _, _, _, dropped⟩ := blanksTold blankPage ⟨1, 0⟩
  refine ⟨blankPagePruned, ?_, rfl, (names _ _ _ rfl rfl).1 rfl, rfl, ?_⟩
  · obtain ⟨fault, cause, told⟩ := contents _ _ rfl rfl (.null rfl)
    cases cause with
    | null => exact told
    | missing lost => cases lost
  · exact (dropped prunedPage blankPagePruned).2 _ nofun nofun

end PaintedImages.Document
