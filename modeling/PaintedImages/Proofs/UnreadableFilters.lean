import PaintedImages.Proofs.Indirection
import PaintedImages.Proofs.Outcomes

/-! When looking up a name fails. It fails for an image whose filter entry leads nowhere, is neither
a name nor a list nor null, or is a list with an element that is no name; the fault is that of the
entry, in a list that of the first such element. Whatever else is odd about the nodes above a page,
its tables of names or the image itself counts as missing. Whether the bytes can be decoded with the
filters is not looked at here. -/
namespace PaintedImages.Document
variable {doc : Document}

inductive Nameless (doc : Document) (o : Object) : Fault → Prop where
  | lost {id : ObjectId} {fault : DocumentFault} (refers : o = .reference id)
      (lost : doc.get id = .error fault) : Nameless doc o (.document fault)
  | other {p : Object} (resolved : doc.resolve o = .ok p) (kind : p.kind ≠ .name) :
      Nameless doc o (.decode (.filterEntry p.kind))

inductive Unreadable (doc : Document) (o : Object) : Fault → Prop where
  | lost {id : ObjectId} {fault : DocumentFault} (refers : o = .reference id)
      (lost : doc.get id = .error fault) : Unreadable doc o (.document fault)
  | other {p : Object} (resolved : doc.resolve o = .ok p)
      (kind : p.kind ∉ [.name, .array, .null]) : Unreadable doc o (.decode (.filterValue p.kind))
  | element {front back : List Object} {e : Object} {fault : Fault}
      (resolved : doc.resolve o = .ok (.array (front ++ e :: back)))
      (first : ∀ x ∈ front, ∃ n, doc.resolve x = .ok (.name n)) (nameless : Nameless doc e fault) :
      Unreadable doc o fault

theorem resolveFails {o : Object} {fault : DocumentFault} (failed : doc.resolve o = .error fault) :
    ∃ id, o = .reference id ∧ doc.get id = .error fault := by
  cases o with
  | reference id => exact ⟨id, rfl, failed⟩
  | _ => contradiction

section Entries
variable (doc : Document)

theorem filterEntryCases (o : Object) :
    (∃ n, doc.resolve o = .ok (.name n) ∧ doc.filterEntry o = .ok (.ofName n)) ∨
      ∃ fault, Nameless doc o fault ∧ doc.filterEntry o = .error fault := by
  unfold filterEntry
  cases resolved : doc.resolve o with
  | error fault =>
    obtain ⟨id, refers, lost⟩ := resolveFails resolved
    exact .inr ⟨_, .lost refers lost, rfl⟩
  | ok p =>
    cases p with
    | name n => exact .inl ⟨n, rfl, rfl⟩
    | _ => exact .inr ⟨_, .other resolved nofun, rfl⟩

theorem namelessFails {o : Object} {fault : Fault} (nameless : Nameless doc o fault) :
    doc.filterEntry o = .error fault := by
  unfold filterEntry
  cases nameless with
  | lost refers lost =>
    subst refers
    simp only [resolve, lost]
    rfl
  | @other p resolved kind =>
    simp only [resolved]
    cases p with
    | name n => exact absurd rfl kind
    | _ => rfl

theorem filterEntryFails (o : Object) (fault : Fault) :
    doc.filterEntry o = .error fault ↔ Nameless doc o fault := by
  refine ⟨fun failed => ?_, namelessFails doc⟩
  obtain ⟨n, _, read⟩ | ⟨cause, nameless, told⟩ := filterEntryCases doc o
  · rw [read] at failed
    contradiction
  · rw [told] at failed
    cases failed
    exact nameless

theorem filterEntryReads (o : Object) :
    (∃ f, doc.filterEntry o = .ok f) ↔ ∃ n, doc.resolve o = .ok (.name n) := by
  constructor
  · rintro ⟨f, read⟩
    obtain ⟨n, named, _⟩ | ⟨fault, _, told⟩ := filterEntryCases doc o
    · exact ⟨n, named⟩
    · rw [told] at read
      contradiction
  · rintro ⟨n, named⟩
    unfold filterEntry
    rw [named]
    exact ⟨_, rfl⟩

theorem filterListFails (items : List Object) (fault : Fault) :
    items.mapM doc.filterEntry = .error fault ↔ ∃ front e back, items = front ++ e :: back ∧
      (∀ x ∈ front, ∃ n, doc.resolve x = .ok (.name n)) ∧ Nameless doc e fault := by
  simp only [eachFails, filterEntryFails, filterEntryReads]

theorem unreadableEntry {s : Dictionary} {o : Object} {fault : Fault}
    (entry : s.find? "Filter" = some o) (failed : doc.filters s = .error fault) :
    Unreadable doc o fault := by
  unfold filters at failed
  rw [entry] at failed
  dsimp only at failed
  cases resolved : doc.resolve o with
  | error cause =>
    rw [resolved] at failed
    cases failed
    obtain ⟨id, refers, lost⟩ := resolveFails resolved
    exact .lost refers lost
  | ok p =>
    rw [resolved] at failed
    cases p with
    | name n => contradiction
    | null => contradiction
    | array items =>
      obtain ⟨front, e, back, rfl, first, nameless⟩ := (filterListFails doc items fault).mp failed
      exact .element resolved first nameless
    | _ =>
      cases failed
      exact .other resolved (by simp [Object.kind])

theorem entryUnreadable {s : Dictionary} {o : Object} {fault : Fault}
    (entry : s.find? "Filter" = some o) (unreadable : Unreadable doc o fault) :
    doc.filters s = .error fault := by
  unfold filters
  rw [entry]
  cases unreadable with
  | lost refers lost =>
    subst refers
    simp only [resolve, lost]
    rfl
  | @other p resolved kind =>
    simp only [resolved]
    simp only [List.mem_cons, List.not_mem_nil, or_false, not_or] at kind
    cases p with
    | name n => exact absurd rfl kind.1
    | array items => exact absurd rfl kind.2.1
    | null => exact absurd rfl kind.2.2
    | _ => rfl
  | element resolved first nameless =>
    simp only [resolved]
    exact (filterListFails doc _ fault).mpr ⟨_, _, _, rfl, first, nameless⟩

theorem filtersFail (s : Dictionary) (fault : Fault) :
    doc.filters s = .error fault ↔ ∃ o, s.find? "Filter" = some o ∧ Unreadable doc o fault := by
  constructor
  · intro failed
    cases entry : s.find? "Filter" with
    | none =>
      unfold filters at failed
      rw [entry] at failed
      contradiction
    | some o => exact ⟨o, rfl, unreadableEntry doc entry failed⟩
  · rintro ⟨o, entry, unreadable⟩
    exact entryUnreadable doc entry unreadable

/- Of the elements that are no names there is a first one. -/
theorem unreadableExists (o : Object) :
    (∃ fault, Unreadable doc o fault) ↔
      (∃ id fault, o = .reference id ∧ doc.get id = .error fault) ∨
      (∃ p, doc.resolve o = .ok p ∧ p.kind ∉ [.name, .array, .null]) ∨
      ∃ items e, doc.resolve o = .ok (.array items) ∧ e ∈ items ∧
        ∀ n, doc.resolve e ≠ .ok (.name n) := by
  constructor
  · rintro ⟨fault, ⟨refers, lost⟩ | ⟨resolved, kind⟩ | ⟨resolved, first, nameless⟩⟩
    · exact .inl ⟨_, _, refers, lost⟩
    · exact .inr (.inl ⟨_, resolved, kind⟩)
    · refine .inr (.inr ⟨_, _, resolved, List.mem_append_right _ List.mem_cons_self, ?_⟩)
      intro n named
      obtain ⟨f, read⟩ := (filterEntryReads doc _).mpr ⟨n, named⟩
      rw [namelessFails doc nameless] at read
      contradiction
  · rintro (⟨id, fault, refers, lost⟩ | ⟨p, resolved, kind⟩ | ⟨items, e, resolved, mem, other⟩)
    · exact ⟨_, .lost refers lost⟩
    · exact ⟨_, .other resolved kind⟩
    · cases read : items.mapM doc.filterEntry with
      | ok filters =>
        obtain ⟨n, named⟩ := (filterEntryReads doc e).mp ((eachRead read).1 e mem)
        exact absurd named (other n)
      | error fault =>
        obtain ⟨front, x, back, rfl, first, nameless⟩ := (filterListFails doc items fault).mp read
        exact ⟨fault, .element resolved first nameless⟩

theorem imageFails (s : Dictionary) (content : Bytes) (fault : Fault) :
    doc.image s content = .error fault ↔ doc.filters s = .error fault := by
  unfold image
  cases doc.filters s with
  | error cause =>
    constructor
    · rintro ⟨⟩
      rfl
    · rintro ⟨⟩
      rfl
  | ok filters => exact iff_of_false nofun nofun

theorem imageFew {s : Dictionary} {content : Bytes} {image : Image}
    (read : doc.image s content = .ok image) : image.parameters.length ≤ image.filters.length := by
  obtain ⟨filters, _, told⟩ := bindOk read
  cases told
  exact List.length_take_le _ _

theorem xobjectCases (o : Object) :
    (∃ (s : Dictionary) (content : Bytes), o = .stream s content ∧
      s.find? "Subtype" = some (.name (Bytes.ofText "Image")) ∧
      doc.xobject o = (doc.image s content).map .image) ∨
    (∀ (s : Dictionary) (content : Bytes), o = .stream s content →
      s.find? "Subtype" ≠ some (.name (Bytes.ofText "Image"))) ∧
      ∃ x, doc.xobject o = .ok x ∧ ∀ image, x ≠ .image image := by
  cases o with
  | stream s content =>
    cases named : (Dictionary.find? s "Subtype").bind Object.name? with
    | none =>
      refine .inr ⟨?_, _, xobjectUntyped doc content named, nofun⟩
      rintro _ _ ⟨⟩ image
      rw [image] at named
      contradiction
    | some name =>
      obtain ⟨o, entry, known⟩ := Option.bind_eq_some_iff.mp named
      rw [nameStands known] at entry
      have told := xobjectNamed doc content entry
      split at told
      · rename_i isImage
        subst isImage
        exact .inl ⟨s, content, rfl, entry, told⟩
      · rename_i other
        refine .inr ⟨?_, _, told, ?_⟩
        · rintro _ _ ⟨⟩ image
          rw [entry] at image
          cases image
          exact other rfl
        · unfold plain
          split <;> nofun
  | _ => exact .inr ⟨nofun, _, rfl, nofun⟩

theorem xobjectFails (o : Object) (fault : Fault) :
    doc.xobject o = .error fault ↔ ∃ (s : Dictionary) (content : Bytes), o = .stream s content ∧
      s.find? "Subtype" = some (.name (Bytes.ofText "Image")) ∧ doc.filters s = .error fault := by
  obtain ⟨s, content, rfl, isImage, told⟩ | ⟨other, x, told, _⟩ := xobjectCases doc o
  · rw [told]
    constructor
    · intro failed
      refine ⟨s, content, rfl, isImage, (imageFails doc s content fault).mp ?_⟩
      cases read : doc.image s content with
      | error cause =>
        rw [read] at failed
        cases failed
        rfl
      | ok image =>
        rw [read] at failed
        contradiction
    · rintro ⟨_, _, ⟨⟩, _, failed⟩
      rw [(imageFails doc s content fault).mpr failed]
      rfl
  · rw [told]
    refine iff_of_false nofun ?_
    rintro ⟨s, content, rfl, isImage, _⟩
    exact other s content rfl isImage

theorem lookupFails (page : ObjectId) (name : Bytes) (fault : Fault) :
    doc.lookup page name = .error fault ↔ ∃ (s : Dictionary) (content : Bytes),
      doc.named? page name = some (.stream s content) ∧
      s.find? "Subtype" = some (.name (Bytes.ofText "Image")) ∧ doc.filters s = .error fault := by
  rw [lookupNamed]
  cases doc.named? page name with
  | none => exact iff_of_false nofun nofun
  | some o =>
    simp only [Option.some.injEq]
    rw [← xobjectFails]
    cases doc.xobject o with
    | error cause => simp [Except.map]
    | ok x => exact iff_of_false nofun nofun

theorem lookedUpFew {page : ObjectId} {name : Bytes} {image : Image}
    (found : doc.lookup page name = .ok (some (.image image))) :
    image.parameters.length ≤ image.filters.length := by
  rw [lookupNamed] at found
  split at found
  · cases found
  · rename_i o _
    obtain ⟨x, told, same⟩ := mapOk found
    cases same
    obtain ⟨s, content, rfl, _, mapped⟩ | ⟨_, x, plain, other⟩ := xobjectCases doc o
    · rw [mapped] at told
      obtain ⟨read, done, same⟩ := mapOk told
      cases same
      exact imageFew doc done
    · rw [plain] at told
      cases told
      exact absurd rfl (other image)

end Entries

theorem onlyFiltersFail (doc : Document) (page : ObjectId) (name : Bytes) :
    ((∃ fault, doc.lookup page name = .error fault) ↔
      ∃ (s : Dictionary) (content : Bytes) (o : Object),
        doc.named? page name = some (.stream s content) ∧
        s.find? "Subtype" = some (.name (Bytes.ofText "Image")) ∧ s.find? "Filter" = some o ∧
        ((∃ id fault, o = .reference id ∧ doc.get id = .error fault) ∨
          (∃ p, doc.resolve o = .ok p ∧ p.kind ∉ [.name, .array, .null]) ∨
          ∃ items e, doc.resolve o = .ok (.array items) ∧ e ∈ items ∧
            ∀ n, doc.resolve e ≠ .ok (.name n))) ∧
    (∀ fault, doc.lookup page name = .error fault ↔
      ∃ (s : Dictionary) (content : Bytes) (o : Object),
        doc.named? page name = some (.stream s content) ∧
        s.find? "Subtype" = some (.name (Bytes.ofText "Image")) ∧ s.find? "Filter" = some o ∧
        Unreadable doc o fault) ∧
    (doc.named? page name = none → doc.lookup page name = .ok none) ∧
    (∀ (doc' : Document) page' name' (s s' : Dictionary) content content',
      doc.named? page name = some (.stream s content) →
      doc'.named? page' name' = some (.stream s' content') →
      s'.find? "Subtype" = s.find? "Subtype" → doc'.filters s' = doc.filters s →
      ∀ fault, doc'.lookup page' name' = .error fault ↔ doc.lookup page name = .error fault) ∧
    ∀ image, doc.lookup page name = .ok (some (.image image)) →
      image.parameters.length ≤ image.filters.length := by
  have faults (fault : Fault) : doc.lookup page name = .error fault ↔
      ∃ (s : Dictionary) (content : Bytes) (o : Object),
        doc.named? page name = some (.stream s content) ∧
        s.find? "Subtype" = some (.name (Bytes.ofText "Image")) ∧ s.find? "Filter" = some o ∧
        Unreadable doc o fault := by
    simp only [lookupFails, filtersFail, exists_and_left]
  refine ⟨?_, faults, fun nothing => ?_, ?_, fun _ => lookedUpFew doc⟩
  · simp only [faults, ← unreadableExists]
    constructor
    · rintro ⟨fault, s, content, o, named, isImage, entry, unreadable⟩
      exact ⟨s, content, o, named, isImage, entry, fault, unreadable⟩
    · rintro ⟨s, content, o, named, isImage, entry, fault, unreadable⟩
      exact ⟨fault, s, content, o, named, isImage, entry, unreadable⟩
  · rw [lookupNamed, nothing]
  · intro doc' page' name' s s' content content' named named' subtype filters fault
    rw [lookupFails, lookupFails, named, named']
    constructor
    · rintro ⟨_, _, ⟨⟩, isImage, failed⟩
      exact ⟨s, content, rfl, subtype ▸ isImage, filters ▸ failed⟩
    · rintro ⟨_, _, ⟨⟩, isImage, failed⟩
      exact ⟨s', content', rfl, subtype ▸ isImage, filters ▸ failed⟩

def oddEntries (filter : Object) : Document where
  version := "1.4"
  objects :=
    [(⟨1, 0⟩, .dictionary
      [(Bytes.ofText "Resources", .integer 5), (Bytes.ofText "Parent", .reference ⟨2, 0⟩)]),
    (⟨2, 0⟩, .dictionary
      [(Bytes.ofText "Resources", .reference ⟨4, 0⟩), (Bytes.ofText "Parent", .null)]),
    (⟨3, 0⟩, .stream
      [(Bytes.ofText "Subtype", .name (Bytes.ofText "Image")),
        (Bytes.ofText "Filter", .array [.name (Bytes.ofText "Fl"), filter]),
        (Bytes.ofText "DecodeParms", .array [.null, .integer 1, .reference ⟨9, 0⟩]),
        (Bytes.ofText "Width", .name []), (Bytes.ofText "Height", .integer (-1)),
        (Bytes.ofText "BitsPerComponent", .integer 300),
        (Bytes.ofText "ColorSpace", .reference ⟨5, 0⟩)] []),
    (⟨4, 0⟩, .dictionary
      [(Bytes.ofText "XObject", .dictionary [(Bytes.ofText "Im", .reference ⟨3, 0⟩)])]),
    (⟨5, 0⟩, .reference ⟨5, 0⟩)]
  trailer := []

theorem oddEntriesRead :
    let page : ObjectId := ⟨1, 0⟩
    let name := Bytes.ofText "Im"
    let lost := oddEntries (.reference ⟨9, 0⟩)
    let read := oddEntries (.name (Bytes.ofText "LZW"))
    lost.lookup page name = .error (.document (.missingObject ⟨9, 0⟩)) ∧
    (∃ fault, lost.lookup page name = .error fault) ∧
    (oddEntries .null).lookup page name = .error (.decode (.filterEntry .null)) ∧
    (∃ image, read.lookup page name = .ok (some (.image image)) ∧
      image.parameters.length ≤ image.filters.length) ∧
    lost.named? page [] = none ∧ lost.lookup page [] = .ok none ∧
    (∀ fault, lost.lookup ⟨2, 0⟩ name = .error fault ↔ lost.lookup page name = .error fault) := by
  intro page name lost read
  obtain ⟨fails, faults, _, same, _⟩ := onlyFiltersFail lost page name
  obtain ⟨_, exactNull, _⟩ := onlyFiltersFail (oddEntries .null) page name
  obtain ⟨_, _, _, _, few⟩ := onlyFiltersFail read page name
  obtain ⟨_, _, nothing, _⟩ := onlyFiltersFail lost page []
  have gone : lost.resolve (.reference ⟨9, 0⟩) = .error (.missingObject ⟨9, 0⟩) := rfl
  have first (doc : Document) : ∀ x ∈ [Object.name (Bytes.ofText "Fl")],
      ∃ n, doc.resolve x = .ok (.name n) := by simp [resolve]
  have null : Nameless (oddEntries .null) .null (.decode (.filterEntry Object.null.kind)) :=
    .other rfl (by decide)
  refine ⟨(faults _).mpr ⟨_, _, _, rfl, rfl, rfl, .element rfl (first lost) (.lost rfl rfl)⟩, ?_,
    (exactNull _).mpr ⟨_, _, _, rfl, rfl, rfl, .element rfl (first _) null⟩,
    ⟨_, rfl, few _ rfl⟩, rfl, nothing rfl, same lost ⟨2, 0⟩ name _ _ _ _ rfl rfl rfl rfl⟩
  refine fails.mpr ⟨_, _, _, rfl, rfl, rfl, .inr (.inr ⟨_, .reference ⟨9, 0⟩, rfl, ?_, ?_⟩)⟩
  · exact List.mem_cons_of_mem _ List.mem_cons_self
  · intro n named
    rw [gone] at named
    contradiction

end PaintedImages.Document
