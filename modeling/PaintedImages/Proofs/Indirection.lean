import PaintedImages.Proofs.MovedOut

/-! Indirect values. Three reads take a value only where it stands: the subtype of an external
object, the numbers of a parameter dictionary, and the name that heads a color space. A value moved
out of one of these places reads as missing. The statements say exactly when that shows; wherever
else values are moved, the content of a page and what it names stay the same. -/
namespace PaintedImages

namespace DecodeParameters

def keys : List String := ["Predictor", "Colors", "BitsPerComponent", "Columns", "EarlyChange"]

def single (key : String) (n : Int) : DecodeParameters :=
  ofDictionary [(Bytes.ofText key, .integer n)]

def number? (d : Dictionary) (key : String) : Option Int := (d.find? key).bind Object.integer?

/-- A number has been moved out that differs from what counts if there is none. -/
def Lost (d d' : Dictionary) : Prop :=
  ∃ key ∈ keys, ∃ n id, d.find? key = some (.integer n) ∧ d'.find? key = some (.reference id) ∧
    single key n ≠ {}

section Fields
variable {fresh : List (ObjectId × Object)} {d d' : Dictionary}

theorem numberMoved (h : MovedEntries fresh d d') (key : String) :
    number? d' key = number? d key ∨
      ∃ n id, d.find? key = some (.integer n) ∧ d'.find? key = some (.reference id) := by
  simp only [number?]
  obtain ⟨absent, absent'⟩ | ⟨p, p', found, found', value⟩ := relCases (movedFind h key)
  · exact .inl (by rw [absent, absent'])
  · rw [found, found']
    cases value with
    | kept same => exact .inl (keptInteger same)
    | out direct held same =>
      cases p with
      | integer n => exact .inr ⟨n, _, rfl, rfl⟩
      | _ => exact .inl rfl

/- Whatever is read off the number under a key, moving the number out is not noticed exactly if a
missing number reads the same. -/
theorem fieldExact {α : Type} (f : Option Int → α) (h : MovedEntries fresh d d') (key : String) :
    f (number? d' key) = f (number? d key) ↔
      ∀ n id, d.find? key = some (.integer n) → d'.find? key = some (.reference id) →
        f (some n) = f none := by
  constructor
  · intro same n id stood gone
    have before : number? d key = some n := by rw [number?, stood]; rfl
    have after : number? d' key = none := by rw [number?, gone]; rfl
    rw [before, after] at same
    exact same.symm
  · intro unnoticed
    obtain same | ⟨n, id, stood, gone⟩ := numberMoved h key
    · rw [same]
    · have before : number? d key = some n := by rw [number?, stood]; rfl
      have after : number? d' key = none := by rw [number?, gone]; rfl
      rw [before, after]
      exact (unnoticed n id stood gone).symm

theorem singlePredictor (n : Int) : single "Predictor" n = { predictor := n } := rfl

theorem singleColors (n : Int) :
    single "Colors" n = { colors := (positive? (some n)).getD 1 } := rfl

theorem singleBits (n : Int) :
    single "BitsPerComponent" n = { bits := (positive? (some n)).getD 8 } := rfl

theorem singleColumns (n : Int) :
    single "Columns" n = { columns := (positive? (some n)).getD 1 } := rfl

theorem singleEarlyChange (n : Int) :
    single "EarlyChange" n = { earlyChange := (some n).all (· ≠ 0) } := rfl

theorem lostExact (h : MovedEntries fresh d d') :
    ofDictionary d' = ofDictionary d ↔ ¬ Lost d d' := by
  have unnoticed : ofDictionary d' = ofDictionary d ↔ ∀ key ∈ keys, ∀ n id,
      d.find? key = some (.integer n) → d'.find? key = some (.reference id) →
        single key n = {} := by
    simp only [keys, List.forall_mem_cons, List.not_mem_nil, false_implies, implies_true, and_true,
      singlePredictor, singleColors, singleBits, singleColumns, singleEarlyChange]
    simp only [ofDictionary, mk.injEq, true_and, and_true]
    exact and_congr (fieldExact (fun v => v.getD 1) h "Predictor") <|
      and_congr (fieldExact (fun v => (positive? v).getD 1) h "Colors") <|
      and_congr (fieldExact (fun v => (positive? v).getD 8) h "BitsPerComponent") <|
      and_congr (fieldExact (fun v => (positive? v).getD 1) h "Columns") <|
      fieldExact (fun v => v.all (· ≠ 0)) h "EarlyChange"
  rw [unnoticed, Lost]
  push Not
  rfl

end Fields
end DecodeParameters

namespace Document

def parameterDictionaries (doc : Document) (d : Dictionary) : List (Option Dictionary) :=
  match ((d.find? "DecodeParms").orElse fun _ => d.find? "DP").bind fun o =>
      (doc.resolve o).toOption with
  | some (.dictionary d) => [some d]
  | some (.array items) => items.map doc.resolveDictionary?
  | _ => []

theorem parametersExact (doc : Document) (d : Dictionary) (count : Nat) :
    doc.parameters d count =
      ((doc.parameterDictionaries d).take count).map
        (Option.map DecodeParameters.ofDictionary) := by
  simp only [parameters, parameterDictionaries]
  cases ((d.find? "DecodeParms").orElse fun _ => d.find? "DP").bind fun o =>
      (doc.resolve o).toOption with
  | none => simp
  | some o =>
    cases o with
    | array items => simp [List.map_take, Function.comp_def]
    | dictionary d => cases count <;> simp
    | _ => simp

def NumberLost (doc doc' : Document) (s s' : Dictionary) : Prop :=
  ∃ filters p p', doc.filters s = .ok filters ∧
    (some p, some p') ∈
      ((doc.parameterDictionaries s).zip (doc'.parameterDictionaries s')).take filters.length ∧
    DecodeParameters.Lost p p'

def ColorSpaceLost (doc doc' : Document) (s s' : Dictionary) : Prop :=
  ∃ name id rest rest', doc.stored? s "ColorSpace" = some (.array (.name name :: rest)) ∧
    doc'.stored? s' "ColorSpace" = some (.array (.reference id :: rest'))

inductive Lost (doc doc' : Document) (s s' : Dictionary) : Prop where
  | subtype {name : Bytes} {id : ObjectId} (stood : s.find? "Subtype" = some (.name name))
      (gone : s'.find? "Subtype" = some (.reference id))
      (told : Utf8.lossy name ≠ "untyped stream")
  | number (isImage : s.find? "Subtype" = some (.name (Bytes.ofText "Image")))
      (lost : NumberLost doc doc' s s')
  | colorSpace {filters : List Filter}
      (isImage : s.find? "Subtype" = some (.name (Bytes.ofText "Image")))
      (readable : doc.filters s = .ok filters) (lost : ColorSpaceLost doc doc' s s')

def spaceName : Object → Option String
  | .name n => some (Utf8.lossy n)
  | .array (.name n :: _) => some (Utf8.lossy n)
  | _ => none

theorem colorSpaceStored (doc : Document) (d : Dictionary) :
    doc.colorSpace? d = (doc.stored? d "ColorSpace").bind spaceName := by
  rw [colorSpace?, stored?, Option.bind_assoc]
  congr 1
  funext o
  cases (doc.resolve o).toOption with
  | none => rfl
  | some o =>
    cases o with
    | array items =>
      cases items with
      | nil => rfl
      | cons head _ => cases head <;> rfl
    | _ => rfl

section Images
variable {fresh : List (ObjectId × Object)} {doc doc' : Document} {s s' : Dictionary}

theorem parameterEntryMoved (h : MovedEntries fresh s s') :
    Option.Rel (Moved fresh) ((s.find? "DecodeParms").orElse fun _ => s.find? "DP")
      ((s'.find? "DecodeParms").orElse fun _ => s'.find? "DP") := by
  obtain ⟨absent, absent'⟩ | ⟨p, p', found, found', value⟩ := relCases (movedFind h "DecodeParms")
  · rw [absent, absent']
    exact movedFind h "DP"
  · rw [found, found']
    exact .some value

theorem entryExact {p p' : Option Dictionary} (h : Option.Rel (MovedEntries fresh) p p') :
    p'.map DecodeParameters.ofDictionary = p.map DecodeParameters.ofDictionary ↔
      ∀ d d', p = some d → p' = some d' → ¬ DecodeParameters.Lost d d' := by
  cases h with
  | none => simp
  | some inner => simp [DecodeParameters.lostExact inner]

theorem entriesExact {l l' : List (Option Dictionary)}
    (h : List.Forall₂ (Option.Rel (MovedEntries fresh)) l l') (count : Nat) :
    (l'.take count).map (Option.map DecodeParameters.ofDictionary) =
        (l.take count).map (Option.map DecodeParameters.ofDictionary) ↔
      ∀ d d', (some d, some d') ∈ (l.zip l').take count → ¬ DecodeParameters.Lost d d' := by
  induction h generalizing count with
  | nil => simp
  | cons head tail ih =>
    cases count with
    | zero => simp
    | succ count =>
      simp only [List.take_succ_cons, List.map_cons, List.cons.injEq, List.zip_cons_cons,
        List.mem_cons, Prod.mk.injEq, entryExact head, ih]
      constructor
      · rintro ⟨first, rest⟩ d d' (⟨rfl, rfl⟩ | later)
        · exact first d d' rfl rfl
        · exact rest d d' later
      · intro all
        exact ⟨fun d d' same same' => all d d' (.inl ⟨same.symm, same'.symm⟩),
          fun d d' later => all d d' (.inr later)⟩

def plain (name : Bytes) : XObject :=
  if name = Bytes.ofText "Form" then .form else .other (Utf8.lossy name)

theorem xobjectNamed (doc : Document) (content : Bytes) {name : Bytes}
    (stood : s.find? "Subtype" = some (.name name)) :
    doc.xobject (.stream s content) =
      if name = Bytes.ofText "Image" then (doc.image s content).map .image
      else .ok (plain name) := by
  simp only [xobject, stood, Option.bind_some, Object.name?, plain]
  split
  · rfl
  · split <;> rfl

theorem xobjectUntyped (doc : Document) (content : Bytes)
    (untyped : (s.find? "Subtype").bind Object.name? = none) :
    doc.xobject (.stream s content) = .ok (.other "untyped stream") := by
  simp only [xobject, untyped]

theorem imageMapExact {x y : Except Fault Image} :
    x.map XObject.image = y.map XObject.image ↔ x = y := by
  cases x <;> cases y <;> simp [Except.map]

theorem imageTold : Utf8.lossy (Bytes.ofText "Image") ≠ "untyped stream" := by decide +kernel

theorem formTold : Utf8.lossy (Bytes.ofText "Form") ≠ "untyped stream" := by decide +kernel

theorem xobjectTold (doc : Document) (content : Bytes) {name : Bytes}
    (stood : s.find? "Subtype" = some (.name name)) :
    doc.xobject (.stream s content) = .ok (.other "untyped stream") ↔
      Utf8.lossy name = "untyped stream" := by
  rw [xobjectNamed doc content stood, plain]
  by_cases isImage : name = Bytes.ofText "Image"
  · subst isImage
    rw [if_pos rfl]
    refine iff_of_false ?_ imageTold
    cases doc.image s content <;> simp [Except.map]
  · rw [if_neg isImage]
    by_cases isForm : name = Bytes.ofText "Form"
    · subst isForm
      rw [if_pos rfl]
      exact iff_of_false (by simp) formTold
    · rw [if_neg isForm]
      simp

theorem nameStands {o : Object} {name : Bytes} (h : o.name? = some name) : o = .name name := by
  cases o with
  | name n =>
    cases h
    rfl
  | _ => contradiction

theorem lostNamed {name : Bytes} (stood : s.find? "Subtype" = some (.name name))
    (lost : Lost doc doc' s s') :
    name = Bytes.ofText "Image" ∨
      ∃ id, s'.find? "Subtype" = some (.reference id) ∧ Utf8.lossy name ≠ "untyped stream" := by
  cases lost with
  | subtype stood' gone told =>
    rw [stood] at stood'
    cases stood'
    exact .inr ⟨_, gone, told⟩
  | number isImage _ =>
    rw [stood] at isImage
    cases isImage
    exact .inl rfl
  | colorSpace isImage _ _ =>
    rw [stood] at isImage
    cases isImage
    exact .inl rfl

theorem untypedExact (content : Bytes) (untyped : (s.find? "Subtype").bind Object.name? = none)
    (untyped' : (s'.find? "Subtype").bind Object.name? = none) :
    doc'.xobject (.stream s' content) = doc.xobject (.stream s content) ↔
      ¬ Lost doc doc' s s' := by
  rw [xobjectUntyped doc content untyped, xobjectUntyped doc' content untyped']
  refine iff_of_true rfl ?_
  rintro (⟨stood, _, _⟩ | ⟨stood, _⟩ | ⟨stood, _, _⟩)
  all_goals
    rw [stood] at untyped
    cases untyped

/- A stream whose subtype is gone is an untyped one; it was told apart from these if its subtype
names anything else. -/
theorem goneExact (content : Bytes) {name : Bytes} {id : ObjectId}
    (stood : s.find? "Subtype" = some (.name name))
    (gone : s'.find? "Subtype" = some (.reference id)) :
    doc'.xobject (.stream s' content) = doc.xobject (.stream s content) ↔
      ¬ Lost doc doc' s s' := by
  have untyped' : (s'.find? "Subtype").bind Object.name? = none := by rw [gone]; rfl
  rw [xobjectUntyped doc' content untyped', eq_comm, xobjectTold doc content stood]
  constructor
  · intro plain lost
    obtain rfl | ⟨_, _, told⟩ := lostNamed stood lost
    · exact imageTold plain
    · exact told plain
  · intro intact
    by_contra told
    exact intact (.subtype stood gone told)

variable (moved : MovedOut fresh doc doc')
include moved

theorem dictionariesMoved {items items' : List Object} (h : MovedItems fresh items items') :
    List.Forall₂ (Option.Rel (MovedEntries fresh)) (items.map doc.resolveDictionary?)
      (items'.map doc'.resolveDictionary?) := by
  induction items generalizing items' with
  | nil =>
    cases h
    exact .nil
  | cons item rest ih =>
    cases h with
    | cons head tail => exact .cons (dictionaryMoved moved head) (ih tail)

theorem parameterDictionariesMoved (h : MovedEntries fresh s s') :
    List.Forall₂ (Option.Rel (MovedEntries fresh)) (doc.parameterDictionaries s)
      (doc'.parameterDictionaries s') := by
  simp only [parameterDictionaries]
  obtain ⟨absent, absent'⟩ | ⟨p, p', found, found', value⟩ :=
    relCases (parameterEntryMoved h)
  · rw [absent, absent']
    exact .nil
  · rw [found, found', Option.bind_some, Option.bind_some]
    obtain ⟨fault, failed, failed'⟩ | ⟨q, q', resolved, resolved', same⟩ :=
      alikeCases (resolveMoved moved value)
    · rw [failed, failed']
      exact .nil
    · rw [resolved, resolved']
      cases same with
      | dictionary inner => exact .cons (.some inner) .nil
      | array inner => exact dictionariesMoved moved inner
      | _ => exact .nil

theorem numberExact (h : MovedEntries fresh s s') {filters : List Filter}
    (readable : doc.filters s = .ok filters) :
    doc'.parameters s' filters.length = doc.parameters s filters.length ↔
      ¬ NumberLost doc doc' s s' := by
  rw [parametersExact, parametersExact, entriesExact (parameterDictionariesMoved moved h)]
  constructor
  · rintro all ⟨others, p, p', same, mem, lost⟩
    rw [readable] at same
    cases same
    exact all p p' mem lost
  · intro intact p p' mem lost
    exact intact ⟨filters, p, p', readable, mem, lost⟩

theorem colorSpaceExact (h : MovedEntries fresh s s') :
    doc'.colorSpace? s' = doc.colorSpace? s ↔ ¬ ColorSpaceLost doc doc' s s' := by
  rw [colorSpaceStored, colorSpaceStored]
  constructor
  · rintro same ⟨name, id, rest, rest', found, found'⟩
    rw [found, found'] at same
    contradiction
  · intro intact
    obtain ⟨absent, absent'⟩ | ⟨p, p', found, found', same⟩ :=
      relCases (storedMoved moved h "ColorSpace")
    · rw [absent, absent']
    · rw [found, found', Option.bind_some, Option.bind_some]
      cases same with
      | array inner =>
        cases inner with
        | nil => rfl
        | @cons head _ _ _ first tail =>
          cases first with
          | kept same => cases same <;> rfl
          | out direct held same =>
            cases head with
            | name n => exact absurd ⟨n, _, _, _, found, found'⟩ intact
            | _ => rfl
      | _ => rfl

theorem imageExact (h : MovedEntries fresh s s') (content : Bytes) :
    doc'.image s' content = doc.image s content ↔
      ∀ filters, doc.filters s = .ok filters →
        ¬ NumberLost doc doc' s s' ∧ ¬ ColorSpaceLost doc doc' s s' := by
  simp only [image, filtersMoved moved h, sizeMoved moved h]
  cases readable : doc.filters s with
  | error fault =>
    constructor
    · intro _ filters same
      contradiction
    · intro _
      rfl
  | ok filters =>
    have fields := and_congr (numberExact moved h readable) (colorSpaceExact moved h)
    constructor
    · intro same _ _
      simp only [bind, Except.bind, Except.ok.injEq, Image.mk.injEq, true_and] at same
      exact fields.mp same
    · intro intact
      obtain ⟨numbers, color⟩ := fields.mpr (intact filters rfl)
      simp only [bind, Except.bind, numbers, color]

theorem imageLossless (h : MovedEntries fresh s s') (content : Bytes)
    (isImage : s.find? "Subtype" = some (.name (Bytes.ofText "Image")))
    (stays : s'.find? "Subtype" = some (.name (Bytes.ofText "Image"))) :
    doc'.image s' content = doc.image s content ↔ ¬ Lost doc doc' s s' := by
  rw [imageExact moved h content]
  constructor
  · rintro intact (⟨stood, gone, _⟩ | ⟨_, lost⟩ | ⟨_, readable, lost⟩)
    · rw [stays] at gone
      cases gone
    · obtain ⟨filters, _, _, readable, _⟩ := id lost
      exact (intact filters readable).1 lost
    · exact (intact _ readable).2 lost
  · intro intact filters readable
    exact ⟨fun lost => intact (.number isImage lost),
      fun lost => intact (.colorSpace isImage readable lost)⟩

theorem stayingExact (h : MovedEntries fresh s s') (content : Bytes) {name : Bytes}
    (stood : s.find? "Subtype" = some (.name name))
    (stays : s'.find? "Subtype" = some (.name name)) :
    doc'.xobject (.stream s' content) = doc.xobject (.stream s content) ↔
      ¬ Lost doc doc' s s' := by
  rw [xobjectNamed doc content stood, xobjectNamed doc' content stays]
  by_cases isImage : name = Bytes.ofText "Image"
  · subst isImage
    rw [if_pos rfl, if_pos rfl, imageMapExact]
    exact imageLossless moved h content stood stays
  · rw [if_neg isImage, if_neg isImage]
    refine iff_of_true rfl fun lost => ?_
    obtain image | ⟨id, gone, _⟩ := lostNamed stood lost
    · exact isImage image
    · rw [stays] at gone
      cases gone

theorem streamExact (h : MovedEntries fresh s s') (content : Bytes) :
    doc'.xobject (.stream s' content) = doc.xobject (.stream s content) ↔
      ¬ Lost doc doc' s s' := by
  obtain ⟨absent, absent'⟩ | ⟨p, p', found, found', value⟩ := relCases (movedFind h "Subtype")
  · exact untypedExact content (by rw [absent]; rfl) (by rw [absent']; rfl)
  · cases named : p.name? with
    | none =>
      have untyped' : p'.name? = none := by
        cases value with
        | kept same => rw [keptName same, named]
        | out direct held same => rfl
      exact untypedExact content (by rw [found]; exact named) (by rw [found']; exact untyped')
    | some name =>
      have stood : s.find? "Subtype" = some (.name name) := by rw [found, nameStands named]
      cases value with
      | kept same =>
        have stays : s'.find? "Subtype" = some (.name name) := by
          rw [found', nameStands ((keptName same).trans named)]
        exact stayingExact moved h content stood stays
      | out direct held same => exact goneExact content stood found'

theorem xobjectExact {o o' : Object} (h : Kept fresh o o') :
    doc'.xobject o' = doc.xobject o ↔
      ∀ s s' content, o = .stream s content → o' = .stream s' content → ¬ Lost doc doc' s s' := by
  cases h with
  | stream inner content =>
    rw [streamExact moved inner content]
    constructor
    · intro intact s s' _ same same'
      cases same
      cases same'
      exact intact
    · intro all
      exact all _ _ content rfl rfl
  | _ =>
    refine iff_of_true rfl ?_
    intro _ _ _ same
    cases same

theorem lookupExact {page : ObjectId} (known : fresh.lookup page = none)
    (parents : ∀ node ∈ doc.ancestors ancestorLimit page, doc'.parent? node = doc.parent? node)
    (name : Bytes) :
    doc'.lookup page name = doc.lookup page name ↔
      ∀ s s' content, doc.named? page name = some (.stream s content) →
        doc'.named? page name = some (.stream s' content) → ¬ Lost doc doc' s s' := by
  rw [lookupNamed, lookupNamed]
  obtain ⟨absent, absent'⟩ | ⟨p, p', found, found', same⟩ :=
    relCases (namedMoved moved known parents name)
  · rw [absent, absent']
    simp
  · rw [found, found']
    simp only [Option.some.injEq, ← xobjectExact moved same]
    cases doc.xobject p <;> cases doc'.xobject p' <;> simp [Except.map]

end Images

def streamParts (doc : Document) : List Object → List (Dictionary × Bytes)
  | [] => []
  | o :: rest =>
    match doc.resolve o with
    | .ok (.stream d content) => (d, content) :: doc.streamParts rest
    | _ => []

def contentStreams (doc : Document) (page : ObjectId) : List (Dictionary × Bytes) :=
  match (doc.getDictionary page).toOption.bind fun d => doc.stored? d "Contents" with
  | some (.stream d content) => [(d, content)]
  | some (.array items) => doc.streamParts items
  | _ => []

section Contents
variable {fresh : List (ObjectId × Object)} {doc doc' : Document} {s s' : Dictionary}
variable (moved : MovedOut fresh doc doc')

def MovedStream (fresh : List (ObjectId × Object)) (a b : Dictionary × Bytes) : Prop :=
  MovedEntries fresh a.1 b.1 ∧ b.2 = a.2

include moved

theorem streamContentMoved (h : MovedEntries fresh s s') (content : Bytes)
    (intact : ¬ NumberLost doc doc' s s') :
    doc'.streamContent s' content = doc.streamContent s content := by
  simp only [streamContent, filtersMoved moved h]
  cases readable : doc.filters s with
  | error fault => rfl
  | ok filters => simp only [(numberExact moved h readable).mpr intact]

theorem streamPartsMoved {items items' : List Object} (h : MovedItems fresh items items') :
    List.Forall₂ (MovedStream fresh) (doc.streamParts items) (doc'.streamParts items') := by
  induction items generalizing items' with
  | nil =>
    cases h
    exact .nil
  | cons item rest ih =>
    cases h with
    | cons head tail =>
      simp only [streamParts]
      obtain ⟨fault, failed, failed'⟩ | ⟨q, q', resolved, resolved', same⟩ :=
        alikeCases (resolveMoved moved head)
      · rw [failed, failed']
        exact .nil
      · rw [resolved, resolved']
        cases same with
        | stream inner content => exact .cons ⟨inner, rfl⟩ (ih tail)
        | _ => exact .nil

theorem partsMoved {items items' : List Object} (h : MovedItems fresh items items')
    (intact : ∀ e ∈ (doc.streamParts items).zip (doc'.streamParts items'),
      ¬ NumberLost doc doc' e.1.1 e.2.1) :
    doc'.parts items' = doc.parts items := by
  induction items generalizing items' with
  | nil =>
    cases h
    rfl
  | cons item rest ih =>
    cases h with
    | cons head tail =>
      simp only [streamParts, parts] at intact ⊢
      obtain ⟨fault, failed, failed'⟩ | ⟨q, q', resolved, resolved', same⟩ :=
        alikeCases (resolveMoved moved head)
      · rw [failed, failed']
      · rw [resolved, resolved'] at intact ⊢
        cases same with
        | stream inner content =>
          simp only [List.zip_cons_cons, List.forall_mem_cons] at intact
          simp only [streamContentMoved moved inner content intact.1, ih tail intact.2]
        | _ => rfl

theorem contentStreamsMoved {page : ObjectId} (known : fresh.lookup page = none) :
    List.Forall₂ (MovedStream fresh) (doc.contentStreams page) (doc'.contentStreams page) := by
  simp only [contentStreams]
  obtain ⟨fault, failed, failed'⟩ | ⟨d, d', found, found', inner⟩ :=
    alikeCases (getDictionaryKept moved known)
  · rw [failed, failed']
    exact .nil
  · rw [found, found', Except.toOption, Except.toOption, Option.bind_some, Option.bind_some]
    obtain ⟨absent, absent'⟩ | ⟨p, p', found, found', same⟩ :=
      relCases (storedMoved moved inner "Contents")
    · rw [absent, absent']
      exact .nil
    · rw [found, found']
      cases same with
      | stream inner content => exact .cons ⟨inner, rfl⟩ .nil
      | array inner => exact streamPartsMoved moved inner
      | _ => exact .nil

theorem contentMoved {page : ObjectId} (known : fresh.lookup page = none)
    (intact : ∀ e ∈ (doc.contentStreams page).zip (doc'.contentStreams page),
      ¬ NumberLost doc doc' e.1.1 e.2.1) :
    doc'.pageContent page = doc.pageContent page := by
  simp only [contentStreams, stored?] at intact
  simp only [pageContent]
  obtain ⟨fault, failed, failed'⟩ | ⟨d, d', found, found', inner⟩ :=
    alikeCases (getDictionaryKept moved known)
  · rw [failed, failed']
  · rw [found, found', Except.toOption, Except.toOption, Option.bind_some,
      Option.bind_some] at intact
    rw [found, found']
    obtain ⟨absent, absent'⟩ | ⟨p, p', found, found', value⟩ :=
      relCases (movedFind inner "Contents")
    · simp only [absent, absent']
    · rw [found, found', Option.bind_some, Option.bind_some] at intact
      simp only [found, found']
      obtain ⟨fault, failed, failed'⟩ | ⟨q, q', resolved, resolved', same⟩ :=
        alikeCases (resolveMoved moved value)
      · rw [failed, failed']
      · rw [resolved, resolved'] at intact ⊢
        cases same with
        | stream inner content =>
          exact streamContentMoved moved inner content (intact _ List.mem_cons_self)
        | array inner => exact partsMoved moved inner intact
        | _ => rfl

end Contents

structure DecodedAlike (doc doc' : Document) (a b : Dictionary × Bytes) : Prop where
  content : b.2 = a.2
  filters : doc'.filters b.1 = doc.filters a.1
  parameters : ∀ filters, doc.filters a.1 = .ok filters →
    (doc'.parameters b.1 filters.length = doc.parameters a.1 filters.length ↔
      ¬ NumberLost doc doc' a.1 b.1)

theorem decodedAlike {fresh : List (ObjectId × Object)} {doc doc' : Document}
    (moved : MovedOut fresh doc doc') {page : ObjectId} (known : fresh.lookup page = none) :
    List.Forall₂ (DecodedAlike doc doc') (doc.contentStreams page) (doc'.contentStreams page) := by
  apply (contentStreamsMoved moved known).imp
  rintro a b ⟨inner, same⟩
  exact ⟨same, filtersMoved moved inner, fun _ readable => numberExact moved inner readable⟩

/- A page's parents are not values that it depends on: a parent that no reference names is none. -/
theorem movedOutExact {fresh : List (ObjectId × Object)} {doc doc' : Document}
    (moved : MovedOut fresh doc doc') {page : ObjectId} (known : fresh.lookup page = none)
    (parents : ∀ node ∈ doc.ancestors ancestorLimit page, doc'.parent? node = doc.parent? node) :
    ((∀ e ∈ (doc.contentStreams page).zip (doc'.contentStreams page),
        ¬ NumberLost doc doc' e.1.1 e.2.1) →
      doc'.pageContent page = doc.pageContent page) ∧
    List.Forall₂ (DecodedAlike doc doc') (doc.contentStreams page) (doc'.contentStreams page) ∧
    ∀ name, doc'.lookup page name = doc.lookup page name ↔
      ∀ s s' content, doc.named? page name = some (.stream s content) →
        doc'.named? page name = some (.stream s' content) → ¬ Lost doc doc' s s' :=
  ⟨contentMoved moved known, decodedAlike moved known, lookupExact moved known parents⟩

def directValues : Document where
  version := "1.4"
  objects :=
    [(⟨1, 0⟩, .dictionary
      [(Bytes.ofText "Contents", .reference ⟨3, 0⟩), (Bytes.ofText "Resources", .dictionary
        [(Bytes.ofText "XObject", .dictionary [(Bytes.ofText "Im", .reference ⟨2, 0⟩)])])]),
    (⟨2, 0⟩, .stream [(Bytes.ofText "Subtype", .name (Bytes.ofText "Image"))] [1, 2]),
    (⟨3, 0⟩, .stream [(Bytes.ofText "Filter", .name (Bytes.ofText "AHx"))] [55, 49, 62])]
  trailer := []

def values : List (ObjectId × Object) :=
  [(⟨4, 0⟩, .dictionary
    [(Bytes.ofText "XObject", .dictionary [(Bytes.ofText "Im", .reference ⟨2, 0⟩)])]),
  (⟨5, 0⟩, .name (Bytes.ofText "Image")), (⟨6, 0⟩, .name (Bytes.ofText "AHx"))]

def indirectValues : Document where
  version := "1.4"
  objects :=
    [(⟨1, 0⟩, .dictionary
      [(Bytes.ofText "Contents", .reference ⟨3, 0⟩),
        (Bytes.ofText "Resources", .reference ⟨4, 0⟩)]),
    (⟨2, 0⟩, .stream [(Bytes.ofText "Subtype", .reference ⟨5, 0⟩)] [1, 2]),
    (⟨3, 0⟩, .stream [(Bytes.ofText "Filter", .reference ⟨6, 0⟩)] [55, 49, 62])] ++ values
  trailer := []

theorem valuesMoved : MovedOut values directValues indirectValues := by
  have resources : Moved values
      (.dictionary [(Bytes.ofText "XObject", .dictionary [(Bytes.ofText "Im", .reference ⟨2, 0⟩)])])
      (.reference ⟨4, 0⟩) :=
    .out rfl rfl <| .dictionary <| .cons _
      (.kept (.dictionary (.cons _ (.kept (.reference rfl)) .nil))) .nil
  have subtype : Moved values (.name (Bytes.ofText "Image")) (.reference ⟨5, 0⟩) :=
    .out rfl rfl (.name _)
  have filter : Moved values (.name (Bytes.ofText "AHx")) (.reference ⟨6, 0⟩) :=
    .out rfl rfl (.name _)
  have contents : Moved values (.reference ⟨3, 0⟩) (.reference ⟨3, 0⟩) := .kept (.reference rfl)
  have page := Kept.dictionary <| .cons (Bytes.ofText "Contents") contents <|
    .cons (Bytes.ofText "Resources") resources .nil
  have image := Kept.stream (.cons (Bytes.ofText "Subtype") subtype .nil) [1, 2]
  have content := Kept.stream (.cons (Bytes.ofText "Filter") filter .nil) [55, 49, 62]
  refine movedOutOfList rfl (by decide) ?_
  exact .cons ⟨rfl, page⟩ (.cons ⟨rfl, image⟩ (.cons ⟨rfl, content⟩ .nil))

theorem indirectSubtypeLost :
    (∀ node ∈ directValues.ancestors ancestorLimit ⟨1, 0⟩,
      indirectValues.parent? node = directValues.parent? node) ∧
    indirectValues.pageContent ⟨1, 0⟩ = directValues.pageContent ⟨1, 0⟩ ∧
    indirectValues.lookup ⟨1, 0⟩ (Bytes.ofText "Im") ≠
      directValues.lookup ⟨1, 0⟩ (Bytes.ofText "Im") := by
  have parents : ∀ node ∈ directValues.ancestors ancestorLimit ⟨1, 0⟩,
      indirectValues.parent? node = directValues.parent? node := by decide
  obtain ⟨content, _, names⟩ := movedOutExact valuesMoved rfl parents
  refine ⟨parents, content ?_, ?_⟩
  · rintro e mem ⟨filters, p, p', _, pair, _⟩
    cases List.mem_singleton.mp mem
    cases List.mem_of_mem_take pair
  · rw [ne_eq, names]
    intro intact
    exact intact _ _ [1, 2] rfl rfl (.subtype rfl rfl imageTold)

end Document
end PaintedImages
