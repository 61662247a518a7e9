import PaintedImages.Proofs.Chains
import PaintedImages.Proofs.FirstPaints

/-! The limit on unfiltered sizes. Every stage of a chain is held to it, so a payload that went
through a container keeps to the limit whatever the stored bytes and the parameters. Where no
container stands before the first image codec there is no stage, and the stored bytes are passed on
whatever their size. -/
namespace PaintedImages

namespace Filter

/- One stage is enough: what follows it either is a stage again or stops at its output. -/
theorem undoAllSize {limit : Nat} (positive : 0 < limit) {filters : List Filter}
    {ps : ParameterList} {data out : Bytes} (ok : (undoAll limit filters ps data).value = .ok out) :
    (filters.head?.all isImageCodec = true ∧ out = data) ∨ out.length ≤ limit := by
  induction filters generalizing ps data with
  | nil =>
    cases ok
    exact .inl ⟨rfl, rfl⟩
  | cons filter rest ih =>
    cases kind : filter.isImageCodec with
    | true =>
      rw [undoAllCodec kind] at ok
      cases ok
      exact .inl ⟨kind, rfl⟩
    | false =>
      rw [undoAllContainer kind] at ok
      obtain ⟨inner, stage, rest⟩ := andThenOk ok
      obtain ⟨_, rfl⟩ | within := ih rest
      · exact .inr (undoSize positive stage)
      · exact .inr within

end Filter

namespace Image

def isBare (image : Image) : Bool := image.filters.head?.all Filter.isImageCodec

theorem unfilteredBare {image : Image} (bare : image.isBare = true) (limit : Nat) :
    (image.unfiltered limit).value = .ok image.content := by
  rw [isBare] at bare
  rw [unfiltered]
  cases filters : image.filters with
  | nil => rfl
  | cons filter rest =>
    rw [filters] at bare
    have codec : filter.isImageCodec = true := bare
    rw [Filter.undoAllCodec codec]
    rfl

end Image

theorem firstsMem {α β : Type} [DecidableEq β] {key : α → β} {l : List α} {a : α}
    (mem : a ∈ firsts key l) : a ∈ l := by
  induction l with
  | nil => contradiction
  | cons head rest ih =>
    obtain rfl | later := List.mem_cons.mp mem
    · exact List.mem_cons_self
    · exact List.mem_cons_of_mem _ (ih (List.mem_filter.mp later).1)

namespace Report

/- Every record holds the payload of an image that a selected page paints. -/
theorem recordPainted {source : PageSource} {options : Options} {r : Record}
    (mem : r ∈ (extract source options).value.records) :
    ∃ image ∈ source.images (source.selected options.pages), ∃ payload,
      options.payload image = .ok payload ∧ r.payload = .ok payload := by
  rw [extractRecords] at mem
  obtain ⟨s, first, rfl⟩ := List.mem_map.mp mem
  obtain ⟨image, painted, sampled⟩ := List.mem_filterMap.mp (firstsMem first)
  obtain ⟨rfl, payload⟩ := Sample.ofImageExact.mp sampled
  exact ⟨s.image, painted, s.payload, payload, s.recordPayload options⟩

/- The two cases of the last part are told apart by the chain alone. -/
theorem sizesLimited (options : Options) (unfiltered : options.policy = .unfiltered)
    (positive : 0 < options.sizeLimit) :
    (∀ image : Image, image.isBare = true →
      (image.unfiltered options.sizeLimit).value = .ok image.content) ∧
    (∀ (image : Image) (payload : Bytes), image.isBare = false →
      (image.unfiltered options.sizeLimit).value = .ok payload →
      payload.length ≤ options.sizeLimit) ∧
    ∀ source, ∀ r ∈ (extract source options).value.records, ∃ payload, r.payload = .ok payload ∧
      (payload.length ≤ options.sizeLimit ∨
        ∃ image ∈ source.images (source.selected options.pages),
          image.isBare = true ∧ image.content = payload) := by
  have within (image : Image) (payload : Bytes) (held : image.isBare = false)
      (ok : (image.unfiltered options.sizeLimit).value = .ok payload) :
      payload.length ≤ options.sizeLimit := by
    obtain ⟨bare, _⟩ | within := Filter.undoAllSize positive ok
    · rw [Image.isBare, bare] at held
      contradiction
    · exact within
  refine ⟨fun image bare => Image.unfilteredBare bare _, within, ?_⟩
  intro source r mem
  obtain ⟨image, painted, payload, ok, stored⟩ := recordPainted mem
  refine ⟨payload, stored, ?_⟩
  have ok : (image.unfiltered options.sizeLimit).value = .ok payload := by
    simpa only [Options.payload, unfiltered] using ok
  cases bare : image.isBare with
  | false => exact .inl (within image payload bare ok)
  | true =>
    have passed := Image.unfilteredBare bare options.sizeLimit
    rw [ok] at passed
    exact .inr ⟨image, painted, bare, (Except.ok.inj passed).symm⟩

theorem bareImageUnlimited :
    let options : Options := { policy := .unfiltered, sizeLimit := 1 }
    let image : Image := { content := [255, 216], filters := [.dct] }
    let packed : Image := { content := [53, 62], filters := [.hexadecimal] }
    options.policy = .unfiltered ∧ 0 < options.sizeLimit ∧ image.isBare = true ∧
    (image.unfiltered options.sizeLimit).value = .ok [255, 216] ∧
    packed.isBare = false ∧ (packed.unfiltered options.sizeLimit).value = .ok [80] ∧
    ([80] : Bytes).length ≤ options.sizeLimit ∧
    ∃ r ∈ (extract sharedImage options).value.records, ∃ payload, r.payload = .ok payload ∧
      (payload.length ≤ options.sizeLimit ∨
        ∃ image ∈ sharedImage.images (sharedImage.selected options.pages),
          image.isBare = true ∧ image.content = payload) := by
  intro options image packed
  have positive : 0 < options.sizeLimit := by decide
  have bare : image.isBare = true := rfl
  have held : packed.isBare = false := rfl
  have unpacked : (packed.unfiltered options.sizeLimit).value = .ok [80] := by decide
  obtain ⟨passed, within, recorded⟩ := sizesLimited options rfl positive
  have painted : (⟨image, [255, 216]⟩ : Sample) ∈ sharedImage.samples options := by decide
  obtain ⟨r, kept, _⟩ := sampleRecorded painted
  rw [← extractRecords] at kept
  exact ⟨rfl, positive, bare, passed image bare, held, unpacked, within packed [80] held unpacked,
    r, kept, recorded sharedImage r kept⟩

end Report
end PaintedImages
