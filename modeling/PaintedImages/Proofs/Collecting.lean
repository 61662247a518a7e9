import PaintedImages.Extraction.Collector
import PaintedImages.Proofs.Base64

/-! Runs of a collection. A call has one of three outcomes, and each follows from the payloads of
the calls before it alone: a payload that cannot be had, one whose fingerprint came before, or a
new record. The records of a run are the first occurrences of their fingerprints, in order. Nothing
here needs that different payloads have different fingerprints. -/
namespace PaintedImages

def Options.payload (options : Options) (image : Image) : Except Fault Bytes :=
  match options.policy with
  | .raw => .ok image.content
  | .unfiltered => (image.unfiltered options.sizeLimit).value

structure Sample where
  image : Image
  payload : Bytes
  deriving DecidableEq, Repr

namespace Sample

def fingerprint (s : Sample) : Fingerprint := Fingerprint.of s.payload

def record (options : Options) (s : Sample) : Record :=
  ⟨s.image.suffix?.getD options.defaultFormat, Bytes.toText (Base64.encode s.payload)⟩

def ofImage? (options : Options) (image : Image) : Option Sample :=
  (options.payload image).toOption.map fun payload => ⟨image, payload⟩

theorem ofImageError {options image fault} (h : options.payload image = .error fault) :
    ofImage? options image = none := by
  rw [ofImage?, h]
  rfl

theorem ofImageOk {options image payload} (h : options.payload image = .ok payload) :
    ofImage? options image = some ⟨image, payload⟩ := by
  rw [ofImage?, h]
  rfl

theorem ofImageExact {options image s} :
    ofImage? options image = some s ↔ s.image = image ∧ options.payload image = .ok s.payload := by
  cases h : options.payload image with
  | error fault => simp [ofImageError h]
  | ok payload =>
    rw [ofImageOk h]
    constructor
    · intro same
      cases Option.some.inj same
      exact ⟨rfl, rfl⟩
    · rintro ⟨rfl, same⟩
      cases same
      rfl

theorem recordPayload (options : Options) (s : Sample) :
    (s.record options).payload = .ok s.payload :=
  Record.payloadEncode _ s.payload

end Sample

def firsts {α β : Type} [DecidableEq β] (key : α → β) : List α → List α
  | [] => []
  | a :: rest => a :: (firsts key rest).filter fun b => key b ≠ key a

section Firsts
variable {α β : Type} [DecidableEq β] {key : α → β}

theorem firstsNodup (l : List α) : ((firsts key l).map key).Nodup := by
  induction l with
  | nil => exact List.nodup_nil
  | cons a rest ih =>
    simp only [firsts, List.map_cons, List.nodup_cons]
    refine ⟨?_, ih.sublist (List.filter_sublist.map key)⟩
    intro mem
    obtain ⟨b, kept, same⟩ := List.mem_map.mp mem
    have different := (List.mem_filter.mp kept).2
    simp only [decide_eq_true_eq] at different
    exact different same

theorem firstsCover {l : List α} {a : α} (mem : a ∈ l) : ∃ b ∈ firsts key l, key b = key a := by
  induction l with
  | nil => contradiction
  | cons head rest ih =>
    by_cases same : key head = key a
    · exact ⟨head, List.mem_cons_self, same⟩
    · rcases List.mem_cons.mp mem with rfl | later
      · exact absurd rfl same
      · obtain ⟨b, kept, equal⟩ := ih later
        have different : key b ≠ key head := by
          rw [equal]
          exact Ne.symm same
        have stays : b ∈ (firsts key rest).filter fun b => key b ≠ key head :=
          List.mem_filter.mpr ⟨kept, decide_eq_true different⟩
        exact ⟨b, List.mem_cons_of_mem _ stays, equal⟩

/- What is left of the first occurrences once some keys are known: the head is dropped if its key
is one of them, and otherwise its key joins them for the rest. -/
theorem freshKnown {known : List β} {a : α} (mem : key a ∈ known) (rest : List α) :
    (firsts key (a :: rest)).filter (fun b => key b ∉ known) =
      (firsts key rest).filter fun b => key b ∉ known := by
  rw [firsts, List.filter_cons_of_neg (by simpa using mem), List.filter_filter]
  apply List.filter_congr
  intro b _
  by_cases old : key b ∈ known
  · simp [old]
  · have different : key b ≠ key a := fun same => old (same ▸ mem)
    simp [old, different]

theorem freshNew {known : List β} {a : α} (new : key a ∉ known) (rest : List α) :
    (firsts key (a :: rest)).filter (fun b => key b ∉ known) =
      a :: (firsts key rest).filter fun b => key b ∉ key a :: known := by
  rw [firsts, List.filter_cons_of_pos (by simpa using new), List.filter_filter]
  congr 1
  apply List.filter_congr
  intro b _
  simp [Bool.and_comm]

end Firsts

namespace Collector

def offer (c : Collector) (image : Image) : Except Fault Collected × Collector :=
  match (c.collect image).value with
  | .ok (answer, next) => (.ok answer, next)
  | .error fault => (.error fault, c)

def gather (c : Collector) (images : List Image) : Collector :=
  images.foldl (fun c image => (c.offer image).2) c

def answers (c : Collector) : List Image → List (Except Fault Collected)
  | [] => []
  | image :: rest => (c.offer image).1 :: answers (c.offer image).2 rest

def addedCount (answers : List (Except Fault Collected)) : Nat :=
  answers.countP fun
    | .ok (.added _) => true
    | _ => false

structure Configured (options : Options) (c : Collector) : Prop where
  policy : c.policy = options.policy
  label : c.defaultFormat = options.defaultFormat
  limit : c.sizeLimit = options.sizeLimit

theorem emptyConfigured (options : Options) : (empty options).Configured options := ⟨rfl, rfl, rfl⟩

def extended (c : Collector) (options : Options) (s : Sample) : Collector :=
  { c with records := c.records ++ [s.record options], seen := s.fingerprint :: c.seen }

section Steps
variable {options : Options} {c : Collector} (setup : c.Configured options)
include setup

theorem payloadConfigured (image : Image) : (c.payload image).value = options.payload image := by
  rw [Collector.payload, Options.payload, setup.policy, setup.limit]
  cases options.policy <;> rfl

theorem offerFails {image fault} (h : options.payload image = .error fault) :
    c.offer image = (.error fault, c) := by
  rw [← payloadConfigured setup] at h
  simp only [offer, collect, Traced.map, h, Except.map]

theorem offerKnown {s : Sample} (h : options.payload s.image = .ok s.payload)
    (old : s.fingerprint ∈ c.seen) : c.offer s.image = (.ok (.duplicate s.fingerprint), c) := by
  rw [← payloadConfigured setup] at h
  have known : c.seen.contains (Fingerprint.of s.payload) = true := by
    simpa [Sample.fingerprint] using old
  simp only [offer, collect, Traced.map, h, Except.map, add, known, if_true]
  rfl

theorem offerNew {s : Sample} (h : options.payload s.image = .ok s.payload)
    (new : s.fingerprint ∉ c.seen) :
    c.offer s.image = (.ok (.added c.records.length), c.extended options s) := by
  rw [← payloadConfigured setup] at h
  have fresh : ¬ c.seen.contains (Fingerprint.of s.payload) = true := by
    simpa [Sample.fingerprint] using new
  have label : c.format s.image = s.image.suffix?.getD options.defaultFormat := by
    rw [format, setup.label]
  simp only [offer, collect, Traced.map, h, Except.map, add, if_neg fresh, label]
  rfl

theorem extendedConfigured (s : Sample) : (c.extended options s).Configured options :=
  ⟨setup.policy, setup.label, setup.limit⟩

/- Everything a call can do. What a run keeps is proved from these three cases, not from `offer`. -/
theorem offerCases (image : Image) :
    (∃ fault, options.payload image = .error fault ∧ c.offer image = (.error fault, c)) ∨
    ∃ s : Sample, s.image = image ∧ options.payload image = .ok s.payload ∧
      ((s.fingerprint ∈ c.seen ∧ c.offer image = (.ok (.duplicate s.fingerprint), c)) ∨
        (s.fingerprint ∉ c.seen ∧
          c.offer image = (.ok (.added c.records.length), c.extended options s))) := by
  cases h : options.payload image with
  | error fault => exact .inl ⟨fault, rfl, offerFails setup h⟩
  | ok payload =>
    refine .inr ⟨⟨image, payload⟩, rfl, rfl, ?_⟩
    by_cases old : Sample.fingerprint ⟨image, payload⟩ ∈ c.seen
    · exact .inl ⟨old, offerKnown (s := ⟨image, payload⟩) setup h old⟩
    · exact .inr ⟨old, offerNew (s := ⟨image, payload⟩) setup h old⟩

theorem offerConfigured (image : Image) : (c.offer image).2.Configured options := by
  obtain ⟨fault, _, same⟩ | ⟨s, _, _, ⟨_, same⟩ | ⟨_, same⟩⟩ := offerCases setup image
  · rw [same]
    exact setup
  · rw [same]
    exact setup
  · rw [same]
    exact extendedConfigured setup s

theorem offerFailsExact (image : Image) :
    (∃ fault, (c.offer image).1 = .error fault) ↔
      ∃ fault, options.payload image = .error fault := by
  obtain ⟨fault, h, same⟩ | ⟨s, _, h, ⟨_, same⟩ | ⟨_, same⟩⟩ := offerCases setup image
  · rw [same, h]
    exact ⟨fun _ => ⟨fault, rfl⟩, fun _ => ⟨fault, rfl⟩⟩
  · simp [same, h]
  · simp [same, h]

theorem offerDuplicateExact (image : Image) (f : Fingerprint) :
    (c.offer image).1 = .ok (.duplicate f) ↔
      ∃ payload, options.payload image = .ok payload ∧ Fingerprint.of payload = f ∧ f ∈ c.seen := by
  obtain ⟨fault, h, same⟩ | ⟨s, _, h, ⟨old, same⟩ | ⟨new, same⟩⟩ := offerCases setup image
  · simp [same, h]
  · simp only [same, h, Except.ok.injEq, Collected.duplicate.injEq, exists_eq_left']
    exact ⟨fun equal => ⟨equal, equal ▸ old⟩, fun found => found.1⟩
  · simp only [same, h, Except.ok.injEq, reduceCtorEq, exists_eq_left', false_iff, not_and]
    rintro rfl
    exact new

theorem offerAdded {image : Image} {i : Nat} (added : (c.offer image).1 = .ok (.added i)) :
    i = c.records.length ∧ ∃ s : Sample, s.image = image ∧ options.payload image = .ok s.payload ∧
      (c.offer image).2.records = c.records ++ [s.record options] := by
  obtain ⟨fault, _, same⟩ | ⟨s, found, h, ⟨_, same⟩ | ⟨_, same⟩⟩ := offerCases setup image
  · simp [same] at added
  · simp [same] at added
  · rw [same] at added ⊢
    cases added
    exact ⟨rfl, s, found, h, rfl⟩

theorem offerKept {image : Image} (other : ∀ i, (c.offer image).1 ≠ .ok (.added i)) :
    (c.offer image).2 = c := by
  obtain ⟨fault, _, same⟩ | ⟨s, _, _, ⟨_, same⟩ | ⟨_, same⟩⟩ := offerCases setup image
  · rw [same]
  · rw [same]
  · exact absurd (congrArg Prod.fst same) (other _)

end Steps

theorem gatherAppend (c : Collector) (before after : List Image) :
    c.gather (before ++ after) = (c.gather before).gather after :=
  List.foldl_append

theorem answersAppend (c : Collector) (before after : List Image) :
    c.answers (before ++ after) = c.answers before ++ (c.gather before).answers after := by
  induction before generalizing c with
  | nil => rfl
  | cons image rest ih => simp only [List.cons_append, answers, ih, gather, List.foldl_cons]

section Runs
variable {options : Options}

theorem gatherConfigured {c : Collector} (setup : c.Configured options) (images : List Image) :
    (c.gather images).Configured options := by
  induction images generalizing c with
  | nil => exact setup
  | cons image rest ih => exact ih (offerConfigured setup image)

theorem gatherRecords {c : Collector} (setup : c.Configured options) (images : List Image) :
    (c.gather images).records = c.records ++
      ((firsts Sample.fingerprint (images.filterMap (Sample.ofImage? options))).filter
        fun s => s.fingerprint ∉ c.seen).map (Sample.record options) := by
  induction images generalizing c with
  | nil => simp [gather, firsts]
  | cons image rest ih =>
    change ((c.offer image).2.gather rest).records = _
    obtain ⟨fault, h, same⟩ | ⟨s, rfl, h, ⟨old, same⟩ | ⟨new, same⟩⟩ := offerCases setup image
    · rw [same, ih setup, List.filterMap_cons_none (Sample.ofImageError h)]
    · rw [same, ih setup, List.filterMap_cons_some (Sample.ofImageOk h), freshKnown old]
    · rw [same, ih (extendedConfigured setup s), List.filterMap_cons_some (Sample.ofImageOk h),
        freshNew new]
      simp only [extended, List.map_cons, List.append_assoc, List.singleton_append]
      rfl

theorem seenGather {c : Collector} (setup : c.Configured options) (images : List Image)
    (f : Fingerprint) :
    f ∈ (c.gather images).seen ↔ f ∈ c.seen ∨
      ∃ s ∈ images.filterMap (Sample.ofImage? options), s.fingerprint = f := by
  induction images generalizing c with
  | nil => simp [gather]
  | cons image rest ih =>
    change f ∈ ((c.offer image).2.gather rest).seen ↔ _
    obtain ⟨fault, h, same⟩ | ⟨s, rfl, h, ⟨old, same⟩ | ⟨_, same⟩⟩ := offerCases setup image
    · rw [same, ih setup, List.filterMap_cons_none (Sample.ofImageError h)]
    · rw [same, ih setup, List.filterMap_cons_some (Sample.ofImageOk h)]
      simp only [List.mem_cons, exists_eq_or_imp]
      constructor
      · rintro (known | later)
        · exact .inl known
        · exact .inr (.inr later)
      · rintro (known | equal | later)
        · exact .inl known
        · exact .inl (equal ▸ old)
        · exact .inr later
    · rw [same, ih (extendedConfigured setup s), List.filterMap_cons_some (Sample.ofImageOk h)]
      simp only [extended, List.mem_cons, exists_eq_or_imp, or_assoc, eq_comm (a := f)]
      exact or_left_comm

theorem addedCountCons (answer : Except Fault Collected) (rest : List (Except Fault Collected)) :
    addedCount (answer :: rest) = addedCount [answer] + addedCount rest := by
  rw [addedCount, addedCount, addedCount, List.countP_cons, List.countP_singleton, Nat.add_comm]

theorem addedGather {c : Collector} (setup : c.Configured options) (images : List Image) :
    (c.gather images).records.length = c.records.length + addedCount (c.answers images) := by
  induction images generalizing c with
  | nil => rfl
  | cons image rest ih =>
    have tail := ih (offerConfigured setup image)
    change ((c.offer image).2.gather rest).records.length = _
    rw [tail, answers, addedCountCons, ← Nat.add_assoc]
    congr 1
    obtain ⟨fault, _, same⟩ | ⟨s, _, _, ⟨_, same⟩ | ⟨_, same⟩⟩ := offerCases setup image
    · rw [same]
      rfl
    · rw [same]
      rfl
    · rw [same]
      exact List.length_append

theorem seenRun (before : List Image) (f : Fingerprint) :
    f ∈ ((empty options).gather before).seen ↔
      ∃ earlier ∈ before, ∃ payload, options.payload earlier = .ok payload ∧
        Fingerprint.of payload = f := by
  rw [seenGather (emptyConfigured options)]
  constructor
  · rintro (before | ⟨s, mem, same⟩)
    · contradiction
    · obtain ⟨image, called, found⟩ := List.mem_filterMap.mp mem
      obtain ⟨rfl, payload⟩ := Sample.ofImageExact.mp found
      exact ⟨s.image, called, s.payload, payload, same⟩
  · rintro ⟨image, called, payload, h, same⟩
    exact .inr ⟨⟨image, payload⟩, List.mem_filterMap.mpr ⟨image, called, Sample.ofImageOk h⟩, same⟩

end Runs

/- What an answer says about the payload offered, the payloads offered before it, and the records
before and after it. -/
theorem callExact (options : Options) (before : List Image) (image : Image) :
    let start := empty options
    let c := start.gather before
    let answer := (c.offer image).1
    let next := (c.offer image).2
    (∀ later, start.answers (before ++ image :: later) =
      start.answers before ++ answer :: next.answers later) ∧
    ((∃ fault, answer = .error fault) ↔ ∃ fault, options.payload image = .error fault) ∧
    (∀ fault, answer = .error fault →
      next.records = c.records ∧ ∀ later, next.answers later = c.answers later ∧
        (next.gather later).records = (c.gather later).records) ∧
    (∀ f, answer = .ok (.duplicate f) ↔
      ∃ payload, options.payload image = .ok payload ∧ Fingerprint.of payload = f ∧
        ∃ earlier ∈ before, ∃ payload, options.payload earlier = .ok payload ∧
          Fingerprint.of payload = f) ∧
    (∀ f, answer = .ok (.duplicate f) → next.records = c.records) ∧
    (∀ i, answer = .ok (.added i) →
      i = addedCount (start.answers before) ∧ i = c.records.length ∧
      ∃ (payload : Bytes) (record : Record), options.payload image = .ok payload ∧
        record.payload = .ok payload ∧
        record.format = image.suffix?.getD options.defaultFormat ∧
        next.records = c.records ++ [record]) := by
  intro start c answer next
  have setup : c.Configured options := gatherConfigured (emptyConfigured options) before
  have count : c.records.length = addedCount (start.answers before) := by
    have total := addedGather (emptyConfigured options) before
    exact total.trans (Nat.zero_add _)
  refine ⟨fun later => answersAppend start before (image :: later), offerFailsExact setup image,
    ?_, ?_, ?_, ?_⟩
  · intro fault failed
    have kept : next = c := offerKept setup fun i added => by simp [answer, added] at failed
    rw [kept]
    exact ⟨rfl, fun later => ⟨rfl, rfl⟩⟩
  · intro f
    rw [← seenRun before f]
    exact offerDuplicateExact setup image f
  · intro f duplicate
    have kept : next = c := offerKept setup fun i added => by simp [answer, added] at duplicate
    rw [kept]
  · intro i added
    obtain ⟨index, s, rfl, h, grown⟩ := offerAdded setup added
    exact ⟨index.trans count, index, s.payload, s.record options, h, s.recordPayload options, rfl,
      grown⟩

end Collector
end PaintedImages
