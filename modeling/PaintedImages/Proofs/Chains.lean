import PaintedImages.Filter.Chain
import PaintedImages.Proofs.Outcomes

/-! Laws of filter chains. A chain is undone by undoing its front and going on with what came out;
what stands at its first image codec or behind it plays no part. Parameters are looked at where
Flate and LZW stand and nowhere else. A limit changes no bytes, it only refuses a chain one of whose
stages puts out too much. -/
namespace PaintedImages

namespace Filter

section Steps
variable {filter : Filter} {limit : Nat} {filters : List Filter} {ps : ParameterList} {data : Bytes}

theorem undoAllCodec (codec : filter.isImageCodec = true) :
    undoAll limit (filter :: filters) ps data = .silent (.ok data) := by
  rw [undoAll, if_pos codec]

theorem undoAllContainer (container : filter.isImageCodec = false) :
    undoAll limit (filter :: filters) ps data =
      (filter.undo ps.head?.join limit data).andThen (undoAll limit filters ps.tail) := by
  rw [undoAll, if_neg (Bool.eq_false_iff.mp container)]

end Steps

def containers (filters : List Filter) : List Filter :=
  filters.takeWhile fun filter => !filter.isImageCodec

theorem containersCodec {filter : Filter} (codec : filter.isImageCodec = true)
    (filters : List Filter) : containers (filter :: filters) = [] := by
  rw [containers, List.takeWhile_cons_of_neg (by simp [codec])]

theorem containersCons {filter : Filter} (container : filter.isImageCodec = false)
    (filters : List Filter) : containers (filter :: filters) = filter :: containers filters := by
  rw [containers, List.takeWhile_cons_of_pos (by simp [container]), containers]

theorem containersPlace {filters : List Filter} {i : Nat} {filter : Filter}
    (found : (containers filters)[i]? = some filter) : filters[i]? = some filter := by
  obtain ⟨rest, whole⟩ : containers filters <+: filters := List.takeWhile_prefix _
  obtain ⟨inside, _⟩ := List.getElem?_eq_some_iff.mp found
  rw [← whole, List.getElem?_append_left inside, found]

/- A codec ends the chain, so nothing that follows it is looked at. -/
theorem containersAppend {first : List Filter}
    (ended : ∃ filter ∈ first, filter.isImageCodec = true) (second : List Filter) :
    containers (first ++ second) = containers first := by
  obtain ⟨codec, mem, found⟩ := ended
  induction first with
  | nil => contradiction
  | cons filter rest ih =>
    rw [List.cons_append]
    cases kind : filter.isImageCodec with
    | true => rw [containersCodec kind, containersCodec kind]
    | false =>
      rw [containersCons kind, containersCons kind, ih]
      obtain rfl | later := List.mem_cons.mp mem
      · rw [found] at kind
        contradiction
      · exact later

theorem undoAllContainers (limit : Nat) (filters : List Filter) (ps : ParameterList)
    (data : Bytes) :
    undoAll limit filters ps data = undoAll limit (containers filters) ps data := by
  induction filters generalizing ps data with
  | nil => rfl
  | cons filter rest ih =>
    cases kind : filter.isImageCodec with
    | true =>
      rw [undoAllCodec kind, containersCodec kind]
      rfl
    | false =>
      rw [undoAllContainer kind, containersCons kind, undoAllContainer kind]
      exact andThenCongr fun out _ => ih ps.tail out

def Idle (p : Option DecodeParameters) : Prop := ∀ q, p = some q → q.predictor ≤ 1

def Interchanges : Filter → Option DecodeParameters → Option DecodeParameters → Prop
  | flate, p, q => p = q ∨ Idle p ∧ Idle q
  | lzw, p, q => p = q
  | _, _, _ => True

section Interchanged
variable {filter : Filter} {p q : Option DecodeParameters}

theorem interchangesSame (same : filter = flate ∨ filter = lzw → p = q) :
    filter.Interchanges p q := by
  cases filter with
  | flate => exact .inl (same (.inl rfl))
  | lzw => exact same (.inr rfl)
  | _ => trivial

theorem unpredictIdle (idle : Idle p) (data : Bytes) : filter.unpredict p data = .ok data := by
  cases p with
  | none => rfl
  | some q =>
    have low : ¬1 < q.predictor := Int.not_lt.mpr (idle q rfl)
    rw [unpredict, if_neg fun asked => low asked.2]

theorem unpredictPlain (plain : filter.isPredictable = false) (data : Bytes) :
    filter.unpredict p data = .ok data := by
  cases p with
  | none => rfl
  | some q => rw [unpredict, if_neg (by simp [plain])]

theorem unpackInterchanged (interchanged : filter.Interchanges p q) (data : Bytes) :
    filter.unpack p data = filter.unpack q data := by
  cases filter with
  | lzw =>
    have same : p = q := interchanged
    rw [same]
  | _ => rfl

theorem unpredictInterchanged (interchanged : filter.Interchanges p q) (data : Bytes) :
    filter.unpredict p data = filter.unpredict q data := by
  cases filter with
  | flate =>
    obtain rfl | ⟨first, second⟩ := interchanged
    · rfl
    · rw [unpredictIdle first, unpredictIdle second]
  | lzw =>
    have same : p = q := interchanged
    rw [same]
  | _ => rw [unpredictPlain rfl, unpredictPlain rfl]

theorem undoInterchanged (interchanged : filter.Interchanges p q) (limit : Nat) (data : Bytes) :
    filter.undo p limit data = filter.undo q limit data := by
  simp only [undo, unpackInterchanged interchanged, unpredictInterchanged interchanged]

end Interchanged

/- Heads of the lists go with the head of the chain, so each filter keeps its own place. -/
theorem undoAllInterchanged {filters : List Filter} {ps qs : ParameterList}
    (interchanged : ∀ (i : Nat) (filter : Filter), (containers filters)[i]? = some filter →
      filter.Interchanges ps[i]?.join qs[i]?.join) (limit : Nat) (data : Bytes) :
    undoAll limit filters ps data = undoAll limit filters qs data := by
  induction filters generalizing ps qs data with
  | nil => rfl
  | cons filter rest ih =>
    cases kind : filter.isImageCodec with
    | true => rw [undoAllCodec kind, undoAllCodec kind]
    | false =>
      rw [containersCons kind] at interchanged
      have head : filter.Interchanges ps.head?.join qs.head?.join := by
        simpa only [List.head?_eq_getElem?] using interchanged 0 filter rfl
      have tail (out : Bytes) :
          undoAll limit rest ps.tail out = undoAll limit rest qs.tail out := by
        refine ih (fun i other found => ?_) out
        simpa only [List.getElem?_tail] using interchanged (i + 1) other found
      rw [undoAllContainer kind, undoAllContainer kind, undoInterchanged head]
      exact andThenCongr fun out _ => tail out

/- A place past the end of a list counts as one without parameters. -/
theorem parametersKept (limit : Nat) (filters : List Filter) (data : Bytes) :
    (∀ ps qs : ParameterList,
      (∀ (i : Nat) (filter : Filter), (containers filters)[i]? = some filter →
        filter = flate ∨ filter = lzw → ps[i]?.join = qs[i]?.join) →
      undoAll limit filters ps data = undoAll limit filters qs data) ∧
    ∀ (before after : ParameterList) (p : DecodeParameters),
      filters[before.length]? = some flate → p.predictor ≤ 1 →
      undoAll limit filters (before ++ none :: after) data =
        undoAll limit filters (before ++ some p :: after) data := by
  constructor
  · intro ps qs agree
    exact undoAllInterchanged (fun i filter found => interchangesSame (agree i filter found)) limit
      data
  · intro before after p place low
    have replaced : before ++ some p :: after =
        (before ++ none :: after).set before.length (some p) := by simp
    refine undoAllInterchanged (fun i filter found => ?_) limit data
    by_cases here : before.length = i
    · subst here
      obtain rfl : flate = filter := Option.some.inj (place.symm.trans (containersPlace found))
      have emptyHere : (before ++ none :: after)[before.length]? = some none := by simp
      have idleHere : (before ++ some p :: after)[before.length]? = some (some p) := by simp
      rw [emptyHere, idleHere]
      refine .inr ⟨nofun, fun q same => ?_⟩
      cases same
      exact low
    · rw [replaced, List.getElem?_set_ne here]
      exact interchangesSame fun _ => rfl

/- The parameters beside a text filter and behind a codec, and a predictor that is none. -/
theorem strayParametersUnseen :
    let chain : List Filter := [.hexadecimal, .dct, .lzw]
    let stray : ParameterList := [some { predictor := 12 }, none, some { earlyChange := false }]
    let idle : DecodeParameters := { predictor := -1, columns := 9 }
    let stored : Bytes := [1, 1, 0, 254, 255, 65]
    (∀ (i : Nat) (filter : Filter), (containers chain)[i]? = some filter →
      filter = flate ∨ filter = lzw → stray[i]?.join = ([] : ParameterList)[i]?.join) ∧
    undoAll 0 chain stray [52, 49, 62] = undoAll 0 chain [] [52, 49, 62] ∧
    ([.flate] : List Filter)[([] : ParameterList).length]? = some flate ∧ idle.predictor ≤ 1 ∧
    undoAll 0 [.flate] [none] stored = undoAll 0 [.flate] [some idle] stored := by
  intro chain stray idle stored
  have agree (i : Nat) (filter : Filter) (found : (containers chain)[i]? = some filter)
      (asked : filter = flate ∨ filter = lzw) :
      stray[i]?.join = ([] : ParameterList)[i]?.join := by
    cases i with
    | zero =>
      obtain rfl : Filter.hexadecimal = filter := Option.some.inj found
      simp at asked
    | succ i => contradiction
  have low : idle.predictor ≤ 1 := by decide
  exact ⟨agree, (parametersKept 0 chain [52, 49, 62]).1 stray [] agree, rfl, low,
    (parametersKept 0 [.flate] stored).2 [] [] idle rfl low⟩

theorem undoAllAppend {first : List Filter}
    (plain : ∀ filter ∈ first, filter.isImageCodec = false) (limit : Nat) (second : List Filter)
    (ps : ParameterList) (data : Bytes) :
    undoAll limit (first ++ second) ps data =
      (undoAll limit first ps data).andThen (undoAll limit second (ps.drop first.length)) := by
  induction first generalizing ps data with
  | nil => rfl
  | cons filter rest ih =>
    have container := plain filter List.mem_cons_self
    have later := ih fun other mem => plain other (List.mem_cons_of_mem filter mem)
    rw [List.cons_append, undoAllContainer container, undoAllContainer container,
      andThenAssoc, List.length_cons, ← List.drop_tail]
    exact andThenCongr fun out _ => later ps.tail out

theorem chainsJoined (limit : Nat) (first second : List Filter) (ps : ParameterList)
    (data : Bytes) :
    ((∀ filter ∈ first, filter.isImageCodec = false) →
      undoAll limit (first ++ second) ps data =
        (undoAll limit first ps data).andThen (undoAll limit second (ps.drop first.length))) ∧
    ((∃ filter ∈ first, filter.isImageCodec = true) →
      ∀ qs : ParameterList, (∀ i < first.length, qs[i]?.join = ps[i]?.join) →
        undoAll limit (first ++ second) qs data = undoAll limit first ps data) := by
  refine ⟨fun plain => undoAllAppend plain limit second ps data, fun ended qs front => ?_⟩
  have interchanged (i : Nat) (filter : Filter) (found : (containers first)[i]? = some filter) :
      filter.Interchanges qs[i]?.join ps[i]?.join := by
    obtain ⟨inside, _⟩ := List.getElem?_eq_some_iff.mp (containersPlace found)
    exact interchangesSame fun _ => front i inside
  calc undoAll limit (first ++ second) qs data
      = undoAll limit (containers first) qs data := by
        rw [undoAllContainers, containersAppend ended]
    _ = undoAll limit first qs data := (undoAllContainers limit first qs data).symm
    _ = undoAll limit first ps data := undoAllInterchanged interchanged limit data

/- A text that holds runs, and a text that ends at a codec with more named behind it. -/
theorem runsInTextJoined :
    let text : Bytes := [48, 48, 52, 49, 56, 48, 62]
    let runs : Filter := .runLength
    let further : ParameterList := [none, none, some { predictor := 2 }]
    (∀ filter ∈ [hexadecimal], filter.isImageCodec = false) ∧
    undoAll 0 ([.hexadecimal] ++ [runs]) [] text =
      (undoAll 0 [.hexadecimal] [] text).andThen (undoAll 0 [runs] []) ∧
    (∃ filter ∈ [hexadecimal, dct], filter.isImageCodec = true) ∧
    (∀ i < 2, further[i]?.join = ([] : ParameterList)[i]?.join) ∧
    undoAll 0 ([.hexadecimal, .dct] ++ [.flate]) further text =
      undoAll 0 [.hexadecimal, .dct] [] text := by
  intro text runs further
  have plain : ∀ filter ∈ [hexadecimal], filter.isImageCodec = false := by decide
  have ended : ∃ filter ∈ [hexadecimal, dct], filter.isImageCodec = true := by decide
  have front : ∀ i < 2, further[i]?.join = ([] : ParameterList)[i]?.join := by decide
  exact ⟨plain, (chainsJoined 0 [.hexadecimal] [runs] [] text).1 plain, ended, front,
    (chainsJoined 0 [.hexadecimal, .dct] [.flate] [] text).2 ended further front⟩

def outputs : List Filter → ParameterList → Bytes → List Bytes
  | [], _, _ => []
  | filter :: filters, ps, data =>
    if filter.isImageCodec then []
    else match (filter.undo ps.head?.join 0 data).value with
      | .ok out => out :: outputs filters ps.tail out
      | .error _ => []

section Limits
variable {filter : Filter} {p : Option DecodeParameters} {limit : Nat} {data out : Bytes}

theorem limitedSize (positive : 0 < limit) (ok : filter.limited limit data = .ok out) :
    out.length ≤ limit := by
  unfold limited at ok
  split at ok
  · contradiction
  · rename_i within
    cases ok
    omega

theorem limitedWithin (within : limit = 0 ∨ data.length ≤ limit) :
    filter.limited limit data = .ok data := by
  rw [limited, if_neg (by omega)]

/- The limit of a stage is looked at last. -/
theorem undoLimited (filter : Filter) (p : Option DecodeParameters) (limit : Nat) (data : Bytes) :
    filter.undo p limit data =
      (filter.undo p 0 data).map fun restored => restored.bind (filter.limited limit) := by
  simp only [undo, Traced.map]
  cases (filter.unpack p data).value with
  | error fault => rfl
  | ok unpacked =>
    cases found : filter.unpredict p unpacked with
    | error fault => simp only [Except.bind, found]
    | ok restored => simp only [Except.bind, found, limitedWithin (.inl rfl)]

theorem undoSize (positive : 0 < limit) (ok : (filter.undo p limit data).value = .ok out) :
    out.length ≤ limit := by
  rw [undoLimited] at ok
  obtain ⟨restored, _, passed⟩ := bindOk ok
  exact limitedSize positive passed

theorem undoUnlimited (ok : (filter.undo p limit data).value = .ok out) :
    (filter.undo p 0 data).value = .ok out := by
  rw [undoLimited] at ok
  obtain ⟨restored, found, passed⟩ := bindOk ok
  unfold limited at passed
  split at passed
  · contradiction
  · rw [found, passed]

theorem undoWithin
    (within : ∀ out, (filter.undo p 0 data).value = .ok out → out.length ≤ limit) :
    filter.undo p limit data = filter.undo p 0 data := by
  have passed : (filter.undo p 0 data).value.bind (filter.limited limit) =
      (filter.undo p 0 data).value := by
    cases found : (filter.undo p 0 data).value with
    | error fault => rfl
    | ok out => exact limitedWithin (.inr (within out found))
  rw [undoLimited, Traced.map, passed]

end Limits

section Outputs
variable {filter : Filter} {filters : List Filter} {ps : ParameterList} {data out : Bytes}

theorem outputsCodec (codec : filter.isImageCodec = true) :
    outputs (filter :: filters) ps data = [] := by
  rw [outputs, if_pos codec]

theorem outputsContainer (container : filter.isImageCodec = false)
    (ok : (filter.undo ps.head?.join 0 data).value = .ok out) :
    outputs (filter :: filters) ps data = out :: outputs filters ps.tail out := by
  rw [outputs, if_neg (Bool.eq_false_iff.mp container), ok]

end Outputs

theorem outputsWithin {limit : Nat} (positive : 0 < limit) {filters : List Filter}
    {ps : ParameterList} {data out : Bytes} (ok : (undoAll limit filters ps data).value = .ok out) :
    ∀ stage ∈ outputs filters ps data, stage.length ≤ limit := by
  induction filters generalizing ps data with
  | nil => nofun
  | cons filter rest ih =>
    cases kind : filter.isImageCodec with
    | true =>
      rw [outputsCodec kind]
      nofun
    | false =>
      rw [undoAllContainer kind] at ok
      obtain ⟨inner, stage, later⟩ := andThenOk ok
      rw [outputsContainer kind (undoUnlimited stage), List.forall_mem_cons]
      exact ⟨undoSize positive stage, ih later⟩

theorem undoAllWithin {limit : Nat} {filters : List Filter} {ps : ParameterList} {data : Bytes}
    (within : ∀ stage ∈ outputs filters ps data, stage.length ≤ limit) :
    undoAll limit filters ps data = undoAll 0 filters ps data := by
  induction filters generalizing ps data with
  | nil => rfl
  | cons filter rest ih =>
    cases kind : filter.isImageCodec with
    | true => rw [undoAllCodec kind, undoAllCodec kind]
    | false =>
      have stage : filter.undo ps.head?.join limit data = filter.undo ps.head?.join 0 data := by
        refine undoWithin fun out ok => within out ?_
        rw [outputsContainer kind ok]
        exact List.mem_cons_self
      rw [undoAllContainer kind, undoAllContainer kind, stage]
      refine andThenCongr fun out ok => ih fun later mem => within later ?_
      rw [outputsContainer kind ok]
      exact List.mem_cons_of_mem out mem

/- Under a limit the stages are those without one, as long as each keeps to it: an early stage may
be refused where the last one would pass. -/
theorem limitUnaltered {limit : Nat} (positive : 0 < limit) (filters : List Filter)
    (ps : ParameterList) (data : Bytes) :
    (∀ out, (undoAll limit filters ps data).value = .ok out ↔
      (undoAll 0 filters ps data).value = .ok out ∧
        ∀ stage ∈ outputs filters ps data, stage.length ≤ limit) ∧
    ∀ out, (undoAll limit filters ps data).value = .ok out →
      ∀ larger, larger = 0 ∨ limit ≤ larger →
        undoAll larger filters ps data = undoAll limit filters ps data := by
  refine ⟨fun out => ⟨fun ok => ?_, fun ⟨ok, within⟩ => ?_⟩, fun out ok larger wider => ?_⟩
  · have within := outputsWithin positive ok
    exact ⟨undoAllWithin within ▸ ok, within⟩
  · rw [undoAllWithin within, ok]
  · have within := outputsWithin positive ok
    obtain rfl | wider := wider
    · exact (undoAllWithin within).symm
    · rw [undoAllWithin within]
      exact undoAllWithin fun stage mem => Nat.le_trans (within stage mem) wider

/- Two bytes are too few for the middle of a chain whose end is one byte. -/
theorem longMiddleRefused :
    let chain : List Filter := [.hexadecimal, .hexadecimal]
    let data : Bytes := [51, 52, 51, 49, 51, 101, 62]
    (0 < 2 ∧ (undoAll 0 chain [] data).value = .ok [65] ∧ [52, 49, 62] ∈ outputs chain [] data ∧
      (undoAll 2 chain [] data).value ≠ .ok [65]) ∧
    0 < 3 ∧ (undoAll 3 chain [] data).value = .ok [65] ∧ 3 ≤ 7 ∧
    undoAll 7 chain [] data = undoAll 3 chain [] data := by
  intro chain data
  have two : 0 < 2 := by decide
  have three : 0 < 3 := by decide
  have whole : (undoAll 0 chain [] data).value = .ok [65] := rfl
  have stages : outputs chain [] data = [[52, 49, 62], [65]] := by decide
  have long : [52, 49, 62] ∈ outputs chain [] data := by
    rw [stages]
    exact List.mem_cons_self
  have refused : (undoAll 2 chain [] data).value ≠ .ok [65] := by
    intro ok
    obtain ⟨_, within⟩ := ((limitUnaltered two chain [] data).1 [65]).mp ok
    exact absurd (within _ long) (by decide)
  obtain ⟨unaltered, wider⟩ := limitUnaltered three chain [] data
  have kept : (undoAll 3 chain [] data).value = .ok [65] := by
    refine (unaltered [65]).mpr ⟨whole, ?_⟩
    rw [stages]
    decide
  have larger : 3 ≤ 7 := by decide
  exact ⟨⟨two, whole, long, refused⟩, three, kept, larger, wider [65] kept 7 (.inr larger)⟩

end Filter
end PaintedImages
