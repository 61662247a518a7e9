import PaintedImages.Proofs.FurtherInput

/-! Frames that end early. A frame cut anywhere gives the front of what it stands for, as long as it
gives anything. A cut frame that gives nothing is read bare, and then its own header can be the
start of a stored block; that is told exactly. Nothing is said of a frame that was damaged before it
was cut. -/
namespace PaintedImages.Inflate

/-! Stored blocks. -/

theorem numberStarved {width : Nat} {bs : Bits} (short : bs.length < width) :
    number width bs = .starved := by
  simp only [number, List.length_take]
  rw [if_pos (by omega)]

theorem verbatimStarved {data : Bytes} {count : Nat} (short : data.length < count) (out : Bytes) :
    verbatim count out.toArray (bits data) = ⟨(out ++ data).toArray, .starved⟩ := by
  induction data generalizing count out with
  | nil =>
    obtain _ | count := count
    · contradiction
    · rw [List.append_nil]
      rfl
  | cons b data ih =>
    obtain _ | count := count
    · contradiction
    · rw [bitsCons, verbatim, byteRead]
      simp only [UInt8.ofNat_toNat, List.push_toArray]
      rw [ih (Nat.lt_of_succ_lt_succ short), List.append_assoc, List.singleton_append]

theorem storedLengthStarved {input : Bytes} (short : input.length < 4) :
    storedLength (bits input) = .starved := by
  match input with
  | [] | [_] => rw [storedLength, numberStarved (by simp [bitsLength])]; rfl
  | [_, _] | [_, _, _] =>
    rw [storedLength, bytePairRead, Reading.bind, numberStarved (by simp [bitsLength])]
    rfl
  | _ :: _ :: _ :: _ :: _ => contradiction

theorem storedLengthRead (low high lowCheck highCheck : UInt8) (rest : Bytes) :
    storedLength (bits (low :: high :: lowCheck :: highCheck :: rest)) =
      if lowCheck = 255 - low ∧ highCheck = 255 - high then
        .found (low.toNat + 256 * high.toNat) (bits rest)
      else .refused := by
  have complement : low.toNat + 256 * high.toNat + (lowCheck.toNat + 256 * highCheck.toNat) =
      0xFFFF ↔ lowCheck = 255 - low ∧ highCheck = 255 - high := by
    rw [← UInt8.toNat_inj, ← UInt8.toNat_inj, UInt8.toNat_sub, UInt8.toNat_sub]
    have := low.toNat_lt
    have := high.toNat_lt
    have := lowCheck.toNat_lt
    have := highCheck.toNat_lt
    simp
    omega
  simp only [storedLength, bytePairRead, Reading.bind, complement]

/- The four low bits of the method 8 are no last block, stored, and one bit to pass over. -/
theorem headerStored {method : UInt8} (deflated : method.toNat % 16 = 8) (input : Bytes) :
    inflate (bits (method :: input)) = match (storedAt #[] (bits input)).ending with
      | .complete rest => blocks (bits (method :: input)).length
          (storedAt #[] (bits input)).output rest
      | _ => storedAt #[] (bits input) := by
  have first : method.toNat.testBit 0 = false := by
    rw [Nat.testBit_zero, decide_eq_false_iff_not]
    omega
  have second : (method.toNat / 2).testBit 0 = false := by
    rw [Nat.testBit_zero, decide_eq_false_iff_not]
    omega
  have third : (method.toNat / 2 / 2).testBit 0 = false := by
    rw [Nat.testBit_zero, decide_eq_false_iff_not]
    omega
  obtain ⟨high, size, low⟩ : ∃ high : Bits, high.length = 5 ∧
      bits (method :: input) = false :: false :: false :: (high ++ bits input) := by
    refine ⟨_, numberBitsLength 5 (method.toNat / 2 / 2 / 2), ?_⟩
    rw [bitsCons, numberBitsSucc, numberBitsSucc, numberBitsSucc, first, second, third]
    rfl
  have aligned : (high ++ bits input).length % 8 = high.length := by
    rw [List.length_append, bitsLength]
    omega
  have start : block #[] (false :: false :: (high ++ bits input)) = storedAt #[] (bits input) := by
    have kind : number 2 (false :: false :: (high ++ bits input)) =
        .found 0 (high ++ bits input) := rfl
    have reached : stored #[] (high ++ bits input) = storedAt #[] (bits input) := by
      rw [storedExact, aligned, List.drop_left]
    rw [blockExact, kind, ← reached]
    rfl
  rw [inflate, low, blocks, start]
  rfl

end PaintedImages.Inflate

namespace PaintedImages.Flate
open Inflate

inductive Left (content : Bytes) : Inflated → Prop where
  | whole {rest : Bits} : Left content ⟨content.toArray, .complete rest⟩
  | front {out : Array UInt8} (front : out.toList <+: content) : Left content ⟨out, .starved⟩

theorem checkedStarved {bs : Bits} {out : Array UInt8} (h : inflate bs = ⟨out, .starved⟩) :
    checked bs = ⟨out, .starved⟩ := by
  rw [checked, h]

/- The checksum of a cut frame is cut at the end only, so it agrees or is too short. -/
theorem checkedComplete {bs rest more : Bits} {out : Array UInt8}
    (h : inflate bs = ⟨out, .complete rest⟩) (whole : more.length % 8 = 0)
    (trailer : (rest ++ more).drop ((rest ++ more).length % 8) =
      bits (Bytes.ofNat 4 (checksum out))) :
    checked bs = ⟨out, if more = [] then .complete rest else .starved⟩ := by
  have same : (rest ++ more).length % 8 = rest.length % 8 := by
    rw [List.length_append]
    omega
  rw [same, List.drop_append_of_le_length (Nat.mod_le _ _)] at trailer
  have size : (rest.drop (rest.length % 8) ++ more).length = 32 := by
    rw [trailer, bitsLength, Bytes.ofNatLength]
  rw [List.length_append] at size
  have all : (rest.drop (rest.length % 8)).take 32 = rest.drop (rest.length % 8) :=
    List.take_of_length_le (by omega)
  simp only [checked, h, all]
  cases more with
  | nil =>
    rw [List.append_nil] at trailer
    rw [List.length_nil] at size
    rw [if_neg (by omega), if_pos trailer, if_pos rfl]
  | cons b more =>
    rw [List.length_cons] at size
    rw [if_pos (by omega), if_neg (List.cons_ne_nil _ _)]

theorem framedWhole {z content : Bytes} (whole : Framed z content) :
    ∃ rest, framed z = ⟨content.toArray, .complete rest⟩ := by
  obtain ⟨method, flags, body, rest, rfl, header, read, trailer⟩ := framedRead whole
  have complete := @checkedComplete _ _ [] _ read rfl (by rwa [List.append_nil])
  rw [if_pos rfl] at complete
  exact ⟨rest, by simp only [framed, header, if_true, complete]⟩

theorem framedCut {z part content : Bytes} (whole : Framed z content) (cut : part <+: z) :
    Left content (framed part) := by
  obtain ⟨method, flags, body, rest, rfl, header, read, trailer⟩ := framedRead whole
  obtain ⟨more, split⟩ := cut
  match part with
  | [] => exact .front List.nil_prefix
  | [_] => exact .front List.nil_prefix
  | _ :: _ :: part =>
    simp only [List.cons_append, List.cons.injEq] at split
    obtain ⟨rfl, rfl, rfl⟩ := split
    have bytes : (bits more).length % 8 = 0 := by
      rw [bitsLength]
      exact Nat.mul_mod_right 8 _
    have ahead := inflateCut (bits part) bytes
    rw [← bitsAppend, read] at ahead
    simp only [framed, header, if_true]
    generalize known : inflate (bits part) = short at ahead
    generalize held : (⟨content.toArray, .complete rest⟩ : Inflated) = long at ahead
    cases ahead with
    | @complete out left =>
      obtain ⟨rfl, ending⟩ := Inflated.mk.inj held
      cases ending
      rw [checkedComplete known bytes trailer]
      split
      · exact .whole
      · exact .front List.prefix_rfl
    | refused => cases held
    | starved front =>
      subst held
      rw [checkedStarved known]
      exact .front front

/-- Read bare, the header and the three bytes after it begin a stored block: its length and the
complement of that, with bytes behind them. -/
def HidesBlock (part : Bytes) : Prop :=
  ∃ method flags first rest,
    part = method :: flags :: first :: (255 - flags) :: (255 - first) :: rest ∧ rest ≠ []

/- Behind the last byte of the block the next one would start, and there the bits run out too. -/
theorem hiddenRead {method : UInt8} (deflated : method.toNat % 16 = 8) (flags first : UInt8)
    {rest : Bytes} (inside : rest.length ≤ flags.toNat + 256 * first.toNat) :
    inflate (bits (method :: flags :: first :: (255 - flags) :: (255 - first) :: rest)) =
      ⟨rest.toArray, .starved⟩ := by
  have start : storedAt #[] (bits (flags :: first :: (255 - flags) :: (255 - first) :: rest)) =
      verbatim (flags.toNat + 256 * first.toNat) #[] (bits rest) := by
    rw [storedAt, storedLengthRead, if_pos ⟨rfl, rfl⟩]
  rw [headerStored deflated, start]
  by_cases all : rest.length = flags.toNat + 256 * first.toNat
  · have read := verbatimRead rest [] []
    rw [List.append_nil] at read
    rw [← all, read]
    rfl
  · have read := verbatimStarved (Nat.lt_of_le_of_ne inside all) []
    rw [read]
    rfl

theorem bareHidden {method : UInt8} (deflated : method.toNat % 16 = 8) (flags first : UInt8)
    {rest : Bytes} (inside : rest.length ≤ flags.toNat + 256 * first.toNat) (nonempty : rest ≠ []) :
    bare (method :: flags :: first :: (255 - flags) :: (255 - first) :: rest) = .ok rest := by
  rw [bare, hiddenRead deflated flags first inside, Inflated.yield]
  simp [nonempty]

theorem fourFirst {input : Bytes} (long : 4 ≤ input.length) :
    ∃ a b c d rest, input = a :: b :: c :: d :: rest := by
  obtain _ | ⟨a, _ | ⟨b, _ | ⟨c, _ | ⟨d, rest⟩⟩⟩⟩ := input
  · contradiction
  · contradiction
  · contradiction
  · contradiction
  · exact ⟨a, b, c, d, rest, rfl⟩

theorem bareFails {method : UInt8} (deflated : method.toNat % 16 = 8) {input : Bytes}
    (apart : ¬ HidesBlock (method :: input)) : ∃ fault, bare (method :: input) = .error fault := by
  by_cases short : input.length < 4
  · have starved : inflate (bits (method :: input)) = ⟨#[], .starved⟩ := by
      rw [headerStored deflated, storedAt, storedLengthStarved short]
    exact ⟨.deflate .incomplete, by rw [bare, starved]; rfl⟩
  · obtain ⟨flags, first, lowCheck, highCheck, rest, rfl⟩ := fourFirst (Nat.le_of_not_lt short)
    by_cases complement : lowCheck = 255 - flags ∧ highCheck = 255 - first
    · obtain ⟨rfl, rfl⟩ := complement
      have empty : rest = [] := Classical.byContradiction fun nonempty =>
        apart ⟨method, flags, first, rest, rfl, nonempty⟩
      subst empty
      refine ⟨.deflate .incomplete, ?_⟩
      rw [bare, hiddenRead deflated flags first (Nat.zero_le _)]
      rfl
    · have refused : inflate (bits (method :: flags :: first :: lowCheck :: highCheck :: rest)) =
          ⟨#[], .refused⟩ := by
        rw [headerStored deflated, storedAt, storedLengthRead, if_neg complement]
      exact ⟨.deflate .corrupt, by rw [bare, refused]; rfl⟩

theorem decodeWhole {input : Bytes} {out : Array UInt8} {rest : Bits}
    (h : framed input = ⟨out, .complete rest⟩) : (decode input).value = .ok out.toList := by
  rw [decode, h]
  rfl

theorem decodeFront {input : Bytes} {out : Array UInt8} (h : framed input = ⟨out, .starved⟩)
    (written : out ≠ #[]) : (decode input).value = .ok out.toList := by
  have filled : out.isEmpty = false := by simpa using written
  simp only [decode, h, Inflated.yield, filled]
  rfl

theorem decodeNothing {input : Bytes} (h : framed input = ⟨#[], .starved⟩) :
    (decode input).value = bare input := by
  rw [decode, h]
  rfl

theorem framedDeflated {z content : Bytes} (whole : Framed z content) {method : UInt8}
    {part : Bytes} (cut : method :: part <+: z) : method.toNat % 16 = 8 := by
  cases whole with
  | framed deflated => exact (List.cons_prefix_cons.mp cut).1 ▸ deflated

/- Cut before anything was put out, a frame is read once more without its header. -/
theorem cutDecoded {z content : Bytes} (whole : Framed z content) :
    (decode z).value = .ok content ∧ ∀ part, part <+: z →
      (framed part ≠ ⟨#[], .starved⟩ ∨ ¬ HidesBlock part →
        (∃ fault, (decode part).value = .error fault) ∨
          ∃ front, (decode part).value = .ok front ∧ front <+: content) ∧
      ∀ method flags first rest,
        part = method :: flags :: first :: (255 - flags) :: (255 - first) :: rest → rest ≠ [] →
        rest.length ≤ flags.toNat + 256 * first.toNat → framed part = ⟨#[], .starved⟩ →
        (decode part).value = .ok rest := by
  refine ⟨?_, fun part cut => ⟨fun safe => ?_, ?_⟩⟩
  · obtain ⟨rest, read⟩ := framedWhole whole
    exact decodeWhole read
  · have left := framedCut whole cut
    generalize read : framed part = result at left safe
    cases left with
    | whole => exact .inr ⟨content, decodeWhole read, List.prefix_rfl⟩
    | @front out front =>
      by_cases empty : out = #[]
      · subst empty
        rw [decodeNothing read]
        have apart : ¬ HidesBlock part := safe.resolve_left fun other => other rfl
        match part with
        | [] => exact .inl ⟨.deflate .incomplete, rfl⟩
        | method :: input => exact .inl (bareFails (framedDeflated whole cut) apart)
      · exact .inr ⟨out.toList, decodeFront read empty, front⟩
  · rintro method flags first rest rfl nonempty inside nothing
    rw [decodeNothing nothing]
    exact bareHidden (framedDeflated whole cut) flags first inside nonempty

def storedFrame (content : Bytes) : Bytes :=
  0x78 :: 1 :: ([1, 0xFE, 0xFE, 1, 1] ++ (content ++ Bytes.ofNat 4 (checksum content.toArray)))

theorem storedSplit {content : Bytes} (size : content.length = 0xFEFE) (trailer : Bytes) :
    bits ([1, 0xFE, 0xFE, 1, 1] ++ (content ++ trailer)) =
      true :: (numberBits 2 0 ++ (List.replicate 5 false ++ (numberBits 16 content.length ++
        (numberBits 16 (2 ^ 16 - 1 - content.length) ++ bits content)))) ++
          ([] ++ bits trailer) := by
  have start : bits [1, 0xFE, 0xFE, 1, 1] = true :: (numberBits 2 0 ++ (List.replicate 5 false ++
      (numberBits 16 0xFEFE ++ numberBits 16 (2 ^ 16 - 1 - 0xFEFE)))) := by decide
  rw [bitsAppend, bitsAppend, start, size]
  simp only [List.cons_append, List.append_assoc, List.nil_append]

theorem storedFramed {content : Bytes} (size : content.length = 0xFEFE) :
    Framed (storedFrame content) content := by
  have block : Block 0 [] content (numberBits 2 0 ++ (List.replicate 5 false ++
      (numberBits 16 content.length ++ (numberBits 16 (2 ^ 16 - 1 - content.length) ++
        bits content)))) := .stored (by decide) (by decide) (by rw [size]; decide)
  exact .framed (by decide) (by decide) (by decide) (by decide) (.last block) (by decide)
    (storedSplit size _)

/- The header of the frame is read as the start of a block that the length of the first block and
its check make. -/
theorem headerReadAsBlock :
    let content : Bytes := List.replicate 0xFEFE 97
    Framed (storedFrame content) content ∧ [0x78, 1, 1, 0xFE, 0xFE, 1, 1] <+: storedFrame content ∧
      (decode [0x78, 1, 1, 0xFE, 0xFE, 1, 1]).value = .ok [1, 1] ∧ ¬ [1, 1] <+: content := by
  intro content
  have whole : Framed (storedFrame content) content := storedFramed List.length_replicate
  have cut : [0x78, 1, 1, 0xFE, 0xFE, 1, 1] <+: storedFrame content := List.prefix_append _ _
  refine ⟨whole, cut, ?_, fun front => ?_⟩
  · exact ((cutDecoded whole).2 _ cut).2 0x78 1 1 [1, 1] rfl (by decide) (by decide) (by decide)
  · have member : (1 : UInt8) ∈ content := front.subset (by decide)
    exact absurd (List.eq_of_mem_replicate member) (by decide)

end PaintedImages.Flate
