import Mathlib.Data.List.Induction
import PaintedImages.Record

/-! Base 64 read back. Every text that writing produces is accepted, by the first rule to the last,
and gives the bytes it was written from, so different bytes never share a text. Which other texts
are accepted is not said here. -/
namespace PaintedImages

namespace Bytes

theorem bigEndianAppend (bs : Bytes) (b : UInt8) :
    bigEndian (bs ++ [b]) = bigEndian bs * 256 + b.toNat := by
  simp [bigEndian]

theorem ofNatBigEndian (bs : Bytes) : ofNat bs.length (bigEndian bs) = bs := by
  induction bs using List.reverseRecOn with
  | nil => rfl
  | append_singleton bs b ih =>
    have small := b.toNat_lt
    have quotient : (bigEndian bs * 256 + b.toNat) / 256 = bigEndian bs := by omega
    have last : UInt8.ofNat (bigEndian bs * 256 + b.toNat) = b := by
      apply UInt8.toNat_inj.mp
      simp only [UInt8.toNat_ofNat']
      omega
    rw [List.length_append, List.length_singleton, ofNat, bigEndianAppend, quotient, last, ih]

theorem utf8OfText {bs : Bytes} (ascii : ∀ b ∈ bs, b < 128) : Utf8.encode (toText bs) = bs := by
  have byte : ∀ n < 128, String.utf8EncodeChar (Char.ofNat n) = [UInt8.ofNat n] := by decide
  induction bs with
  | nil => rfl
  | cons b bs ih =>
    have head := byte b.toNat (ascii b List.mem_cons_self)
    have tail := ih fun c mem => ascii c (List.mem_cons_of_mem _ mem)
    simp only [Utf8.encode, toText, String.toList_ofList, List.map_cons, List.flatMap_cons]
      at tail ⊢
    rw [head, tail, UInt8.ofNat_toNat]
    rfl

end Bytes

namespace Base64

theorem valueSymbol : ∀ n < 64, value (symbol n) = some n := by decide

theorem symbolAscii : ∀ n < 64, symbol n < 128 := by decide

theorem symbolNotPad : ∀ n < 64, symbol n ≠ pad := by decide

/- The four numbers that three bytes are cut into, and the same three bytes put together again. -/
theorem sextetsOfThree (a b c : UInt8) :
    Bytes.bigEndian [a, b, c] >>> 18 < 64 ∧
    Bytes.ofNat 3 (Bytes.bigEndian [a, b, c] >>> 18 <<< 18 +
      (Bytes.bigEndian [a, b, c] >>> 12 % 64) <<< 12 +
      (Bytes.bigEndian [a, b, c] >>> 6 % 64) <<< 6 + Bytes.bigEndian [a, b, c] % 64) =
      [a, b, c] := by
  have ha := a.toNat_lt
  have hb := b.toNat_lt
  have hc := c.toNat_lt
  have whole := Bytes.ofNatBigEndian [a, b, c]
  have size : Bytes.bigEndian [a, b, c] = (a.toNat * 256 + b.toNat) * 256 + c.toNat := by
    simp [Bytes.bigEndian]
  generalize Bytes.bigEndian [a, b, c] = n at whole size ⊢
  refine ⟨by omega, ?_⟩
  have same :
      n >>> 18 <<< 18 + (n >>> 12 % 64) <<< 12 + (n >>> 6 % 64) <<< 6 + n % 64 = n := by
    omega
  rw [same]
  exact whole

theorem encodeAscii (bs : Bytes) : ∀ s ∈ encode bs, s < 128 := by
  have pads : pad < 128 := by decide
  fun_induction encode bs with
  | case1 a b c rest n ih =>
    have bound := (sextetsOfThree a b c).1
    intro s mem
    simp only [List.mem_cons] at mem
    rcases mem with rfl | rfl | rfl | rfl | mem
    · exact symbolAscii _ bound
    · exact symbolAscii _ (Nat.mod_lt _ (by decide))
    · exact symbolAscii _ (Nat.mod_lt _ (by decide))
    · exact symbolAscii _ (Nat.mod_lt _ (by decide))
    · exact ih s mem
  | case2 a b n =>
    have bound : n >>> 12 < 64 := by
      have ha := a.toNat_lt
      have hb := b.toNat_lt
      simp only [n, Bytes.bigEndian, List.foldl_cons, List.foldl_nil]
      omega
    intro s mem
    simp only [List.mem_cons, List.not_mem_nil, or_false] at mem
    rcases mem with rfl | rfl | rfl | rfl
    · exact symbolAscii _ bound
    · exact symbolAscii _ (Nat.mod_lt _ (by decide))
    · exact symbolAscii _ (Nat.mod_lt _ (by decide))
    · exact pads
  | case3 a n =>
    have bound : n >>> 6 < 64 := by
      have ha := a.toNat_lt
      simp only [n]
      omega
    intro s mem
    simp only [List.mem_cons, List.not_mem_nil, or_false] at mem
    rcases mem with rfl | rfl | rfl | rfl
    · exact symbolAscii _ bound
    · exact symbolAscii _ (Nat.mod_lt _ (by decide))
    · exact pads
    · exact pads
  | case4 => simp

theorem encodeAppend {front : Bytes} (whole : front.length % 3 = 0) (back : Bytes) :
    encode (front ++ back) = encode front ++ encode back := by
  fun_induction encode front with
  | case1 a b c rest n ih =>
    have shorter : rest.length % 3 = 0 := by simp only [List.length_cons] at whole; omega
    simp only [List.cons_append, encode, n, ih shorter]
  | case2 a b n => simp at whole
  | case3 a n => simp at whole
  | case4 => rfl

theorem encodeLength {front : Bytes} (whole : front.length % 3 = 0) :
    (encode front).length % 4 = 0 := by
  fun_induction encode front with
  | case1 a b c rest n ih =>
    have shorter : rest.length % 3 = 0 := by simp only [List.length_cons] at whole; omega
    have := ih shorter
    simp only [List.length_cons]
    omega
  | case2 a b n => simp at whole
  | case3 a n => simp at whole
  | case4 => rfl

theorem valuesEncode {front : Bytes} (whole : front.length % 3 = 0) (offset : Nat) :
    ∃ ns, values offset (encode front) = .ok ns ∧ join ns = front := by
  fun_induction encode front generalizing offset with
  | case1 a b c rest n ih =>
    have shorter : rest.length % 3 = 0 := by simp only [List.length_cons] at whole; omega
    obtain ⟨ns, read, joined⟩ := ih shorter (offset + 1 + 1 + 1 + 1)
    obtain ⟨bound, three⟩ := sextetsOfThree a b c
    refine ⟨n >>> 18 :: n >>> 12 % 64 :: n >>> 6 % 64 :: n % 64 :: ns, ?_, ?_⟩
    · simp only [values, valueSymbol _ bound, valueSymbol _ (Nat.mod_lt _ (by decide)), read, n]
      rfl
    · rw [join, three, joined]
      rfl
  | case2 a b n => simp at whole
  | case3 a n => simp at whole
  | case4 => exact ⟨[], rfl, rfl⟩

/- The last group is read in one of three ways, by the number of its padding bytes. -/
theorem tailOfFour (start : Nat) {a b c d : Nat} (ha : a < 64) (hb : b < 64) (hc : c < 64)
    (hd : d < 64) :
    tail start [symbol a, symbol b, symbol c, symbol d] =
      .ok ([(symbol a, a), (symbol b, b), (symbol c, c), (symbol d, d)], 0) := by
  simp [tail, tail.go, symbolNotPad, valueSymbol, ha, hb, hc, hd]

theorem tailOfThree (start : Nat) {a b c : Nat} (ha : a < 64) (hb : b < 64) (hc : c < 64) :
    tail start [symbol a, symbol b, symbol c, pad] =
      .ok ([(symbol a, a), (symbol b, b), (symbol c, c)], 1) := by
  simp [tail, tail.go, symbolNotPad, valueSymbol, ha, hb, hc]

theorem tailOfTwo (start : Nat) {a b : Nat} (ha : a < 64) (hb : b < 64) :
    tail start [symbol a, symbol b, pad, pad] = .ok ([(symbol a, a), (symbol b, b)], 2) := by
  simp [tail, tail.go, symbolNotPad, valueSymbol, ha, hb]

theorem lastGroupExact {start pads n : Nat} {group bytes : Bytes} {found : List (UInt8 × Nat)}
    {b : UInt8} (read : tail start group = .ok (found, pads)) (two : 2 ≤ found.length)
    (four : found.length + pads = 4) (last : found.getLast? = some (b, n))
    (values : finish (found.map Prod.snd) = (bytes, 0)) : lastGroup start group = .ok bytes := by
  have enough : ¬ (found.length < 2 ∧ (!group.isEmpty) = true) := by omega
  simp only [lastGroup, read, bind, Except.bind, if_neg enough, four, last, values, Nat.mod_self,
    ne_eq, not_true_eq_false, if_false, if_true]

theorem lastGroupOfThree (start : Nat) (a b c : UInt8) :
    lastGroup start (encode [a, b, c]) = .ok [a, b, c] := by
  obtain ⟨bound, three⟩ := sextetsOfThree a b c
  have below : 0 < 64 := by decide
  apply lastGroupExact (tailOfFour start bound (Nat.mod_lt _ below) (Nat.mod_lt _ below)
    (Nat.mod_lt _ below)) (by simp) rfl rfl
  change (Bytes.ofNat 3 _ ++ [], 0) = _
  rw [List.append_nil, three]

theorem lastGroupOfTwo (start : Nat) (a b : UInt8) :
    lastGroup start (encode [a, b]) = .ok [a, b] := by
  have ha := a.toNat_lt
  have hb := b.toNat_lt
  have whole : Bytes.ofNat 2 (Bytes.bigEndian [a, b]) = [a, b] := Bytes.ofNatBigEndian [a, b]
  have size : Bytes.bigEndian [a, b] = a.toNat * 256 + b.toNat := by simp [Bytes.bigEndian]
  have below : 0 < 64 := by decide
  simp only [encode]
  generalize Bytes.bigEndian [a, b] = n at whole size ⊢
  have bound : (n * 4) >>> 12 < 64 := by omega
  have same : ((n * 4) >>> 12 * 64 * 64 + (n * 4) >>> 6 % 64 * 64 + n * 4 % 64) / 4 = n := by omega
  have zero : n * 4 % 64 % 4 = 0 := by omega
  apply lastGroupExact (tailOfThree start bound (Nat.mod_lt _ below) (Nat.mod_lt _ below))
    (by simp) rfl rfl
  change (Bytes.ofNat 2 (_ / 4), n * 4 % 64 % 4) = _
  rw [same, zero, whole]

theorem lastGroupOfOne (start : Nat) (a : UInt8) : lastGroup start (encode [a]) = .ok [a] := by
  have ha := a.toNat_lt
  have bound : (a.toNat * 16) >>> 6 < 64 := by omega
  have same : ((a.toNat * 16) >>> 6 * 64 + a.toNat * 16 % 64) / 16 = a.toNat := by omega
  have zero : a.toNat * 16 % 64 % 16 = 0 := by omega
  have below : 0 < 64 := by decide
  apply lastGroupExact (tailOfTwo start bound (Nat.mod_lt _ below)) (by simp) rfl rfl
  change ([UInt8.ofNat (_ / 16)], a.toNat * 16 % 64 % 16) = _
  rw [same, zero, UInt8.ofNat_toNat]

theorem lastGroupEncode (start : Nat) (back : Bytes) (one : 0 < back.length)
    (few : back.length ≤ 3) :
    lastGroup start (encode back) = .ok back ∧ (encode back).length = 4 := by
  match back, one, few with
  | [a], _, _ => exact ⟨lastGroupOfOne start a, rfl⟩
  | [a, b], _, _ => exact ⟨lastGroupOfTwo start a b, rfl⟩
  | [a, b, c], _, _ => exact ⟨lastGroupOfThree start a b c, rfl⟩
  | _ :: _ :: _ :: _ :: rest, _, few =>
    simp only [List.length_cons] at few
    omega

theorem decodeGroups {body last : Bytes} (whole : body.length % 4 = 0) (four : last.length = 4) :
    decode (body ++ last) = (do
      let ns ← values 0 body
      let bytes ← lastGroup body.length last
      .ok (join ns ++ bytes)) := by
  have size : (body ++ last).length = body.length + 4 := by rw [List.length_append, four]
  have rest : (body.length + 4) % 4 = 0 := by omega
  have tailSize : tailLength (body.length + 4) = 4 := by
    rw [tailLength, if_pos rest]
    omega
  have regular : ((body.length + 4) % 4 == 1) = false := by rw [rest]; rfl
  simp only [decode, size, tailSize, Nat.add_sub_cancel, List.take_left, List.drop_left, regular]

theorem decodeEncode (bs : Bytes) : decode (encode bs) = .ok bs := by
  by_cases empty : bs = []
  · subst empty; rfl
  have nonempty : 0 < bs.length := List.length_pos_iff.mpr empty
  -- all triples but the last make the body; one to three bytes remain
  have cut : 3 * ((bs.length - 1) / 3) ≤ bs.length := by omega
  have frontSize : (bs.take (3 * ((bs.length - 1) / 3))).length = 3 * ((bs.length - 1) / 3) := by
    rw [List.length_take, Nat.min_eq_left cut]
  have whole : (bs.take (3 * ((bs.length - 1) / 3))).length % 3 = 0 := by
    rw [frontSize]; omega
  have backSize := List.length_drop (i := 3 * ((bs.length - 1) / 3)) (l := bs)
  rw [← List.take_append_drop (3 * ((bs.length - 1) / 3)) bs]
  generalize bs.take (3 * ((bs.length - 1) / 3)) = front at whole ⊢
  generalize bs.drop (3 * ((bs.length - 1) / 3)) = back at backSize ⊢
  obtain ⟨ns, read, joined⟩ := valuesEncode whole 0
  obtain ⟨last, four⟩ := lastGroupEncode (encode front).length back (by omega) (by omega)
  rw [encodeAppend whole, decodeGroups (encodeLength whole) four, read, last, ← joined]
  rfl

end Base64

namespace Record

theorem payloadEncode (format : String) (payload : Bytes) :
    (encode format payload).payload = .ok payload := by
  simp only [Record.payload, encode, Bytes.utf8OfText (Base64.encodeAscii payload),
    Base64.decodeEncode]
  rfl

end Record
end PaintedImages
