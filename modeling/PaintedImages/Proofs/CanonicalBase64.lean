import Mathlib.Algebra.Group.Nat.Defs
import PaintedImages.Proofs.Base64
import PaintedImages.Proofs.Outcomes

/-! Base 64 has one text for each byte string. What reading accepts is what writing produces, so
payloads are equal exactly if their texts are, and the length of a payload shows in the length of
its text and the padding at the end. -/
namespace PaintedImages

namespace Bytes

theorem bigEndianOfNat (width n : Nat) : bigEndian (ofNat width n) = n % 256 ^ width := by
  induction width generalizing n with
  | zero => simp [ofNat, bigEndian, Nat.mod_one]
  | succ width ih =>
    have more : 256 ^ (width + 1) = 256 * 256 ^ width := Nat.pow_succ'
    have last : (UInt8.ofNat n).toNat = n % 256 := UInt8.toNat_ofNat'
    rw [ofNat, bigEndianAppend, ih, last, more, Nat.mod_mul]
    omega

theorem wideCharacter {c : Char} (wide : 127 < c.val.toNat) :
    ∃ b ∈ String.utf8EncodeChar c, 128 ≤ b := by
  have lead {n low : Nat} (above : 128 ≤ low) (small : n + low < 256) :
      128 ≤ UInt8.ofNat (n + low) := by
    rw [UInt8.le_iff_toNat_le, UInt8.toNat_ofNat']
    have : (128 : UInt8).toNat = 128 := rfl
    omega
  unfold String.utf8EncodeChar
  dsimp only
  rw [if_neg (Nat.not_le.mpr wide)]
  split
  · exact ⟨_, List.mem_cons_self, lead (by decide) (by omega)⟩
  · split
    · exact ⟨_, List.mem_cons_self, lead (by decide) (by omega)⟩
    · exact ⟨_, List.mem_cons_self, lead (by decide) (by omega)⟩

theorem textOfUtf8 {s : String} (ascii : ∀ b ∈ Utf8.encode s, b < 128) :
    toText (Utf8.encode s) = s := by
  have chars (cs : List Char) (ascii : ∀ b ∈ cs.flatMap String.utf8EncodeChar, b < 128) :
      (cs.flatMap String.utf8EncodeChar).map (fun b => Char.ofNat b.toNat) = cs := by
    induction cs with
    | nil => rfl
    | cons c cs ih =>
      rw [List.flatMap_cons] at ascii ⊢
      have tail := ih fun b mem => ascii b (List.mem_append_right _ mem)
      have narrow : c.val.toNat ≤ 127 := by
        by_contra wide
        obtain ⟨b, mem, above⟩ := wideCharacter (Nat.lt_of_not_le wide)
        have below := ascii b (List.mem_append_left _ mem)
        exact absurd above (UInt8.not_le.mpr below)
      have single : String.utf8EncodeChar c = [UInt8.ofNat c.toNat] := by
        unfold String.utf8EncodeChar
        exact if_pos narrow
      have back : (UInt8.ofNat c.toNat).toNat = c.toNat := by
        rw [UInt8.toNat_ofNat']
        exact Nat.mod_eq_of_lt (Nat.lt_of_le_of_lt narrow (by decide))
      rw [List.map_append, tail, single, List.map_cons, List.map_nil, back, Char.ofNat_toNat]
      rfl
  unfold toText Utf8.encode at *
  rw [chars s.toList ascii, String.ofList_toList]

end Bytes

namespace Base64

theorem symbolValue {b : UInt8} {n : Nat} (known : value b = some n) : n < 64 ∧ symbol n = b := by
  unfold value at known
  unfold symbol
  split at known
  · rename_i range
    cases known
    have low : 65 ≤ b.toNat := range.1
    have high : b.toNat ≤ 90 := range.2
    have back : 65 + (b.toNat - 65) = b.toNat := by omega
    rw [if_pos (by omega), back, UInt8.ofNat_toNat]
    exact ⟨by omega, rfl⟩
  split at known
  · rename_i range
    cases known
    have low : 97 ≤ b.toNat := range.1
    have high : b.toNat ≤ 122 := range.2
    have back : 71 + (b.toNat - 71) = b.toNat := by omega
    rw [if_neg (by omega), if_pos (by omega), back, UInt8.ofNat_toNat]
    exact ⟨by omega, rfl⟩
  split at known
  · rename_i range
    cases known
    have low : 48 ≤ b.toNat := range.1
    have high : b.toNat ≤ 57 := range.2
    rw [if_neg (by omega), if_neg (by omega), if_pos (by omega), Nat.add_sub_cancel,
      UInt8.ofNat_toNat]
    exact ⟨by omega, rfl⟩
  split at known
  · rename_i plus
    cases known
    exact ⟨by decide, plus.symm⟩
  split at known
  · rename_i slash
    cases known
    exact ⟨by decide, slash.symm⟩
  · contradiction

theorem valuesSymbols {offset : Nat} {text : Bytes} {ns : List Nat}
    (read : values offset text = .ok ns) : (∀ n ∈ ns, n < 64) ∧ ns.map symbol = text := by
  induction text generalizing offset ns with
  | nil =>
    cases read
    exact ⟨nofun, rfl⟩
  | cons b rest ih =>
    unfold values at read
    cases known : value b with
    | none =>
      rw [known] at read
      contradiction
    | some n =>
      rw [known] at read
      obtain ⟨later, found, told⟩ := bindOk read
      cases told
      obtain ⟨small, same⟩ := ih found
      obtain ⟨bound, back⟩ := symbolValue known
      rw [List.map_cons, back, same]
      exact ⟨List.forall_mem_cons.mpr ⟨bound, small⟩, rfl⟩

/- Four numbers below 64 make three bytes, from which they come back. -/
theorem encodeFour {a b c d : Nat} (ha : a < 64) (hb : b < 64) (hc : c < 64) (hd : d < 64)
    (rest : Bytes) :
    encode (Bytes.ofNat 3 (a <<< 18 + b <<< 12 + c <<< 6 + d) ++ rest) =
      symbol a :: symbol b :: symbol c :: symbol d :: encode rest := by
  have number := Bytes.bigEndianOfNat 3 (a <<< 18 + b <<< 12 + c <<< 6 + d)
  obtain ⟨x, y, z, three⟩ : ∃ x y z, Bytes.ofNat 3 (a <<< 18 + b <<< 12 + c <<< 6 + d) =
    [x, y, z] := ⟨_, _, _, rfl⟩
  rw [three] at number ⊢
  simp only [List.cons_append, List.nil_append, encode, number]
  have first : ((a <<< 18 + b <<< 12 + c <<< 6 + d) % 256 ^ 3) >>> 18 = a := by omega
  have second : ((a <<< 18 + b <<< 12 + c <<< 6 + d) % 256 ^ 3) >>> 12 % 64 = b := by omega
  have third : ((a <<< 18 + b <<< 12 + c <<< 6 + d) % 256 ^ 3) >>> 6 % 64 = c := by omega
  have fourth : (a <<< 18 + b <<< 12 + c <<< 6 + d) % 256 ^ 3 % 64 = d := by omega
  rw [first, second, third, fourth]

theorem encodeJoin {ns : List Nat} (small : ∀ n ∈ ns, n < 64) (whole : ns.length % 4 = 0) :
    encode (join ns) = ns.map symbol ∧ (join ns).length % 3 = 0 := by
  fun_induction join ns with
  | case1 a b c d rest ih =>
    simp only [List.forall_mem_cons] at small
    obtain ⟨ha, hb, hc, hd, small⟩ := small
    obtain ⟨same, size⟩ := ih small (by simp only [List.length_cons] at whole; omega)
    rw [encodeFour ha hb hc hd, same, List.length_append, Bytes.ofNatLength]
    exact ⟨rfl, by omega⟩
  | case2 ns short =>
    match ns, whole, short with
    | [], _, _ => exact ⟨rfl, rfl⟩
    | [_], whole, _ => contradiction
    | [_, _], whole, _ => contradiction
    | [_, _, _], whole, _ => contradiction
    | a :: b :: c :: d :: rest, _, short => exact absurd rfl (short a b c d rest)

/- The last group is symbols and then padding. -/
theorem goRead {start place : Nat} {pads : Option (Nat × Nat)} {found found' : List (UInt8 × Nat)}
    {rest : Bytes} {count : Nat}
    (read : tail.go start place pads found rest = .ok (found', count)) :
    ∃ (new : List (UInt8 × Nat)) (more : Nat), found' = found.reverse ++ new ∧
      count = (pads.map Prod.snd).getD 0 + more ∧
      rest = new.map (fun e => symbol e.2) ++ List.replicate more pad ∧
      (∀ e ∈ new, e.2 < 64 ∧ e.1 = symbol e.2) ∧ (pads ≠ none → new = []) := by
  induction rest generalizing place pads found with
  | nil =>
    cases read
    exact ⟨[], 0, (List.append_nil _).symm, rfl, rfl, nofun, fun _ => rfl⟩
  | cons b rest ih =>
    unfold tail.go at read
    split at read
    · rename_i isPad
      split at read
      · contradiction
      · obtain ⟨new, more, rfl, rfl, rfl, _, only⟩ := ih read
        obtain rfl := only (Option.some_ne_none _)
        exact ⟨[], more + 1, rfl, by simp only [Option.map_some, Option.getD_some]; omega,
          by rw [isPad]; rfl, nofun, fun _ => rfl⟩
    · split at read
      · contradiction
      · split at read
        · contradiction
        · rename_i n known
          obtain ⟨new, more, rfl, rfl, rfl, valued, _⟩ := ih read
          obtain ⟨small, back⟩ := symbolValue known
          refine ⟨(b, n) :: new, more, ?_, rfl, ?_, ?_, ?_⟩
          · rw [List.reverse_cons, List.append_assoc]
            rfl
          · rw [List.map_cons, back]
            rfl
          · exact List.forall_mem_cons.mpr ⟨⟨small, back.symm⟩, valued⟩
          · exact fun unlike => absurd rfl unlike

theorem lastGroupForm {start : Nat} {group bytes : Bytes}
    (done : lastGroup start group = .ok bytes) : ∃ (ns : List Nat) (pads : Nat),
      (∀ n ∈ ns, n < 64) ∧ group = ns.map symbol ++ List.replicate pads pad ∧
      (2 ≤ ns.length ∨ group = []) ∧ (ns.length + pads) % 4 = 0 ∧ finish ns = (bytes, 0) := by
  obtain ⟨⟨found, pads⟩, read, done⟩ := bindOk done
  obtain ⟨new, more, same, count, form, valued, _⟩ := goRead read
  obtain rfl : found = new := same
  obtain rfl : pads = more := count.trans (Nat.zero_add more)
  refine ⟨found.map Prod.snd, pads, ?_, ?_, ?_⟩
  · intro n mem
    obtain ⟨e, listed, rfl⟩ := List.mem_map.mp mem
    exact (valued e listed).1
  · rw [form, List.map_map]
    rfl
  dsimp only at done
  split at done
  · contradiction
  rename_i enough
  split at done
  · contradiction
  rename_i four
  rw [List.length_map]
  refine ⟨?_, Decidable.not_not.mp four, ?_⟩
  · by_contra few
    rw [not_or] at few
    refine enough ⟨Nat.lt_of_not_le few.1, ?_⟩
    rw [List.isEmpty_eq_false_iff.mpr few.2]
    rfl
  · split at done
    · split at done
      · rename_i zero
        cases done
        exact Prod.ext rfl zero
      · contradiction
    · rename_i empty
      rw [List.getLast?_eq_none_iff.mp empty] at done ⊢
      cases done
      rfl

/- Two, three or four symbols make one, two or three bytes, of which they are the text. -/
theorem finishEncode {ns : List Nat} {pads : Nat} {bytes : Bytes} (small : ∀ n ∈ ns, n < 64)
    (two : 2 ≤ ns.length) (four : ns.length + pads = 4) (finished : finish ns = (bytes, 0)) :
    encode bytes = ns.map symbol ++ List.replicate pads pad := by
  match ns, small, two, four, finished with
  | [a, b], small, _, four, finished =>
    simp only [List.forall_mem_cons] at small
    obtain ⟨ha, hb, _⟩ := small
    obtain rfl : pads = 2 := by simp only [List.length_cons, List.length_nil] at four; omega
    obtain ⟨rfl, zero⟩ := Prod.mk.inj finished
    have number : (UInt8.ofNat ((a * 64 + b) / 16)).toNat * 16 = a * 64 + b := by
      rw [UInt8.toNat_ofNat']
      omega
    have first : (a * 64 + b) >>> 6 = a := by omega
    have second : (a * 64 + b) % 64 = b := by omega
    simp only [encode, number, first, second]
    rfl
  | [a, b, c], small, _, four, finished =>
    simp only [List.forall_mem_cons] at small
    obtain ⟨ha, hb, hc, _⟩ := small
    obtain rfl : pads = 1 := by simp only [List.length_cons, List.length_nil] at four; omega
    obtain ⟨rfl, zero⟩ := Prod.mk.inj finished
    have number := Bytes.bigEndianOfNat 2 ((a * 64 * 64 + b * 64 + c) / 4)
    obtain ⟨x, y, pair⟩ : ∃ x y, Bytes.ofNat 2 ((a * 64 * 64 + b * 64 + c) / 4) = [x, y] :=
      ⟨_, _, rfl⟩
    rw [pair] at number ⊢
    have first : ((a * 64 * 64 + b * 64 + c) / 4 % 256 ^ 2 * 4) >>> 12 = a := by omega
    have second : ((a * 64 * 64 + b * 64 + c) / 4 % 256 ^ 2 * 4) >>> 6 % 64 = b := by omega
    have third : (a * 64 * 64 + b * 64 + c) / 4 % 256 ^ 2 * 4 % 64 = c := by omega
    simp only [encode, number, first, second, third]
    rfl
  | [a, b, c, d], small, _, four, finished =>
    obtain rfl : pads = 0 := by simp only [List.length_cons, List.length_nil] at four; omega
    cases finished
    rw [List.replicate_zero, List.append_nil]
    exact (encodeJoin small (by simp)).1
  | _ :: _ :: _ :: _ :: _ :: rest, _, _, four, _ =>
    simp only [List.length_cons] at four
    omega

theorem lastGroupRead {start : Nat} {group bytes : Bytes} (few : group.length ≤ 4)
    (done : lastGroup start group = .ok bytes) : group.length % 4 = 0 ∧ encode bytes = group := by
  obtain ⟨ns, pads, small, form, two, four, finished⟩ := lastGroupForm done
  have size : group.length = ns.length + pads := by
    rw [form, List.length_append, List.length_map, List.length_replicate]
  rw [size]
  refine ⟨four, ?_⟩
  rcases two with two | rfl
  · have all : ns.length + pads = 4 := by omega
    rw [form]
    exact finishEncode small two all finished
  · obtain ⟨empty, _⟩ := List.append_eq_nil_iff.mp form.symm
    rw [List.map_eq_nil_iff.mp empty] at finished
    cases finished
    rfl

theorem decodedParts {text bytes : Bytes} (read : decode text = .ok bytes) :
    (do
      let ns ← values 0 (text.take (text.length - tailLength text.length))
      let last ← lastGroup (text.length - tailLength text.length)
        (text.drop (text.length - tailLength text.length))
      Except.ok (join ns ++ last)) = Except.ok bytes := by
  unfold decode at read
  dsimp only at read
  split at read
  · split at read
    · contradiction
    · exact read
  · exact read

theorem tailExact (size : Nat) : tailLength size ≤ size ∧ tailLength size ≤ 4 ∧
    (tailLength size % 4 = 0 → (size - tailLength size) % 4 = 0) := by
  unfold tailLength
  split <;> omega

theorem decodedEncode {text bytes : Bytes} (read : decode text = .ok bytes) :
    encode bytes = text := by
  obtain ⟨ns, body, read⟩ := bindOk (decodedParts read)
  obtain ⟨last, tail, told⟩ := bindOk read
  cases told
  obtain ⟨within, few, multiple⟩ := tailExact text.length
  generalize start : text.length - tailLength text.length = cut at body tail multiple
  have rest : (text.drop cut).length = tailLength text.length := by
    rw [List.length_drop]
    omega
  obtain ⟨small, front⟩ := valuesSymbols body
  obtain ⟨four, back⟩ := lastGroupRead (rest ▸ few) tail
  have whole : ns.length % 4 = 0 := by
    have size := congrArg List.length front
    rw [List.length_map, List.length_take, Nat.min_eq_left (by omega)] at size
    rw [size]
    exact multiple (rest ▸ four)
  obtain ⟨same, three⟩ := encodeJoin small whole
  rw [encodeAppend three, same, front, back, List.take_append_drop]

theorem decodeExact (text bytes : Bytes) : decode text = .ok bytes ↔ text = encode bytes := by
  constructor
  · exact fun read => (decodedEncode read).symm
  · rintro rfl
    exact decodeEncode bytes

/- Only the last group has padding, one or two bytes of it where one or two bytes are missing. -/
theorem encodePadded (bytes : Bytes) :
    (encode bytes).length = 4 * ((bytes.length + 2) / 3) ∧
    ((encode bytes).reverse.takeWhile (· == pad)).length = (3 - bytes.length % 3) % 3 := by
  have shown {n : Nat} (small : n < 64) : (symbol n == pad) = false :=
    beq_eq_false_iff_ne.mpr (symbolNotPad n small)
  have below (n : Nat) : n % 64 < 64 := Nat.mod_lt n (by decide)
  fun_induction encode bytes with
  | case1 a b c rest n ih =>
    obtain ⟨size, padded⟩ := ih
    simp only [List.length_cons, size]
    refine ⟨by omega, ?_⟩
    simp only [List.reverse_cons, List.append_assoc, List.cons_append, List.nil_append]
    rw [List.takeWhile_append, List.length_reverse, padded, size]
    split
    · rename_i all
      have empty : (encode rest).reverse = [] := by
        rw [List.reverse_eq_nil_iff, ← List.length_eq_zero_iff]
        omega
      rw [empty, List.nil_append, List.takeWhile_cons, shown (below n)]
      simp only [Bool.false_eq_true, if_false, List.length_nil]
      omega
    · omega
  | case2 a b n =>
    refine ⟨by simp, ?_⟩
    simp only [List.reverse_cons, List.reverse_nil, List.nil_append, List.cons_append,
      List.takeWhile_cons, shown (below _), beq_self_eq_true]
    rfl
  | case3 a n =>
    refine ⟨by simp, ?_⟩
    simp only [List.reverse_cons, List.reverse_nil, List.nil_append, List.cons_append,
      List.takeWhile_cons, shown (below _), beq_self_eq_true]
    rfl
  | case4 => exact ⟨rfl, rfl⟩

end Base64

namespace Record

theorem payloadExact (r : Record) (payload : Bytes) :
    r.payload = .ok payload ↔ r.data = Bytes.toText (Base64.encode payload) := by
  have text : Utf8.encode r.data = Base64.encode payload ↔
      r.data = Bytes.toText (Base64.encode payload) := by
    constructor
    · intro same
      rw [← same, Bytes.textOfUtf8]
      rw [same]
      exact Base64.encodeAscii payload
    · intro same
      rw [same, Bytes.utf8OfText (Base64.encodeAscii payload)]
  rw [← text, ← Base64.decodeExact, Record.payload]
  cases Base64.decode (Utf8.encode r.data) <;> simp [Except.mapError]

theorem payloadLengthExact {r : Record} {payload : Bytes} (read : r.payload = .ok payload) :
    r.payloadLength = payload.length := by
  obtain ⟨size, padded⟩ := Base64.encodePadded payload
  unfold payloadLength
  rw [(payloadExact r payload).mp read, Bytes.utf8OfText (Base64.encodeAscii payload)]
  dsimp only
  rw [size, padded]
  omega

theorem payloadsCarried :
    (∀ label payload, (encode label payload).payload = .ok payload ∧
      (encode label payload).payloadLength = payload.length) ∧
    (∀ (r : Record) payload, r.payload = .ok payload →
      r.payloadLength = payload.length ∧ ∀ label, (encode label payload).data = r.data) ∧
    ∀ (r r' : Record) payload, r.payload = .ok payload →
      (r'.payload = .ok payload ↔ r'.data = r.data) := by
  refine ⟨fun label payload => ?_, fun r payload read => ?_, fun r r' payload read => ?_⟩
  · have read := payloadEncode label payload
    exact ⟨read, payloadLengthExact read⟩
  · exact ⟨payloadLengthExact read, fun label => ((payloadExact r payload).mp read).symm⟩
  · rw [payloadExact, (payloadExact r payload).mp read]

/- Of the sixteen texts for one byte that differ only in the bits no byte uses, one is read. -/
theorem sparePadding :
    let r : Record := ⟨"png", "/w=="⟩
    r.payload = .ok [255] ∧ r.payloadLength = 1 ∧ (encode "jpg" [255]).data = r.data ∧
    (⟨"png", "/x=="⟩ : Record).payload ≠ .ok [255] := by
  have read : (⟨"png", "/w=="⟩ : Record).payload = .ok [255] := rfl
  obtain ⟨_, carried, same⟩ := payloadsCarried
  obtain ⟨size, back⟩ := carried _ _ read
  refine ⟨read, size, back "jpg", fun other => ?_⟩
  have texts := (same _ ⟨"png", "/x=="⟩ _ read).mp other
  contradiction

end Record
end PaintedImages
