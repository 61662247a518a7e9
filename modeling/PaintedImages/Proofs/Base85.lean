import Mathlib.Algebra.Group.Nat.Defs
import PaintedImages.Filter.Base85
import PaintedImages.Proofs.Base64

/-! Base-85 text read back. Some bytes have several texts: blanks stand anywhere, a group of four
zeros has a short form, the frame may be left out on either side, and behind its end stands
anything. Each of them is accepted and gives the bytes. A last group is written with zeros in the
places of the missing bytes and read with the greatest digit in the places of the missing digits;
what the two put in differs by less than the missing bytes can count, so the bytes that are there
stay the same and no group grows too large for a word. Which other texts are accepted is not said
here. -/
namespace PaintedImages

def digits (base : Nat) : (width : Nat) → Nat → List UInt8
  | 0, _ => []
  | width + 1, n => digits base width (n / base) ++ [UInt8.ofNat (n % base)]

theorem digitsLength (base width n : Nat) : (digits base width n).length = width := by
  induction width generalizing n with
  | zero => rfl
  | succ width ih => simp [digits, ih]

theorem digitsTake (base width extra n : Nat) :
    (digits base (width + extra) n).take width = digits base width (n / base ^ extra) := by
  induction extra generalizing n with
  | zero => simp [List.take_of_length_le, digitsLength]
  | succ extra ih =>
    rw [← Nat.add_assoc, digits, List.take_append_of_le_length (by simp [digitsLength]), ih,
      Nat.div_div_eq_div_mul, Nat.pow_succ']

namespace Bytes

theorem ofNatDigits (width n : Nat) : ofNat width n = digits 256 width n := by
  induction width generalizing n with
  | zero => rfl
  | succ width ih =>
    have last : UInt8.ofNat (n % 256) = UInt8.ofNat n := by
      apply UInt8.toNat_inj.mp
      simp only [UInt8.toNat_ofNat']
      omega
    rw [ofNat, digits, ih, last]

theorem bigEndianZeros (bs : Bytes) (extra : Nat) :
    bigEndian (bs ++ List.replicate extra 0) = bigEndian bs * 256 ^ extra := by
  induction extra with
  | zero => simp
  | succ extra ih =>
    rw [List.replicate_succ', ← List.append_assoc, bigEndianAppend, ih, Nat.pow_succ,
      UInt8.toNat_zero, Nat.add_zero, Nat.mul_assoc]

theorem bigEndianSmall (bs : Bytes) : bigEndian bs < 256 ^ bs.length := by
  induction bs using List.reverseRecOn with
  | nil => decide
  | append_singleton bs b ih =>
    have small := b.toNat_lt
    rw [bigEndianAppend, List.length_append, List.length_singleton, Nat.pow_succ]
    omega

end Bytes

namespace Base85

def symbols (ds : List UInt8) : Bytes := ds.map (33 + ·)

inductive Written : Bytes → Bytes → Prop where
  | done : Written [] []
  | zeros {bytes text : Bytes} (rest : Written bytes text) :
      Written (0 :: 0 :: 0 :: 0 :: bytes) (122 :: text)
  | group (a b c d : UInt8) {bytes text : Bytes} (rest : Written bytes text) :
      Written (a :: b :: c :: d :: bytes)
        (symbols (digits 85 5 (Bytes.bigEndian [a, b, c, d])) ++ text)
  | last {bytes : Bytes} (one : 1 ≤ bytes.length) (few : bytes.length ≤ 3) :
      Written bytes ((symbols (digits 85 5
        (Bytes.bigEndian (bytes ++ List.replicate (4 - bytes.length) 0)))).take (bytes.length + 1))

-- space, tab, line feed, form feed and carriage return
def blanks : Bytes := [32, 9, 10, 12, 13]

def Ended (tail : Bytes) : Prop := tail = [] ∨ ∃ rest, tail = 126 :: rest

theorem digitsSmall {width n : Nat} {d : UInt8} (mem : d ∈ digits 85 width n) : d < 85 := by
  induction width generalizing n with
  | zero => contradiction
  | succ width ih =>
    rcases List.mem_append.mp mem with before | same
    · exact ih before
    · rw [List.mem_singleton.mp same]
      have small : n % 85 < 85 := Nat.mod_lt _ (by decide)
      rw [UInt8.lt_iff_toNat_lt, UInt8.toNat_ofNat']
      change n % 85 % 256 < 85
      omega

theorem valueAppend (ds : List UInt8) (d : UInt8) :
    value (ds ++ [d]) = value ds * 85 + d.toNat := by
  simp [value]

theorem valueDigits (width n : Nat) : value (digits 85 width n) = n % 85 ^ width := by
  induction width generalizing n with
  | zero => simp [digits, value, Nat.mod_one]
  | succ width ih =>
    have small : (UInt8.ofNat (n % 85)).toNat = n % 85 := by
      rw [UInt8.toNat_ofNat']
      omega
    rw [digits, valueAppend, ih, small, Nat.pow_succ', Nat.mod_mul]
    omega

/- The greatest digit in every missing place. -/
theorem valueFilled (ds : List UInt8) (extra : Nat) :
    value (ds ++ List.replicate extra 84) = value ds * 85 ^ extra + (85 ^ extra - 1) := by
  induction extra with
  | zero => simp
  | succ extra ih =>
    have positive : 0 < 85 ^ extra := Nat.pow_pos (by decide)
    rw [List.replicate_succ', ← List.append_assoc, valueAppend, ih, Nat.pow_succ, Nat.add_mul,
      ← Nat.mul_assoc]
    change _ + _ + 84 = _
    omega

/- The places filled in differ by less than `256 ^ extra`, however large the written number is. -/
theorem missingBytes (n extra : Nat) :
    (n * 256 ^ extra / 85 ^ extra * 85 ^ extra + (85 ^ extra - 1)) / 256 ^ extra = n := by
  have fewer : 85 ^ extra ≤ 256 ^ extra := Nat.pow_le_pow_left (by decide) extra
  have positive : 0 < 85 ^ extra := Nat.pow_pos (by decide)
  generalize 85 ^ extra = p at fewer positive ⊢
  generalize 256 ^ extra = q at fewer ⊢
  have cut := Nat.div_add_mod (n * q) p
  have left := Nat.mod_lt (n * q) positive
  rw [Nat.mul_comm p] at cut
  apply Nat.div_eq_of_lt_le
  · omega
  · rw [Nat.add_mul, Nat.one_mul]
    omega

/- The number of a group with bytes missing, and of the digits kept of it. -/
theorem valueKept {bytes : Bytes} {extra : Nat} (four : bytes.length + extra = 4) :
    value (digits 85 (bytes.length + 1) (Bytes.bigEndian bytes * 256 ^ extra / 85 ^ extra)) =
      Bytes.bigEndian bytes * 256 ^ extra / 85 ^ extra := by
  have small : Bytes.bigEndian bytes * 256 ^ extra < 256 ^ 4 := by
    rw [← four, Nat.pow_add]
    exact Nat.mul_lt_mul_of_pos_right (Bytes.bigEndianSmall bytes) (Nat.pow_pos (by decide))
  have five : 85 ^ extra * 85 ^ (bytes.length + 1) = 85 ^ 5 := by
    rw [← Nat.pow_add]
    congr 1
    omega
  rw [valueDigits, Nat.mod_eq_of_lt]
  apply Nat.div_lt_of_lt_mul
  rw [five]
  omega

theorem wordFilled (bytes : Bytes) (extra : Nat) (four : bytes.length + extra = 4) :
    (word (digits 85 (bytes.length + 1) (Bytes.bigEndian bytes * 256 ^ extra / 85 ^ extra) ++
      List.replicate extra 84)).map (·.take bytes.length) = .ok bytes := by
  have back := missingBytes (Bytes.bigEndian bytes) extra
  rw [word, valueFilled, valueKept four]
  generalize Bytes.bigEndian bytes * 256 ^ extra / 85 ^ extra * 85 ^ extra + (85 ^ extra - 1) = n
    at back ⊢
  have room : n < UInt32.size := by
    have top : 256 ^ bytes.length * 256 ^ extra = UInt32.size := by
      rw [← Nat.pow_add, four]
    rw [← top, ← Nat.div_lt_iff_lt_mul (Nat.pow_pos (by decide)), back]
    exact Bytes.bigEndianSmall bytes
  have kept : (Bytes.ofNat 4 n).take bytes.length = bytes := by
    rw [Bytes.ofNatDigits, ← four, digitsTake, back, ← Bytes.ofNatDigits, Bytes.ofNatBigEndian]
  rw [if_pos room, Except.map, kept]

theorem wordFull (a b c d : UInt8) :
    word (digits 85 5 (Bytes.bigEndian [a, b, c, d])) = .ok [a, b, c, d] := by
  have small : Bytes.bigEndian [a, b, c, d] < 256 ^ 4 := Bytes.bigEndianSmall [a, b, c, d]
  have back : Bytes.ofNat 4 (Bytes.bigEndian [a, b, c, d]) = [a, b, c, d] :=
    Bytes.ofNatBigEndian [a, b, c, d]
  rw [word, valueDigits, Nat.mod_eq_of_lt (by omega), if_pos (by omega), back]

theorem symbolRead {d : UInt8} (small : d < 85) :
    33 ≤ 33 + d ∧ 33 + d ≤ 117 ∧ 33 + d - 33 = d := by
  have number : (33 + d).toNat = 33 + d.toNat := by
    rw [UInt8.lt_iff_toNat_lt] at small
    rw [UInt8.toNat_add]
    exact Nat.mod_eq_of_lt (Nat.lt_trans (Nat.add_lt_add_left small 33) (by decide))
  refine ⟨?_, ?_, by rw [UInt8.add_comm, UInt8.add_sub_cancel]⟩
  · rw [UInt8.le_iff_toNat_le, number]
    exact Nat.le_add_right 33 _
  · rw [UInt8.le_iff_toNat_le, number]
    rw [UInt8.lt_iff_toNat_lt] at small
    exact Nat.add_le_add_left (Nat.le_of_lt_succ small) 33

/- A character of a digit is neither the short form of four zeros nor the end. -/
theorem runDigit {group : List UInt8} {d : UInt8} (small : d < 85) (rest : Bytes) :
    run group ((33 + d) :: rest) =
      if group.length = 4 then do
        let bytes ← word (group ++ [d])
        let more ← run [] rest
        .ok (bytes ++ more)
      else run (group ++ [d]) rest := by
  obtain ⟨lower, upper, same⟩ := symbolRead small
  have notEnd : 33 + d ≠ 126 := fun h => absurd (h ▸ upper) (by decide)
  have notZeros : 33 + d ≠ 122 := fun h => absurd (h ▸ upper) (by decide)
  rw [run, if_neg notEnd, if_neg notZeros, if_pos ⟨lower, upper⟩, same]

theorem runDigits {group ds : List UInt8} (small : ∀ d ∈ ds, d < 85)
    (few : group.length + ds.length ≤ 4) (rest : Bytes) :
    run group (symbols ds ++ rest) = run (group ++ ds) rest := by
  induction ds generalizing group with
  | nil => rw [List.append_nil]; rfl
  | cons d ds ih =>
    rw [List.length_cons] at few
    have shorter : (group ++ [d]).length + ds.length ≤ 4 := by
      rw [List.length_append, List.length_singleton]
      omega
    change run group ((33 + d) :: (symbols ds ++ rest)) = _
    rw [runDigit (small d List.mem_cons_self), if_neg (by omega),
      ih (fun e mem => small e (List.mem_cons_of_mem _ mem)) shorter, List.append_assoc]
    rfl

/- The first four digits of a full group wait for the fifth. -/
theorem runGroup {ds : List UInt8} (small : ∀ d ∈ ds, d < 85) (five : ds.length = 5)
    (rest : Bytes) :
    run [] (symbols ds ++ rest) = (do
      let bytes ← word ds
      let more ← run [] rest
      .ok (bytes ++ more)) := by
  cases ds using List.reverseRecOn with
  | nil => simp at five
  | append_singleton before d =>
    rw [List.length_append, List.length_singleton, Nat.add_right_cancel_iff] at five
    rw [symbols, List.map_append, List.append_assoc]
    change run [] (symbols before ++ (33 + d) :: rest) = _
    rw [runDigits (fun e mem => small e (List.mem_append_left _ mem)) (by simp [five]),
      List.nil_append, runDigit (small d (by simp)), if_pos five]

theorem runFull (a b c d : UInt8) (rest : Bytes) :
    run [] (symbols (digits 85 5 (Bytes.bigEndian [a, b, c, d])) ++ rest) = (do
      let more ← run [] rest
      .ok ([a, b, c, d] ++ more)) := by
  rw [runGroup (fun e => digitsSmall) (digitsLength 85 5 _), wordFull]
  rfl

theorem runEnded {tail : Bytes} (ended : Ended tail) (group : List UInt8) :
    run group tail = finish group := by
  obtain rfl | ⟨rest, rfl⟩ := ended
  · rw [run]
  · rw [run, if_pos rfl]

theorem finishFilled {group : List UInt8} (two : 2 ≤ group.length) :
    finish group =
      (word (group ++ List.replicate (5 - group.length) 84)).map (·.take (group.length - 1)) := by
  rw [finish]
  split
  · omega
  · omega
  · rfl

theorem runRemainder {ds : List UInt8} (small : ∀ d ∈ ds, d < 85) (two : 2 ≤ ds.length)
    (few : ds.length ≤ 4) {tail : Bytes} (ended : Ended tail) :
    run [] (symbols ds ++ tail) =
      (word (ds ++ List.replicate (5 - ds.length) 84)).map (·.take (ds.length - 1)) := by
  rw [runDigits small (by simpa using few), List.nil_append, runEnded ended, finishFilled two]

theorem runLast {bytes tail : Bytes} (one : 1 ≤ bytes.length) (few : bytes.length ≤ 3)
    (ended : Ended tail) :
    run [] ((symbols (digits 85 5 (Bytes.bigEndian
      (bytes ++ List.replicate (4 - bytes.length) 0)))).take (bytes.length + 1) ++ tail) =
        .ok bytes := by
  have five : 5 = bytes.length + 1 + (4 - bytes.length) := by omega
  have missing : 5 - (bytes.length + 1) = 4 - bytes.length := by omega
  have filled := wordFilled bytes (4 - bytes.length) (by omega)
  have size := digitsLength 85 (bytes.length + 1)
    (Bytes.bigEndian bytes * 256 ^ (4 - bytes.length) / 85 ^ (4 - bytes.length))
  rw [symbols, ← List.map_take, Bytes.bigEndianZeros, five, digitsTake]
  change run [] (symbols _ ++ tail) = _
  rw [runRemainder (fun d => digitsSmall) (by omega) (by omega) ended, size, missing]
  exact filled

theorem blankExact (b : UInt8) : Bytes.isBlank b = true ↔ b ∈ blanks := by
  simp only [Bytes.isBlank, blanks, Bool.or_eq_true, beq_iff_eq, List.mem_cons, List.not_mem_nil,
    or_false, or_assoc]

theorem runBlank {b : UInt8} (blank : b ∈ blanks) (group : List UInt8) (rest : Bytes) :
    run group (b :: rest) = run group rest := by
  have other : ∀ b ∈ blanks, b ≠ 126 ∧ b ≠ 122 ∧ ¬ (33 ≤ b ∧ b ≤ 117) := by simp [blanks]
  obtain ⟨notEnd, notZeros, notDigit⟩ := other b blank
  rw [run, if_neg notEnd, if_neg notZeros, if_neg notDigit, if_pos ((blankExact b).mpr blank)]

theorem runBlanks (group : List UInt8) (text tail : Bytes) :
    run group (text ++ tail) = run group (text.filter (· ∉ blanks) ++ tail) := by
  induction text generalizing group with
  | nil => rfl
  | cons b rest ih =>
    by_cases blank : b ∈ blanks
    · rw [List.filter_cons_of_neg (by simpa using blank), List.cons_append, runBlank blank, ih]
    · rw [List.filter_cons_of_pos (by simpa using blank), List.cons_append, List.cons_append]
      simp only [run, ih]

theorem writtenRead {bytes text tail : Bytes} (written : Written bytes text) (ended : Ended tail) :
    run [] (text ++ tail) = .ok bytes := by
  induction written with
  | done => rw [List.nil_append, runEnded ended]; rfl
  | zeros rest ih =>
    rw [List.cons_append, run, if_neg (by decide), if_pos rfl, ih]
    rfl
  | group a b c d rest ih =>
    rw [List.append_assoc, runFull, ih]
    rfl
  | last one few => exact runLast one few ended

/- The frame's own bytes would be a digit that stands alone, so no text begins with them. -/
theorem frameUnread (rest : Bytes) : run [] (60 :: 126 :: rest) = .error .base85Single := by
  change run [] ((33 + 27) :: 126 :: rest) = _
  rw [runDigit (by decide), if_neg (by decide), runEnded (.inr ⟨rest, rfl⟩)]
  rfl

theorem writtenExists (bytes : Bytes) : ∃ text, Written bytes text := by
  match bytes with
  | [] => exact ⟨[], .done⟩
  | [a] => exact ⟨_, .last (by simp) (by simp)⟩
  | [a, b] => exact ⟨_, .last (by simp) (by simp)⟩
  | [a, b, c] => exact ⟨_, .last (by simp) (by simp)⟩
  | a :: b :: c :: d :: rest =>
    obtain ⟨text, written⟩ := writtenExists rest
    exact ⟨_, .group a b c d written⟩

theorem decodeWritten (bytes : Bytes) :
    (∃ text, Written bytes text) ∧
    ∀ text spaced frame tail : Bytes, Written bytes text → spaced.filter (· ∉ blanks) = text →
      frame = [] ∨ frame = [60, 126] → tail = [] ∨ (∃ rest, tail = 126 :: rest) →
      decode (frame ++ spaced ++ tail) = .ok bytes := by
  refine ⟨writtenExists bytes, ?_⟩
  intro text spaced frame tail written same framed ended
  have read : run [] (spaced ++ tail) = .ok bytes := by
    rw [runBlanks, same]
    exact writtenRead written ended
  rw [decode, List.append_assoc]
  obtain rfl | rfl := framed
  · have whole : Bytes.strip [60, 126] (spaced ++ tail) = none := by
      rw [Option.eq_none_iff_forall_ne_some]
      intro rest stripped
      rw [Bytes.stripSplits.mp stripped] at read
      exact absurd ((frameUnread rest).symm.trans read) (by simp)
    rw [List.nil_append, whole]
    exact read
  · rw [Bytes.stripSplits.mpr rfl]
    exact read

/- Four zeros in short, the greatest full group and a last group of the greatest byte, with blanks
between them and inside a group. -/
theorem decodeWrittenGreatest :
    let bytes : Bytes := [0, 0, 0, 0, 255, 255, 255, 255, 255]
    let text := Bytes.ofText "zs8W-!rr"
    let spaced := Bytes.ofText "z s8\tW-!\r\nr r\n"
    Written bytes text ∧ spaced.filter (· ∉ blanks) = text ∧
      decode (Bytes.ofText "<~" ++ spaced ++ Bytes.ofText "~>!") = .ok bytes := by
  intro bytes text spaced
  have last : Written [255] (Bytes.ofText "rr") := .last (by decide) (by decide)
  have written : Written bytes text := .zeros (.group 255 255 255 255 last)
  have same : spaced.filter (· ∉ blanks) = text := by decide
  exact ⟨written, same, (decodeWritten bytes).2 text spaced _ _ written same (.inr rfl)
    (.inr ⟨Bytes.ofText ">!", rfl⟩)⟩

end Base85
end PaintedImages
