import PaintedImages.Proofs.Base85
import PaintedImages.Proofs.MarkedText
import PaintedImages.Proofs.Outcomes

/-! The base-85 texts that are accepted, and what each of them gives. Of an input counts what is
left without its frame and its blanks. It is read exactly when it is a sequence of groups, each with
a number that fits a word, of which only the last may be short. -/
namespace PaintedImages.Base85

def unframed (input : Bytes) : Bytes := (Bytes.strip [60, 126] input).getD input

/- A short group in the form in which its number is taken. -/
def filled (ds : List UInt8) : List UInt8 := ds ++ List.replicate (5 - ds.length) 84

inductive Grouped : Bytes → Bytes → Prop where
  | done : Grouped [] []
  | zeros {text bytes : Bytes} (rest : Grouped text bytes) :
      Grouped (122 :: text) (0 :: 0 :: 0 :: 0 :: bytes)
  | full {ds : List UInt8} {text bytes : Bytes} (small : ∀ d ∈ ds, d < 85) (five : ds.length = 5)
      (fits : value ds < 2 ^ 32) (rest : Grouped text bytes) :
      Grouped (symbols ds ++ text) (digits 256 4 (value ds) ++ bytes)
  | last {ds : List UInt8} (small : ∀ d ∈ ds, d < 85) (two : 2 ≤ ds.length)
      (few : ds.length ≤ 4) (fits : value (filled ds) < 2 ^ 32) :
      Grouped (symbols ds) ((digits 256 4 (value (filled ds))).take (ds.length - 1))

theorem wordExact {ds : List UInt8} {bytes : Bytes} :
    word ds = .ok bytes ↔ value ds < 2 ^ 32 ∧ digits 256 4 (value ds) = bytes := by
  have size : UInt32.size = 2 ^ 32 := rfl
  rw [word, size]
  split
  · rename_i fits
    rw [Bytes.ofNatDigits, Except.ok.injEq, and_iff_right fits]
  · rename_i large
    simp only [reduceCtorEq, large, false_and]

theorem groupedRead {text bytes : Bytes} (grouped : Grouped text bytes) :
    run [] text = .ok bytes := by
  induction grouped with
  | done => rfl
  | zeros rest ih =>
    rw [run, if_neg (by decide), if_pos rfl, ih]
    rfl
  | full small five fits rest ih =>
    rw [runGroup small five, wordExact.mpr ⟨fits, rfl⟩, ih]
    rfl
  | @last ds small two few fits =>
    have read := runRemainder small two few (.inl rfl)
    rw [List.append_nil] at read
    rw [read, ← filled, wordExact.mpr ⟨fits, rfl⟩]
    rfl

theorem finishGrouped {group : List UInt8} {bytes : Bytes} (small : ∀ d ∈ group, d < 85)
    (few : group.length ≤ 4) (ok : finish group = .ok bytes) : Grouped (symbols group) bytes := by
  obtain empty | one | two : group.length = 0 ∨ group.length = 1 ∨ 2 ≤ group.length := by omega
  · cases List.length_eq_zero_iff.mp empty
    cases Except.ok.inj ok
    exact .done
  · unfold finish at ok
    rw [one] at ok
    contradiction
  · rw [finishFilled two] at ok
    obtain ⟨whole, read, rfl⟩ := mapOk ok
    obtain ⟨fits, rfl⟩ := wordExact.mp read
    exact .last small two few fits

theorem symbolBack {b : UInt8} (between : 33 ≤ b ∧ b ≤ 117) : b - 33 < 85 ∧ 33 + (b - 33) = b := by
  have number := UInt8.toNat_sub_of_le b 33 between.1
  have upper := UInt8.le_iff_toNat_le.mp between.2
  refine ⟨?_, by rw [UInt8.add_comm, UInt8.sub_add_cancel]⟩
  rw [UInt8.lt_iff_toNat_lt, number]
  exact Nat.sub_lt_left_of_lt_add (UInt8.le_iff_toNat_le.mp between.1) (Nat.lt_succ_of_le upper)

theorem symbolAdded {group : List UInt8} {b : UInt8} (small : ∀ d ∈ group, d < 85)
    (between : 33 ≤ b ∧ b ≤ 117) (rest : Bytes) :
    (∀ d ∈ group ++ [b - 33], d < 85) ∧
      symbols (group ++ [b - 33]) ++ rest = symbols group ++ b :: rest := by
  obtain ⟨digit, same⟩ := symbolBack between
  constructor
  · intro d mem
    rcases List.mem_append.mp mem with before | last
    · exact small d before
    · exact List.mem_singleton.mp last ▸ digit
  · rw [symbols, List.map_append, List.map_singleton, same, List.append_assoc]
    rfl

/- The digits read since the last whole group stand before the text that is still to come. -/
theorem readGrouped {group : List UInt8} {text bytes : Bytes} (small : ∀ d ∈ group, d < 85)
    (few : group.length ≤ 4) (clean : ∀ b ∈ text, b ≠ 126 ∧ Bytes.isBlank b = false)
    (ok : run group text = .ok bytes) : Grouped (symbols group ++ text) bytes := by
  fun_induction run group text generalizing bytes with
  | case1 group =>
    rw [List.append_nil]
    exact finishGrouped small few ok
  | case2 group rest => exact absurd rfl (clean 126 List.mem_cons_self).1
  | case3 group rest empty _ ih =>
    cases List.isEmpty_iff.mp empty
    obtain ⟨more, read, rfl⟩ := mapOk ok
    exact .zeros (ih (by simp) (by simp) (List.forall_mem_cons.mp clean).2 read)
  | case4 => contradiction
  | case5 group b rest _ _ between four ih =>
    obtain ⟨digits, same⟩ := symbolAdded small between rest
    obtain ⟨whole, read, ok⟩ := bindOk ok
    obtain ⟨more, later, ok⟩ := bindOk ok
    cases Except.ok.inj ok
    obtain ⟨fits, rfl⟩ := wordExact.mp read
    rw [← same]
    exact .full digits (by simp [four]) fits
      (ih (by simp) (by simp) (List.forall_mem_cons.mp clean).2 later)
  | case6 group b rest _ _ between notFour ih =>
    obtain ⟨digits, same⟩ := symbolAdded small between rest
    have room : (group ++ [b - 33]).length ≤ 4 := by
      rw [List.length_append, List.length_singleton]
      omega
    rw [← same]
    exact ih digits room (List.forall_mem_cons.mp clean).2 ok
  | case7 group b rest _ _ _ blank ih =>
    rw [(clean b List.mem_cons_self).2] at blank
    contradiction
  | case8 => contradiction

theorem groupedLength {text bytes : Bytes} (grouped : Grouped text bytes) :
    bytes.length ≤ 4 * text.length := by
  induction grouped with
  | done => exact Nat.le_refl 0
  | zeros rest ih =>
    simp only [List.length_cons]
    omega
  | full small five fits rest ih =>
    simp only [List.length_append, digitsLength, symbols, List.length_map]
    omega
  | last small two few fits =>
    simp only [List.length_take, digitsLength, symbols, List.length_map]
    omega

theorem unframedLength (input : Bytes) : (unframed input).length ≤ input.length := by
  unfold unframed
  cases stripped : Bytes.strip [60, 126] input with
  | none => exact Nat.le_refl _
  | some rest =>
    rw [Bytes.stripSplits.mp stripped]
    exact Nat.le_add_right rest.length 2

theorem runVisible (group : List UInt8) (text : Bytes) :
    run group text = run group (Bytes.visible 126 text) := by
  induction text generalizing group with
  | nil => rfl
  | cons b rest ih =>
    by_cases last : b = 126
    · rw [last, Bytes.visibleMark, runEnded (.inr ⟨rest, rfl⟩), run]
    · cases blank : Bytes.isBlank b with
      | true => rw [runBlank ((blankExact b).mp blank), Bytes.visibleBlank last blank, ih]
      | false =>
        rw [Bytes.visibleSeen last blank]
        simp only [run, ih]

theorem decodeGrouped (input bytes : Bytes) :
    (decode input = .ok bytes ↔ Grouped (Bytes.visible 126 (unframed input)) bytes) ∧
    (decode input = .ok bytes → bytes.length ≤ 4 * input.length) := by
  have reads :
      decode input = .ok bytes ↔ Grouped (Bytes.visible 126 (unframed input)) bytes := by
    change run [] (unframed input) = _ ↔ _
    rw [runVisible]
    exact ⟨readGrouped (by simp) (by simp) (fun b mem => Bytes.visibleClean mem), groupedRead⟩
  refine ⟨reads, ?_⟩
  intro ok
  calc bytes.length
    _ ≤ 4 * (Bytes.visible 126 (unframed input)).length := groupedLength (reads.mp ok)
    _ ≤ 4 * (unframed input).length := Nat.mul_le_mul_left 4 (Bytes.visibleLength 126 _)
    _ ≤ 4 * input.length := Nat.mul_le_mul_left 4 (unframedLength input)

/- A group in short, and a last group of two digits with a blank between them. -/
theorem shortGroupsRead :
    let input := Bytes.ofText "<~zr\nr~>x"
    let bytes : Bytes := [0, 0, 0, 0, 255]
    decode input = .ok bytes ∧ Grouped (Bytes.visible 126 (unframed input)) bytes ∧
      bytes.length ≤ 4 * input.length := by
  intro input bytes
  have ok : decode input = .ok bytes := by rfl
  exact ⟨ok, (decodeGrouped input bytes).1.mp ok, (decodeGrouped input bytes).2 ok⟩

end PaintedImages.Base85
