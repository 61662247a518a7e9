import Mathlib.Data.List.Forall2
import PaintedImages.Filter.Hexadecimal
import PaintedImages.Proofs.MarkedText
import PaintedImages.Proofs.Outcomes

/-! Hexadecimal text is read exactly when nothing but digits is left of it once the blanks are
dropped and the text is cut at its end mark. The digits are then taken two a byte, and a zero stands
in for the half that an odd number of digits leaves open. So a text of either case, or both, gives
the bytes it was written from. -/
namespace PaintedImages.Hexadecimal

/- From `0` on, and from `A` or `a` on. -/
def Spells (n : Nat) (c : UInt8) : Prop :=
  n < 10 ∧ c.toNat = 48 + n ∨
    10 ≤ n ∧ n < 16 ∧ (c.toNat = 65 + (n - 10) ∨ c.toNat = 97 + (n - 10))

/- The texts for some bytes, without blanks. -/
inductive Written : Bytes → Bytes → Prop where
  | done : Written [] []
  | byte {b high low : UInt8} {bytes text : Bytes} (first : Spells (b.toNat / 16) high)
      (second : Spells (b.toNat % 16) low) (rest : Written bytes text) :
      Written (b :: bytes) (high :: low :: text)

def pack : List Nat → Bytes
  | [] => []
  | [high] => [UInt8.ofNat (16 * high)]
  | high :: low :: digits => UInt8.ofNat (16 * high + low) :: pack digits

theorem valueExact {n : Nat} {c : UInt8} :
    Numeral.hexValue (Char.ofUInt8 c) = some n ↔ Spells n c := by
  have code : (Char.ofUInt8 c).toNat = c.toNat := rfl
  have codeWord : (Char.ofUInt8 c).val.toNat = c.toNat := rfl
  unfold Numeral.hexValue Spells
  simp only [Char.isDigit, Char.le_def, UInt32.le_iff_toNat_le, ge_iff_le, Bool.and_eq_true,
    decide_eq_true_eq, code, codeWord, Char.reduceVal, UInt32.reduceToNat]
  split
  · rw [Option.some.injEq]
    omega
  · split
    · rw [Option.some.injEq]
      omega
    · split
      · rw [Option.some.injEq]
        omega
      · simp only [reduceCtorEq, false_iff]
        omega

theorem spellsSmall {n : Nat} {c : UInt8} (spells : Spells n c) : n < 16 := by
  unfold Spells at spells
  omega

theorem spellsValue {n : Nat} {c : UInt8} (spells : Spells n c) :
    Bytes.hexValue c = some (UInt8.ofNat n) := by
  rw [Bytes.hexValue, valueExact.mpr spells, Option.map_some]

theorem valueSpells {c d : UInt8} (read : Bytes.hexValue c = some d) : ∃ n, Spells n c := by
  obtain ⟨n, value, _⟩ := Option.map_eq_some_iff.mp read
  exact ⟨n, valueExact.mp value⟩

/- A digit neither ends the text nor is passed over. -/
theorem spellsVisible {n : Nat} {c : UInt8} (spells : Spells n c) :
    c ≠ 62 ∧ Bytes.isBlank c = false := by
  unfold Spells at spells
  unfold Bytes.isBlank
  simp only [ne_eq, Bool.or_eq_false_iff, beq_eq_false_iff_ne, ← UInt8.toNat_inj,
    UInt8.reduceToNat]
  omega

theorem runBlank {b : UInt8} (blank : Bytes.isBlank b = true) (high : Option UInt8)
    (rest : Bytes) : run high (b :: rest) = run high rest := by
  have notEnd : b ≠ 62 := by rintro rfl; contradiction
  simp only [run, if_neg notEnd, if_pos blank]

theorem runVisible (high : Option UInt8) (input : Bytes) :
    run high input = run high (Bytes.visible 62 input) := by
  induction input generalizing high with
  | nil => rfl
  | cons b rest ih =>
    by_cases last : b = 62
    · rw [last, Bytes.visibleMark]
      rfl
    · cases blank : Bytes.isBlank b with
      | true => rw [runBlank blank, Bytes.visibleBlank last blank, ih]
      | false =>
        rw [Bytes.visibleSeen last blank]
        simp only [run, ih]

theorem runDigit {n : Nat} {c : UInt8} (spells : Spells n c) (high : Option UInt8) (rest : Bytes) :
    run high (c :: rest) = match high with
      | none => run (some (UInt8.ofNat n)) rest
      | some first => (run none rest).map ((first * 16 + UInt8.ofNat n) :: ·) := by
  obtain ⟨notEnd, seen⟩ := spellsVisible spells
  cases high <;> simp only [run, if_neg notEnd, seen, Bool.false_eq_true, if_false,
    spellsValue spells]

/- Digits are taken two at a time; the first of them is the reader's state. -/
theorem runPacked {digits : List Nat} {text : Bytes} (spelled : List.Forall₂ Spells digits text) :
    run none text = .ok (pack digits) := by
  fun_induction pack digits generalizing text with
  | case1 =>
    cases spelled
    rfl
  | case2 high =>
    obtain _ | ⟨first, _ | _⟩ := spelled
    rw [runDigit first, UInt8.ofNat_mul, UInt8.mul_comm]
    rfl
  | case3 high low digits ih =>
    obtain _ | ⟨first, _ | ⟨second, rest⟩⟩ := spelled
    rw [runDigit first]
    change run (some (UInt8.ofNat high)) _ = _
    rw [runDigit second, ih rest, UInt8.ofNat_add, UInt8.ofNat_mul, UInt8.mul_comm]
    rfl

theorem readSpelled {high : Option UInt8} {input bytes : Bytes}
    (ok : run high input = .ok bytes) : ∀ c ∈ Bytes.visible 62 input, ∃ n, Spells n c := by
  fun_induction run high input generalizing bytes with
  | case1 => exact List.forall_mem_nil _
  | case2 high rest =>
    rw [Bytes.visibleMark]
    exact List.forall_mem_nil _
  | case3 high b rest notEnd blank ih =>
    rw [Bytes.visibleBlank notEnd blank]
    exact ih ok
  | case4 => contradiction
  | case5 b rest notEnd seen digit found ih =>
    rw [Bytes.visibleSeen notEnd (by simpa using seen)]
    exact List.forall_mem_cons.mpr ⟨valueSpells found, ih ok⟩
  | case6 b rest notEnd seen digit first found ih =>
    obtain ⟨more, later, rfl⟩ := mapOk ok
    rw [Bytes.visibleSeen notEnd (by simpa using seen)]
    exact List.forall_mem_cons.mpr ⟨valueSpells found, ih later⟩

theorem spelledExists {text : Bytes} (digits : ∀ c ∈ text, ∃ n, Spells n c) :
    ∃ ds, List.Forall₂ Spells ds text := by
  induction text with
  | nil => exact ⟨[], .nil⟩
  | cons c text ih =>
    obtain ⟨n, spells⟩ := digits c List.mem_cons_self
    obtain ⟨ds, spelled⟩ := ih fun d mem => digits d (List.mem_cons_of_mem c mem)
    exact ⟨n :: ds, .cons spells spelled⟩

theorem packLength (digits : List Nat) : (pack digits).length = (digits.length + 1) / 2 := by
  fun_induction pack digits with
  | case1 => rfl
  | case2 high => simp
  | case3 high low digits ih =>
    simp only [List.length_cons, ih]
    omega

theorem packAt {digits : List Nat} (small : ∀ n ∈ digits, n < 16) {i : Nat} {b : UInt8}
    (found : (pack digits)[i]? = some b) :
    b.toNat = 16 * digits.getD (2 * i) 0 + digits.getD (2 * i + 1) 0 := by
  fun_induction pack digits generalizing i with
  | case1 => simp at found
  | case2 high =>
    have least := small high (by simp)
    cases i with
    | zero =>
      cases Option.some.inj found
      rw [UInt8.toNat_ofNat']
      change 16 * high % 256 = 16 * high + 0
      omega
    | succ i => simp at found
  | case3 high low digits ih =>
    cases i with
    | zero =>
      cases Option.some.inj found
      have least := small high (by simp)
      have next := small low (by simp)
      rw [UInt8.toNat_ofNat']
      change (16 * high + low) % 256 = 16 * high + low
      omega
    | succ i => exact ih (fun n mem => small n (by simp [mem])) found

theorem writtenSpelled {bytes text : Bytes} (written : Written bytes text) :
    ∃ digits, List.Forall₂ Spells digits text ∧ pack digits = bytes := by
  induction written with
  | done => exact ⟨[], .nil, rfl⟩
  | @byte b high low bytes text first second rest ih =>
    obtain ⟨digits, spelled, same⟩ := ih
    refine ⟨b.toNat / 16 :: b.toNat % 16 :: digits, .cons first (.cons second spelled), ?_⟩
    rw [pack, Nat.div_add_mod, UInt8.ofNat_toNat, same]

theorem digitExists {n : Nat} (small : n < 16) : ∃ c, Spells n c := by
  obtain few | many := Nat.lt_or_ge n 10
  · refine ⟨UInt8.ofNat (48 + n), .inl ⟨few, ?_⟩⟩
    rw [UInt8.toNat_ofNat']
    omega
  · refine ⟨UInt8.ofNat (65 + (n - 10)), .inr ⟨many, small, .inl ?_⟩⟩
    rw [UInt8.toNat_ofNat']
    omega

theorem writtenExists (bytes : Bytes) : ∃ text, Written bytes text := by
  induction bytes with
  | nil => exact ⟨[], .done⟩
  | cons b bytes ih =>
    obtain ⟨text, written⟩ := ih
    have small := b.toNat_lt
    obtain ⟨high, first⟩ := digitExists (n := b.toNat / 16) (by omega)
    obtain ⟨low, second⟩ := digitExists (n := b.toNat % 16) (Nat.mod_lt _ (by decide))
    exact ⟨_, .byte first second written⟩

theorem spelledRead {input : Bytes} {digits : List Nat}
    (spelled : List.Forall₂ Spells digits (Bytes.visible 62 input)) :
    decode input = .ok (pack digits) := by
  rw [decode, runVisible, runPacked spelled]

theorem spelledSmall {digits : List Nat} {text : Bytes}
    (spelled : List.Forall₂ Spells digits text) : ∀ n ∈ digits, n < 16 := by
  have both := spelled.imp fun n c spells => And.intro (spellsSmall spells) spells
  exact ((List.forall₂_and_left _ _).mp both).1

theorem spelledOpen {digits : List Nat} {text : Bytes}
    (spelled : List.Forall₂ Spells digits text) : ∀ c ∈ text, c ≠ 62 := by
  have both := spelled.flip.imp fun c n spells => And.intro (spellsVisible spells).1 spells
  exact ((List.forall₂_and_left _ _).mp both).1

theorem spelledVisible {digits : List Nat} {spaced tail : Bytes}
    (spelled : List.Forall₂ Spells digits (spaced.filter (!Bytes.isBlank ·)))
    (ended : tail = [] ∨ ∃ rest, tail = 62 :: rest) :
    Bytes.visible 62 (spaced ++ tail) = spaced.filter (!Bytes.isBlank ·) := by
  have within : 62 ∉ spaced := fun mem =>
    spelledOpen spelled 62 (List.mem_filter.mpr ⟨mem, rfl⟩) rfl
  have nothing : Bytes.visible 62 tail = [] := by
    obtain rfl | ⟨rest, rfl⟩ := ended
    · rfl
    · exact Bytes.visibleMark 62 rest
  rw [Bytes.visibleAppend within, nothing, List.append_nil]

theorem decodeDigits (input : Bytes) :
    ((∃ bytes, decode input = .ok bytes) ↔ ∀ c ∈ Bytes.visible 62 input, ∃ n, Spells n c) ∧
    (∀ bytes, decode input = .ok bytes →
      bytes.length = ((Bytes.visible 62 input).length + 1) / 2 ∧
      ∃ digits, List.Forall₂ Spells digits (Bytes.visible 62 input) ∧
        ∀ i b, bytes[i]? = some b →
          b.toNat = 16 * digits.getD (2 * i) 0 + digits.getD (2 * i + 1) 0) ∧
    ∀ bytes, (∃ text, Written bytes text) ∧
      ∀ spaced tail, Written bytes (spaced.filter (!Bytes.isBlank ·)) →
        (tail = [] ∨ ∃ rest, tail = 62 :: rest) → decode (spaced ++ tail) = .ok bytes := by
  refine ⟨⟨?_, ?_⟩, ?_, ?_⟩
  · rintro ⟨bytes, ok⟩
    exact readSpelled ok
  · intro all
    obtain ⟨digits, spelled⟩ := spelledExists all
    exact ⟨_, spelledRead spelled⟩
  · intro bytes ok
    obtain ⟨digits, spelled⟩ := spelledExists (readSpelled ok)
    cases Except.ok.inj ((spelledRead spelled).symm.trans ok)
    refine ⟨by rw [packLength, spelled.length_eq], digits, spelled, ?_⟩
    intro i b found
    exact packAt (spelledSmall spelled) found
  · intro bytes
    refine ⟨writtenExists bytes, ?_⟩
    intro spaced tail written ended
    obtain ⟨digits, spelled, rfl⟩ := writtenSpelled written
    rw [← spelledVisible spelled ended] at spelled
    exact spelledRead spelled

/- An odd number of digits, and digits of both cases with blanks between the halves of a byte. -/
theorem oddAndMixedDigitsRead :
    let odd := Bytes.ofText "4a\tF>!"
    let spaced := Bytes.ofText " 4\r\na aF"
    (decode odd = .ok [74, 240] ∧
      ∃ digits, List.Forall₂ Spells digits (Bytes.visible 62 odd) ∧
        ∀ i b, ([74, 240] : Bytes)[i]? = some b →
          b.toNat = 16 * digits.getD (2 * i) 0 + digits.getD (2 * i + 1) 0) ∧
    Written [74, 175] (spaced.filter (!Bytes.isBlank ·)) ∧
      decode (spaced ++ Bytes.ofText ">z") = .ok [74, 175] := by
  intro odd spaced
  have ok : decode odd = .ok [74, 240] := by rfl
  have written : Written [74, 175] (Bytes.ofText "4aaF") :=
    .byte (by unfold Spells; decide) (by unfold Spells; decide)
      (.byte (by unfold Spells; decide) (by unfold Spells; decide) .done)
  exact ⟨⟨ok, ((decodeDigits odd).2.1 _ ok).2⟩, written,
    ((decodeDigits spaced).2.2 _).2 spaced _ written (.inr ⟨_, rfl⟩)⟩

end PaintedImages.Hexadecimal
