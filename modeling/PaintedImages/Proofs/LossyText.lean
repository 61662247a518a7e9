import Mathlib.Algebra.Group.Nat.Defs
import PaintedImages.Text.Utf8

/-! Zero bytes in text read from bytes. A NUL stands in the text just where a zero byte stands in
the bytes: no longer sequence spells one, since overlong forms are malformed, and what is malformed
becomes a replacement character. -/
namespace PaintedImages.Utf8

def Completes (more bits : Nat) : Prop :=
  0 < bits ∧ ((bits + 1) * 64 ^ more ≤ 0xD800 ∨
    0xE000 ≤ bits * 64 ^ more ∧ (bits + 1) * 64 ^ more ≤ 0x110000)

theorem completesNext {more bits group : Nat} (h : Completes (more + 1) bits)
    (small : group < 64) : Completes more (bits * 64 + group) := by
  obtain ⟨positive, range⟩ := h
  rw [Nat.pow_succ', ← Nat.mul_assoc, ← Nat.mul_assoc] at range
  have above : (bits * 64 + group + 1) * 64 ^ more ≤ (bits + 1) * 64 * 64 ^ more :=
    Nat.mul_le_mul_right _ (by omega)
  have below : bits * 64 * 64 ^ more ≤ (bits * 64 + group) * 64 ^ more :=
    Nat.mul_le_mul_right _ (by omega)
  exact ⟨by omega, by omega⟩

theorem completesCharacter {bits : Nat} (h : Completes 0 bits) : Char.ofNat bits ≠ '\x00' := by
  obtain ⟨positive, range⟩ := h
  rw [Nat.pow_zero, Nat.mul_one, Nat.mul_one] at range
  intro zero
  have value : (Char.ofNat bits).toNat = bits := by
    have valid : bits.isValidChar := by
      simp only [Nat.isValidChar]
      omega
    rw [Char.ofNat, dif_pos valid]
    rfl
  rw [zero] at value
  change 0 = bits at value
  omega

theorem followCharacter {more bits : Nat} (h : Completes more bits) (bs : Bytes) :
    (follow more 0x80 0xBF bits bs).1 ≠ some '\x00' := by
  induction more generalizing bits bs with
  | zero =>
    intro same
    exact completesCharacter h (Option.some.inj same)
  | succ more ih =>
    cases bs with
    | nil =>
      intro same
      contradiction
    | cons b rest =>
      simp only [follow]
      split
      · exact ih (completesNext h (Nat.mod_lt _ (by decide))) rest
      · intro same
        contradiction

theorem followZero (more : Nat) {low : UInt8} (positive : 0 < low) (high : UInt8) (bits : Nat)
    (bs : Bytes) : 0 ∈ (follow more low high bits bs).2 ↔ 0 ∈ bs := by
  induction more generalizing low high bits bs with
  | zero => rfl
  | succ more ih =>
    cases bs with
    | nil => rfl
    | cons b rest =>
      simp only [follow]
      split
      · rename_i within
        rw [ih (by decide), List.mem_cons]
        have nonzero : 0 ≠ b := by
          rintro rfl
          exact UInt8.not_lt.mpr within.1 positive
        simp [nonzero]
      · rfl

/- The leads there are. Those that allow the next byte a range of their own are single bytes. -/
theorem leadCases {b : UInt8} {l : Lead} (h : lead b = some l) :
    b.toNat < 0x80 ∧ l = ⟨0, 0x80, 0xBF, b.toNat⟩ ∨
    0xC2 ≤ b.toNat ∧ b.toNat < 0xE0 ∧ l = ⟨1, 0x80, 0xBF, b.toNat - 0xC0⟩ ∨
    l = ⟨2, 0xA0, 0xBF, 0⟩ ∨ l = ⟨2, 0x80, 0x9F, 13⟩ ∨
    0xE0 < b.toNat ∧ b.toNat < 0xF0 ∧ b.toNat ≠ 0xED ∧ l = ⟨2, 0x80, 0xBF, b.toNat - 0xE0⟩ ∨
    l = ⟨3, 0x90, 0xBF, 0⟩ ∨
    0xF0 < b.toNat ∧ b.toNat < 0xF4 ∧ l = ⟨3, 0x80, 0xBF, b.toNat - 0xF0⟩ ∨
    l = ⟨3, 0x80, 0x8F, 4⟩ := by
  simp only [lead, UInt8.lt_iff_toNat_lt, ← UInt8.toNat_inj, UInt8.reduceToNat] at h
  grind

theorem leadLow {b : UInt8} {l : Lead} (h : lead b = some l) : 0 < l.low := by
  obtain ⟨_, rfl⟩ | ⟨_, _, rfl⟩ | rfl | rfl | ⟨_, _, _, rfl⟩ | rfl | ⟨_, _, rfl⟩ | rfl :=
    leadCases h
  all_goals
    dsimp only
    decide

theorem leadCompletes {b : UInt8} {l : Lead} (h : lead b = some l) (nonzero : b ≠ 0) :
    match l.more with
    | 0 => Completes 0 l.bits
    | more + 1 => ∀ next : UInt8, l.low ≤ next → next ≤ l.high →
      Completes more (l.bits * 64 + next.toNat % 64) := by
  have positive : 0 < b.toNat := by
    rw [Nat.pos_iff_ne_zero]
    exact fun zero => nonzero (UInt8.toNat_inj.mp zero)
  obtain ⟨_, rfl⟩ | ⟨_, _, rfl⟩ | rfl | rfl | ⟨_, _, _, rfl⟩ | rfl | ⟨_, _, rfl⟩ | rfl :=
    leadCases h
  all_goals simp only [Completes, UInt8.le_iff_toNat_le, UInt8.reduceToNat]
  all_goals omega

theorem leadCharacter {b : UInt8} {l : Lead} (h : lead b = some l) (nonzero : b ≠ 0)
    (bs : Bytes) : (follow l.more l.low l.high l.bits bs).1 ≠ some '\x00' := by
  have completes := leadCompletes h nonzero
  cases more : l.more with
  | zero =>
    rw [more] at completes
    intro same
    exact completesCharacter completes (Option.some.inj same)
  | succ left =>
    rw [more] at completes
    cases bs with
    | nil =>
      intro same
      contradiction
    | cons next rest =>
      simp only [follow]
      split
      · rename_i within
        exact followCharacter (completes next within.1 within.2) rest
      · intro same
        contradiction

theorem scanZero (bs : Bytes) : some '\x00' ∈ scan bs ↔ 0 ∈ bs := by
  fun_induction scan bs with
  | case1 => simp
  | case2 b rest unled ih =>
    have nonzero : 0 ≠ b := by
      rintro rfl
      contradiction
    simp [nonzero, ih]
  | case3 b rest l found ih =>
    rw [List.mem_cons, List.mem_cons, ih, followZero _ (leadLow found)]
    by_cases zero : b = 0
    · subst zero
      cases found
      simp [follow]
    · have other := leadCharacter found zero rest
      simp [Ne.symm zero, Ne.symm other]

theorem lossyZero (bs : Bytes) : '\x00' ∈ (lossy bs).toList ↔ 0 ∈ bs := by
  rw [lossy, String.toList_ofList, ← scanZero, List.mem_map]
  constructor
  · rintro ⟨c, mem, same⟩
    cases c with
    | none => contradiction
    | some c => exact same ▸ mem
  · intro mem
    exact ⟨_, mem, rfl⟩

end PaintedImages.Utf8
