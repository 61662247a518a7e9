import Mathlib.Algebra.GroupWithZero.Nat
import PaintedImages.Filter.Inflate

/-! Canonical prefix codes. A code is given by the length of the word of each symbol, and the words
follow from the lengths: words of one length are numbered in the order of their symbols, from what
follows the last shorter word on, with a zero bit put behind it. A word is found again at the front
of any bits. Nothing is said of bits that begin with no word. -/
namespace PaintedImages.Inflate

def wordValue (word : Bits) : Nat := word.foldl (fun n b => 2 * n + b.toNat) 0

def firstWord (lengths : List Nat) : Nat → Nat
  | 0 => 0
  | n + 1 => 2 * (firstWord lengths n + if n = 0 then 0 else lengths.count n)

structure IsWord (lengths : List Nat) (symbol : Nat) (word : Bits) : Prop where
  length : lengths[symbol]? = some word.length
  positive : 0 < word.length
  short : word.length ≤ Code.longest
  value : wordValue word =
    firstWord lengths word.length + (lengths.take symbol).count word.length

theorem wordValueAppend (word : Bits) (b : Bool) :
    wordValue (word ++ [b]) = 2 * wordValue word + b.toNat := by
  simp [wordValue]

theorem firstWordNext (lengths : List Nat) {n : Nat} (positive : n ≠ 0) :
    firstWord lengths (n + 1) = 2 * (firstWord lengths n + lengths.count n) := by
  rw [firstWord, if_neg positive]

/- Each step to a longer word doubles, so one bit less is still past all words of its length. -/
theorem shorterPassed (lengths : List Nat) {word : Bits} {b : Bool} (positive : word ≠ [])
    (past : firstWord lengths (word.length + 1) ≤ wordValue (word ++ [b])) :
    firstWord lengths word.length + lengths.count word.length ≤ wordValue word := by
  have bit : b.toNat ≤ 1 := Bool.toNat_le b
  have length : word.length ≠ 0 := by simpa using positive
  rw [wordValueAppend, firstWordNext lengths length] at past
  omega

theorem startPassed (lengths : List Nat) {word suffix : Bits} (positive : word ≠ [])
    (more : suffix ≠ [])
    (past : firstWord lengths (word ++ suffix).length ≤ wordValue (word ++ suffix)) :
    firstWord lengths word.length + lengths.count word.length ≤ wordValue word := by
  induction suffix generalizing word with
  | nil => contradiction
  | cons b rest ih =>
    rw [List.append_cons] at past
    cases rest with
    | nil =>
      rw [List.append_nil, List.length_append] at past
      exact shorterPassed lengths positive past
    | cons c rest =>
      have longer := ih (by simp) (by simp) past
      rw [List.length_append] at longer
      exact shorterPassed lengths positive (Nat.le_of_add_right_le longer)

namespace Code

def used (lengths : List Nat) (n : Nat) : List Nat :=
  (lengths.zipIdx.filter fun entry => entry.1 == n).map Prod.snd

theorem usedFrom (lengths : List Nat) (start n : Nat) {symbol : Nat}
    (has : lengths[symbol]? = some n) :
    (((lengths.zipIdx start).filter fun entry => entry.1 == n).map Prod.snd)[
      (lengths.take symbol).count n]? = some (start + symbol) := by
  induction lengths generalizing start symbol with
  | nil => simp at has
  | cons length rest ih =>
    rw [List.zipIdx_cons]
    cases symbol with
    | zero =>
      simp only [List.getElem?_cons_zero, Option.some.injEq] at has
      simp [has]
    | succ symbol =>
      have later := ih (start + 1) (by simpa using has)
      rw [List.take_succ_cons, List.count_cons]
      by_cases same : length = n
      · simp only [same, BEq.rfl, List.filter_cons_of_pos, List.map_cons, if_true,
          List.getElem?_cons_succ, later]
        congr 1
        omega
      · have other : (length == n) = false := by simpa using same
        simp only [List.filter_cons, other, Bool.false_eq_true, if_false, Nat.add_zero, later]
        congr 1
        omega

theorem usedAt (lengths : List Nat) {symbol n : Nat} (has : lengths[symbol]? = some n) :
    (used lengths n)[(lengths.take symbol).count n]? = some symbol := by
  have found := usedFrom lengths 0 n has
  rwa [Nat.zero_add] at found

theorem usedCount (lengths : List Nat) (n : Nat) :
    (used lengths n).length = lengths.count n := by
  have split : lengths.count n = (lengths.zipIdx.map Prod.fst).countP (· == n) := by
    rw [List.zipIdx_map_fst]
    rfl
  rw [used, List.length_map, split, List.countP_map, List.countP_eq_length_filter]
  rfl

theorem countsExact (lengths : List Nat) :
    (ofLengths lengths).counts = (List.range longest).map fun n => lengths.count (n + 1) := by
  have each : (ofLengths lengths).counts =
      ((List.range longest).map fun n => used lengths (n + 1)).map List.length := rfl
  rw [each, List.map_map]
  exact List.map_congr_left fun n _ => usedCount lengths (n + 1)

theorem flattenAt {α : Type} {rows : List (List α)} {k i : Nat} {row : List α} {a : α}
    (found : rows[k]? = some row) (place : row[i]? = some a) :
    rows.flatten[((rows.take k).map List.length).sum + i]? = some a := by
  induction rows generalizing k with
  | nil => simp at found
  | cons first rest ih =>
    have short : i < row.length := (List.getElem?_eq_some_iff.mp place).1
    cases k with
    | zero =>
      simp only [List.getElem?_cons_zero, Option.some.injEq] at found
      subst found
      simpa [List.getElem?_append_left short] using place
    | succ k =>
      have later := ih (by simpa using found)
      rw [List.flatten_cons, List.take_succ_cons, List.map_cons, List.sum_cons, Nat.add_assoc,
        List.getElem?_append_right (Nat.le_add_right _ _), Nat.add_sub_cancel_left, later]

/- The place of a symbol among all: those with shorter words first, then those before it. -/
theorem symbolAt (lengths : List Nat) {symbol n : Nat} (has : lengths[symbol]? = some (n + 1))
    (short : n < longest) :
    (ofLengths lengths).symbols[((ofLengths lengths).counts.take n).sum +
      (lengths.take symbol).count (n + 1)]? = some symbol := by
  have counts : ((ofLengths lengths).counts.take n).sum =
      ((((List.range longest).map fun n => used lengths (n + 1)).take n).map List.length).sum := by
    rw [List.map_take]
    rfl
  have row : ((List.range longest).map fun n => used lengths (n + 1))[n]? =
      some (used lengths (n + 1)) := by
    rw [List.getElem?_map, List.getElem?_range short]
    rfl
  have symbols : (ofLengths lengths).symbols =
      ((List.range longest).map fun n => used lengths (n + 1)).flatten.toArray := rfl
  rw [counts, symbols, List.getElem?_toArray]
  exact flattenAt row (usedAt lengths has)

/- At every depth the first code is that of the next length, and the index counts all symbols with
shorter words. -/
theorem walkRead {lengths : List Nat} {symbol : Nat} (before after rest : Bits)
    (word : IsWord lengths symbol (before ++ after)) (more : after ≠ []) :
    walk (ofLengths lengths).symbols ((ofLengths lengths).counts.drop before.length)
        (wordValue before) (firstWord lengths (before.length + 1))
        ((ofLengths lengths).counts.take before.length).sum (after ++ rest) =
      .found symbol rest := by
  induction after generalizing before with
  | nil => contradiction
  | cons b after ih =>
    have short : before.length < longest := by
      have := word.short
      simp only [List.length_append, List.length_cons] at this
      omega
    have inside : before.length < (ofLengths lengths).counts.length := by
      rw [countsExact, List.length_map, List.length_range]
      exact short
    have here : (ofLengths lengths).counts[before.length] = lengths.count (before.length + 1) := by
      simp only [countsExact, List.getElem_map, List.getElem_range]
    rw [List.drop_eq_getElem_cons inside, here, List.cons_append, walk]
    rw [← wordValueAppend]
    by_cases last : after = []
    · subst last
      obtain ⟨length, _, _, value⟩ := word
      rw [List.length_append, List.length_singleton] at length value
      have rank : (lengths.take symbol).count (before.length + 1) <
          lengths.count (before.length + 1) := by
        rw [← usedCount lengths]
        exact (List.getElem?_eq_some_iff.mp (usedAt lengths length)).1
      rw [if_pos (by omega), value, Nat.add_sub_cancel_left, symbolAt lengths length short]
      rfl
    · have split : before ++ b :: after = (before ++ [b]) ++ after := List.append_cons _ _ _
      rw [split] at word
      have past := startPassed lengths (by simp) last (word.value ▸ Nat.le_add_right _ _)
      have next := ih (before ++ [b]) word last
      rw [List.length_append, List.length_singleton] at past next
      rw [if_neg (Nat.not_lt.mpr past), ← next, firstWordNext lengths (Nat.succ_ne_zero _),
        List.take_succ_eq_append_getElem inside, here, List.sum_append, List.sum_singleton]

end Code

theorem wordRead {lengths : List Nat} {symbol : Nat} {word : Bits}
    (h : IsWord lengths symbol word) (rest : Bits) :
    (Code.ofLengths lengths).next (word ++ rest) = .found symbol rest := by
  have more : word ≠ [] := List.length_pos_iff.mp h.positive
  exact Code.walkRead [] word rest h more

end PaintedImages.Inflate
