import Mathlib.Data.List.Forall2
import Mathlib.Data.List.TakeWhile
import PaintedImages.Proofs.Paths
import PaintedImages.Text.Blank

/-! Text without the blanks at its ends. Only these are lost, and blanks at the ends of a whole text
are at the ends of its parts. -/
namespace PaintedImages

namespace Blank

theorem trimForm (cs : List Char) : ∃ before after, cs = before ++ trim cs ++ after ∧
    (∀ c ∈ before, isBlank c = true) ∧ ∀ c ∈ after, isBlank c = true := by
  refine ⟨cs.takeWhile isBlank, ((cs.dropWhile isBlank).reverse.takeWhile isBlank).reverse,
    ?_, ?_, ?_⟩
  · unfold trim
    rw [List.append_assoc, ← List.reverse_append, List.takeWhile_append_dropWhile,
      List.reverse_reverse, List.takeWhile_append_dropWhile]
  · exact fun c mem => List.mem_takeWhile_imp mem
  · exact fun c mem => List.mem_takeWhile_imp (List.mem_reverse.mp mem)

theorem trimBefore {before : List Char} (blank : ∀ c ∈ before, isBlank c = true) (cs : List Char) :
    trim (before ++ cs) = trim cs := by
  unfold trim
  rw [List.dropWhile_append_of_pos blank]

theorem trimAfter {after : List Char} (blank : ∀ c ∈ after, isBlank c = true) (cs : List Char) :
    trim (cs ++ after) = trim cs := by
  unfold trim
  rw [List.dropWhile_append]
  split
  · rename_i empty
    rw [List.isEmpty_iff.mp empty, List.dropWhile_eq_nil_iff.mpr blank]
  · rw [List.reverse_append,
      List.dropWhile_append_of_pos fun c mem => blank c (List.mem_reverse.mp mem)]

theorem trimVisible {cs : List Char} (visible : ∀ c ∈ cs, isBlank c = false) : trim cs = cs := by
  have kept {l : List Char} (visible : ∀ c ∈ l, isBlank c = false) : l.dropWhile isBlank = l := by
    cases l with
    | nil => rfl
    | cons c l => exact List.dropWhile_cons_of_neg (by simp [visible c List.mem_cons_self])
  unfold trim
  rw [kept visible, kept fun c mem => visible c (List.mem_reverse.mp mem), List.reverse_reverse]

end Blank

namespace Parts

theorem aroundNone {c : Char} {cs : List Char} : around c cs = none ↔ c ∉ cs := by
  induction cs with
  | nil => simp [around]
  | cons d rest ih =>
    unfold around
    split
    · rename_i same
      simp [same]
    · rename_i other
      rw [Option.map_eq_none_iff, ih, List.mem_cons, not_or]
      exact (and_iff_right (Ne.symm other)).symm

theorem aroundForm {c : Char} {cs before after : List Char} :
    around c cs = some (before, after) ↔ cs = before ++ c :: after ∧ c ∉ before := by
  induction cs generalizing before after with
  | nil => simp [around]
  | cons d rest ih =>
    unfold around
    split
    · rename_i same
      subst same
      cases before with
      | nil => simp
      | cons b bs => simp +contextual
    · rename_i other
      cases before with
      | nil => simp [other]
      | cons b bs =>
        simp only [Option.map_eq_some_iff, Prod.exists, ih]
        constructor
        · rintro ⟨_, _, ⟨rfl, clean⟩, ⟨⟩⟩
          exact ⟨rfl, List.not_mem_cons_of_ne_of_not_mem (Ne.symm other) clean⟩
        · rintro ⟨form, clean⟩
          cases form
          exact ⟨bs, after, ⟨rfl, fun mem => clean (List.mem_cons_of_mem _ mem)⟩, rfl⟩

theorem aroundWithin {c : Char} {before after : List Char} (cleanBefore : c ∉ before)
    (cleanAfter : c ∉ after) (cs : List Char) : around c (before ++ cs ++ after) =
      (around c cs).map fun (front, back) => (before ++ front, back ++ after) := by
  cases cut : around c cs with
  | none =>
    have absent := aroundNone.mp cut
    exact aroundNone.mpr (by simp [cleanBefore, absent, cleanAfter])
  | some parts =>
    obtain ⟨front, back⟩ := parts
    obtain ⟨rfl, clean⟩ := aroundForm.mp cut
    exact aroundForm.mpr ⟨by simp, by simp [cleanBefore, clean]⟩

/- Blanks around a text are around its first and its last part. -/
theorem betweenBefore {c : Char} (shown : Blank.isBlank c = false) {before : List Char}
    (blank : ∀ d ∈ before, Blank.isBlank d = true) (cs : List Char) :
    (between c (before ++ cs)).map Blank.trim = (between c cs).map Blank.trim := by
  obtain ⟨part, parts, form⟩ : ∃ part parts, between c cs = part :: parts := by
    rw [betweenSplitOn]
    exact List.exists_cons_of_ne_nil (List.splitOn_ne_nil c cs)
  have first (before : List Char) (clean : c ∉ before) :
      between c (before ++ cs) = (before ++ part) :: parts := by
    induction before with
    | nil => exact form
    | cons d rest ih =>
      rw [List.mem_cons, not_or] at clean
      rw [List.cons_append, between, if_neg (Ne.symm clean.1), ih clean.2]
      rfl
  have clean : c ∉ before := fun mem => absurd (blank c mem) (by simp [shown])
  rw [first before clean, form, List.map_cons, List.map_cons, Blank.trimBefore blank]

theorem betweenAfter {c : Char} (shown : Blank.isBlank c = false) {after : List Char}
    (blank : ∀ d ∈ after, Blank.isBlank d = true) (cs : List Char) :
    (between c (cs ++ after)).map Blank.trim = (between c cs).map Blank.trim := by
  have clean : c ∉ after := fun mem => absurd (blank c mem) (by simp [shown])
  obtain ⟨parts, part, whole, form⟩ : ∃ parts part, between c cs = parts ++ [part] ∧
      between c (cs ++ after) = parts ++ [part ++ after] := by
    induction cs with
    | nil =>
      refine ⟨[], [], rfl, ?_⟩
      rw [List.nil_append, betweenSplitOn, List.splitOn_eq_singleton clean]
      rfl
    | cons d rest ih =>
      obtain ⟨parts, part, whole, form⟩ := ih
      rw [List.cons_append, between, between]
      split
      · exact ⟨[] :: parts, part, by rw [whole]; rfl, by rw [form]; rfl⟩
      · rw [whole, form]
        cases parts with
        | nil => exact ⟨[], d :: part, rfl, rfl⟩
        | cons head parts => exact ⟨(d :: head) :: parts, part, rfl, rfl⟩
  rw [whole, form, List.map_append, List.map_append, List.map_singleton, List.map_singleton,
    Blank.trimAfter blank]

theorem betweenTrim {c : Char} (shown : Blank.isBlank c = false) (cs : List Char) :
    (between c (Blank.trim cs)).map Blank.trim = (between c cs).map Blank.trim := by
  obtain ⟨before, after, form, blankBefore, blankAfter⟩ := Blank.trimForm cs
  calc (between c (Blank.trim cs)).map Blank.trim
      = (between c (before ++ Blank.trim cs)).map Blank.trim :=
        (betweenBefore shown blankBefore _).symm
    _ = (between c (before ++ Blank.trim cs ++ after)).map Blank.trim :=
        (betweenAfter shown blankAfter _).symm
    _ = (between c cs).map Blank.trim := by rw [← form]

end Parts
end PaintedImages
