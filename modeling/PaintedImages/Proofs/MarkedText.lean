import Mathlib.Data.List.TakeWhile
import PaintedImages.Bytes

/-! Text with an end mark in which blanks may stand anywhere, and what counts of it. -/
namespace PaintedImages.Bytes

/- The bytes before the mark that are no blanks. -/
def visible (mark : UInt8) (text : Bytes) : Bytes :=
  (text.takeWhile (· ≠ mark)).filter (!isBlank ·)

section
variable {mark b : UInt8}

theorem visibleMark (mark : UInt8) (rest : Bytes) : visible mark (mark :: rest) = [] := by
  unfold visible
  rw [List.takeWhile_cons_of_neg (by simp)]
  rfl

theorem visibleBlank (other : b ≠ mark) (blank : isBlank b = true) (rest : Bytes) :
    visible mark (b :: rest) = visible mark rest := by
  unfold visible
  rw [List.takeWhile_cons_of_pos (by simpa using other),
    List.filter_cons_of_neg (by simp [blank])]

theorem visibleSeen (other : b ≠ mark) (seen : isBlank b = false) (rest : Bytes) :
    visible mark (b :: rest) = b :: visible mark rest := by
  unfold visible
  rw [List.takeWhile_cons_of_pos (by simpa using other),
    List.filter_cons_of_pos (by simp [seen])]

theorem visibleAppend {front : Bytes} (within : mark ∉ front) (back : Bytes) :
    visible mark (front ++ back) = front.filter (!isBlank ·) ++ visible mark back := by
  have before : ∀ c ∈ front, decide (c ≠ mark) = true := by
    intro c mem
    exact decide_eq_true fun same => within (same ▸ mem)
  unfold visible
  rw [List.takeWhile_append_of_pos before, List.filter_append]

theorem visibleInserted {front : Bytes} (within : mark ∉ front)
    (other : b ≠ mark) (blank : isBlank b = true) (back : Bytes) :
    visible mark (front ++ b :: back) = visible mark (front ++ back) := by
  rw [visibleAppend within, visibleAppend within, visibleBlank other blank]

theorem visibleStranger {front : Bytes} (within : mark ∉ front)
    (other : b ≠ mark) (seen : isBlank b = false) (back : Bytes) :
    b ∈ visible mark (front ++ b :: back) := by
  rw [visibleAppend within, visibleSeen other seen]
  exact List.mem_append_right _ List.mem_cons_self

theorem visibleClean {text : Bytes} (mem : b ∈ visible mark text) :
    b ≠ mark ∧ isBlank b = false := by
  obtain ⟨before, seen⟩ := List.mem_filter.mp mem
  have other := List.mem_takeWhile_imp before
  exact ⟨of_decide_eq_true other, by simpa using seen⟩

theorem visibleLength (mark : UInt8) (text : Bytes) :
    (visible mark text).length ≤ text.length :=
  calc (visible mark text).length
    _ ≤ (text.takeWhile (· ≠ mark)).length := List.length_filter_le _ _
    _ ≤ text.length := (List.takeWhile_sublist _).length_le

end

end PaintedImages.Bytes
