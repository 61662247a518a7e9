import PaintedImages.Proofs.Base85Groups
import PaintedImages.Proofs.Hexadecimal

/-! White space put into hexadecimal or base-85 text before its end mark. Five of the six bytes that
documents count as white space are passed over wherever they stand, except that none may stand
before the frame of base-85 text or inside it: the frame is then taken for data that ends after one
digit. The sixth, the zero byte, is no blank and no digit, so no text with it is read. -/
namespace PaintedImages

def whiteSpace : Bytes := [0, 9, 10, 12, 13, 32]

theorem whiteSpaceBlank {b : UInt8} (white : b ∈ whiteSpace) (other : b ≠ 0) :
    Bytes.isBlank b = true := by
  unfold whiteSpace at white
  simp only [List.mem_cons, List.not_mem_nil, or_false] at white
  rcases white with rfl | rfl | rfl | rfl | rfl | rfl
  · exact absurd rfl other
  all_goals rfl

namespace Hexadecimal

theorem decodeInserted {b : UInt8} {front : Bytes} (within : 62 ∉ front)
    (blank : Bytes.isBlank b = true) (back : Bytes) :
    decode (front ++ b :: back) = decode (front ++ back) := by
  have other : b ≠ 62 := by rintro rfl; contradiction
  unfold decode
  rw [runVisible, Bytes.visibleInserted within other blank, ← runVisible]

theorem zeroRefused {front : Bytes} (within : 62 ∉ front) (back : Bytes) :
    ∃ fault, decode (front ++ 0 :: back) = .error fault := by
  cases read : decode (front ++ 0 :: back) with
  | error fault => exact ⟨fault, rfl⟩
  | ok bytes =>
    have mem := Bytes.visibleStranger (b := 0) within (by decide) rfl back
    obtain ⟨n, spells⟩ := readSpelled read 0 mem
    have spelled := spellsValue spells
    contradiction

end Hexadecimal

namespace Base85

/- The place between two parts of a text that is before the frame or inside it. -/
inductive CutsFrame : Bytes → Bytes → Prop where
  | before (rest : Bytes) : CutsFrame [] (60 :: 126 :: rest)
  | inside (rest : Bytes) : CutsFrame [60] (126 :: rest)

theorem unframedBare {input : Bytes} (bare : ∀ rest, input ≠ 60 :: 126 :: rest) :
    unframed input = input := by
  have whole : Bytes.strip [60, 126] input = none := by
    rw [Option.eq_none_iff_forall_ne_some]
    intro rest stripped
    exact bare rest (Bytes.stripSplits.mp stripped)
  unfold unframed
  rw [whole]
  rfl

/- Two parts have the frame of the first, unless they have it only together. -/
theorem unframedAppend {front back : Bytes} (apart : ¬ CutsFrame front back) :
    unframed (front ++ back) = unframed front ++ back := by
  by_cases framed : ∃ rest, front = 60 :: 126 :: rest
  · obtain ⟨rest, rfl⟩ := framed
    rfl
  · have bare : ∀ rest, front ++ back ≠ 60 :: 126 :: rest := by
      intro rest same
      match front with
      | [] =>
        rw [List.nil_append] at same
        exact apart (same ▸ .before rest)
      | [c] =>
        obtain ⟨rfl, rfl⟩ := List.cons.inj same
        exact apart (.inside rest)
      | c :: d :: more =>
        obtain ⟨rfl, rfl, _⟩ : c = 60 ∧ d = 126 ∧ more ++ back = rest := by simpa using same
        exact framed ⟨more, rfl⟩
    rw [unframedBare bare, unframedBare fun rest same => framed ⟨rest, same⟩]

theorem notCut {b : UInt8} (first : b ≠ 60) (second : b ≠ 126) (front back : Bytes) :
    ¬ CutsFrame front (b :: back) := by
  intro cut
  cases cut with
  | before => exact first rfl
  | inside => exact second rfl

theorem decodeInserted {b : UInt8} {front : Bytes} (within : 126 ∉ unframed front)
    (blank : Bytes.isBlank b = true) (back : Bytes) :
    decode (front ++ b :: back) = run [] (unframed front ++ back) := by
  have first : b ≠ 60 := by rintro rfl; contradiction
  have second : b ≠ 126 := by rintro rfl; contradiction
  change run [] (unframed (front ++ b :: back)) = _
  rw [unframedAppend (notCut first second front back), runVisible,
    Bytes.visibleInserted within second blank, ← runVisible]

/- The frame's bytes come together again, but no longer where a frame stands. -/
theorem decodeCut {b : UInt8} {front back : Bytes} (cut : CutsFrame front back)
    (blank : Bytes.isBlank b = true) :
    decode (front ++ b :: back) = .error .base85Single := by
  cases cut with
  | before rest => rw [decodeInserted List.not_mem_nil blank, ← frameUnread rest]; rfl
  | inside rest => rw [decodeInserted (by decide) blank, ← frameUnread rest]; rfl

theorem symbolsNonzero {ds : List UInt8} (small : ∀ d ∈ ds, d < 85) : 0 ∉ symbols ds := by
  intro mem
  obtain ⟨d, digit, same⟩ := List.mem_map.mp mem
  have above := (symbolRead (small d digit)).1
  rw [same] at above
  contradiction

theorem groupedNonzero {text bytes : Bytes} (grouped : Grouped text bytes) : 0 ∉ text := by
  induction grouped with
  | done => exact List.not_mem_nil
  | zeros rest ih =>
    intro mem
    exact ih ((List.mem_cons.mp mem).resolve_left (by decide))
  | full small five fits rest ih =>
    intro mem
    rcases List.mem_append.mp mem with group | later
    · exact symbolsNonzero small group
    · exact ih later
  | last small two few fits => exact symbolsNonzero small

theorem zeroRefused {front : Bytes} (within : 126 ∉ unframed front) (back : Bytes) :
    ∃ fault, decode (front ++ 0 :: back) = .error fault := by
  cases read : decode (front ++ 0 :: back) with
  | error fault => exact ⟨fault, rfl⟩
  | ok bytes =>
    change run [] (unframed (front ++ 0 :: back)) = _ at read
    rw [unframedAppend (notCut (by decide) (by decide) front back), runVisible] at read
    have grouped := readGrouped (by simp) (by simp) (fun c mem => Bytes.visibleClean mem) read
    exact absurd (Bytes.visibleStranger within (by decide) rfl back) (groupedNonzero grouped)

end Base85

theorem whiteSpaceTold {b : UInt8} (white : b ∈ whiteSpace) (front back : Bytes) :
    (62 ∉ front →
      (b ≠ 0 →
        Hexadecimal.decode (front ++ b :: back) = Hexadecimal.decode (front ++ back)) ∧
      (b = 0 → ∃ fault, Hexadecimal.decode (front ++ b :: back) = .error fault)) ∧
    (126 ∉ Base85.unframed front →
      (b ≠ 0 → ¬ Base85.CutsFrame front back →
        Base85.decode (front ++ b :: back) = Base85.decode (front ++ back)) ∧
      (b = 0 ∨ Base85.CutsFrame front back →
        ∃ fault, Base85.decode (front ++ b :: back) = .error fault)) := by
  refine ⟨fun within => ⟨?_, ?_⟩, fun within => ⟨?_, ?_⟩⟩
  · intro other
    exact Hexadecimal.decodeInserted within (whiteSpaceBlank white other) back
  · rintro rfl
    exact Hexadecimal.zeroRefused within back
  · intro other apart
    rw [Base85.decodeInserted within (whiteSpaceBlank white other), ← Base85.unframedAppend apart]
    rfl
  · intro spoilt
    by_cases zero : b = 0
    · subst zero
      exact Base85.zeroRefused within back
    · exact ⟨_, Base85.decodeCut (spoilt.resolve_left zero) (whiteSpaceBlank white zero)⟩

/- A zero byte between digits, a line end before the frame, a blank inside a group. -/
theorem zeroAndCutFrameTold :
    let hexFront := Bytes.ofText "48"
    let hexBack := Bytes.ofText "65>"
    let text := Bytes.ofText "<~88/~>"
    let group := Bytes.ofText "<~8"
    let groupBack := Bytes.ofText "8/~>"
    (0 ∈ whiteSpace ∧ 62 ∉ hexFront ∧ Hexadecimal.decode (hexFront ++ hexBack) = .ok [72, 101] ∧
      ∃ fault, Hexadecimal.decode (hexFront ++ 0 :: hexBack) = .error fault) ∧
    (10 ∈ whiteSpace ∧ 126 ∉ Base85.unframed [] ∧ Base85.CutsFrame [] text ∧
      Base85.decode text = .ok [72, 105] ∧ ∃ fault, Base85.decode (10 :: text) = .error fault) ∧
    (32 ∈ whiteSpace ∧ 126 ∉ Base85.unframed group ∧ ¬ Base85.CutsFrame group groupBack ∧
      Base85.decode (group ++ 32 :: groupBack) = Base85.decode (group ++ groupBack)) := by
  intro hexFront hexBack text group groupBack
  have zero : 0 ∈ whiteSpace := by decide
  have lineFeed : 10 ∈ whiteSpace := by decide
  have space : 32 ∈ whiteSpace := by decide
  have hexWithin : 62 ∉ hexFront := by decide
  have within : 126 ∉ Base85.unframed [] := by decide
  have groupWithin : 126 ∉ Base85.unframed group := by decide
  have cut : Base85.CutsFrame [] text := .before _
  have apart : ¬ Base85.CutsFrame group groupBack :=
    Base85.notCut (by decide) (by decide) group (Bytes.ofText "/~>")
  exact ⟨⟨zero, hexWithin, rfl, ((whiteSpaceTold zero hexFront hexBack).1 hexWithin).2 rfl⟩,
    ⟨lineFeed, within, cut, rfl, ((whiteSpaceTold lineFeed [] text).2 within).2 (.inr cut)⟩,
    ⟨space, groupWithin, apart,
      ((whiteSpaceTold space group groupBack).2 groupWithin).1 (by decide) apart⟩⟩

end PaintedImages
