import PaintedImages.Header
import PaintedImages.Document.Syntax

/-! The mark of a binary file. It is meant for the second line of a file, and is looked for behind
the version and the line ends that follow it. That is the second line where the version ends its
line and the second one is not empty, and all that is looked at stands on it if it has five bytes.
Elsewhere the mark may speak of other bytes: the three ways in which it then misleads are told
exactly. -/
namespace PaintedImages.Header

def line (bs : Bytes) : Bytes := bs.takeWhile fun b => !isLineEnd b

def second? (data : Bytes) : Option Bytes :=
  (Syntax.lineEnd (data.dropWhile fun b => !isLineEnd b)).map line

def Marks (bs : Bytes) : Prop := ∃ rest, bs = 37 :: rest ∧ ∃ b ∈ rest.take 4, 128 ≤ b

def MarkedBinary (data : Bytes) : Prop := ∃ second, second? data = some second ∧ Marks second

def behindVersion (data : Bytes) : Bytes := (data.drop 8).dropWhile isLineEnd

inductive Misleads (data : Bytes) : Prop where
  | longFirst (more : line data ≠ data.take 8)
      (unlike : ¬ (Marks (data.drop 8) ↔ MarkedBinary data))
  | blankSecond (alone : line data = data.take 8) (blank : second? data = some [])
      (later : Marks (behindVersion data))
  | shortSecond (alone : line data = data.take 8) (comment : Bytes)
      (short : second? data = some (37 :: comment)) (few : comment.length < 4)
      (low : ∀ b ∈ comment, b < 128) (later : Marks (behindVersion data))

section Lines
variable {bs more rest : Bytes}

theorem startsMarkedExact (bs : Bytes) : startsMarked bs = true ↔ Marks bs := by
  unfold startsMarked
  split
  · simp [Marks]
  · rename_i other
    simp only [Bool.false_eq_true, Marks, false_iff]
    rintro ⟨rest, rfl, _⟩
    exact other rest rfl

theorem marksAppend (marked : Marks bs) (more : Bytes) : Marks (bs ++ more) := by
  obtain ⟨rest, rfl, b, mem, high⟩ := marked
  refine ⟨rest ++ more, rfl, b, ?_, high⟩
  rw [List.take_append]
  exact List.mem_append_left _ mem

theorem lineParts (bs : Bytes) : ∃ more, bs = line bs ++ more :=
  ⟨_, List.takeWhile_append_dropWhile.symm⟩

theorem marksLine (marked : Marks (line bs)) : Marks bs := by
  obtain ⟨more, form⟩ := lineParts bs
  rw [form]
  exact marksAppend marked more

/- A high byte that is not on the line stands behind an end of it. -/
theorem marksBehind (marked : Marks bs) (unmarked : ¬ Marks (line bs)) :
    ∃ comment, line bs = 37 :: comment ∧ comment.length < 4 ∧ ∀ b ∈ comment, b < 128 := by
  obtain ⟨rest, rfl, b, mem, high⟩ := marked
  have whole : line (37 :: rest) = 37 :: line rest := List.takeWhile_cons_of_pos rfl
  obtain ⟨more, form⟩ := lineParts rest
  have few : (line rest).length < 4 := by
    refine Nat.lt_of_not_le fun long => unmarked ⟨line rest, whole, b, ?_, high⟩
    rwa [form, List.take_append_of_le_length long] at mem
  refine ⟨line rest, whole, few, fun c listed => UInt8.not_le.mp fun above => ?_⟩
  refine unmarked ⟨line rest, whole, c, ?_, above⟩
  rwa [List.take_of_length_le (Nat.le_of_lt few)]

theorem lowUnmarked {comment : Bytes} (low : ∀ b ∈ comment, b < 128) : ¬ Marks (37 :: comment) := by
  rintro ⟨rest, same, b, mem, high⟩
  cases same
  exact UInt8.not_le.mpr (low b (List.mem_of_mem_take mem)) high

theorem lineFront {front : Bytes} (inside : ∀ b ∈ front, isLineEnd b = false) :
    line (front ++ rest) = front ++ line rest ∧ second? (front ++ rest) = second? rest := by
  have passed : ∀ b ∈ front, (!isLineEnd b) = true := by
    intro b mem
    rw [inside b mem]
    rfl
  exact ⟨List.takeWhile_append_of_pos passed,
    congrArg (fun rest => (Syntax.lineEnd rest).map line) (List.dropWhile_append_of_pos passed)⟩

theorem lineEndPassed {b : UInt8} (ends : isLineEnd b = true) (more : Bytes) :
    ∃ next, second? (b :: more) = some (line next) ∧
      (b :: more).dropWhile isLineEnd = next.dropWhile isLineEnd := by
  have stays : (b :: more).dropWhile (fun b => !isLineEnd b) = b :: more :=
    List.dropWhile_cons_of_neg (by simp [ends])
  rw [second?, stays]
  unfold Syntax.lineEnd
  split
  · rename_i same
    cases same
    exact ⟨_, rfl, rfl⟩
  · rename_i same
    cases same
    exact ⟨more, rfl, rfl⟩
  · rename_i same
    cases same
    exact ⟨more, rfl, rfl⟩
  · rename_i noFeed noReturn
    simp only [isLineEnd, Bool.or_eq_true, beq_iff_eq] at ends
    obtain rfl | rfl := ends
    · exact absurd rfl (noReturn more)
    · exact absurd rfl (noFeed more)

theorem lineGoesOn (inside : line bs ≠ []) : bs.dropWhile isLineEnd = bs := by
  cases bs with
  | nil => rfl
  | cons b more =>
    cases ends : isLineEnd b with
    | false => exact List.dropWhile_cons_of_neg (by simp [ends])
    | true => exact absurd (List.takeWhile_cons_of_neg (by simp [ends])) inside

end Lines

theorem digitInside {b : UInt8} (digit : Bytes.isDigit b = true) : isLineEnd b = false := by
  rw [Bool.eq_false_iff]
  intro ends
  simp only [isLineEnd, Bool.or_eq_true, beq_iff_eq] at ends
  obtain rfl | rfl := ends
  · exact absurd digit (by decide)
  · exact absurd digit (by decide)

/- The eight bytes up to the version hold no line end. -/
theorem detected {data : Bytes} {h : Header} (found : detect data = .ok h) :
    (∀ b ∈ data.take 8, isLineEnd b = false) ∧
    (h.binaryMarker = true ↔ Marks (behindVersion data)) := by
  unfold detect at found
  split at found
  · rename_i major point minor rest start
    dsimp only at found
    split at found
    · rename_i version
      cases found
      have form : data = magic ++ major :: point :: minor :: rest := Bytes.stripSplits.mp start
      simp only [Bool.and_eq_true, beq_iff_eq] at version
      obtain ⟨⟨first, rfl⟩, last⟩ := version
      have front : data.take 8 = magic ++ [major, 46, minor] := by rw [form]; rfl
      have behind : data.drop 8 = rest := by rw [form]; rfl
      rw [front, behindVersion, behind]
      refine ⟨?_, startsMarkedExact _⟩
      intro b mem
      obtain early | late := List.mem_append.mp mem
      · have every : magic.all (fun b => isLineEnd b == false) = true := rfl
        exact beq_iff_eq.mp (List.all_eq_true.mp every b early)
      · simp only [List.mem_cons, List.not_mem_nil, or_false] at late
        obtain rfl | rfl | rfl := late
        · exact digitInside first
        · rfl
        · exact digitInside last
    · contradiction
  · contradiction

section Cases
variable {data : Bytes}

theorem markedSecond {second : Bytes} (found : second? data = some second) :
    MarkedBinary data ↔ Marks second := by
  constructor
  · rintro ⟨other, same, marked⟩
    rw [found] at same
    cases same
    exact marked
  · exact fun marked => ⟨second, found, marked⟩

theorem unmarkedBare (bare : second? data = none) : ¬ MarkedBinary data := by
  rintro ⟨second, found, _⟩
  rw [bare] at found
  contradiction

theorem unmarkedEmpty : ¬ Marks [] := nofun

theorem longMisleads (more : line data ≠ data.take 8) :
    (Marks (data.drop 8) ↔ MarkedBinary data) ↔ ¬ Misleads data := by
  constructor
  · intro alike misleads
    cases misleads with
    | longFirst _ unlike => exact unlike alike
    | blankSecond alone => exact more alone
    | shortSecond alone => exact more alone
  · exact fun honest => Classical.not_not.mp fun unlike => honest (.longFirst more unlike)

theorem bareMisleads (alone : line data = data.take 8) (bare : second? data = none) :
    ¬ Misleads data := by
  intro misleads
  cases misleads with
  | longFirst more => exact more alone
  | blankSecond _ blank => simp [bare] at blank
  | shortSecond _ _ short => simp [bare] at short

theorem blankMisleads (alone : line data = data.take 8) (blank : second? data = some []) :
    (Marks (behindVersion data) ↔ MarkedBinary data) ↔ ¬ Misleads data := by
  have unmarked : ¬ MarkedBinary data :=
    fun marked => unmarkedEmpty ((markedSecond blank).mp marked)
  have same : Marks (behindVersion data) ↔ Misleads data := by
    constructor
    · exact .blankSecond alone blank
    · intro misleads
      cases misleads with
      | longFirst more => exact absurd alone more
      | blankSecond _ _ later => exact later
      | shortSecond _ _ _ _ _ later => exact later
  exact (iff_false_right unmarked).trans (not_congr same)

theorem shortMisleads (alone : line data = data.take 8)
    (found : second? data = some (line (behindVersion data)))
    (shown : line (behindVersion data) ≠ []) :
    (Marks (behindVersion data) ↔ MarkedBinary data) ↔ ¬ Misleads data := by
  rw [markedSecond found]
  constructor
  · intro alike misleads
    cases misleads with
    | longFirst more => exact more alone
    | blankSecond _ blank =>
      rw [found] at blank
      exact shown (Option.some.inj blank)
    | shortSecond _ comment short _ low later =>
      rw [found] at short
      have marked := alike.mp later
      rw [Option.some.inj short] at marked
      exact lowUnmarked low marked
  · intro honest
    refine ⟨fun later => Classical.not_not.mp fun unmarked => ?_, marksLine⟩
    obtain ⟨comment, form, few, low⟩ := marksBehind later unmarked
    exact honest (.shortSecond alone comment (found.trans (congrArg some form)) few low later)

theorem markerMisleads (inside : ∀ b ∈ data.take 8, isLineEnd b = false) :
    (Marks (behindVersion data) ↔ MarkedBinary data) ↔ ¬ Misleads data := by
  have front := @lineFront (data.drop 8) (data.take 8) inside
  rw [List.take_append_drop] at front
  obtain ⟨first, second⟩ := front
  by_cases alone : line data = data.take 8
  · have ended : line (data.drop 8) = [] := by
      rw [alone] at first
      exact List.self_eq_append_right.mp first
    cases rest : data.drop 8 with
    | nil =>
      rw [rest] at second
      have unmarked : ¬ Marks (behindVersion data) := by
        rw [behindVersion, rest]
        exact unmarkedEmpty
      exact iff_of_true (iff_of_false unmarked (unmarkedBare second)) (bareMisleads alone second)
    | cons b more =>
      have ends : isLineEnd b = true := by
        rw [rest] at ended
        simpa [line, List.takeWhile_cons] using ended
      obtain ⟨next, found, passed⟩ := lineEndPassed ends more
      rw [rest, found] at second
      by_cases blank : line next = []
      · rw [blank] at second
        exact blankMisleads alone second
      · have behind : behindVersion data = next := by
          rw [behindVersion, rest, passed, lineGoesOn blank]
        rw [← behind] at second blank
        exact shortMisleads alone second blank
  · have shown : line (data.drop 8) ≠ [] := by
      intro ended
      rw [ended, List.append_nil] at first
      exact alone first
    rw [behindVersion, lineGoesOn shown]
    exact longMisleads alone

end Cases

theorem markerTold {data : Bytes} {h : Header} (found : detect data = .ok h) :
    (h.binaryMarker = true ↔ Marks (behindVersion data)) ∧
    ((h.binaryMarker = true ↔ MarkedBinary data) ↔ ¬ Misleads data) ∧
    (line data = data.take 8 → ∀ second, second? data = some second → 4 < second.length →
      (h.binaryMarker = true ↔ Marks second)) := by
  obtain ⟨inside, marker⟩ := detected found
  have misleads := markerMisleads inside
  rw [marker]
  refine ⟨.rfl, misleads, fun alone second read long => ?_⟩
  rw [← markedSecond read, misleads]
  intro misled
  cases misled with
  | longFirst more => exact more alone
  | blankSecond _ blank =>
    cases read.symm.trans blank
    contradiction
  | shortSecond _ comment short few =>
    cases read.symm.trans short
    simp only [List.length_cons] at long
    omega

instance : DecidablePred Marks := fun bs => decidable_of_iff _ (startsMarkedExact bs)

instance : DecidablePred MarkedBinary := fun data =>
  inferInstanceAs (Decidable (∃ second ∈ second? data, Marks second))

/- A mark as usual; one behind a space, which is missed; and three that are none: without a line
end, after an empty line, and with the high byte on the third line. -/
theorem spacedMarkMissed :
    let version : Bytes := Bytes.ofText "%PDF-1.7"
    let usual := version ++ [10, 37, 226, 227, 207, 211, 10]
    let spaced := version ++ [32, 10, 37, 226, 227, 207, 211, 10]
    (detect usual = .ok ⟨"1.7", true⟩ ∧ line usual = usual.take 8 ∧
      second? usual = some [37, 226, 227, 207, 211] ∧ Marks [37, 226, 227, 207, 211]) ∧
    (detect spaced = .ok ⟨"1.7", false⟩ ∧ MarkedBinary spaced ∧ Misleads spaced) ∧
    ∀ after ∈ [[37, 255], [10, 10, 37, 255], [10, 37, 97, 10, 255]],
      detect (version ++ after) = .ok ⟨"1.7", true⟩ ∧ ¬ MarkedBinary (version ++ after) ∧
        Misleads (version ++ after) := by
  intro version usual spaced
  have missed {data : Bytes} {h : Header} (found : detect data = .ok h)
      (unlike : ¬ (h.binaryMarker = true ↔ MarkedBinary data)) : Misleads data :=
    Classical.not_not.mp fun honest => unlike ((markerTold found).2.1.mpr honest)
  have read : "1.7" = Utf8.lossy [49, 46, 55] := by decide +kernel
  have marked : detect usual = .ok ⟨"1.7", true⟩ := by
    rw [read]
    rfl
  have unmarked : detect spaced = .ok ⟨"1.7", false⟩ := by
    rw [read]
    rfl
  have alone : line usual = usual.take 8 := by decide
  have second : second? usual = some [37, 226, 227, 207, 211] := by decide
  have high := ((markerTold marked).2.2 alone _ second (by decide)).mp rfl
  have others : ∀ after ∈ [[37, 255], [10, 10, 37, 255], [10, 37, 97, 10, 255]],
      ¬ MarkedBinary (version ++ after) := by decide
  refine ⟨⟨marked, alone, second, high⟩, ⟨unmarked, by decide, missed unmarked (by decide)⟩, ?_⟩
  intro after mem
  have found : detect (version ++ after) = .ok ⟨"1.7", true⟩ := by
    simp only [List.mem_cons, List.not_mem_nil, or_false] at mem
    rw [read]
    obtain rfl | rfl | rfl := mem
    all_goals rfl
  exact ⟨found, others after mem, missed found fun same => others after mem (same.mp rfl)⟩

end PaintedImages.Header
