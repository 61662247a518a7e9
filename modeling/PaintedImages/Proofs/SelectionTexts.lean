import Mathlib.Data.List.Sort
import Mathlib.Data.Nat.Digits.Defs
import PaintedImages.Extraction.Selection
import PaintedImages.Proofs.Outcomes
import PaintedImages.Proofs.TrimmedText

/-! What a text for a page selection means. A part between commas means one page or the pages from
one to another, and the text means the pages of its parts; the reading of it comes to that and keeps
nothing of the order in which the parts stand, nor of how often they do. -/
namespace PaintedImages

namespace Numeral

structure Digits (cs : List Char) (n : Nat) : Prop where
  nonempty : cs ≠ []
  decimal : ∀ c ∈ cs, '0' ≤ c ∧ c ≤ '9'
  worth : Nat.ofDigits 10 (cs.reverse.map fun c => c.toNat - '0'.toNat) = n

inductive Word : List Char → UInt32 → Prop where
  | bare {cs word} (digits : Digits cs word.toNat) : Word cs word
  | signed {cs word} (digits : Digits cs word.toNat) : Word ('+' :: cs) word

theorem valueDigits (cs : List Char) :
    value cs = Nat.ofDigits 10 (cs.reverse.map fun c => c.toNat - '0'.toNat) := by
  rw [Nat.ofDigits_eq_foldr, List.foldr_map, List.foldr_reverse]
  unfold value
  congr 1
  funext n c
  show n * 10 + (c.toNat - '0'.toNat) = c.toNat - '0'.toNat + 10 * n
  omega

theorem digitExact {c : Char} : c.isDigit = true ↔ '0' ≤ c ∧ c ≤ '9' := by
  simp [Char.isDigit, Char.le_def]

theorem naturalExact {cs : List Char} {n : Nat} : natural cs = some n ↔ Digits cs n := by
  unfold natural
  rw [valueDigits]
  split
  · rename_i bad
    refine iff_of_false nofun fun digits => ?_
    rcases Bool.or_eq_true_iff.mp bad with empty | other
    · exact digits.nonempty (List.isEmpty_iff.mp empty)
    · obtain ⟨c, mem, fault⟩ : ∃ c ∈ cs, ¬ c.isDigit = true := by simpa using other
      exact fault (digitExact.mpr (digits.decimal c mem))
  · rename_i good
    obtain ⟨nonempty, decimal⟩ : cs ≠ [] ∧ ∀ c ∈ cs, '0' ≤ c ∧ c ≤ '9' := by
      simpa [digitExact] using good
    constructor
    · rintro ⟨⟩
      exact ⟨nonempty, decimal, rfl⟩
    · exact fun digits => congrArg _ digits.worth

theorem digitsUnsigned {cs : List Char} {n : Nat} (digits : Digits cs n) : '+' ∉ cs :=
  fun mem => absurd (digits.decimal '+' mem).1 (by decide)

theorem fitsExact {cs : List Char} {page : UInt32} :
    ((natural cs).bind fun n => if n < UInt32.size then some (UInt32.ofNat n) else none) =
      some page ↔ Digits cs page.toNat := by
  constructor
  · intro read
    obtain ⟨n, plain, fits⟩ := Option.bind_eq_some_iff.mp read
    split at fits
    · rename_i small
      cases fits
      rw [UInt32.toNat_ofNat_of_lt' small]
      exact naturalExact.mp plain
    · contradiction
  · intro digits
    rw [naturalExact.mpr digits, Option.bind_some, if_pos page.toNat_lt, UInt32.ofNat_toNat]

theorem wordExact {cs : List Char} {page : UInt32} : word cs = some page ↔ Word cs page := by
  unfold word
  split
  · rename_i rest
    rw [Option.bind_eq_bind, fitsExact]
    constructor
    · exact .signed
    · intro form
      cases form with
      | bare digits => exact absurd List.mem_cons_self (digitsUnsigned digits)
      | signed digits => exact digits
  · rename_i bare
    rw [Option.bind_eq_bind, fitsExact]
    constructor
    · exact .bare
    · intro form
      cases form with
      | bare digits => exact digits
      | signed digits => exact absurd rfl (bare _)

theorem wordShown {cs : List Char} {page : UInt32} (form : Word cs page) :
    ∀ c ∈ cs, Blank.isBlank c = false := by
  have shown {digits : List Char} {n : Nat} (form : Digits digits n) :
      ∀ c ∈ digits, Blank.isBlank c = false := by
    intro c mem
    have low : 48 ≤ c.toNat := UInt32.le_iff_toNat_le.mp (form.decimal c mem).1
    have high : c.toNat ≤ 57 := UInt32.le_iff_toNat_le.mp (form.decimal c mem).2
    unfold Blank.isBlank Blank.table
    simp
    omega
  cases form with
  | bare digits => exact shown digits
  | signed digits =>
    intro c mem
    rcases List.mem_cons.mp mem with rfl | mem
    · rfl
    · exact shown digits c mem

end Numeral

namespace PageSelection

inductive Everything : List Char → Prop where
  | nothing : Everything []
  | word {a b c : Char} (first : a = 'a' ∨ a = 'A') (second : b = 'l' ∨ b = 'L')
      (third : c = 'l' ∨ c = 'L') : Everything [a, b, c]

inductive Page : List Char → UInt32 → Prop where
  | intro {before numeral after page} (form : Numeral.Word numeral page) (counted : 0 < page)
      (leading : ∀ c ∈ before, Blank.isBlank c = true)
      (trailing : ∀ c ∈ after, Blank.isBlank c = true) : Page (before ++ numeral ++ after) page

inductive Part : List Char → UInt32 → UInt32 → Prop where
  | one {part page} (alone : '-' ∉ part) (form : Page part page) : Part part page page
  | pair {front back first last} (clean : '-' ∉ front) (start : Page front first)
      (stop : Page back last) (ordered : first ≤ last) : Part (front ++ '-' :: back) first last

theorem lowerNat (c : Char) :
    c.toLower.toNat = if 65 ≤ c.toNat ∧ c.toNat ≤ 90 then c.toNat + 32 else c.toNat := by
  have capital : c.val ≥ 'A'.val ∧ c.val ≤ 'Z'.val ↔ 65 ≤ c.toNat ∧ c.toNat ≤ 90 :=
    and_congr UInt32.le_iff_toNat_le UInt32.le_iff_toNat_le
  change (if _ : c.val ≥ 'A'.val ∧ c.val ≤ 'Z'.val then _ else c : Char).toNat = _
  split
  · rename_i letter
    have small := (capital.mp letter).2
    rw [if_pos (capital.mp letter)]
    show (c.val + 32).toNat = c.toNat + 32
    rw [UInt32.toNat_add]
    show (c.toNat + 32) % 2 ^ 32 = c.toNat + 32
    omega
  · rename_i other
    rw [if_neg (mt capital.mpr other)]

theorem lowerLetter {c small capital : Char} (letter : 97 ≤ small.toNat ∧ small.toNat ≤ 122)
    (pair : capital.toNat + 32 = small.toNat) : c.toLower = small ↔ c = small ∨ c = capital := by
  rw [← Char.toNat_inj, ← Char.toNat_inj, ← Char.toNat_inj, lowerNat]
  split <;> omega

theorem everythingExact {t : List Char} :
    t.isEmpty = true ∨ lower t = ['a', 'l', 'l'] ↔ Everything t := by
  have a {c : Char} : c.toLower = 'a' ↔ c = 'a' ∨ c = 'A' := lowerLetter (by decide) rfl
  have l {c : Char} : c.toLower = 'l' ↔ c = 'l' ∨ c = 'L' := lowerLetter (by decide) rfl
  constructor
  · rintro (empty | word)
    · cases List.isEmpty_iff.mp empty
      exact .nothing
    · unfold lower at word
      obtain ⟨first, _, rfl, one, word⟩ := List.map_eq_cons_iff.mp word
      obtain ⟨second, _, rfl, two, word⟩ := List.map_eq_cons_iff.mp word
      obtain ⟨third, _, rfl, three, word⟩ := List.map_eq_cons_iff.mp word
      cases List.map_eq_nil_iff.mp word
      exact .word (a.mp one) (l.mp two) (l.mp three)
  · rintro (_ | ⟨first, second, third⟩)
    · exact .inl rfl
    · refine .inr ?_
      rw [lower, List.map, List.map, List.map, List.map, a.mpr first, l.mpr second, l.mpr third]

theorem pageExact {t : List Char} {page : UInt32} : parsePage t = .ok page ↔ Page t page := by
  have read : parsePage t = .ok page ↔ Numeral.word (Blank.trim t) = some page ∧ 0 < page := by
    unfold parsePage
    dsimp only
    split
    · rename_i found form
      rw [form]
      split
      · rename_i zero
        subst zero
        refine iff_of_false nofun ?_
        rintro ⟨⟨⟩, counted⟩
        exact absurd counted (by decide)
      · rename_i counted
        constructor
        · rintro ⟨⟩
          exact ⟨rfl, UInt32.pos_iff_ne_zero.mpr counted⟩
        · rintro ⟨⟨⟩, _⟩
          rfl
    · rename_i empty
      exact iff_of_false nofun fun read => nomatch empty.symm.trans read.1
  rw [read, Numeral.wordExact]
  constructor
  · rintro ⟨form, counted⟩
    obtain ⟨before, after, whole, leading, trailing⟩ := Blank.trimForm t
    rw [whole]
    exact .intro form counted leading trailing
  · rintro ⟨form, counted, leading, trailing⟩
    rw [Blank.trimAfter trailing, Blank.trimBefore leading,
      Blank.trimVisible (Numeral.wordShown form)]
    exact ⟨form, counted⟩

theorem partExact {t : List Char} {first last : UInt32} :
    parsePart t = .ok (first, last) ↔ Part t first last := by
  unfold parsePart
  split
  · rename_i front back cut
    obtain ⟨rfl, clean⟩ := Parts.aroundForm.mp cut
    constructor
    · intro read
      obtain ⟨m, start, read⟩ := bindOk read
      obtain ⟨n, stop, read⟩ := bindOk read
      split at read
      · contradiction
      · rename_i ordered
        cases read
        exact .pair clean (pageExact.mp start) (pageExact.mp stop) (UInt32.not_lt.mp ordered)
    · generalize whole : front ++ '-' :: back = t
      rintro (⟨alone, form⟩ | ⟨clean', start, stop, ordered⟩)
      · exact absurd (whole ▸ List.mem_append_right front List.mem_cons_self) alone
      · cases (Parts.aroundForm.mpr ⟨whole, clean'⟩).symm.trans cut
        rw [pageExact.mpr start, pageExact.mpr stop]
        exact if_neg (UInt32.not_lt.mpr ordered)
  · rename_i cut
    have alone := Parts.aroundNone.mp cut
    constructor
    · intro read
      obtain ⟨page, form, same⟩ := mapOk read
      cases same
      exact .one alone (pageExact.mp form)
    · rintro (⟨_, form⟩ | _)
      · rw [pageExact.mpr form]
        rfl
      · exact absurd (List.mem_append_right _ List.mem_cons_self) alone

/- Blanks around a part are around its numbers. -/
theorem partBlanks {before after : List Char} (leading : ∀ c ∈ before, Blank.isBlank c = true)
    (trailing : ∀ c ∈ after, Blank.isBlank c = true) (t : List Char) :
    parsePart (before ++ t ++ after) = parsePart t := by
  have clean {blanks : List Char} (blank : ∀ c ∈ blanks, Blank.isBlank c = true) : '-' ∉ blanks :=
    fun mem => absurd (blank '-' mem) (by decide)
  have pageBefore (t : List Char) : parsePage (before ++ t) = parsePage t := by
    unfold parsePage
    rw [Blank.trimBefore leading]
  have pageAfter (t : List Char) : parsePage (t ++ after) = parsePage t := by
    unfold parsePage
    rw [Blank.trimAfter trailing]
  unfold parsePart
  rw [Parts.aroundWithin (clean leading) (clean trailing), Blank.trimAfter trailing,
    Blank.trimBefore leading]
  cases Parts.around '-' t with
  | none =>
    rw [Option.map_none]
    dsimp only
    rw [pageAfter, pageBefore]
  | some cut =>
    rw [Option.map_some]
    dsimp only
    rw [pageAfter, pageBefore]

theorem partTrim (t : List Char) : parsePart (Blank.trim t) = parsePart t := by
  obtain ⟨before, after, whole, leading, trailing⟩ := Blank.trimForm t
  exact (partBlanks leading trailing _).symm.trans (congrArg parsePart whole.symm)

theorem betweenMember {bounds : UInt32 × UInt32} {page : UInt32} :
    page ∈ pagesBetween bounds ↔ bounds.1 ≤ page ∧ page ≤ bounds.2 := by
  unfold pagesBetween
  simp only [List.mem_map, List.mem_range'_1, UInt32.le_iff_toNat_le]
  constructor
  · rintro ⟨n, ⟨low, high⟩, rfl⟩
    have small := bounds.2.toNat_lt
    rw [UInt32.toNat_ofNat_of_lt' (show n < UInt32.size by unfold UInt32.size; omega)]
    omega
  · rintro ⟨low, high⟩
    exact ⟨page.toNat, by omega, UInt32.ofNat_toNat⟩

theorem dedupMember {l : List UInt32} {page : UInt32} : page ∈ dedup l ↔ page ∈ l := by
  fun_induction dedup l with
  | case1 a rest ih =>
    rw [ih]
    simp
  | case2 a b rest other ih => rw [List.mem_cons, ih, ← List.mem_cons]
  | case3 => rfl
  | case4 => rfl

theorem dedupIncreasing {l : List UInt32} (sorted : l.Pairwise (· ≤ ·)) :
    (dedup l).Pairwise (· < ·) := by
  fun_induction dedup l with
  | case1 a rest ih => exact ih sorted.tail
  | case2 a b rest other ih =>
    obtain ⟨least, later⟩ := List.pairwise_cons.mp sorted
    refine List.pairwise_cons.mpr ⟨fun page mem => ?_, ih later⟩
    have above : b ≤ page := by
      rcases List.mem_cons.mp (dedupMember.mp mem) with rfl | mem
      · exact UInt32.le_refl _
      · exact (List.pairwise_cons.mp later).1 page mem
    have below : a < b := UInt32.lt_of_le_of_ne (least b List.mem_cons_self) other
    exact UInt32.lt_of_lt_of_le below above
  | case3 => exact List.pairwise_singleton _ _
  | case4 => exact .nil

theorem sortedIncreasing (l : List UInt32) : (dedup (l.mergeSort (· ≤ ·))).Pairwise (· < ·) := by
  have trans (a b c : UInt32) (first : decide (a ≤ b) = true) (second : decide (b ≤ c) = true) :
      decide (a ≤ c) = true :=
    decide_eq_true (UInt32.le_trans (of_decide_eq_true first) (of_decide_eq_true second))
  have total (a b : UInt32) : (decide (a ≤ b) || decide (b ≤ a)) = true := by
    simpa using UInt32.le_total a b
  have sorted := List.pairwise_mergeSort trans total l
  exact dedupIncreasing (sorted.imp of_decide_eq_true)

def Selects (t : List Char) (page : UInt32) : Prop :=
  ∃ part ∈ t.splitOn ',', ∃ first last, Part part first last ∧ first ≤ page ∧ page ≤ last

theorem collectedMember {t : List Char} {bounds : List (UInt32 × UInt32)}
    (read : (Parts.between ',' t).mapM parsePart = .ok bounds) {page : UInt32} :
    page ∈ dedup ((bounds.flatMap pagesBetween).mergeSort (· ≤ ·)) ↔ Selects t page := by
  rw [dedupMember, List.mem_mergeSort, List.mem_flatMap]
  rw [Parts.betweenSplitOn] at read
  have members := (eachRead read).2
  constructor
  · rintro ⟨⟨first, last⟩, mem, within⟩
    obtain ⟨part, listed, form⟩ := (members _).mp mem
    exact ⟨part, listed, first, last, partExact.mp form, betweenMember.mp within⟩
  · rintro ⟨part, listed, first, last, form, within⟩
    exact ⟨(first, last), (members _).mpr ⟨part, listed, partExact.mpr form⟩,
      betweenMember.mpr within⟩

inductive Meaning (t : List Char) : PageSelection → Prop where
  | all (every : Everything t) : Meaning t .all
  | range {first last} (alone : ',' ∉ t) (paired : '-' ∈ t) (form : Part t first last) :
      Meaning t (.range first last)
  | pages {numbers} (listed : ¬ (',' ∉ t ∧ '-' ∈ t))
      (each : ∀ part ∈ t.splitOn ',', ∃ first last, Part part first last)
      (increasing : numbers.Pairwise (· < ·))
      (members : ∀ page, page ∈ numbers ↔ Selects t page) : Meaning t (.pages numbers)

theorem partsRead {t : List Char} : (∃ bounds, (Parts.between ',' t).mapM parsePart = .ok bounds) ↔
    ∀ part ∈ t.splitOn ',', ∃ first last, Part part first last := by
  rw [eachOk, Parts.betweenSplitOn]
  simp only [Prod.exists, partExact]

theorem pairAlone {t : List Char} :
    (!t.contains ',' && t.contains '-') = true ↔ ',' ∉ t ∧ '-' ∈ t := by
  simp

theorem parseAll {cs : List Char} (every : Everything (Blank.trim cs)) :
    parseChars cs = .ok .all := by
  unfold parseChars
  exact if_pos (everythingExact.mpr every)

theorem parseFound {cs : List Char} {selection : PageSelection}
    (ok : parseChars cs = .ok selection) : Meaning (Blank.trim cs) selection := by
  unfold parseChars at ok
  dsimp only at ok
  split at ok
  · rename_i every
    cases ok
    exact .all (everythingExact.mp every)
  · split at ok
    · rename_i pair
      obtain ⟨alone, paired⟩ := pairAlone.mp pair
      obtain ⟨⟨first, last⟩, form, told⟩ := bindOk ok
      cases told
      exact .range alone paired (partExact.mp form)
    · rename_i listed
      obtain ⟨bounds, read, told⟩ := bindOk ok
      cases told
      exact .pages (mt pairAlone.mpr listed) (partsRead.mp ⟨bounds, read⟩) (sortedIncreasing _)
        fun page => collectedMember read

theorem parseReads {cs : List Char} (listed : ¬ Everything (Blank.trim cs))
    (each : ∀ part ∈ (Blank.trim cs).splitOn ',', ∃ first last, Part part first last) :
    ∃ selection, parseChars cs = .ok selection := by
  unfold parseChars
  dsimp only
  rw [if_neg (mt everythingExact.mp listed)]
  split
  · rename_i pair
    have alone := (pairAlone.mp pair).1
    have whole := List.splitOn_eq_singleton alone
    obtain ⟨first, last, form⟩ := each _ (whole ▸ List.mem_singleton_self _)
    rw [partExact.mpr form]
    exact ⟨.range first last, rfl⟩
  · obtain ⟨bounds, read⟩ := partsRead.mpr each
    rw [read]
    exact ⟨_, rfl⟩

structure SameParts (cs ds : List Char) : Prop where
  several : ',' ∈ cs
  others : ',' ∈ ds
  same : ∀ part, part ∈ (cs.splitOn ',').map Blank.trim ↔ part ∈ (ds.splitOn ',').map Blank.trim

theorem partTrimmed {part : List Char} {first last : UInt32} :
    Part (Blank.trim part) first last ↔ Part part first last := by
  rw [← partExact, partTrim, partExact]

theorem commaKept {cs : List Char} (comma : ',' ∈ cs) : ',' ∈ Blank.trim cs := by
  obtain ⟨before, after, whole, leading, trailing⟩ := Blank.trimForm cs
  rw [whole, List.mem_append, List.mem_append] at comma
  rcases comma with (early | inside) | late
  · exact absurd (leading _ early) (by decide)
  · exact inside
  · exact absurd (trailing _ late) (by decide)

theorem SameParts.symm {cs ds : List Char} (parts : SameParts cs ds) : SameParts ds cs :=
  ⟨parts.others, parts.several, fun part => (parts.same part).symm⟩

/- Each part of the one text, as it stands after blanks around the text are gone, has the form of a
part of the other text. -/
theorem SameParts.matched {cs ds : List Char} (parts : SameParts cs ds) {part : List Char}
    (mem : part ∈ (Blank.trim ds).splitOn ',') :
    ∃ like ∈ (Blank.trim cs).splitOn ',',
      ∀ first last, Part like first last ↔ Part part first last := by
  have trimmed (es : List Char) : ((Blank.trim es).splitOn ',').map Blank.trim =
      (es.splitOn ',').map Blank.trim := by
    rw [← Parts.betweenSplitOn, ← Parts.betweenSplitOn]
    exact Parts.betweenTrim rfl es
  have listed := List.mem_map_of_mem (f := Blank.trim) mem
  rw [trimmed, ← parts.same, ← trimmed] at listed
  obtain ⟨like, found, equal⟩ := List.mem_map.mp listed
  exact ⟨like, found, fun first last => by rw [← partTrimmed, equal, partTrimmed]⟩

theorem SameParts.selects {cs ds : List Char} (parts : SameParts cs ds) {page : UInt32}
    (selected : Selects (Blank.trim ds) page) : Selects (Blank.trim cs) page := by
  obtain ⟨part, mem, first, last, form, within⟩ := selected
  obtain ⟨like, found, equal⟩ := parts.matched mem
  exact ⟨like, found, first, last, (equal first last).mpr form, within⟩

theorem everythingPlain {t : List Char} (every : Everything t) : ',' ∉ t := by
  rcases every with _ | ⟨first, second, third⟩
  · exact List.not_mem_nil
  · rcases first with rfl | rfl <;> rcases second with rfl | rfl <;> rcases third with rfl | rfl <;>
      simp

theorem SameParts.read {cs ds : List Char} (parts : SameParts cs ds) {selection : PageSelection}
    (ok : parseChars cs = .ok selection) : parseChars ds = .ok selection := by
  have comma := commaKept parts.several
  have comma' := commaKept parts.others
  cases parseFound ok with
  | all every => exact absurd comma (everythingPlain every)
  | range alone => exact absurd comma alone
  | @pages numbers _ each increasing members =>
    have each' : ∀ part ∈ (Blank.trim ds).splitOn ',', ∃ first last, Part part first last := by
      intro part mem
      obtain ⟨like, found, equal⟩ := parts.matched mem
      simpa only [equal] using each like found
    obtain ⟨selection', ok'⟩ := parseReads (fun every => everythingPlain every comma') each'
    rw [ok']
    cases parseFound ok' with
    | all every => exact absurd comma' (everythingPlain every)
    | range alone => exact absurd comma' alone
    | @pages numbers' _ _ increasing' members' =>
      have same : numbers' = numbers := increasing'.eq_of_mem_iff increasing fun page => by
        rw [members', members]
        exact ⟨parts.selects, parts.symm.selects⟩
      rw [same]

theorem meaningIncludes {t : List Char} {selection : PageSelection}
    (meaning : Meaning t selection) (listed : ¬ Everything t) (page : UInt32) :
    selection.includes page = true ↔ Selects t page := by
  cases meaning with
  | all every => exact absurd every listed
  | @range first last alone paired form =>
    have within : includes (.range first last) page = true ↔ first ≤ page ∧ page ≤ last := by
      simp [includes]
    rw [within, Selects, List.splitOn_eq_singleton alone]
    constructor
    · exact fun within => ⟨t, List.mem_singleton_self t, first, last, form, within⟩
    · rintro ⟨part, mem, m, n, other, within⟩
      cases List.mem_singleton.mp mem
      cases (partExact.mpr other).symm.trans (partExact.mpr form)
      exact within
  | pages listed each increasing members =>
    rw [← members]
    exact List.contains_iff_mem

theorem parseOk {s : String} {selection : PageSelection} :
    parse s = .ok selection ↔ parseChars s.toList = .ok selection := by
  unfold parse
  cases parseChars s.toList <;> simp [Except.mapError]

theorem textsMeanPages (s : String) :
    (Everything (Blank.trim s.toList) → parse s = .ok .all) ∧
    (¬ Everything (Blank.trim s.toList) →
      ((∃ selection, parse s = .ok selection) ↔
        ∀ part ∈ (Blank.trim s.toList).splitOn ',', ∃ first last, Part part first last) ∧
      ∀ selection, parse s = .ok selection →
        (∀ page, selection.includes page = true ↔ Selects (Blank.trim s.toList) page) ∧
        ((',' ∉ Blank.trim s.toList ∧ '-' ∈ Blank.trim s.toList) ∧
            (∃ first last, Part (Blank.trim s.toList) first last ∧
              selection = .range first last) ∨
          ¬ (',' ∉ Blank.trim s.toList ∧ '-' ∈ Blank.trim s.toList) ∧
            ∃ numbers, selection = .pages numbers ∧ numbers.Pairwise (· < ·))) ∧
    (∀ fault, parse s = .error fault → ∃ cause, fault = .pages cause) ∧
    ∀ other : String, SameParts s.toList other.toList →
      ∀ selection, parse s = .ok selection ↔ parse other = .ok selection := by
  refine ⟨fun every => parseOk.mpr (parseAll every), fun listed => ⟨⟨?_, ?_⟩, ?_⟩, ?_, ?_⟩
  · rintro ⟨selection, ok⟩
    cases parseFound (parseOk.mp ok) with
    | all every => exact absurd every listed
    | range alone _ form =>
      rw [List.splitOn_eq_singleton alone]
      exact fun part mem => List.mem_singleton.mp mem ▸ ⟨_, _, form⟩
    | pages _ each => exact each
  · intro each
    obtain ⟨selection, ok⟩ := parseReads listed each
    exact ⟨selection, parseOk.mpr ok⟩
  · intro selection ok
    have meaning := parseFound (parseOk.mp ok)
    refine ⟨meaningIncludes meaning listed, ?_⟩
    cases meaning with
    | all every => exact absurd every listed
    | range alone paired form => exact .inl ⟨⟨alone, paired⟩, _, _, form, rfl⟩
    | pages parted _ increasing => exact .inr ⟨parted, _, rfl, increasing⟩
  · intro fault failed
    unfold parse at failed
    cases read : parseChars s.toList with
    | ok selection =>
      rw [read] at failed
      contradiction
    | error cause =>
      rw [read] at failed
      cases failed
      exact ⟨cause, rfl⟩
  · intro other parts selection
    rw [parseOk, parseOk]
    exact ⟨parts.read, parts.symm.read⟩

theorem listsReordered : parse "7, 1,3-5" = .ok (.pages [1, 3, 4, 5, 7]) ∧
    parse "3-5 ,1,7,1" = .ok (.pages [1, 3, 4, 5, 7]) ∧ parse "3-5" = .ok (.range 3 5) ∧
    parse " aLL" = .ok .all := by
  have sorted : [7, 1, 3, 4, 5].mergeSort (fun a b : UInt32 => a ≤ b) = [1, 3, 4, 5, 7] := by
    simp [List.mergeSort, List.MergeSort.Internal.splitInTwo]
  have read : parse "7, 1,3-5" = .ok (.pages [1, 3, 4, 5, 7]) := by
    change Except.ok (pages (dedup ([7, 1, 3, 4, 5].mergeSort (fun a b : UInt32 => a ≤ b)))) = _
    rw [sorted]
    rfl
  have parts : SameParts "7, 1,3-5".toList "3-5 ,1,7,1".toList := by
    refine ⟨by simp, by simp, fun part => ?_⟩
    show part ∈ [['7'], ['1'], ['3', '-', '5']] ↔ part ∈ [['3', '-', '5'], ['1'], ['7'], ['1']]
    simp
    tauto
  exact ⟨read, ((textsMeanPages _).2.2.2 _ parts _).mp read, rfl,
    (textsMeanPages " aLL").1 (.word (.inl rfl) (.inr rfl) (.inr rfl))⟩

end PageSelection
end PaintedImages
