import Mathlib.Algebra.Group.Nat.Defs
import Mathlib.Data.List.Forall2
import Mathlib.Data.List.TakeWhile
import PaintedImages.Json.Reader

/-! Written JSON read back, part by part. What a reader takes from the front of a text does not
depend on what follows, a number apart, nor on space before it; so parts that are read back each by
each are read back in a list or an object, in either layout. -/
namespace PaintedImages.Json

def Spaces (space : Text) : Prop := ∀ c ∈ space, isSpace c = true

def inNumber (c : Char) : Bool := c.isDigit || c = '.' || c = 'e' || c = 'E'

def Ends : Text → Prop
  | [] => True
  | c :: _ => inNumber c = false

def Gives {α : Type} (reader : Reader α) (written : Text) (result : Option α) : Prop :=
  ∀ space tail, Spaces space → Ends tail →
    reader (space ++ (written ++ tail)) = result.map fun a => (a, tail)

def Takes {α : Type} (reader : Reader α) (written : Text) (a : α) : Prop :=
  ∀ space tail, Spaces space → Ends tail → reader (space ++ (written ++ tail)) = some (a, tail)

theorem takesGives {α : Type} {reader : Reader α} {written : Text} {a : α} :
    Takes reader written a ↔ Gives reader written (some a) := Iff.rfl

theorem skipSpaceAppend {space : Text} (blank : Spaces space) (t : Text) :
    skipSpace (space ++ t) = skipSpace t :=
  List.dropWhile_append_of_pos blank

theorem skipSpaceVisible {c : Char} (visible : isSpace c = false) (t : Text) :
    skipSpace (c :: t) = c :: t :=
  List.dropWhile_cons_of_neg (by simp [visible])

theorem expectNext {space : Text} (blank : Spaces space) {c : Char} (visible : isSpace c = false)
    (t : Text) : expect c (space ++ c :: t) = some t := by
  simp only [expect, skipSpaceAppend blank, skipSpaceVisible visible, if_pos]

theorem noSpaces : Spaces [] := nofun

theorem gapSpaces (layout : Layout) (depth : Nat) : Spaces (gap layout depth) := by
  cases layout with
  | compact => exact noSpaces
  | pretty =>
    intro c mem
    rcases List.mem_cons.mp mem with rfl | mem
    · rfl
    · rw [List.eq_of_mem_replicate mem]
      rfl

/- Strings. One character of a string is read by one step of its reader, however it is escaped. -/
theorem hexRead : ∀ n < 16, Numeral.hexValue (Bytes.hexDigit n) = some n := by decide

theorem controlRead (n : Nat) (small : n < 256) :
    unit '0' '0' (Bytes.hexDigit (n / 16)) (Bytes.hexDigit (n % 16)) = some n := by
  have zero : Numeral.hexValue '0' = some 0 := rfl
  have high := hexRead (n / 16) (by omega)
  have low := hexRead (n % 16) (by omega)
  have whole : (0 * 16 + 0) * 256 + (n / 16 * 16 + n % 16) = n := by omega
  simp only [unit, zero, high, low, bind, Option.bind, whole]

def after (c : Char) (r : Option (List Char) × Text) : Option (List Char) × Text :=
  (r.1.map (c :: ·), r.2)

theorem letterRead (fuel : Nat) {e c : Char} (other : e ≠ 'u') (letter : unescape e = some c)
    (rest : Text) :
    stringBody (fuel + 1) (backslash :: e :: rest) = (stringBody fuel rest).map (after c) := by
  have apart : backslash ≠ quote := by decide
  simp only [stringBody, if_neg apart, if_true, bind, Option.bind]
  split
  · rename_i same
    cases same
    exact absurd rfl other
  · rename_i same
    cases same
    rw [letter]
    cases stringBody fuel rest with
    | none => rfl
    | some r => rfl
  · contradiction

theorem codeRead (fuel : Nat) {h i j k : Char} {n : Nat} (code : unit h i j k = some n)
    (low : n < 0xD800) (rest : Text) :
    stringBody (fuel + 1) (backslash :: 'u' :: h :: i :: j :: k :: rest) =
      (stringBody fuel rest).map (after (Char.ofNat n)) := by
  have apart : backslash ≠ quote := by decide
  have single : n < 0xD800 ∨ 0xDFFF < n := .inl low
  simp only [stringBody, if_neg apart, if_true, code, bind, Option.bind, if_pos single]
  cases stringBody fuel rest with
  | none => rfl
  | some r => rfl

theorem plainRead (fuel : Nat) {c : Char} (inside : c ≠ quote) (plain : c ≠ backslash)
    (printable : ¬ c.toNat < 32) (rest : Text) :
    stringBody (fuel + 1) (c :: rest) = (stringBody fuel rest).map (after c) := by
  simp only [stringBody, if_neg inside, if_neg plain, if_neg printable, bind, Option.bind]
  cases stringBody fuel rest with
  | none => rfl
  | some r => rfl

theorem escapeRead (fuel : Nat) (c : Char) (rest : Text) :
    stringBody (fuel + 1) (escape c ++ rest) = (stringBody fuel rest).map (after c) := by
  have named {n : Nat} (same : c.toNat = n) : c = Char.ofNat n := by
    rw [← same, Char.ofNat_toNat]
  unfold escape
  split
  · rename_i same
    subst same
    exact letterRead fuel (by decide) rfl rest
  split
  · rename_i same
    subst same
    exact letterRead fuel (by decide) rfl rest
  iterate 5
    split
    · rename_i same
      rw [named same]
      exact letterRead fuel (by decide) rfl rest
  split
  · rename_i control
    have read := codeRead fuel (controlRead c.toNat (by omega)) (by omega) rest
    rwa [Char.ofNat_toNat] at read
  · rename_i inside plain _ _ _ _ _ printable
    exact plainRead fuel inside plain printable rest

theorem stringRead {fuel : Nat} (s : List Char) (tail : Text)
    (enough : (s.flatMap escape ++ quote :: tail).length ≤ fuel) :
    stringBody fuel (s.flatMap escape ++ quote :: tail) = some (some s, tail) := by
  induction s generalizing fuel with
  | nil =>
    cases fuel with
    | zero => simp at enough
    | succ fuel => simp [stringBody]
  | cons c s ih =>
    cases fuel with
    | zero => simp at enough
    | succ fuel =>
      have positive : 0 < (escape c).length := by
        unfold escape
        repeat' split
        all_goals simp
      simp only [List.flatMap_cons, List.append_assoc, List.length_append] at enough ⊢
      rw [escapeRead, ih (by simp only [List.length_append]; omega)]
      rfl

theorem anyStringTakes (s : String) : Takes anyString (quoted s) (some s) := by
  intro space tail blank _
  have visible : isSpace quote = false := rfl
  have form : quoted s ++ tail = quote :: (s.toList.flatMap escape ++ quote :: tail) := by
    simp [quoted]
  simp only [anyString, form, expectNext blank visible, stringRead _ _ (Nat.le_refl _), bind,
    Option.bind, Option.map_some, String.ofList_toList]

theorem textTakes (s : String) : Takes text (quoted s) s := by
  intro space tail blank ends
  simp only [text, anyStringTakes s space tail blank ends, bind, Option.bind]

/- Numbers. A reading of a number stays as it is before text that no number goes on with. -/
theorem endsExact {c : Char} {t : Text} :
    Ends (c :: t) ↔ c.isDigit = false ∧ c ≠ '.' ∧ c ≠ 'e' ∧ c ≠ 'E' := by
  simp [Ends, inNumber, and_assoc]

theorem digitsInside (n : Nat) : ∀ c ∈ Nat.toDigits 10 n, c.isDigit = true :=
  fun _ mem => Nat.isDigit_of_mem_toDigits (by decide) (by decide) mem

theorem digitsValue (n : Nat) : Numeral.value (Nat.toDigits 10 n) = n := by
  have value := Nat.ofDigitChars_ten_toDigits (n := n)
  rw [Nat.ofDigitChars_eq_foldl] at value
  simpa [Numeral.value, Nat.mul_comm] using value

theorem toDigitsStart (n : Nat) : ∃ c t, Nat.toDigits 10 n = c :: t ∧ c.isDigit = true := by
  cases digits : Nat.toDigits 10 n with
  | nil => exact absurd digits Nat.toDigits_ne_nil
  | cons c t => exact ⟨c, t, rfl, digitsInside n c (by simp [digits])⟩

theorem digitsHead {n : Nat} (positive : 0 < n) : (Nat.toDigits 10 n).head? ≠ some '0' := by
  induction n using Nat.strongRecOn with
  | ind n ih =>
    rw [Nat.toDigits_eq_if (by decide)]
    split
    · rename_i small
      have every : ∀ d < 10, 0 < d → [d.digitChar].head? ≠ some '0' := by decide
      exact every n small positive
    · have shorter := ih (n / 10) (by omega) (by omega)
      have nonempty : Nat.toDigits 10 (n / 10) ≠ [] := Nat.toDigits_ne_nil
      rwa [List.head?_append_of_ne_nil _ nonempty]

theorem digitVisible {c : Char} (digit : c.isDigit = true) : isSpace c = false ∧ c ≠ '-' := by
  constructor
  · cases blank : isSpace c with
    | false => rfl
    | true =>
      simp only [isSpace, Bool.or_eq_true, decide_eq_true_eq] at blank
      rcases blank with ((rfl | rfl) | rfl) | rfl
      all_goals revert digit; decide
  · rintro rfl
    revert digit
    decide

theorem powerEnds {tail : Text} (ends : Ends tail) : power tail = some (none, tail) := by
  cases tail with
  | nil => rfl
  | cons c tail =>
    have plain : ¬ (c = 'e' ∨ c = 'E') := not_or.mpr (endsExact.mp ends).2.2
    simp only [power, if_neg plain]

def Stands {α : Type} (reader : Reader α) : Prop :=
  ∀ t a rest, reader t = some (a, rest) → ∀ tail, Ends tail →
    reader (t ++ tail) = some (a, rest ++ tail)

theorem digitsAppend (t : Text) {tail : Text} (ends : Ends tail) :
    (t ++ tail).takeWhile Char.isDigit = t.takeWhile Char.isDigit ∧
      (t ++ tail).dropWhile Char.isDigit = t.dropWhile Char.isDigit ++ tail := by
  induction t with
  | nil =>
    cases tail with
    | nil => exact ⟨rfl, rfl⟩
    | cons c tail =>
      have stop : ¬ c.isDigit = true := by simp [(endsExact.mp ends).1]
      exact ⟨List.takeWhile_cons_of_neg stop, List.dropWhile_cons_of_neg stop⟩
  | cons c t ih =>
    rw [List.cons_append, List.takeWhile_cons, List.takeWhile_cons, List.dropWhile_cons,
      List.dropWhile_cons, ih.1, ih.2]
    by_cases digit : c.isDigit = true
    · simp only [if_pos digit, and_self]
    · simp only [if_neg digit, List.cons_append, and_self]

theorem digitsStand : Stands digits := by
  intro t found rest read tail ends
  obtain ⟨taken, left⟩ := digitsAppend t ends
  simp only [digits, taken, left] at read ⊢
  split at read
  · contradiction
  · rename_i nonempty
    cases read
    exact if_neg nonempty

theorem fractionStands : Stands fraction := by
  intro t found rest read tail ends
  cases t with
  | nil =>
    cases read
    cases tail with
    | nil => rfl
    | cons c tail => simp [fraction, (endsExact.mp ends).2.1]
  | cons c t =>
    by_cases point : c = '.'
    · subst point
      exact digitsStand t found rest read tail ends
    · simp only [fraction, List.cons_append, point, List.cons.injEq, false_and, imp_self,
        implies_true] at read ⊢
      cases read
      rfl

theorem exponentStands (sign : Int) : Stands (exponent sign) := by
  intro t e rest read tail ends
  obtain ⟨⟨found, left⟩, digitsRead, same⟩ := Option.map_eq_some_iff.mp read
  cases same
  simp only [exponent, digitsStand t found left digitsRead tail ends, Option.map_some]

theorem powerStands : Stands power := by
  intro t e rest read tail ends
  cases t with
  | nil =>
    cases read
    exact powerEnds ends
  | cons c t =>
    simp only [power, List.cons_append] at read ⊢
    by_cases letter : c = 'e' ∨ c = 'E'
    · rw [if_pos letter] at read ⊢
      cases t with
      | nil => contradiction
      | cons d t =>
        by_cases minus : d = '-'
        · subst minus
          exact exponentStands (-1) t e rest read tail ends
        · by_cases plus : d = '+'
          · subst plus
            exact exponentStands 1 t e rest read tail ends
          · simp only [List.cons_append, minus, plus, List.cons.injEq, false_and, imp_self,
              implies_true] at read ⊢
            exact exponentStands 1 (d :: t) e rest read tail ends
    · rw [if_neg letter] at read ⊢
      cases read
      rfl

theorem unsignedStands (negative : Bool) : Stands (unsigned negative) := by
  intro t w rest read tail ends
  obtain ⟨⟨whole, point⟩, digitsRead, read⟩ := Option.bind_eq_some_iff.mp read
  dsimp only at read
  split at read
  · contradiction
  · rename_i proper
    obtain ⟨⟨part, letter⟩, partRead, read⟩ := Option.bind_eq_some_iff.mp read
    obtain ⟨⟨power, behind⟩, powerRead, read⟩ := Option.bind_eq_some_iff.mp read
    cases read
    simp only [unsigned, digitsStand t whole point digitsRead tail ends, if_neg proper,
      fractionStands point part letter partRead tail ends,
      powerStands letter power behind powerRead tail ends, bind, Option.bind]

def Numeric (c : Char) : Prop := c.isDigit = true ∨ c = '-'

theorem numeralDigit {c : Char} (digit : c.isDigit = true) (t : Text) :
    numeral (c :: t) = unsigned false (c :: t) := by
  obtain ⟨visible, plain⟩ := digitVisible digit
  simp [numeral, skipSpaceVisible visible, plain]

theorem numeralTaken {c : Char} (numeric : Numeric c) {t : Text} {w : Written}
    (read : numeral (c :: t) = some (w, [])) : Takes numeral (c :: t) w := by
  intro space tail blank ends
  have skipped : numeral (space ++ (c :: t ++ tail)) = numeral (c :: (t ++ tail)) := by
    simp only [numeral, skipSpaceAppend blank, List.cons_append]
  rw [skipped]
  rcases numeric with digit | rfl
  · rw [numeralDigit digit] at read ⊢
    exact unsignedStands false _ _ _ read tail ends
  · exact unsignedStands true t w [] read tail ends

theorem unsignedDigits (negative : Bool) (n : Nat) :
    unsigned negative (Nat.toDigits 10 n) =
      some (⟨negative, Nat.toDigits 10 n, [], none⟩, []) := by
  have proper : ¬ ((Nat.toDigits 10 n).head? = some '0' ∧ 1 < (Nat.toDigits 10 n).length) := by
    rintro ⟨zero, long⟩
    by_cases positive : 0 < n
    · exact digitsHead positive zero
    · obtain rfl : n = 0 := by omega
      simp at long
  have whole : digits (Nat.toDigits 10 n) = some (Nat.toDigits 10 n, []) := by
    have nonempty : ¬ (Nat.toDigits 10 n).isEmpty = true :=
      Nat.toDigits_ne_nil ∘ List.isEmpty_iff.mp
    rw [digits, List.takeWhile_eq_self_iff.mpr (digitsInside n),
      List.dropWhile_eq_nil_iff.mpr (digitsInside n), if_neg nonempty]
  simp only [unsigned, whole, bind, Option.bind, if_neg proper]
  rfl

theorem numeralTakes (n : Nat) :
    Takes numeral (Nat.toDigits 10 n) ⟨false, Nat.toDigits 10 n, [], none⟩ := by
  have read := unsignedDigits false n
  obtain ⟨c, t, form, digit⟩ := toDigitsStart n
  rw [form] at read ⊢
  rw [← numeralDigit digit] at read
  exact numeralTaken (.inl digit) read

theorem minusTakes (n : Nat) :
    Takes numeral ('-' :: Nat.toDigits 10 n) ⟨true, Nat.toDigits 10 n, [], none⟩ :=
  numeralTaken (.inr rfl) (unsignedDigits true n)

theorem wordTakes (layout : Layout) (depth : Nat) (n : UInt32) :
    Takes word (write layout depth (ofNat n.toNat)) n := by
  intro space tail blank ends
  have digits : write layout depth (ofNat n.toNat) = Nat.toDigits 10 n.toNat := by
    simp [ofNat, write, numberText, Int.repr, Nat.toList_repr]
  have small : n.toNat < UInt32.size := n.toNat_lt
  rw [digits]
  simp only [word, numeralTakes n.toNat space tail blank ends, bind, Option.bind, digitsValue,
    if_pos small, UInt32.ofNat_toNat]
  rfl

/- Lists and objects. Their parts are written one after the other, and what separates them is
neither part of them nor of a number. -/
section Parts
variable {α σ : Type} {layout : Layout} {depth : Nat}

def Starts (part : Text) : Prop :=
  ∃ c rest, part = c :: rest ∧ isSpace c = false ∧ c ≠ ']' ∧ c ≠ '\x7d'

def following (layout : Layout) (depth : Nat) (close : Char) (parts : List Text) : Text :=
  parts.flatMap (fun part => ',' :: gap layout (depth + 1) ++ part) ++ (gap layout depth ++ [close])

theorem enclosedCons (opening close : Char) (first : Text) (rest : List Text) :
    enclosed layout depth opening close (first :: rest) =
      opening :: (gap layout (depth + 1) ++ (first ++ following layout depth close rest)) := by
  simp [enclosed, following]

theorem enclosedStarts (layout : Layout) (depth : Nat) (opening close : Char)
    (parts : List Text) : ∃ rest, enclosed layout depth opening close parts = opening :: rest := by
  cases parts with
  | nil => exact ⟨_, rfl⟩
  | cons first rest => exact ⟨_, enclosedCons _ _ first rest⟩

theorem followingNil (close : Char) (tail : Text) :
    following layout depth close [] ++ tail = gap layout depth ++ close :: tail := by
  simp [following]

theorem followingCons (layout : Layout) (depth : Nat) (close : Char) (part : Text)
    (rest : List Text) (tail : Text) : following layout depth close (part :: rest) ++ tail =
      ',' :: (gap layout (depth + 1) ++ (part ++ (following layout depth close rest ++ tail))) := by
  simp [following]

theorem followingLength (layout : Layout) (depth : Nat) (close : Char) (parts : List Text) :
    parts.length < (following layout depth close parts).length := by
  induction parts with
  | nil => simp [following]
  | cons part rest ih =>
    have step := followingCons layout depth close part rest []
    rw [List.append_nil, List.append_nil] at step
    simp only [step, List.length_cons, List.length_append]
    omega

theorem followingEnds {close : Char} (closes : close = ']' ∨ close = '\x7d') (parts : List Text)
    (tail : Text) : Ends (following layout depth close parts ++ tail) := by
  cases parts with
  | nil =>
    rw [followingNil]
    cases layout with
    | compact => rcases closes with rfl | rfl <;> rfl
    | pretty => rfl
  | cons part rest =>
    rw [followingCons]
    rfl

/- Reading stops at the first part that gives nothing, and then it gives nothing at all. -/
theorem itemsRead {close : Char} (closes : close = ']' ∨ close = '\x7d') {item : Reader α}
    {first : Text} {x : Option α} (head : Gives item first x) {parts : List Text}
    {xs : List (Option α)} (read : List.Forall₂ (Gives item) parts xs) {fuel : Nat}
    (enough : parts.length < fuel) {space : Text} (blank : Spaces space) (tail : Text) :
    items close item fuel (space ++ (first ++ (following layout depth close parts ++ tail))) =
      ((x :: xs).mapM id).map fun as => (as, tail) := by
  have visible : isSpace close = false := by rcases closes with rfl | rfl <;> rfl
  have comma : ',' ≠ close := by rcases closes with rfl | rfl <;> decide
  induction read generalizing first x fuel space with
  | nil =>
    cases fuel with
    | zero => contradiction
    | succ fuel =>
      rw [items, head _ _ blank (followingEnds closes [] tail), followingNil]
      cases x with
      | none => rfl
      | some a =>
        simp only [bind, Option.bind, Option.map_some, skipSpaceAppend (gapSpaces layout depth),
          skipSpaceVisible visible, if_true]
        rfl
  | cons next rest ih =>
    rename_i part y parts ys
    cases fuel with
    | zero => contradiction
    | succ fuel =>
      have shown : isSpace ',' = false := rfl
      have later := ih next (Nat.lt_of_succ_lt_succ enough) (gapSpaces layout (depth + 1))
      rw [items, head _ _ blank (followingEnds closes (part :: parts) tail), followingCons]
      cases x with
      | none => rfl
      | some a =>
        simp only [bind, Option.bind, Option.map_some, skipSpaceVisible shown, if_neg comma,
          if_true, later, List.mapM_cons, id]
        cases y with
        | none => rfl
        | some b => cases ys.mapM id <;> rfl

theorem bracketedGives {opening close : Char} (opens : isSpace opening = false)
    (closes : close = ']' ∨ close = '\x7d') {item : Reader α} {parts : List Text}
    {xs : List (Option α)} (starts : ∀ part ∈ parts, Starts part)
    (read : List.Forall₂ (Gives item) parts xs) :
    Gives (bracketed opening close item) (enclosed layout depth opening close parts)
      (xs.mapM id) := by
  intro space tail blank _
  cases read with
  | nil =>
    have visible : isSpace close = false := by rcases closes with rfl | rfl <;> rfl
    simp only [bracketed, enclosed, List.cons_append, List.nil_append, expectNext blank opens, bind,
      Option.bind, skipSpaceVisible visible, if_true]
    rfl
  | cons head rest =>
    rename_i first x parts xs
    obtain ⟨c, more, form, visible, list, object⟩ := starts first List.mem_cons_self
    have other : c ≠ close := by rcases closes with rfl | rfl <;> assumption
    have enough := followingLength layout depth close parts
    have spaces := gapSpaces layout (depth + 1)
    simp only [bracketed, enclosedCons, List.cons_append, List.append_assoc,
      expectNext blank opens, bind, Option.bind, skipSpaceAppend spaces]
    rw [itemsRead closes head rest (by simp only [List.length_append]; omega) spaces tail]
    simp only [form, List.cons_append, skipSpaceVisible visible, if_neg other]

theorem bracketedTakes {opening close : Char} (opens : isSpace opening = false)
    (closes : close = ']' ∨ close = '\x7d') {item : Reader α} {parts : List Text} {xs : List α}
    (starts : ∀ part ∈ parts, Starts part) (read : List.Forall₂ (Takes item) parts xs) :
    Takes (bracketed opening close item) (enclosed layout depth opening close parts) xs := by
  have taken : (xs.map some).mapM id = some (xs.map id) := by
    rw [List.mapM_map]
    exact List.mapM_pure
  rw [List.map_id] at taken
  rw [takesGives, ← taken]
  exact bracketedGives opens closes starts (List.forall₂_map_right_iff.mpr read)

theorem colonSpaces (layout : Layout) : ∃ space, colon layout = ':' :: space ∧ Spaces space := by
  cases layout with
  | compact => exact ⟨[], rfl, noSpaces⟩
  | pretty => exact ⟨[' '], rfl, by simp [Spaces, isSpace]⟩

inductive Filled (field : String → Option (σ → Reader σ)) (layout : Layout) :
    σ → List Text → σ → Prop
  | nil (state : σ) : Filled field layout state [] state
  | cons {state next last : σ} {name : String} {reader : σ → Reader σ} {written : Text}
    {parts : List Text} (known : field name = some reader)
    (read : Takes (reader state) written next) (rest : Filled field layout next parts last) :
    Filled field layout state ((quoted name ++ colon layout ++ written) :: parts) last

variable {field : String → Option (σ → Reader σ)}

theorem memberRead {fuel : Nat} {state next last : σ} {name : String} {reader : σ → Reader σ}
    {written : Text} (known : field name = some reader)
    (read : Takes (reader state) written next) {space rest tail : Text} (blank : Spaces space)
    (ends : Ends rest)
    (later : skipSpace rest = '\x7d' :: tail ∧ next = last ∨
      ∃ t, skipSpace rest = ',' :: t ∧ fields field fuel next t = some (last, tail)) :
    fields field (fuel + 1) state (space ++ (quoted name ++ (colon layout ++ (written ++ rest)))) =
      some (last, tail) := by
  obtain ⟨spaceAfter, form, spaces⟩ := colonSpaces layout
  have shown : isSpace ':' = false := rfl
  have named := textTakes name space (':' :: (spaceAfter ++ (written ++ rest))) blank rfl
  have parted := expectNext noSpaces shown (spaceAfter ++ (written ++ rest))
  simp only [form, List.cons_append, List.nil_append] at parted ⊢
  simp only [fields, named, parted, known, read _ _ spaces ends, bind, Option.bind]
  rcases later with ⟨closed, rfl⟩ | ⟨t, another, filled⟩
  · simp only [closed]
  · simp only [another, filled]

theorem fieldsRead {state next last : σ} {name : String} {reader : σ → Reader σ} {written : Text}
    {parts : List Text} (known : field name = some reader)
    (read : Takes (reader state) written next) (filled : Filled field layout next parts last)
    {fuel : Nat} (enough : parts.length < fuel) {space : Text} (blank : Spaces space)
    (tail : Text) :
    fields field fuel state (space ++ (quoted name ++ (colon layout ++ (written ++
      (following layout depth '\x7d' parts ++ tail))))) = some (last, tail) := by
  induction filled generalizing name reader written state fuel space with
  | nil last =>
    cases fuel with
    | zero => contradiction
    | succ fuel =>
      have closed : isSpace '\x7d' = false := rfl
      refine memberRead known read blank (followingEnds (.inr rfl) [] tail) (.inl ⟨?_, rfl⟩)
      rw [followingNil, skipSpaceAppend (gapSpaces layout depth), skipSpaceVisible closed]
  | cons knownNext readNext rest ih =>
    rename_i parts
    cases fuel with
    | zero => contradiction
    | succ fuel =>
      have shown : isSpace ',' = false := rfl
      refine memberRead known read blank (followingEnds (.inr rfl) (_ :: parts) tail)
        (.inr ⟨_, ?_, ih knownNext readNext (Nat.lt_of_succ_lt_succ enough)
          (gapSpaces layout (depth + 1))⟩)
      rw [followingCons, skipSpaceVisible shown]
      simp only [List.append_assoc]

theorem fieldsTake (depth : Nat) {parts : List Text} {start last : σ}
    (filled : Filled field layout start parts last) :
    Takes (fieldsOf field start) (enclosed layout depth '\x7b' '\x7d' parts) last := by
  intro space tail blank _
  have opens : isSpace '\x7b' = false := rfl
  cases filled with
  | nil =>
    have closed : isSpace '\x7d' = false := rfl
    simp only [fieldsOf, enclosed, List.cons_append, List.nil_append, expectNext blank opens, bind,
      Option.bind, skipSpaceVisible closed]
  | cons known read rest =>
    rename_i next name reader written parts
    have enough := followingLength layout depth '\x7d' parts
    have spaces := gapSpaces layout (depth + 1)
    have shown : isSpace quote = false := rfl
    have front : skipSpace (quoted name ++ (colon layout ++ (written ++
        (following layout depth '\x7d' parts ++ tail)))) =
        quoted name ++ (colon layout ++ (written ++
          (following layout depth '\x7d' parts ++ tail))) :=
      skipSpaceVisible shown _
    simp only [fieldsOf, enclosedCons, List.cons_append, List.append_assoc, expectNext blank opens,
      bind, Option.bind, skipSpaceAppend spaces, front]
    split
    · rename_i same
      have other : quote = '\x7d' := List.head_eq_of_cons_eq same
      contradiction
    · exact fieldsRead known read rest (by simp only [List.length_append]; omega) spaces tail

end Parts

end PaintedImages.Json
