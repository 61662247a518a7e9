import PaintedImages.Proofs.MemberOrder
import PaintedImages.Proofs.WrittenReports

/-! Whole JSON values read back. What is read of a written value is the value with its members in
order, in either layout, whatever follows; and that is read just if the reader goes as deep as lists
and objects stand in one another. Real numbers that reading rounds are left aside. -/
namespace PaintedImages.Json

mutual

def height : Json → Nat
  | .array items => heightItems items + 1
  | .object members => heightMembers members + 1
  | _ => 0

def heightItems : List Json → Nat
  | [] => 0
  | item :: rest => max (height item) (heightItems rest)

def heightMembers : List (String × Json) → Nat
  | [] => 0
  | (_, value) :: rest => max (height value) (heightMembers rest)

end

theorem heightItemsWithin {items : List Json} {n : Nat} :
    heightItems items ≤ n ↔ ∀ item ∈ items, item.height ≤ n := by
  induction items with
  | nil => exact iff_of_true (Nat.zero_le n) nofun
  | cons item rest ih => rw [heightItems, Nat.max_le, List.forall_mem_cons, ih]

theorem heightMembersExact (members : List (String × Json)) :
    heightMembers members = heightItems (members.map Prod.snd) := by
  induction members with
  | nil => rfl
  | cons member rest ih => rw [heightMembers, ih, List.map_cons, heightItems]

theorem heightMembersWithin {members : List (String × Json)} {n : Nat} :
    heightMembers members ≤ n ↔ ∀ member ∈ members, member.2.height ≤ n := by
  rw [heightMembersExact, heightItemsWithin, List.forall_mem_map]

/- Reordering leaves every value at its depth. -/
theorem reorderedHeight {j k : Json} (reordered : Reordered j k) : j.height = k.height := by
  have known {a b : Nat} (bounds : ∀ n, a ≤ n ↔ b ≤ n) : a = b :=
    Nat.le_antisymm ((bounds b).mpr (Nat.le_refl b)) ((bounds a).mp (Nat.le_refl a))
  induction reordered with
  | refl j => rfl
  | trans _ _ first second => exact first.trans second
  | members perm =>
    refine congrArg (· + 1) (known fun n => ?_)
    simp only [heightMembersWithin, perm.mem_iff]
  | item before _ after ih =>
    refine congrArg (· + 1) (known fun n => ?_)
    simp only [heightItemsWithin, List.forall_mem_append, List.forall_mem_cons, ih]
  | member before name _ after ih =>
    refine congrArg (· + 1) (known fun n => ?_)
    simp only [heightMembersWithin, List.forall_mem_append, List.forall_mem_cons, ih]

/- Numbers. -/
theorem numericVisible {c : Char} (numeric : Numeric c) : isSpace c = false := by
  rcases numeric with digit | rfl
  · exact (digitVisible digit).1
  · rfl

theorem numericApart {c d : Char} (numeric : Numeric c) (plain : d.isDigit = false)
    (unsigned : d ≠ '-') : c ≠ d := by
  rintro rfl
  rcases numeric with digit | same
  · rw [plain] at digit
    contradiction
  · exact unsigned same

theorem naturalWritten {n : Nat} (small : n < UInt64.size) :
    Written.number ⟨false, Nat.toDigits 10 n, [], none⟩ = some (.integer n) := by
  simp only [Written.number, digitsValue, List.isEmpty_nil, Option.isNone_none, Bool.not_false,
    Bool.and_self, Bool.true_and, decide_true, small, if_true]

theorem minusWritten {n : Nat} (positive : 0 < n) (small : n ≤ UInt64.size / 2) :
    Written.number ⟨true, Nat.toDigits 10 n, [], none⟩ = some (.integer (-n)) := by
  simp only [Written.number, digitsValue, List.isEmpty_nil, Option.isNone_none, Bool.not_true,
    Bool.and_false, Bool.false_and, Bool.and_self, decide_true, positive, small,
    Bool.false_eq_true, if_false, if_true]

theorem integerWritten (n : Int) : ∃ c rest parts,
    numberText (.integer n) = c :: rest ∧ Numeric c ∧ Takes numeral (c :: rest) parts ∧
    (Fits n → parts.number = some (.integer n)) := by
  cases n with
  | ofNat n =>
    obtain ⟨c, rest, digits, digit⟩ := toDigitsStart n
    have written : numberText (.integer (.ofNat n)) = Nat.toDigits 10 n := by
      simp [numberText, Int.repr, Nat.toList_repr]
    refine ⟨c, rest, _, written.trans digits, .inl digit, digits ▸ numeralTakes n, ?_⟩
    intro fits
    have small : n < UInt64.size := Int.ofNat_lt.mp fits.2
    rw [← digits]
    exact naturalWritten small
  | negSucc n =>
    have written : numberText (.integer (.negSucc n)) = '-' :: Nat.toDigits 10 (n + 1) := by
      simp [numberText, Int.repr, Nat.toList_repr]
    refine ⟨'-', _, _, written, .inr rfl, minusTakes (n + 1), ?_⟩
    intro fits
    have small : n + 1 ≤ UInt64.size / 2 := Int.ofNat_le.mp (Int.neg_le_neg_iff.mp fits.1)
    exact minusWritten (Nat.succ_pos n) small

theorem decimalStarts (d : Binary.Decimal) :
    ∃ c rest, d.text.toList = c :: rest ∧ c.isDigit = true := by
  obtain ⟨c, rest, form, digit⟩ := toDigitsStart d.digits
  have zero : Char.isDigit '0' = true := rfl
  simp only [Binary.Decimal.text, String.toList_ofList, form]
  split
  · exact ⟨'0', _, rfl, zero⟩
  split
  · exact ⟨c, _, rfl, digit⟩
  split
  · rename_i positive
    obtain ⟨count, same⟩ := Nat.exists_eq_succ_of_ne_zero
      (Nat.ne_of_gt (Int.lt_toNat.mpr positive.1))
    rw [same]
    exact ⟨c, _, rfl, digit⟩
  split
  · exact ⟨'0', _, rfl, zero⟩
  · cases rest with
    | nil => exact ⟨c, _, rfl, digit⟩
    | cons d rest => exact ⟨c, _, rfl, digit⟩

theorem realStarts (negative : Bool) (magnitude : Binary.Dyadic) :
    ∃ c rest, numberText (.real negative magnitude) = c :: rest ∧ Numeric c := by
  obtain ⟨c, rest, form, digit⟩ := decimalStarts (Binary.shortest Binary.double magnitude)
  rw [numberText, form]
  cases negative with
  | false => exact ⟨c, rest, rfl, .inl digit⟩
  | true => exact ⟨'-', c :: rest, rfl, .inr rfl⟩

/- Values. The first visible character tells which kind of value it is. -/
theorem firstVisible {written rest space : Text} {c : Char} (form : written = c :: rest)
    (visible : isSpace c = false) (blank : Spaces space) (tail : Text) :
    skipSpace (space ++ (written ++ tail)) = c :: (rest ++ tail) := by
  rw [skipSpaceAppend blank, form, List.cons_append, skipSpaceVisible visible]

theorem keywordTakes {word : String} {c : Char} {rest : Text} (form : word.toList = c :: rest)
    (visible : isSpace c = false) : Takes (keyword word) word.toList () := by
  intro space tail blank _
  have front : skipSpace (space ++ (word.toList ++ tail)) = word.toList ++ tail := by
    rw [firstVisible form visible blank, form, List.cons_append]
  have length : word.length = word.toList.length := String.length_toList.symm
  simp only [keyword, front, length, List.take_left, List.drop_left, if_true]

theorem numberTakes {c : Char} {rest : Text} {w : Written} {n : JsonNumber} (numeric : Numeric c)
    (read : Takes numeral (c :: rest) w) (meant : w.number = some n) :
    Takes scalar (c :: rest) (.number n) := by
  intro space tail blank ends
  have front := @firstVisible (c :: rest) rest space c rfl (numericVisible numeric) blank tail
  simp only [scalar, front]
  split
  iterate 4
    rename_i same
    exact absurd (List.head_eq_of_cons_eq same) (numericApart numeric (by decide) (by decide))
  simp only [read space tail blank ends, meant, bind, Option.bind]

theorem stringTakes (s : String) : Takes scalar (quoted s) (.string s) := by
  intro space tail blank ends
  have front : skipSpace (space ++ (quoted s ++ tail)) = '\x22' :: _ :=
    firstVisible rfl rfl blank tail
  simp only [scalar, front, textTakes s space tail blank ends, Option.map_some]

theorem writeItemsExact (layout : Layout) (level : Nat) (items : List Json) :
    writeItems layout level items = items.map (write layout level) := by
  induction items with
  | nil => rfl
  | cons item rest ih => rw [writeItems, ih, List.map_cons]

def writeMember (layout : Layout) (level : Nat) (member : String × Json) : Text :=
  quoted member.1 ++ colon layout ++ write layout level member.2

theorem writeMembersExact (layout : Layout) (level : Nat) (members : List (String × Json)) :
    writeMembers layout level members = members.map (writeMember layout level) := by
  induction members with
  | nil => rfl
  | cons member rest ih =>
    rw [writeMembers, ih, List.map_cons]
    rfl

theorem quotedStarts (s : String) (more : Text) : Starts (quoted s ++ more) :=
  ⟨quote, s.toList.flatMap escape ++ [quote] ++ more, rfl, rfl, by decide, by decide⟩

theorem numericStarts {c : Char} (numeric : Numeric c) (rest : Text) : Starts (c :: rest) :=
  ⟨c, rest, rfl, numericVisible numeric, numericApart numeric (by decide) (by decide),
    numericApart numeric (by decide) (by decide)⟩

theorem valueStarts {j : Json} (whole : j.Whole) (layout : Layout) (level : Nat) :
    Starts (write layout level j) := by
  cases whole with
  | null => exact ⟨'n', _, rfl, by decide⟩
  | boolean value =>
    cases value with
    | false => exact ⟨'f', _, rfl, by decide⟩
    | true => exact ⟨'t', _, rfl, by decide⟩
  | integer _ =>
    rename_i n _
    obtain ⟨c, rest, _, written, numeric, _⟩ := integerWritten n
    rw [write, written]
    exact numericStarts numeric rest
  | real _ =>
    rename_i negative magnitude _
    obtain ⟨c, rest, written, numeric⟩ := realStarts negative magnitude
    rw [write, written]
    exact numericStarts numeric rest
  | string text =>
    have starts := quotedStarts text []
    rwa [List.append_nil] at starts
  | array _ =>
    obtain ⟨rest, form⟩ := enclosedStarts layout level '[' ']' _
    exact ⟨'[', rest, form, by decide⟩
  | object _ _ =>
    obtain ⟨rest, form⟩ := enclosedStarts layout level '\x7b' '\x7d' _
    exact ⟨'\x7b', rest, form, by decide⟩

/- What is no list and no object is read alike at every depth. -/
theorem valueScalar {t more : Text} {c : Char} (front : skipSpace t = c :: more)
    (list : c ≠ '[') (object : c ≠ '\x7b') (depth : Nat) : value depth t = scalar t := by
  cases depth with
  | zero => rfl
  | succ depth =>
    simp only [value, front]
    split
    · rename_i same
      exact absurd (List.head_eq_of_cons_eq same) list
    · rename_i same
      exact absurd (List.head_eq_of_cons_eq same) object
    · rfl

theorem scalarRefuses {t more : Text} {c : Char} (front : skipSpace t = c :: more)
    (opens : c = '[' ∨ c = '\x7b') : scalar t = none := by
  have unread : numeral t = none := by
    rcases opens with rfl | rfl <;> simp [numeral, front, unsigned, digits, Char.isDigit]
  rcases opens with rfl | rfl
  · simp only [scalar, front, unread, bind, Option.bind]
    rfl
  · simp only [scalar, front, unread, bind, Option.bind]
    rfl

def within (depth : Nat) (j : Json) : Option Json :=
  if j.height ≤ depth then some j.sorted else none

theorem scalarWithin {j : Json} (flat : j.height = 0) (depth : Nat) :
    j.within depth = some j.sorted := by
  rw [within, if_pos (flat ▸ Nat.zero_le depth)]

/- A list is read just if all its items are. -/
theorem allOrNone {α β : Type} (fits : α → Prop) [DecidablePred fits] (f : α → β) (xs : List α) :
    (xs.map fun x => if fits x then some (f x) else none).mapM id =
      if ∀ x ∈ xs, fits x then some (xs.map f) else none := by
  induction xs with
  | nil => rfl
  | cons x rest ih =>
    rw [List.map_cons, List.mapM_cons, ih]
    by_cases first : fits x
    · by_cases others : ∀ y ∈ rest, fits y
      · have all : ∀ y ∈ x :: rest, fits y := List.forall_mem_cons.mpr ⟨first, others⟩
        rw [if_pos first, if_pos others, if_pos all]
        rfl
      · have not : ¬∀ y ∈ x :: rest, fits y := fun all => others (List.forall_mem_cons.mp all).2
        rw [if_pos first, if_neg others, if_neg not]
        rfl
    · have not : ¬∀ y ∈ x :: rest, fits y := fun all => first (List.forall_mem_cons.mp all).1
      rw [if_neg first, if_neg not]
      rfl

theorem itemsWithin (depth : Nat) (items : List Json) :
    ((items.map (within depth)).mapM id).map .array = (Json.array items).within (depth + 1) := by
  have all := allOrNone (fun item : Json => item.height ≤ depth) sorted items
  change (items.map (within depth)).mapM id = _ at all
  have higher : (Json.array items).height ≤ depth + 1 ↔ ∀ item ∈ items, item.height ≤ depth := by
    rw [height, Nat.add_le_add_iff_right, heightItemsWithin]
  rw [all, within]
  by_cases fit : ∀ item ∈ items, item.height ≤ depth
  · rw [if_pos fit, if_pos (higher.mpr fit), sorted, sortedItemsExact]
    rfl
  · rw [if_neg fit, if_neg (fit ∘ higher.mp)]
    rfl

def memberWithin (depth : Nat) (m : String × Json) : Option (String × Json) :=
  (m.2.within depth).map (Prod.mk m.1)

theorem membersWithin (depth : Nat) (members : List (String × Json)) :
    ((members.map (memberWithin depth)).mapM id).map (fun ms => Json.object (inOrder ms)) =
      (Json.object members).within (depth + 1) := by
  have all := allOrNone (fun m : String × Json => m.2.height ≤ depth)
    (fun m : String × Json => (m.1, m.2.sorted)) members
  have each : memberWithin depth = fun m =>
      if m.2.height ≤ depth then some (m.1, m.2.sorted) else none := by
    funext m
    rw [memberWithin, within]
    split <;> rfl
  have higher : (Json.object members).height ≤ depth + 1 ↔ ∀ m ∈ members, m.2.height ≤ depth := by
    rw [height, Nat.add_le_add_iff_right, heightMembersWithin]
  rw [each, all, within]
  by_cases fit : ∀ m ∈ members, m.2.height ≤ depth
  · rw [if_pos fit, if_pos (higher.mpr fit), sorted, sortedMembersExact]
    rfl
  · rw [if_neg fit, if_neg (fit ∘ higher.mp)]
    rfl

/- Written values. A reader of no more depth meets the bracket of a list or an object as if it were
a number. -/
theorem scalarGives {j : Json} {written rest : Text} {c : Char} (form : written = c :: rest)
    (visible : isSpace c = false) (list : c ≠ '[') (object : c ≠ '\x7b') (flat : j.height = 0)
    (taken : Takes scalar written j.sorted) (depth : Nat) :
    Gives (value depth) written (j.within depth) := by
  rw [scalarWithin flat, ← takesGives]
  intro space tail blank ends
  rw [valueScalar (firstVisible form visible blank tail) list object]
  exact taken space tail blank ends

theorem numberGives {n : JsonNumber} {c : Char} {rest : Text} (numeric : Numeric c)
    (taken : Takes scalar (c :: rest) (.number n)) (depth : Nat) :
    Gives (value depth) (c :: rest) (within depth (.number n)) :=
  scalarGives (j := .number n) rfl (numericVisible numeric)
    (numericApart numeric (by decide) (by decide)) (numericApart numeric (by decide) (by decide))
    rfl taken depth

/- The scalars that are words. -/
theorem nameGives {word : String} {c : Char} {rest : Text} {j : Json}
    (form : word.toList = c :: rest) (visible : isSpace c = false) (list : c ≠ '[')
    (object : c ≠ '\x7b') (flat : j.height = 0) (plain : j.sorted = j)
    (chosen : ∀ t more, skipSpace t = c :: more →
      scalar t = (keyword word t).map fun r => (j, r.2)) (depth : Nat) :
    Gives (value depth) word.toList (j.within depth) := by
  refine scalarGives form visible list object flat ?_ depth
  rw [plain]
  intro space tail blank ends
  rw [chosen _ _ (firstVisible form visible blank tail),
    keywordTakes form visible space tail blank ends]
  rfl

theorem opensRefused {written rest : Text} {c : Char} (form : written = c :: rest)
    (opens : c = '[' ∨ c = '\x7b') : Gives (value 0) written none := by
  have visible : isSpace c = false := by rcases opens with rfl | rfl <;> rfl
  intro space tail blank _
  exact scalarRefuses (firstVisible form visible blank tail) opens

theorem itemsGive {layout : Layout} {level depth : Nat} {items : List Json}
    (whole : ∀ item ∈ items, item.Whole)
    (each : ∀ item ∈ items,
      Gives (value depth) (write layout (level + 1) item) (item.within depth)) :
    Gives (list (value depth)) (enclosed layout level '[' ']' (writeItems layout (level + 1) items))
      ((items.map (within depth)).mapM id) := by
  rw [writeItemsExact]
  refine bracketedGives (by decide) (.inl rfl) ?_ ?_
  · intro part mem
    obtain ⟨item, inside, rfl⟩ := List.mem_map.mp mem
    exact valueStarts (whole item inside) layout (level + 1)
  · rw [List.forall₂_map_left_iff, List.forall₂_map_right_iff]
    exact List.forall₂_same.mpr each

theorem memberGives {layout : Layout} {level : Nat} {reader : Reader Json}
    {member : String × Json} {v : Option Json}
    (read : Gives reader (write layout level member.2) v) :
    Gives (Json.member text (pair reader)) (writeMember layout level member)
      (v.map (Prod.mk member.1)) := by
  intro space tail blank ends
  obtain ⟨spaceAfter, form, spaces⟩ := colonSpaces layout
  have shown : isSpace ':' = false := rfl
  have named := textTakes member.1 space (colon layout ++ (write layout level member.2 ++ tail))
    blank (by rw [form]; rfl)
  have parted : expect ':' (colon layout ++ (write layout level member.2 ++ tail)) =
      some (spaceAfter ++ (write layout level member.2 ++ tail)) := by
    rw [form]
    exact expectNext noSpaces shown _
  simp only [Json.member, writeMember, List.append_assoc, named, parted, pair,
    read spaceAfter tail spaces ends, bind, Option.bind]
  cases v <;> rfl

theorem membersGive {layout : Layout} {level depth : Nat} {members : List (String × Json)}
    (each : ∀ m ∈ members,
      Gives (value depth) (write layout (level + 1) m.2) (m.2.within depth)) :
    Gives (objectOf text (pair (value depth)))
      (enclosed layout level '\x7b' '\x7d' (writeMembers layout (level + 1) members))
      ((members.map (memberWithin depth)).mapM id) := by
  rw [writeMembersExact]
  refine bracketedGives (by decide) (.inr rfl) ?_ ?_
  · intro part mem
    obtain ⟨member, _, rfl⟩ := List.mem_map.mp mem
    rw [writeMember, List.append_assoc]
    exact quotedStarts member.1 _
  · rw [List.forall₂_map_left_iff, List.forall₂_map_right_iff]
    exact List.forall₂_same.mpr fun member mem => memberGives (each member mem)

/- Induction over the value; the reader loses one level of depth at each list and object. -/
theorem valueGives {j : Json} (whole : j.Whole) (layout : Layout) (depth level : Nat) :
    Gives (value depth) (write layout level j) (j.within depth) := by
  induction whole generalizing depth level with
  | null =>
    refine @nameGives "null" 'n' _ .null rfl rfl (by decide) (by decide) rfl rfl ?_ depth
    intro t more front
    simp only [scalar, front]
  | boolean b =>
    cases b with
    | false =>
      refine @nameGives "false" 'f' _ (.boolean false) rfl rfl (by decide) (by decide) rfl rfl ?_
        depth
      intro t more front
      simp only [scalar, front]
    | true =>
      refine @nameGives "true" 't' _ (.boolean true) rfl rfl (by decide) (by decide) rfl rfl ?_
        depth
      intro t more front
      simp only [scalar, front]
  | integer fits =>
    rename_i n
    obtain ⟨c, rest, parts, written, numeric, read, meant⟩ := integerWritten n
    rw [write, written]
    exact numberGives numeric (numberTakes numeric read (meant fits)) depth
  | real readBack =>
    rename_i negative magnitude
    obtain ⟨c, rest, written, numeric⟩ := realStarts negative magnitude
    obtain ⟨parts, read, meant⟩ := readBack
    rw [written] at read
    rw [write, written]
    exact numberGives numeric (numberTakes numeric (numeralTaken numeric read) meant) depth
  | string text =>
    exact scalarGives (j := .string text) rfl rfl (by decide) (by decide) rfl (stringTakes text)
      depth
  | array each ih =>
    rename_i items
    obtain ⟨rest, form⟩ := enclosedStarts layout level '[' ']' (writeItems layout (level + 1) items)
    cases depth with
    | zero => exact opensRefused form (.inl rfl)
    | succ depth =>
      have given := itemsGive each fun item mem => ih item mem depth (level + 1)
      intro space tail blank ends
      rw [← itemsWithin]
      simp only [write, value, firstVisible form rfl blank tail, given space tail blank ends,
        Option.map_map]
      rfl
  | object names each ih =>
    rename_i members
    obtain ⟨rest, form⟩ :=
      enclosedStarts layout level '\x7b' '\x7d' (writeMembers layout (level + 1) members)
    cases depth with
    | zero => exact opensRefused form (.inr rfl)
    | succ depth =>
      have given := membersGive fun m mem => ih m mem depth (level + 1)
      intro space tail blank ends
      rw [← membersWithin]
      simp only [write, value, firstVisible form rfl blank tail, given space tail blank ends,
        Option.map_map]
      rfl

/- Whole texts. -/
theorem renderedRead {j : Json} (whole : j.Whole) (layout : Layout) (depth : Nat) :
    readAll (value depth) (render layout j) = j.within depth := by
  have read := valueGives whole layout depth 0 [] [] noSpaces trivial
  rw [List.nil_append, List.append_nil] at read
  simp only [readAll, render, String.toList_ofList, read]
  cases j.within depth <;> rfl

end PaintedImages.Json
