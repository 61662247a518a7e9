import PaintedImages.Filter.Flate
import PaintedImages.Proofs.PrefixCodes

/-! Deflate data as it is written. Data is a row of blocks: bytes as they are, or symbols in a fixed
code or in one that the block itself describes; a symbol is a byte, a repetition of bytes already
there, or the end of the block. Whatever is written so is read back to the bytes it stands for, bit
by bit, however a writer cut the bytes into blocks and symbols. Nothing is said of other bits. -/
namespace PaintedImages.Inflate

def numberBits (width n : Nat) : Bits := (List.range width).map n.testBit

inductive Spanned (spans : List Span) : Nat → Nat → Bits → Prop where
  | more {symbol extra : Nat} {span : Span} (found : spans[symbol]? = some span)
      (fits : extra < 2 ^ span.extra) :
      Spanned spans symbol (span.base + extra) (numberBits span.extra extra)

/-- Bytes repeated from a distance back; a repetition may reach into itself. -/
def again (distance count : Nat) (out : Bytes) : Bytes :=
  (List.range count).map fun i => out.getD (out.length - distance + i % distance) 0

inductive Symbols (literals distances : List Nat) : Bytes → Bytes → Bits → Prop where
  | ended {out : Bytes} {word : Bits} (spelled : IsWord literals 256 word) :
      Symbols literals distances out out word
  | literal {out after : Bytes} {b : UInt8} {word rest : Bits}
      (spelled : IsWord literals b.toNat word)
      (more : Symbols literals distances (out ++ [b]) after rest) :
      Symbols literals distances out after (word ++ rest)
  | repeated {out after : Bytes} {length count far distance : Nat}
      {word counted farWord reached rest : Bits}
      (spelled : IsWord literals (257 + length) word)
      (counts : Spanned lengthSpans length count counted)
      (farSpelled : IsWord distances far farWord)
      (reaches : Spanned distanceSpans far distance reached) (within : distance ≤ out.length)
      (more : Symbols literals distances (out ++ again distance count out) after rest) :
      Symbols literals distances out after
        (word ++ (counted ++ (farWord ++ (reached ++ rest))))

def fixedLiteralLengths : List Nat :=
  List.replicate 144 8 ++ List.replicate 112 9 ++ List.replicate 24 7 ++ List.replicate 8 8

def fixedDistanceLengths : List Nat := List.replicate 32 5

def IsFull (lengths : List Nat) : Prop :=
  (lengths.map fun n => if 0 < n ∧ n ≤ Code.longest then 2 ^ (Code.longest - n) else 0).sum =
    2 ^ Code.longest

def IsUsed (lengths : List Nat) : Prop := IsFull lengths ∨ lengths.countP (0 < ·) ≤ 1

inductive Lengths (code : List Nat) : List Nat → List Nat → Bits → Prop where
  | done {lengths : List Nat} : Lengths code lengths lengths []
  | single {before after : List Nat} {n : Nat} {word rest : Bits} (small : n < 16)
      (spelled : IsWord code n word) (more : Lengths code (before ++ [n]) after rest) :
      Lengths code before after (word ++ rest)
  | same {before after : List Nat} {last times : Nat} {word rest : Bits} (fits : times < 4)
      (spelled : IsWord code 16 word)
      (more : Lengths code (before ++ [last] ++ List.replicate (times + 3) last) after rest) :
      Lengths code (before ++ [last]) after (word ++ (numberBits 2 times ++ rest))
  | zeros {before after : List Nat} {times : Nat} {word rest : Bits} (fits : times < 8)
      (spelled : IsWord code 17 word)
      (more : Lengths code (before ++ List.replicate (times + 3) 0) after rest) :
      Lengths code before after (word ++ (numberBits 3 times ++ rest))
  | manyZeros {before after : List Nat} {times : Nat} {word rest : Bits} (fits : times < 128)
      (spelled : IsWord code 18 word)
      (more : Lengths code (before ++ List.replicate (times + 11) 0) after rest) :
      Lengths code before after (word ++ (numberBits 7 times ++ rest))

def ordered (given : List Nat) : List Nat :=
  (List.range 19).map fun s => ((lengthOrder.zip given).lookup s).getD 0

inductive Described : List Nat → List Nat → Bits → Prop where
  | codes {literals distances given : List Nat} {rest : Bits}
      (literalCount : 257 ≤ literals.length ∧ literals.length ≤ 286)
      (distanceCount : 1 ≤ distances.length ∧ distances.length ≤ 30)
      (givenCount : 4 ≤ given.length ∧ given.length ≤ 19) (small : ∀ n ∈ given, n < 8)
      (full : IsFull (ordered given))
      (written : Lengths (ordered given) [] (literals ++ distances) rest)
      (literalsUsed : IsUsed literals) (distancesUsed : IsUsed distances) :
      Described literals distances
        (numberBits 5 (literals.length - 257) ++ (numberBits 5 (distances.length - 1) ++
          (numberBits 4 (given.length - 4) ++ (given.flatMap (numberBits 3) ++ rest))))

inductive Block (place : Nat) (out : Bytes) : Bytes → Bits → Prop where
  | stored {padding : Bits} {data : Bytes} (aligned : (place + 3 + padding.length) % 8 = 0)
      (short : padding.length < 8) (fits : data.length < 2 ^ 16) :
      Block place out (out ++ data) (numberBits 2 0 ++ (padding ++ (numberBits 16 data.length ++
        (numberBits 16 (2 ^ 16 - 1 - data.length) ++ bits data))))
  | fixed {after : Bytes} {rest : Bits}
      (symbols : Symbols fixedLiteralLengths fixedDistanceLengths out after rest) :
      Block place out after (numberBits 2 1 ++ rest)
  | dynamic {literals distances : List Nat} {after : Bytes} {codes rest : Bits}
      (described : Described literals distances codes)
      (symbols : Symbols literals distances out after rest) :
      Block place out after (numberBits 2 2 ++ (codes ++ rest))

inductive Blocks : Nat → Bytes → Bytes → Bits → Prop where
  | last {place : Nat} {out after : Bytes} {body : Bits} (block : Block place out after body) :
      Blocks place out after (true :: body)
  | more {place : Nat} {out between after : Bytes} {body rest : Bits}
      (block : Block place out between body)
      (next : Blocks (place + 1 + body.length) between after rest) :
      Blocks place out after (false :: (body ++ rest))

/-! Numbers. -/

theorem numberBitsLength (width n : Nat) : (numberBits width n).length = width := by
  simp [numberBits]

theorem numberBitsSucc (width n : Nat) :
    numberBits (width + 1) n = (n.testBit 0) :: numberBits width (n / 2) := by
  simp only [numberBits, List.range_succ_eq_map, List.map_cons, List.map_map, Function.comp_def,
    Nat.succ_eq_add_one, Nat.testBit_succ]

theorem numberBitsValue {width n : Nat} (fits : n < 2 ^ width) (greater : Nat) :
    (numberBits width n).foldr (fun b n => b.toNat + 2 * n) greater = n + 2 ^ width * greater := by
  induction width generalizing n with
  | zero =>
    have zero : n = 0 := by simpa using fits
    simp [zero, numberBits]
  | succ width ih =>
    have half : n / 2 < 2 ^ width := by
      rw [Nat.pow_succ] at fits
      omega
    rw [numberBitsSucc, List.foldr_cons, ih half, Nat.toNat_testBit, Nat.pow_succ',
      Nat.mul_assoc 2]
    omega

theorem numberRead {width n : Nat} (fits : n < 2 ^ width) (rest : Bits) :
    number width (numberBits width n ++ rest) = .found n rest := by
  have length : (numberBits width n).length = width := numberBitsLength width n
  simp only [number, List.take_left' length, List.drop_left' length, length, Nat.lt_irrefl,
    if_false, numberBitsValue fits, Nat.mul_zero, Nat.add_zero]

theorem bitsCons (b : UInt8) (rest : Bytes) :
    bits (b :: rest) = numberBits 8 b.toNat ++ bits rest :=
  rfl

theorem bitsAppend (first second : Bytes) : bits (first ++ second) = bits first ++ bits second :=
  List.flatMap_append

theorem bitsLength (input : Bytes) : (bits input).length = 8 * input.length := by
  induction input with
  | nil => rfl
  | cons b rest ih =>
    rw [bitsCons, List.length_append, numberBitsLength, ih, List.length_cons]
    omega

theorem byteRead (b : UInt8) (rest : Bits) :
    number 8 (numberBits 8 b.toNat ++ rest) = .found b.toNat rest :=
  numberRead b.toNat_lt rest

/- Of two bytes the second counts 256 times. -/
theorem bytePairRead (low high : UInt8) (rest : Bytes) :
    number 16 (bits (low :: high :: rest)) = .found (low.toNat + 256 * high.toNat) (bits rest) := by
  have size : (numberBits 8 low.toNat ++ numberBits 8 high.toNat).length = 16 := by
    simp only [List.length_append, numberBitsLength]
  rw [bitsCons, bitsCons, ← List.append_assoc]
  simp only [number, List.take_left' size, List.drop_left' size, size, Nat.lt_irrefl, if_false,
    List.foldr_append, @numberBitsValue 8 _ low.toNat_lt, @numberBitsValue 8 _ high.toNat_lt,
    Nat.mul_zero, Nat.add_zero]
  rfl

theorem spannedRead {spans : List Span} {symbol n : Nat} {extra : Bits}
    (h : Spanned spans symbol n extra) (rest : Bits) :
    spanned spans symbol (extra ++ rest) = .found n rest := by
  cases h with
  | more found fits =>
    simp only [spanned, found, numberRead fits, Reading.bind]

/-! Symbols. -/

theorem reachesPositive {symbol n : Nat} {extra : Bits} (h : Spanned distanceSpans symbol n extra) :
    0 < n := by
  have every : ∀ span ∈ distanceSpans, 0 < span.base := by decide
  cases h with
  | more found fits =>
    have := every _ (List.mem_of_getElem? found)
    omega

theorem againSucc (distance count : Nat) (out : Bytes) :
    again distance (count + 1) out = again distance count out ++
      [out.getD (out.length - distance + count % distance) 0] := by
  simp only [again, List.range_succ, List.map_append, List.map_singleton]

theorem backAgain {distance : Nat} {out : Bytes} (positive : 0 < distance)
    (within : distance ≤ out.length) (count : Nat) :
    back distance (out ++ again distance count out).toArray =
      out.getD (out.length - distance + count % distance) 0 := by
  have size : (again distance count out).length = count := by simp [again]
  have inside : distance ≤ (out ++ again distance count out).toArray.size := by
    rw [List.size_toArray, List.length_append]
    omega
  rw [back, if_pos inside, List.size_toArray, List.length_append, size, Array.getD_eq_getD_getElem?,
    List.getElem?_toArray, List.getD_eq_getElem?_getD]
  by_cases near : count < distance
  · rw [List.getElem?_append_left (by omega), Nat.mod_eq_of_lt near]
    congr 2
    omega
  · have place : out.length + count - distance = out.length + (count - distance) := by omega
    have turn : (count - distance) % distance = count % distance :=
      (Nat.mod_eq_sub_mod (Nat.le_of_not_lt near)).symm
    rw [place, List.getElem?_append_right (Nat.le_add_right _ _), Nat.add_sub_cancel_left, again,
      List.getElem?_map, List.getElem?_range (by omega), Option.map_some, turn,
      List.getD_eq_getElem?_getD]
    rfl

theorem copyFrom {distance : Nat} {out : Bytes} (positive : 0 < distance)
    (within : distance ≤ out.length) (done count : Nat) :
    copy distance count (out ++ again distance done out).toArray =
      (out ++ again distance (done + count) out).toArray := by
  induction count generalizing done with
  | zero => rfl
  | succ count ih =>
    rw [copy, backAgain positive within, List.push_toArray, List.append_assoc, ← againSucc,
      ih (done + 1)]
    congr 3
    omega

theorem copyRead {distance count : Nat} {out : Bytes} (positive : 0 < distance)
    (within : distance ≤ out.length) :
    copy distance count out.toArray = (out ++ again distance count out).toArray := by
  have whole := copyFrom positive within 0 count
  rwa [show again distance 0 out = [] from rfl, List.append_nil, Nat.zero_add] at whole

/- The step is stated for itself, since opening it goes deep into the offset of the first length. -/
set_option maxRecDepth 2000 in
theorem symbolsStep (literals distances : Code) (fuel : Nat) (out : Array UInt8) (bs : Bits) :
    symbols literals distances (fuel + 1) out bs = match literals.next bs with
    | .starved => ⟨out, .starved⟩
    | .refused => ⟨out, .refused⟩
    | .found s rest =>
      if s < 256 then symbols literals distances fuel (out.push (UInt8.ofNat s)) rest
      else if s = 256 then ⟨out, .complete rest⟩
      else match reach distances s rest with
        | .starved => ⟨out, .starved⟩
        | .refused => ⟨out, .refused⟩
        | .found (distance, count) rest =>
          symbols literals distances fuel (copy distance count out) rest := by
  delta symbols
  rfl

theorem symbolsRead {lengths distances : List Nat} {out after : Bytes} {written : Bits}
    (h : Symbols lengths distances out after written) {fuel : Nat} (enough : written.length < fuel)
    (rest : Bits) :
    symbols (.ofLengths lengths) (.ofLengths distances) fuel out.toArray (written ++ rest) =
      ⟨after.toArray, .complete rest⟩ := by
  induction h generalizing fuel with
  | ended spelled =>
    obtain _ | fuel := fuel
    · contradiction
    · simp [symbolsStep, wordRead spelled]
  | @literal _ _ b _ _ spelled _ ih =>
    have positive := spelled.positive
    obtain _ | fuel := fuel
    · contradiction
    · rw [List.length_append] at enough
      simp only [symbolsStep, List.append_assoc, wordRead spelled, b.toNat_lt, if_true,
        UInt8.ofNat_toNat,
        List.push_toArray]
      exact ih (by omega)
  | @repeated _ _ length _ _ _ _ _ _ _ _ spelled counts farSpelled reaches within _ ih =>
    have positive := spelled.positive
    have notLiteral : ¬ 257 + length < 256 := by omega
    have notEnd : 257 + length ≠ 256 := by omega
    obtain _ | fuel := fuel
    · contradiction
    · simp only [List.length_append] at enough
      simp only [symbolsStep, List.append_assoc, wordRead spelled, notLiteral, notEnd, if_false,
        reach, Nat.add_sub_cancel_left, spannedRead counts, Reading.bind, wordRead farSpelled,
        spannedRead reaches, copyRead (reachesPositive reaches) within]
      exact ih (by omega)

/-! Codes. -/

def weight (f : Nat → Nat) (n : Nat) : Nat :=
  ((List.range n).map f).foldl (fun total count => total * 2 + count) 0

theorem weightSucc (f : Nat → Nat) (n : Nat) : weight f (n + 1) = weight f n * 2 + f n := by
  simp [weight, List.range_succ]

theorem weightZero (n : Nat) : weight (fun _ => 0) n = 0 := by
  induction n with
  | zero => rfl
  | succ n ih => rw [weightSucc, ih]

theorem weightAdd (f g : Nat → Nat) (n : Nat) :
    weight (fun i => f i + g i) n = weight f n + weight g n := by
  induction n with
  | zero => rfl
  | succ n ih =>
    rw [weightSucc, weightSucc, weightSucc, ih]
    omega

theorem weightOne (length n : Nat) :
    weight (fun i => if length = i + 1 then 1 else 0) n =
      if 0 < length ∧ length ≤ n then 2 ^ (n - length) else 0 := by
  induction n with
  | zero =>
    rw [if_neg (by omega)]
    rfl
  | succ n ih =>
    rw [weightSucc, ih]
    by_cases here : length = n + 1
    · rw [if_neg (by omega), if_pos here, if_pos (by omega), here, Nat.sub_self]
      rfl
    · by_cases below : 0 < length ∧ length ≤ n
      · rw [if_pos below, if_neg here, if_pos (by omega), Nat.succ_sub below.2, Nat.pow_succ,
          Nat.add_zero]
      · rw [if_neg below, if_neg here, if_neg (by omega)]

theorem massExact (lengths : List Nat) : (Code.ofLengths lengths).mass =
    (lengths.map fun n => if 0 < n ∧ n ≤ Code.longest then 2 ^ (Code.longest - n) else 0).sum := by
  have counted : (Code.ofLengths lengths).mass =
      weight (fun n => lengths.count (n + 1)) Code.longest := by
    rw [Code.mass, Code.countsExact, weight]
  rw [counted]
  induction lengths with
  | nil => exact weightZero _
  | cons length rest ih =>
    have split : (fun n => (length :: rest).count (n + 1)) =
        fun n => rest.count (n + 1) + if length = n + 1 then 1 else 0 := by
      funext n
      simp [List.count_cons]
    have mass : (Code.ofLengths rest).mass =
        weight (fun n => rest.count (n + 1)) Code.longest := by
      rw [Code.mass, Code.countsExact, weight]
    rw [split, weightAdd, weightOne, ih mass, List.map_cons, List.sum_cons, Nat.add_comm]

theorem fullComplete {lengths : List Nat} (full : IsFull lengths) :
    (Code.ofLengths lengths).isComplete = true := by
  rw [Code.isComplete, massExact, beq_iff_eq]
  exact full

theorem countedUpTo (lengths : List Nat) (n : Nat) :
    ((List.range n).map fun i => lengths.count (i + 1)).sum ≤ lengths.countP (0 < ·) := by
  have summed : ((List.range n).map fun i => lengths.count (i + 1)).sum =
      lengths.countP fun length => 0 < length ∧ length ≤ n := by
    induction n with
    | zero =>
      have unused : ∀ length ∈ lengths, ¬ decide (0 < length ∧ length ≤ 0) = true := by
        intro length _
        rw [decide_eq_true_eq]
        omega
      rw [List.countP_eq_zero.mpr unused]
      rfl
    | succ n ih =>
      rw [List.range_succ, List.map_append, List.sum_append, ih, List.map_singleton,
        List.sum_singleton]
      clear ih
      induction lengths with
      | nil => rfl
      | cons length rest ih =>
        rw [List.countP_cons, List.countP_cons, List.count_cons, ← ih]
        simp only [decide_eq_true_eq, beq_iff_eq]
        split <;> split <;> split <;> omega
  rw [summed]
  refine List.countP_mono_left fun length _ within => ?_
  simp only [decide_eq_true_eq] at within ⊢
  exact within.1

theorem usedUsable {lengths : List Nat} (used : IsUsed lengths) :
    isUsable (.ofLengths lengths) = true := by
  rw [isUsable, Bool.or_eq_true, decide_eq_true_eq]
  cases used with
  | inl full => exact .inl (fullComplete full)
  | inr few =>
    have size : (Code.ofLengths lengths).symbols.size =
        ((List.range Code.longest).map fun i => lengths.count (i + 1)).sum := by
      rw [← Code.countsExact]
      exact List.length_flatten
    rw [size]
    exact .inr (Nat.le_trans (countedUpTo lengths _) few)

theorem triplesRead {given : List Nat} (small : ∀ n ∈ given, n < 8) (rest : Bits) :
    triples given.length (given.flatMap (numberBits 3) ++ rest) = .found given rest := by
  induction given with
  | nil => rfl
  | cons n given ih =>
    obtain ⟨first, others⟩ := List.forall_mem_cons.mp small
    rw [List.flatMap_cons, List.append_assoc, List.length_cons, triples]
    simp only [@numberRead 3 n first, Reading.bind, ih others]

theorem lengthsGrow {code before after : List Nat} {written : Bits}
    (h : Lengths code before after written) : before.length ≤ after.length := by
  induction h with
  | done => exact Nat.le_refl _
  | single _ _ _ ih | same _ _ _ ih | zeros _ _ _ ih | manyZeros _ _ _ ih =>
    simp only [List.length_append] at ih ⊢
    omega

/- What has been read is kept backwards. It grows with each word, which is what the fuel counts. -/
theorem lengthsRead {code before after : List Nat} {written : Bits}
    (h : Lengths code before after written) {fuel : Nat}
    (enough : after.length - before.length < fuel) (rest : Bits) :
    lengths (.ofLengths code) after.length fuel before.reverse (written ++ rest) =
      .found after rest := by
  induction h generalizing fuel with
  | done =>
    obtain _ | fuel := fuel
    · contradiction
    · simp [lengths]
  | single small spelled more ih =>
    have grows := lengthsGrow more
    obtain _ | fuel := fuel
    · contradiction
    · simp only [List.length_append, List.length_singleton] at grows ih
      simp only [lengths, List.length_reverse, List.append_assoc, wordRead spelled, Reading.bind,
        small, if_true]
      rw [if_neg (by omega), if_neg (by omega), ← List.reverse_concat]
      exact ih (by omega)
  | same fits spelled more ih =>
    have grows := lengthsGrow more
    obtain _ | fuel := fuel
    · contradiction
    · simp only [List.length_append, List.length_singleton,
        List.length_replicate] at grows ih enough
      rw [List.reverse_append, List.reverse_replicate] at ih
      simp only [List.reverse_concat] at ih ⊢
      simp only [lengths, List.length_cons, List.length_reverse, List.append_assoc,
        wordRead spelled, Reading.bind, @numberRead 2 _ fits]
      rw [if_neg (by omega), if_neg (by omega), if_neg (by omega), if_pos trivial]
      exact ih (by omega)
  | zeros fits spelled more ih =>
    have grows := lengthsGrow more
    obtain _ | fuel := fuel
    · contradiction
    · simp only [List.length_append, List.length_replicate] at grows ih
      rw [List.reverse_append, List.reverse_replicate] at ih
      simp only [lengths, List.length_reverse, List.append_assoc, wordRead spelled, Reading.bind,
        @numberRead 3 _ fits]
      rw [if_neg (by omega), if_neg (by omega), if_neg (by omega), if_neg (by omega),
        if_pos trivial]
      exact ih (by omega)
  | manyZeros fits spelled more ih =>
    have grows := lengthsGrow more
    obtain _ | fuel := fuel
    · contradiction
    · simp only [List.length_append, List.length_replicate] at grows ih
      rw [List.reverse_append, List.reverse_replicate] at ih
      simp only [lengths, List.length_reverse, List.append_assoc, wordRead spelled, Reading.bind,
        @numberRead 7 _ fits]
      rw [if_neg (by omega), if_neg (by omega), if_neg (by omega), if_neg (by omega),
        if_neg (by omega)]
      exact ih (by omega)

theorem describedRead {literals distances : List Nat} {written : Bits}
    (h : Described literals distances written) (rest : Bits) :
    dynamicCodes (written ++ rest) =
      .found (.ofLengths literals, .ofLengths distances) rest := by
  cases h with
  | @codes given body literalCount distanceCount givenCount small full lengthsWritten literalsUsed
      distancesUsed =>
    have first : literals.length - 257 < 2 ^ 5 := by omega
    have second : distances.length - 1 < 2 ^ 5 := by omega
    have third : given.length - 4 < 2 ^ 4 := by omega
    have literalTotal : literals.length - 257 + 257 = literals.length := by omega
    have total : literals.length + (distances.length - 1) + 1 = (literals ++ distances).length := by
      rw [List.length_append]
      omega
    have givenTotal : given.length - 4 + 4 = given.length := by omega
    have complete : (Code.ofLengths (ordered given)).isComplete = true := fullComplete full
    have read := lengthsRead lengthsWritten (Nat.lt_succ_of_le (Nat.sub_le _ _)) rest
    simp only [ordered] at complete read
    rw [List.reverse_nil] at read
    simp only [dynamicCodes, List.append_assoc, numberRead first, numberRead second,
      numberRead third, Reading.bind, givenTotal, triplesRead small, complete, literalTotal, total,
      read, List.take_left, List.drop_left, usedUsable literalsUsed, usedUsable distancesUsed]
    rw [if_neg (by omega)]
    rfl

/-! Blocks. -/

theorem verbatimRead (data out : Bytes) (rest : Bits) :
    verbatim data.length out.toArray (bits data ++ rest) =
      ⟨(out ++ data).toArray, .complete rest⟩ := by
  induction data generalizing out with
  | nil => rw [List.append_nil]; rfl
  | cons b data ih =>
    rw [bitsCons, List.append_assoc, List.length_cons, verbatim, byteRead]
    simp only [UInt8.ofNat_toNat, List.push_toArray, ih, List.append_assoc, List.singleton_append]

theorem storedRead {padding : Bits} {data : Bytes} (short : padding.length < 8)
    (fits : data.length < 2 ^ 16) (out : Bytes) {rest : Bits} (aligned : rest.length % 8 = 0) :
    stored out.toArray (padding ++ (numberBits 16 data.length ++
        (numberBits 16 (2 ^ 16 - 1 - data.length) ++ (bits data ++ rest)))) =
      ⟨(out ++ data).toArray, .complete rest⟩ := by
  have skipped : (padding ++ (numberBits 16 data.length ++
      (numberBits 16 (2 ^ 16 - 1 - data.length) ++ (bits data ++ rest)))).length % 8 =
        padding.length := by
    simp only [List.length_append, numberBitsLength, bitsLength]
    omega
  have check : 2 ^ 16 - 1 - data.length < 2 ^ 16 := by omega
  have sum : data.length + (2 ^ 16 - 1 - data.length) = 0xFFFF := by omega
  simp only [stored, skipped, List.drop_left, numberRead fits, numberRead check, Reading.bind, sum,
    if_true, verbatimRead]

theorem fixedLiteralsExact : fixedLiterals = .ofLengths fixedLiteralLengths := rfl

theorem fixedDistancesExact : fixedDistances = .ofLengths fixedDistanceLengths := rfl

theorem blockRead {place : Nat} {out after : Bytes} {written rest : Bits}
    (h : Block place out after written)
    (aligned : (place + 1 + written.length + rest.length) % 8 = 0) :
    block out.toArray (written ++ rest) = ⟨after.toArray, .complete rest⟩ := by
  cases h with
  | @stored padding data start short fits =>
    simp only [List.length_append, numberBitsLength, bitsLength] at aligned
    simp only [block, List.append_assoc, @numberRead 2 0 (by decide)]
    exact storedRead short fits out (by omega)
  | fixed symbols =>
    simp only [block, List.append_assoc, @numberRead 2 1 (by decide), fixedLiteralsExact,
      fixedDistancesExact]
    exact symbolsRead symbols (by rw [List.length_append]; omega) rest
  | dynamic described symbols =>
    simp only [block, List.append_assoc, @numberRead 2 2 (by decide), describedRead described]
    exact symbolsRead symbols (by rw [List.length_append]; omega) rest

theorem blocksRead {place : Nat} {out after : Bytes} {written : Bits}
    (h : Blocks place out after written) {fuel : Nat} (enough : written.length < fuel)
    {rest : Bits} (aligned : (place + written.length + rest.length) % 8 = 0) :
    blocks fuel out.toArray (written ++ rest) = ⟨after.toArray, .complete rest⟩ := by
  induction h generalizing fuel with
  | last block =>
    obtain _ | fuel := fuel
    · contradiction
    · rw [List.length_cons] at aligned
      have read := @blockRead _ _ _ _ rest block (by omega)
      simp only [blocks, List.cons_append, read, if_true]
  | @more _ _ _ _ _ later block next ih =>
    obtain _ | fuel := fuel
    · contradiction
    · simp only [List.length_cons, List.length_append] at aligned enough
      have read := @blockRead _ _ _ _ (later ++ rest) block (by rw [List.length_append]; omega)
      simp only [blocks, List.cons_append, List.append_assoc, read]
      exact ih (by omega) (by omega)

end PaintedImages.Inflate

namespace PaintedImages.Flate
open Inflate

/-- Data in a frame, and the bytes it stands for. A frame that asks for a dictionary does not stand
for bytes by itself. -/
inductive Framed : Bytes → Bytes → Prop where
  | framed {method flags : UInt8} {body content : Bytes} {written padding : Bits}
      (deflated : method.toNat % 16 = 8) (window : method.toNat / 16 ≤ 7)
      (check : (method.toNat * 256 + flags.toNat) % 31 = 0)
      (noDictionary : flags.toNat.testBit 5 = false) (blocks : Blocks 0 [] content written)
      (short : padding.length < 8)
      (split : bits body =
        written ++ (padding ++ bits (Bytes.ofNat 4 (checksum content.toArray)))) :
      Framed (method :: flags :: body) content

theorem framedRead {z content : Bytes} (h : Framed z content) :
    ∃ method flags body rest, z = method :: flags :: body ∧ isHeader method flags = true ∧
      inflate (bits body) = ⟨content.toArray, .complete rest⟩ ∧
      rest.drop (rest.length % 8) = bits (Bytes.ofNat 4 (checksum content.toArray)) := by
  cases h with
  | @framed method flags body _ written padding deflated window check noDictionary blocks short
      split =>
    have size : (bits (Bytes.ofNat 4 (checksum content.toArray))).length = 32 := by
      rw [bitsLength, Bytes.ofNatLength]
    have whole : (bits body).length = written.length + (padding.length + 32) := by
      rw [split, List.length_append, List.length_append, size]
    have bytes := bitsLength body
    refine ⟨method, flags, body, padding ++ bits (Bytes.ofNat 4 (checksum content.toArray)), rfl,
      ?_, ?_, ?_⟩
    · rw [isHeader, deflated, check, noDictionary, decide_eq_true window]
      rfl
    · rw [inflate, split]
      refine blocksRead blocks ?_ ?_
      · rw [List.length_append]
        omega
      · rw [List.length_append, size]
        omega
    · have rest : (padding ++ bits (Bytes.ofNat 4 (checksum content.toArray))).length % 8 =
          padding.length := by
        rw [List.length_append, size]
        omega
      rw [rest, List.drop_left]

end PaintedImages.Flate
