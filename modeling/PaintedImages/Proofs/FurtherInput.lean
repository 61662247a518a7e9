import PaintedImages.Proofs.DeflateFormat

/-! Deflate data of which only the front is there. Whatever an attempt makes of the front of some
data it keeps when more follows: a number or a code once read is the same, an end is the same end,
and output is only added to. Where the bits ran out, nothing is said of how much more comes. -/
namespace PaintedImages.Inflate

structure Steady {α : Type} (read : Bits → Reading α) : Prop where
  found : ∀ {bs : Bits} (more : Bits) {a : α} {rest : Bits},
    read bs = .found a rest → read (bs ++ more) = .found a (rest ++ more)
  refused : ∀ {bs : Bits} (more : Bits), read bs = .refused → read (bs ++ more) = .refused
  shorter : ∀ {bs : Bits} {a : α} {rest : Bits}, read bs = .found a rest → rest.length ≤ bs.length

theorem steadyFound {α : Type} (a : α) : Steady fun bs => .found a bs where
  found more := by
    rintro _ _ ⟨⟩
    rfl
  refused := by
    rintro _ _ ⟨⟩
  shorter := by
    rintro _ _ _ ⟨⟩
    exact Nat.le_refl _

theorem steadyRefused {α : Type} : Steady fun _ => (.refused : Reading α) where
  found _ := by
    rintro _ _ ⟨⟩
  refused _ _ := rfl
  shorter := by
    rintro _ _ _ ⟨⟩

theorem steadyBind {α β : Type} {read : Bits → Reading α} {next : α → Bits → Reading β}
    (first : Steady read) (then_ : ∀ a, Steady (next a)) :
    Steady fun bs => (read bs).bind next where
  found {bs} more b rest h := by
    cases step : read bs with
    | found a between =>
      simp only [step, Reading.bind] at h
      simp only [first.found more step, Reading.bind, (then_ a).found more h]
    | starved => simp [step, Reading.bind] at h
    | refused => simp [step, Reading.bind] at h
  refused {bs} more h := by
    cases step : read bs with
    | found a between =>
      simp only [step, Reading.bind] at h
      simp only [first.found more step, Reading.bind, (then_ a).refused more h]
    | starved => simp [step, Reading.bind] at h
    | refused => simp only [first.refused more step, Reading.bind]
  shorter {bs} b rest h := by
    cases step : read bs with
    | found a between =>
      simp only [step, Reading.bind] at h
      exact Nat.le_trans ((then_ a).shorter h) (first.shorter step)
    | starved => simp [step, Reading.bind] at h
    | refused => simp [step, Reading.bind] at h

theorem steadyIf {α : Type} (p : Prop) [Decidable p] {yes no : Bits → Reading α}
    (whenYes : Steady yes) (whenNo : Steady no) : Steady fun bs => if p then yes bs else no bs := by
  by_cases h : p
  · simpa only [if_pos h] using whenYes
  · simpa only [if_neg h] using whenNo

theorem steadyNumber (width : Nat) : Steady (number width) where
  found {bs} more n rest h := by
    simp only [number, List.length_take] at h ⊢
    split at h
    · cases h
    · obtain ⟨rfl, rfl⟩ := Reading.found.inj h
      have enough : width ≤ bs.length := by omega
      rw [List.length_append, if_neg (by omega), List.take_append_of_le_length enough,
        List.drop_append_of_le_length enough]
  refused {bs} more h := by
    simp only [number] at h
    split at h <;> cases h
  shorter {bs} n rest h := by
    simp only [number] at h
    split at h
    · cases h
    · obtain ⟨rfl, rfl⟩ := Reading.found.inj h
      rw [List.length_drop]
      exact Nat.sub_le _ _

namespace Code

theorem steadyWalk (symbols : Array Nat) (counts : List Nat) (code first index : Nat) :
    Steady (walk symbols counts code first index) := by
  induction counts generalizing code first index with
  | nil => exact steadyRefused
  | cons count counts ih =>
    have next (b : Bool) := ih (2 * code + b.toNat) (2 * (first + count)) (index + count)
    constructor
    · intro bs more s rest h
      cases bs with
      | nil => cases h
      | cons b bs =>
        simp only [walk, List.cons_append] at h ⊢
        split at h
        · rename_i inside
          rw [if_pos inside]
          split at h
          · obtain ⟨rfl, rfl⟩ := Reading.found.inj h
            rfl
          · cases h
        · rename_i outside
          rw [if_neg outside]
          exact (next b).found more h
    · intro bs more h
      cases bs with
      | nil => cases h
      | cons b bs =>
        simp only [walk, List.cons_append] at h ⊢
        split at h
        · rename_i inside
          rw [if_pos inside]
          split at h
          · cases h
          · rfl
        · rename_i outside
          rw [if_neg outside]
          exact (next b).refused more h
    · intro bs s rest h
      cases bs with
      | nil => cases h
      | cons b bs =>
        simp only [walk] at h
        split at h
        · split at h
          · obtain ⟨rfl, rfl⟩ := Reading.found.inj h
            exact Nat.le_succ _
          · cases h
        · exact Nat.le_succ_of_le ((next b).shorter h)

theorem steadyNext (c : Code) : Steady c.next := steadyWalk c.symbols c.counts 0 0 0

theorem nextShorter {c : Code} {bs rest : Bits} {s : Nat} (h : c.next bs = .found s rest) :
    rest.length < bs.length := by
  cases counts : c.counts with
  | nil =>
    rw [next, counts] at h
    cases h
  | cons count counts =>
    cases bs with
    | nil =>
      rw [next, counts] at h
      cases h
    | cons b bs =>
      rw [next, counts, walk] at h
      split at h
      · split at h
        · obtain ⟨rfl, rfl⟩ := Reading.found.inj h
          exact Nat.lt_succ_self _
        · cases h
      · exact Nat.lt_succ_of_le ((steadyWalk _ _ _ _ _).shorter h)

end Code

theorem steadySpanned (spans : List Span) (symbol : Nat) : Steady (spanned spans symbol) := by
  cases found : spans[symbol]? with
  | none =>
    have refuses : spanned spans symbol = fun _ => .refused := by
      funext bs
      simp only [spanned, found]
    rw [refuses]
    exact steadyRefused
  | some span =>
    have reads : spanned spans symbol = fun bs =>
        (number span.extra bs).bind fun n rest => .found (span.base + n) rest := by
      funext bs
      simp only [spanned, found]
    rw [reads]
    exact steadyBind (steadyNumber _) fun n => steadyFound _

theorem steadyReach (distances : Code) (symbol : Nat) : Steady (reach distances symbol) :=
  steadyBind (steadySpanned _ _) fun _ => steadyBind distances.steadyNext fun _ =>
    steadyBind (steadySpanned _ _) fun _ => steadyFound _

theorem steadyTriples (count : Nat) : Steady (triples count) := by
  induction count with
  | zero => exact steadyFound []
  | succ count ih => exact steadyBind (steadyNumber 3) fun _ => steadyBind ih fun _ => steadyFound _

theorem steadyLengths (code : Code) (total fuel : Nat) (done : List Nat) :
    Steady (lengths code total fuel done) := by
  induction fuel generalizing done with
  | zero => exact steadyRefused
  | succ fuel ih =>
    refine steadyIf _ (steadyFound _)
      (steadyIf _ steadyRefused (steadyBind code.steadyNext fun s => ?_))
    refine steadyIf _ (ih _) (steadyIf _ ?_ (steadyIf _ ?_ ?_))
    · cases done with
      | nil => exact steadyRefused
      | cons last done => exact steadyBind (steadyNumber 2) fun _ => ih _
    · exact steadyBind (steadyNumber 3) fun _ => ih _
    · exact steadyBind (steadyNumber 7) fun _ => ih _

theorem steadyCodes : Steady dynamicCodes := by
  refine steadyBind (steadyNumber 5) fun _ => steadyBind (steadyNumber 5) fun _ =>
    steadyBind (steadyNumber 4) fun _ => steadyIf _ steadyRefused ?_
  refine steadyBind (steadyTriples _) fun _ => steadyIf _ steadyRefused ?_
  exact steadyBind (steadyLengths _ _ _ _) fun _ => steadyIf _ (steadyFound _) steadyRefused

/-! Attempts. -/

structure Onward (out : Array UInt8) (bs : Bits) (result : Inflated) : Prop where
  grows : out.toList <+: result.output.toList
  shorter : ∀ {rest : Bits}, result.ending = .complete rest → rest.length ≤ bs.length

theorem onwardComplete {out : Array UInt8} {bs rest : Bits} (shorter : rest.length ≤ bs.length) :
    Onward out bs ⟨out, .complete rest⟩ := by
  refine ⟨List.prefix_rfl, fun h => ?_⟩
  cases h
  exact shorter

theorem onwardStarved (out : Array UInt8) (bs : Bits) : Onward out bs ⟨out, .starved⟩ := by
  refine ⟨List.prefix_rfl, fun h => ?_⟩
  cases h

theorem onwardRefused (out : Array UInt8) (bs : Bits) : Onward out bs ⟨out, .refused⟩ := by
  refine ⟨List.prefix_rfl, fun h => ?_⟩
  cases h

theorem pushGrows (out : Array UInt8) (b : UInt8) : out.toList <+: (out.push b).toList := by
  rw [Array.toList_push]
  exact List.prefix_append _ _

theorem copyGrows (distance count : Nat) (out : Array UInt8) :
    out.toList <+: (copy distance count out).toList := by
  induction count generalizing out with
  | zero => exact List.prefix_rfl
  | succ count ih => exact (pushGrows out _).trans (ih _)

theorem symbolsOnward (literals distances : Code) (fuel : Nat) (out : Array UInt8) (bs : Bits) :
    Onward out bs (symbols literals distances fuel out bs) := by
  induction fuel generalizing out bs with
  | zero => exact onwardRefused out bs
  | succ fuel ih =>
    rw [symbolsStep]
    cases first : literals.next bs with
    | starved => exact onwardStarved out _
    | refused => exact onwardRefused out _
    | found s rest =>
      have spent := Code.nextShorter first
      dsimp only
      split
      · obtain ⟨grows, shorter⟩ := ih (out.push (UInt8.ofNat s)) rest
        exact ⟨(pushGrows out _).trans grows,
          fun h => Nat.le_trans (shorter h) (Nat.le_of_lt spent)⟩
      · split
        · exact onwardComplete (Nat.le_of_lt spent)
        · cases second : reach distances s rest with
          | starved => exact onwardStarved out _
          | refused => exact onwardRefused out _
          | found pair later =>
            have reached := (steadyReach distances s).shorter second
            obtain ⟨grows, shorter⟩ := ih (copy pair.1 pair.2 out) later
            exact ⟨(copyGrows _ _ out).trans grows, fun h => by have := shorter h; omega⟩

theorem verbatimOnward (count : Nat) (out : Array UInt8) (bs : Bits) :
    Onward out bs (verbatim count out bs) := by
  induction count generalizing out bs with
  | zero => exact onwardComplete (Nat.le_refl _)
  | succ count ih =>
    rw [verbatim]
    cases first : number 8 bs with
    | starved => exact onwardStarved out _
    | refused => exact onwardRefused out _
    | found b rest =>
      obtain ⟨grows, shorter⟩ := ih (out.push (UInt8.ofNat b)) rest
      exact ⟨(pushGrows out _).trans grows,
        fun h => Nat.le_trans (shorter h) ((steadyNumber 8).shorter first)⟩

def storedLength (bs : Bits) : Reading Nat :=
  (number 16 bs).bind fun count rest =>
    (number 16 rest).bind fun check rest =>
      if count + check = 0xFFFF then .found count rest else .refused

theorem steadyStoredLength : Steady storedLength :=
  steadyBind (steadyNumber 16) fun _ => steadyBind (steadyNumber 16) fun _ =>
    steadyIf _ (steadyFound _) steadyRefused

def storedAt (out : Array UInt8) (bs : Bits) : Inflated :=
  match storedLength bs with
  | .starved => ⟨out, .starved⟩
  | .refused => ⟨out, .refused⟩
  | .found count rest => verbatim count out rest

theorem storedExact (out : Array UInt8) (bs : Bits) :
    stored out bs = storedAt out (bs.drop (bs.length % 8)) := rfl

theorem storedOnward (out : Array UInt8) (bs : Bits) : Onward out bs (stored out bs) := by
  rw [storedExact, storedAt]
  cases first : storedLength (bs.drop (bs.length % 8)) with
  | starved => exact onwardStarved out _
  | refused => exact onwardRefused out _
  | found count rest =>
    obtain ⟨grows, shorter⟩ := verbatimOnward count out rest
    have spent := steadyStoredLength.shorter first
    rw [List.length_drop] at spent
    exact ⟨grows, fun h => by have := shorter h; omega⟩

def described (out : Array UInt8) (bs : Bits) : Inflated :=
  match dynamicCodes bs with
  | .starved => ⟨out, .starved⟩
  | .refused => ⟨out, .refused⟩
  | .found (literals, distances) rest => symbols literals distances (rest.length + 1) out rest

def blockOf (kind : Nat) (out : Array UInt8) (bs : Bits) : Inflated :=
  match kind with
  | 0 => stored out bs
  | 1 => symbols fixedLiterals fixedDistances (bs.length + 1) out bs
  | 2 => described out bs
  | _ => ⟨out, .refused⟩

theorem blockExact (out : Array UInt8) (bs : Bits) :
    block out bs = match number 2 bs with
      | .starved => ⟨out, .starved⟩
      | .refused => ⟨out, .refused⟩
      | .found kind rest => blockOf kind out rest := by
  unfold block
  cases number 2 bs with
  | starved => rfl
  | refused => rfl
  | found kind rest =>
    match kind with
    | 0 => rfl
    | 1 => rfl
    | 2 => rfl
    | _ + 3 => rfl

theorem describedOnward (out : Array UInt8) (bs : Bits) : Onward out bs (described out bs) := by
  unfold described
  cases first : dynamicCodes bs with
  | starved => exact onwardStarved out _
  | refused => exact onwardRefused out _
  | found codes rest =>
    obtain ⟨grows, shorter⟩ := symbolsOnward codes.1 codes.2 (rest.length + 1) out rest
    exact ⟨grows, fun h => Nat.le_trans (shorter h) (steadyCodes.shorter first)⟩

theorem blockOfOnward (kind : Nat) (out : Array UInt8) (bs : Bits) :
    Onward out bs (blockOf kind out bs) :=
  match kind with
  | 0 => storedOnward out bs
  | 1 => symbolsOnward _ _ _ out bs
  | 2 => describedOnward out bs
  | _ + 3 => onwardRefused out bs

theorem blockOnward (out : Array UInt8) (bs : Bits) : Onward out bs (block out bs) := by
  rw [blockExact]
  cases first : number 2 bs with
  | starved => exact onwardStarved out _
  | refused => exact onwardRefused out _
  | found kind rest =>
    obtain ⟨grows, shorter⟩ := blockOfOnward kind out rest
    exact ⟨grows, fun h => Nat.le_trans (shorter h) ((steadyNumber 2).shorter first)⟩

theorem blocksGrow (fuel : Nat) (out : Array UInt8) (bs : Bits) :
    out.toList <+: (blocks fuel out bs).output.toList := by
  induction fuel generalizing out bs with
  | zero => exact List.prefix_rfl
  | succ fuel ih =>
    cases bs with
    | nil => exact List.prefix_rfl
    | cons final bs =>
      have grows := (blockOnward out bs).grows
      simp only [blocks]
      split
      · split
        · exact grows
        · exact grows.trans (ih _ _)
      · exact grows

theorem blocksPassFirst (fuel : Nat) (out : Array UInt8) (final : Bool) (bs : Bits) :
    (block out bs).output.toList <+: (blocks (fuel + 1) out (final :: bs)).output.toList := by
  simp only [blocks]
  split
  · split
    · exact List.prefix_rfl
    · exact blocksGrow _ _ _
  · exact List.prefix_rfl

/-- What an attempt comes to when more follows: an end is the same end, and where the bits ran out
there is at most more output. -/
inductive Cut (more : Bits) : Inflated → Inflated → Prop where
  | complete {out : Array UInt8} {rest : Bits} :
      Cut more ⟨out, .complete rest⟩ ⟨out, .complete (rest ++ more)⟩
  | refused {out : Array UInt8} : Cut more ⟨out, .refused⟩ ⟨out, .refused⟩
  | starved {out : Array UInt8} {whole : Inflated} (grows : out.toList <+: whole.output.toList) :
      Cut more ⟨out, .starved⟩ whole

theorem symbolsCut (literals distances : Code) {fuel long : Nat} (out : Array UInt8)
    {bs more : Bits} (enough : bs.length < fuel) (longEnough : (bs ++ more).length < long) :
    Cut more (symbols literals distances fuel out bs)
      (symbols literals distances long out (bs ++ more)) := by
  induction fuel generalizing long out bs with
  | zero => contradiction
  | succ fuel ih =>
    obtain _ | long := long
    · contradiction
    · have whole := (symbolsOnward literals distances (long + 1) out (bs ++ more)).grows
      rw [symbolsStep literals distances fuel]
      cases first : literals.next bs with
      | starved => exact .starved whole
      | refused =>
        rw [symbolsStep, literals.steadyNext.refused more first]
        exact .refused
      | found s rest =>
        have spent := Code.nextShorter first
        rw [symbolsStep, literals.steadyNext.found more first] at whole ⊢
        rw [List.length_append] at longEnough
        dsimp only at whole ⊢
        by_cases literal : s < 256
        · rw [if_pos literal, if_pos literal]
          exact ih _ (by omega) (by rw [List.length_append]; omega)
        · rw [if_neg literal] at whole ⊢
          rw [if_neg literal]
          by_cases ended : s = 256
          · rw [if_pos ended, if_pos ended]
            exact .complete
          · rw [if_neg ended] at whole ⊢
            rw [if_neg ended]
            cases second : reach distances s rest with
            | starved => exact .starved whole
            | refused =>
              rw [(steadyReach distances s).refused more second]
              exact .refused
            | found pair later =>
              have reached := (steadyReach distances s).shorter second
              rw [(steadyReach distances s).found more second]
              exact ih _ (by omega) (by rw [List.length_append]; omega)

theorem verbatimCut (count : Nat) (out : Array UInt8) (bs more : Bits) :
    Cut more (verbatim count out bs) (verbatim count out (bs ++ more)) := by
  induction count generalizing out bs with
  | zero => exact .complete
  | succ count ih =>
    have whole := (verbatimOnward (count + 1) out (bs ++ more)).grows
    rw [verbatim]
    cases first : number 8 bs with
    | starved => exact .starved whole
    | refused =>
      rw [verbatim, (steadyNumber 8).refused more first]
      exact .refused
    | found b rest =>
      rw [verbatim, (steadyNumber 8).found more first]
      exact ih _ _

/- Only whole bytes may follow, since a stored block starts at a whole byte from the end. -/
theorem storedCut (out : Array UInt8) (bs : Bits) {more : Bits} (whole : more.length % 8 = 0) :
    Cut more (stored out bs) (stored out (bs ++ more)) := by
  have grows := (storedOnward out (bs ++ more)).grows
  have start : (bs ++ more).drop ((bs ++ more).length % 8) = bs.drop (bs.length % 8) ++ more := by
    have same : (bs ++ more).length % 8 = bs.length % 8 := by
      rw [List.length_append]
      omega
    rw [same, List.drop_append_of_le_length (Nat.mod_le _ _)]
  rw [storedExact out bs, storedAt]
  cases first : storedLength (bs.drop (bs.length % 8)) with
  | starved => exact .starved grows
  | refused =>
    rw [storedExact, start, storedAt, steadyStoredLength.refused more first]
    exact .refused
  | found count rest =>
    rw [storedExact, start, storedAt, steadyStoredLength.found more first]
    exact verbatimCut count out rest more

theorem describedCut (out : Array UInt8) (bs more : Bits) :
    Cut more (described out bs) (described out (bs ++ more)) := by
  have grows := (describedOnward out (bs ++ more)).grows
  unfold described at grows ⊢
  cases first : dynamicCodes bs with
  | starved => exact .starved grows
  | refused =>
    rw [steadyCodes.refused more first]
    exact .refused
  | found codes rest =>
    rw [steadyCodes.found more first]
    exact symbolsCut _ _ out (Nat.lt_succ_self _) (Nat.lt_succ_self _)

theorem blockOfCut (kind : Nat) (out : Array UInt8) (bs : Bits) {more : Bits}
    (whole : more.length % 8 = 0) :
    Cut more (blockOf kind out bs) (blockOf kind out (bs ++ more)) :=
  match kind with
  | 0 => storedCut out bs whole
  | 1 => symbolsCut _ _ out (Nat.lt_succ_self _) (Nat.lt_succ_self _)
  | 2 => describedCut out bs more
  | _ + 3 => .refused

theorem blockCut (out : Array UInt8) (bs : Bits) {more : Bits} (whole : more.length % 8 = 0) :
    Cut more (block out bs) (block out (bs ++ more)) := by
  have grows := (blockOnward out (bs ++ more)).grows
  rw [blockExact out (bs ++ more)] at grows ⊢
  rw [blockExact out bs]
  cases first : number 2 bs with
  | starved => exact .starved grows
  | refused =>
    rw [(steadyNumber 2).refused more first]
    exact .refused
  | found kind rest =>
    rw [(steadyNumber 2).found more first]
    exact blockOfCut kind out rest whole

theorem blocksCut {fuel long : Nat} (out : Array UInt8) {bs more : Bits}
    (enough : bs.length < fuel) (longEnough : (bs ++ more).length < long)
    (whole : more.length % 8 = 0) :
    Cut more (blocks fuel out bs) (blocks long out (bs ++ more)) := by
  induction fuel generalizing long out bs with
  | zero => contradiction
  | succ fuel ih =>
    obtain _ | long := long
    · contradiction
    · cases bs with
      | nil => exact .starved (blocksGrow _ out _)
      | cons final bs =>
        have grows := blocksPassFirst long out final (bs ++ more)
        simp only [List.length_cons, List.length_append] at enough longEnough
        simp only [List.cons_append, blocks] at grows ⊢
        have onward := blockOnward out bs
        have step := blockCut out bs whole
        generalize block out bs = short at onward step ⊢
        generalize block out (bs ++ more) = result at grows step ⊢
        cases step with
        | @complete between rest =>
          have spent := onward.shorter rfl
          cases final with
          | true => exact .complete
          | false => exact ih between (by omega) (by rw [List.length_append]; omega)
        | refused => exact .refused
        | starved ahead => exact .starved (ahead.trans grows)

theorem inflateCut (bs : Bits) {more : Bits} (whole : more.length % 8 = 0) :
    Cut more (inflate bs) (inflate (bs ++ more)) :=
  blocksCut #[] (Nat.lt_succ_self _) (Nat.lt_succ_self _) whole

end PaintedImages.Inflate
