import PaintedImages.Host.Dispatch
import PaintedImages.Proofs.JsonValues

/-! Replies on the wire. A reply is read back from its JSON whatever the order of the members, since
its status and its other fields are looked up by name; a result may have members of these names of
its own. Text is read only as far as lists and objects may stand in one another, so a result that
goes deeper does not come back, nor does a real number that reading rounds. The result of a call
holds the records of the extraction, and still does after the wire. -/
namespace PaintedImages

def Json.LooksUp {α : Type} (read : Json → Option α) : Prop :=
  ∀ members others : List (String × Json), (∀ name, members.lookup name = others.lookup name) →
    read (.object members) = read (.object others)

namespace Json.LooksUp
variable {α : Type} {read : Json → Option α} {members others : List (String × Json)}

theorem perm (looksUp : LooksUp read) (distinct : (members.map Prod.fst).Nodup)
    (perm : members.Perm others) : read (.object members) = read (.object others) :=
  looksUp members others (Json.lookupPerm distinct perm)

/- Only what becomes of the values matters. -/
theorem sorted (looksUp : LooksUp read) (distinct : (members.map Prod.fst).Nodup) :
    read (Json.object members).sorted = read (.object (Json.sortedMembers members)) := by
  rw [Json.sorted]
  refine (looksUp.perm ?_ (Json.inOrderPerm ?_).symm).symm
  all_goals rwa [Json.sortedNames]

end Json.LooksUp

namespace Record

def ofJson? : Json → Option Record
  | .object members => do
    let format ← (← members.lookup "format").text?
    let data ← (← members.lookup "data").text?
    some ⟨format, data⟩
  | .array [.string format, .string data] => some ⟨format, data⟩
  | _ => none

def listOfJson? : Json → Option (List Record)
  | .array items => items.mapM ofJson?
  | _ => none

theorem ofJsonLooksUp : Json.LooksUp ofJson? := by
  intro members others same
  simp only [ofJson?, same]

theorem jsonWhole (r : Record) : r.toJson.Whole := by
  refine .object (by simp) ?_
  simp only [List.forall_mem_cons]
  exact ⟨.string r.format, .string r.data, nofun⟩

theorem ofJsonExact (r : Record) : ofJson? r.toJson = some r := rfl

theorem sortedRead (r : Record) : ofJson? r.toJson.sorted = some r := by
  cases jsonWhole r with
  | object names _ => exact ofJsonLooksUp.sorted names

theorem listRead {form : Record → Json} (each : ∀ r, ofJson? (form r) = some r)
    (records : List Record) : listOfJson? (.array (records.map form)) = some records := by
  simp only [listOfJson?]
  induction records with
  | nil => rfl
  | cons r rest ih =>
    simp only [List.map_cons, List.mapM_cons, each, ih]
    rfl

theorem listWhole (records : List Record) : (Json.array (records.map toJson)).Whole :=
  .array (List.forall_mem_map.mpr fun r _ => jsonWhole r)

theorem listHeight (records : List Record) : (Json.array (records.map toJson)).height ≤ 2 :=
  Nat.succ_le_succ (Json.heightItemsWithin.mpr (List.forall_mem_map.mpr fun _ _ => Nat.le_refl 1))

theorem renderedRead (records : List Record) (layout : Layout) :
    parse (Json.render layout (.array (records.map toJson))) = .ok records := by
  have read := Json.readAllTakes (recordsTake layout 0 records)
  simp only [parse, Json.render, read]
  rfl

end Record

namespace Reply

def sorted : Reply → Reply
  | success result => success result.sorted
  | other => other

def ResultIs (form : Json → Prop) (r : Reply) : Prop := ∀ result, r = success result → form result

def ReadFrom (r : Reply) (j : Json) : Prop :=
  ∀ layout, (Json.parse (Json.render layout j)).bind ofJson? = some r

theorem ofJsonLooksUp : Json.LooksUp ofJson? := by
  intro members others same
  simp only [ofJson?, same]

theorem ofJsonExact (r : Reply) : ofJson? r.toJson = some r := by
  cases r with
  | success result => rfl
  | failure code message details =>
    cases details with
    | none => rfl
    | some details => rfl
  | notImplemented => rfl

theorem jsonNames (r : Reply) :
    ∃ members, r.toJson = .object members ∧ (members.map Prod.fst).Nodup := by
  cases r
  all_goals
    refine ⟨_, rfl, ?_⟩
    simp only [List.map_cons, List.map_nil]
    decide

theorem permRead {r : Reply} {members others : List (String × Json)}
    (written : r.toJson = .object members) (perm : members.Perm others) :
    ofJson? (.object others) = some r := by
  obtain ⟨known, form, distinct⟩ := jsonNames r
  obtain rfl : known = members := Json.object.inj (form.symm.trans written)
  rw [← ofJsonLooksUp.perm distinct perm, ← form, ofJsonExact]

/- Putting members in order reorders those of the reply and settles its result. -/
theorem sortedRead (r : Reply) : ofJson? r.toJson.sorted = some r.sorted := by
  obtain ⟨members, form, distinct⟩ := jsonNames r
  have settled : r.sorted.toJson = .object (Json.sortedMembers members) := by
    cases r with
    | success result =>
      cases form
      rfl
    | failure code message details =>
      cases form
      cases details <;> rfl
    | notImplemented =>
      cases form
      rfl
  rw [form, ofJsonLooksUp.sorted distinct, ← settled, ofJsonExact]

theorem jsonWhole {r : Reply} (held : r.ResultIs Json.Whole) : r.toJson.Whole := by
  obtain ⟨members, form, distinct⟩ := jsonNames r
  have each : ∀ m ∈ members, m.2.Whole := by
    cases r with
    | success result =>
      cases form
      simp only [List.forall_mem_cons]
      exact ⟨.string _, held result rfl, nofun⟩
    | failure code message details =>
      have last : (details.elim Json.null Json.string).Whole := by
        cases details with
        | none => exact .null
        | some details => exact .string details
      cases form
      simp only [List.forall_mem_cons]
      exact ⟨.string _, .string _, .string _, last, nofun⟩
    | notImplemented =>
      cases form
      simp only [List.forall_mem_cons]
      exact ⟨.string _, nofun⟩
  rw [form]
  exact .object distinct each

theorem settledSorted {r : Reply} (settled : r.ResultIs Json.Canonical) : r.sorted = r := by
  cases r with
  | success result => rw [sorted, Json.canonicalSorted (settled result rfl)]
  | failure code message details => rfl
  | notImplemented => rfl

theorem sortedReadWithin {r : Reply} (held : r.ResultIs Json.Whole) {j : Json}
    (reordered : Json.Reordered r.toJson j) (layout : Layout) (limit : Nat) :
    (Json.readAll (Json.value limit) (Json.render layout j)).bind ofJson? =
      if r.toJson.height ≤ limit then some r.sorted else none := by
  obtain ⟨same, whole⟩ := Json.reorderedSorted reordered (jsonWhole held)
  rw [Json.renderedRead whole, Json.within, Json.reorderedHeight reordered]
  split
  · rw [Option.bind_some, ← same, sortedRead]
  · rfl

theorem successHeight (result : Json) : (success result).toJson.height = result.height + 1 := by
  simp [toJson, Json.height, Json.heightMembers]

theorem recordsReadFrom (records : List Record) {j : Json}
    (reordered : Json.Reordered (success (.array (records.map Record.toJson))).toJson j) :
    (success (.array (records.map Record.toJson))).sorted.ReadFrom j := by
  have held : (success (.array (records.map Record.toJson))).ResultIs Json.Whole := by
    rintro _ same
    cases same
    exact Record.listWhole records
  have flat : (success (.array (records.map Record.toJson))).toJson.height ≤ Json.nestingLimit := by
    rw [successHeight]
    exact Nat.le_trans (Nat.succ_le_succ (Record.listHeight records)) (by decide)
  intro layout
  exact (sortedReadWithin held reordered layout Json.nestingLimit).trans (if_pos flat)

/- The one reply of a served call is a result with the records or a failure. -/
theorem answerExact (files : Source.Files) (options : Options) {call : Call}
    (served : call.method = Call.extractMethod) :
    (call.answer files options).value = match (call.records files options).value with
      | .ok records => success (.array (records.map Record.toJson))
      | .error fault => ofFault fault := by
  simp only [Call.answer, if_pos served, Traced.bind]
  cases (call.records files options).value <;> rfl

theorem failureTold (fault : Fault) (result : Json) : ofFault fault ≠ success result := by
  cases fault <;> nofun

theorem repliesSurvive :
    (∀ (r : Reply) (members others : List (String × Json)), r.toJson = .object members →
      members.Perm others → ofJson? (.object others) = some r) ∧
    (∀ r : Reply, r.ResultIs Json.Canonical → ∀ j, Json.Reordered r.toJson j → ∀ layout,
      (Json.parse (Json.render layout j)).bind ofJson? =
        (if r.toJson.height ≤ Json.nestingLimit then some r else none) ∧
      ∀ limit, (Json.readAll (Json.value limit) (Json.render layout j)).bind ofJson? =
        if r.toJson.height ≤ limit then some r else none) ∧
    ∀ (files : Source.Files) (options : Options) (call : Call) (records : List Record),
      call.method = Call.extractMethod →
      ((call.records files options).value = .ok records ↔
        ∃ result, (call.answer files options).value = success result ∧
          Record.listOfJson? result = some records ∧
          (∀ layout, Record.parse (Json.render layout result) = .ok records) ∧
          ∀ j, Json.Reordered (success result).toJson j →
            ∃ read, (success read).ReadFrom j ∧ Record.listOfJson? read = some records) := by
  refine ⟨fun _ _ _ => permRead, ?_, ?_⟩
  · intro r settled j reordered layout
    have held : r.ResultIs Json.Whole :=
      fun result same => Json.canonicalWhole (settled result same)
    have read := sortedReadWithin held reordered layout
    rw [settledSorted settled] at read
    exact ⟨read Json.nestingLimit, read⟩
  · intro files options call records served
    have told := answerExact files options served
    constructor
    · intro extracted
      rw [extracted] at told
      refine ⟨_, told, Record.listRead Record.ofJsonExact records, Record.renderedRead records,
        fun j reordered => ⟨_, recordsReadFrom records reordered, ?_⟩⟩
      rw [Json.sorted, Json.sortedItemsExact, List.map_map]
      exact Record.listRead Record.sortedRead records
    · rintro ⟨result, answered, held, _, _⟩
      rw [answered] at told
      cases extracted : (call.records files options).value with
      | ok found =>
        rw [extracted] at told
        cases told
        have same := (Record.listRead Record.ofJsonExact found).symm.trans held
        rw [Option.some.inj same]
      | error fault =>
        rw [extracted] at told
        exact absurd told.symm (failureTold fault result)

def emptyDocument : Bytes := Bytes.ofText
  "%PDF-1.0\nxref\n0 1\n0000000000 65535 f \ntrailer<</Size 1>>\nstartxref\n9\n%%EOF\n"

theorem nestedReplyRead :
    let inner := Json.array [.number (.integer (-7)), .number (.real false ⟨7300000000000000, 0⟩)]
    let result := Json.object [("code", inner), ("status", .string "error")]
    let swapped := Json.object [("status", .string "error"), ("code", inner)]
    let files : Source.Files := fun _ => .ok emptyDocument
    let call : Call := ⟨"extractImages", .object [("filePath", .string "empty.pdf")]⟩
    ofJson? (.object [("result", result), ("status", .string "success")]) = some (success result) ∧
    (success result).ReadFrom (.object [("result", swapped), ("status", .string "success")]) ∧
    ∃ result, (call.answer files {}).value = success result ∧
      Record.listOfJson? result = some [] := by
  intro inner result swapped files call
  obtain ⟨values, texts, calls⟩ := repliesSurvive
  have settled : (success result).ResultIs Json.Canonical := by
    have items : inner.Canonical := by
      refine .array ?_
      simp only [List.forall_mem_cons]
      have readBack : Json.ReadBack (.real false ⟨7300000000000000, 0⟩) :=
        ⟨⟨false, "7300000000000000".toList, ['0'], none⟩, by decide +kernel, by decide +kernel⟩
      exact ⟨.integer ⟨by decide, by decide⟩, .real readBack, nofun⟩
    rintro _ same
    cases same
    refine .object (by decide) ?_
    simp only [List.forall_mem_cons]
    exact ⟨items, .string "error", nofun⟩
  have moved : Json.Reordered (success result).toJson
      (.object [("result", swapped), ("status", .string "success")]) := by
    have inside := Json.Reordered.member [("status", .string "success")] "result"
      (.members (.swap ("status", .string "error") ("code", inner) [])) []
    exact inside.trans (.members (.swap _ _ _))
  refine ⟨values (success result) _ _ rfl (.swap _ _ _), fun layout => ?_, ?_⟩
  · exact (texts (success result) settled _ moved layout).1.trans (if_pos (by decide))
  · have found : (call.records files {}).value.toOption = some [] := by decide +kernel
    have extracted : (call.records files {}).value = .ok [] := by
      cases value : (call.records files {}).value with
      | ok records =>
        rw [value] at found
        exact congrArg Except.ok (Option.some.inj found)
      | error fault =>
        rw [value] at found
        contradiction
    obtain ⟨answer, told, held, _⟩ := (calls files {} call [] rfl).mp extracted
    exact ⟨answer, told, held⟩

def listsWithin : Nat → Json
  | 0 => .null
  | depth + 1 => .array [listsWithin depth]

theorem listsWithinHeight (depth : Nat) : (listsWithin depth).height = depth := by
  induction depth with
  | zero => rfl
  | succ depth ih => simp [listsWithin, Json.height, Json.heightItems, ih]

theorem listsWithinCanonical (depth : Nat) : (listsWithin depth).Canonical := by
  induction depth with
  | zero => exact .null
  | succ depth ih => exact .array (List.forall_mem_singleton.mpr ih)

def number? : Reply → Option JsonNumber
  | success (.number n) => some n
  | _ => none

theorem numberResult {r : Reply} {n : JsonNumber} (found : r.number? = some n) :
    r = success (.number n) := by
  unfold number? at found
  split at found
  · cases found
    rfl
  · contradiction

/- A result of 127 lists, which its own reply puts one level deeper; and a whole number that is held
as a real, of which the next one is read. -/
theorem deepReplyLost :
    let deep := success (listsWithin 127)
    let whole (n : Nat) := success (.number (.real false ⟨n, 0⟩))
    deep.ResultIs Json.Canonical ∧ ofJson? deep.toJson = some deep ∧
    (∀ layout, Json.parse (Json.render layout deep.toJson) = none) ∧
    (Json.parse (Json.render .compact (whole 7300000000000001).toJson)).bind ofJson? =
      some (whole 7300000000000002) := by
  intro deep whole
  have held : deep.ResultIs Json.Canonical :=
    fun result same => success.inj same ▸ listsWithinCanonical 127
  refine ⟨held, rfl, fun layout => ?_, ?_⟩
  · have written := jsonWhole fun result same => Json.canonicalWhole (held result same)
    have high : deep.toJson.height = 128 := by rw [successHeight, listsWithinHeight]
    rw [Json.parse, Json.renderedRead written, Json.within, if_neg]
    rw [high]
    decide
  · have rounded : ((Json.parse (Json.render .compact (whole 7300000000000001).toJson)).bind
        ofJson?).bind number? = some (.real false ⟨7300000000000002, 0⟩) := by decide +kernel
    obtain ⟨r, read, found⟩ := Option.bind_eq_some_iff.mp rounded
    rw [read, numberResult found]

end Reply
end PaintedImages
