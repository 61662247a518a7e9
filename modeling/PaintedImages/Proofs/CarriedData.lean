import PaintedImages.Host.Dispatch
import PaintedImages.Proofs.Base64
import PaintedImages.Proofs.OpeningFaults

/-! What a call carries. Bytes arrive the same as numbers and in base 64, and the reply to them is
the extraction's own result. A path is preferred to bytes, but only to bytes that can be read: what
stands in their place is looked at first, and one that spoils the call spoils it with a path too. -/
namespace PaintedImages

namespace Json

def ofBytes (bs : Bytes) : List Json := bs.map fun b => ofNat b.toNat

inductive Carries : Option Json → Option Bytes → Prop
  | absent : Carries none none
  | null : Carries (some .null) none
  | numbers (bs : Bytes) : Carries (some (.array (ofBytes bs))) (some bs)
  | encoded {text : String} {bs : Bytes} (read : Base64.decode (Utf8.encode text) = .ok bs) :
    Carries (some (.string text)) (some bs)

theorem naturalExact {item : Json} {n : Nat} : item.natural? = some n ↔ item = ofNat n := by
  constructor
  · intro found
    unfold natural? at found
    split at found
    · rename_i m
      split at found
      · rename_i positive
        cases found
        rw [ofNat, Int.toNat_of_nonneg positive]
      · contradiction
    · contradiction
  · rintro rfl
    simp [natural?, ofNat]

theorem encodedCarries (bs : Bytes) :
    Carries (some (.string (Bytes.toText (Base64.encode bs)))) (some bs) := by
  apply Carries.encoded
  rw [Bytes.utf8OfText (Base64.encodeAscii bs), Base64.decodeEncode]

end Json

namespace Reply

def ofRecords : Except Fault (List Record) → Reply
  | .ok records => .success (.array (records.map Record.toJson))
  | .error fault => .failure "ExtractionError" "Failed to extract images." (some fault.message)

theorem faultTold {fault : Fault} (concerns : fault.concernsDocument = true) :
    ofFault fault = ofRecords (.error fault) := by
  cases fault with
  | noSource => contradiction
  | _ => rfl

end Reply

namespace Call

def Spoils (item : Json) : Prop := ∀ b : UInt8, item ≠ Json.ofNat b.toNat

theorem itemByte (b : UInt8) (rest : List Json) :
    bytesOfItems (Json.ofNat b.toNat :: rest) = (bytesOfItems rest).map (b :: ·) := by
  have small : b.toNat < 256 := b.toNat_lt
  simp only [bytesOfItems, List.mapM_cons, Json.naturalExact.mpr rfl, if_pos small,
    UInt8.ofNat_toNat]
  rfl

theorem itemSpoils {item : Json} (spoils : Spoils item) (rest : List Json) :
    bytesOfItems (item :: rest) = .error (.encoding .notByte) := by
  cases found : item.natural? with
  | none =>
    simp only [bytesOfItems, List.mapM_cons, found]
    rfl
  | some n =>
    have large : ¬ n < 256 := by
      intro small
      apply spoils (UInt8.ofNat n)
      rw [Json.naturalExact.mp found, UInt8.toNat_ofNat', Nat.mod_eq_of_lt small]
    simp only [bytesOfItems, List.mapM_cons, found, if_neg large]
    rfl

/- Items are read from the front; the first that is no byte ends the reading. -/
theorem itemsRead (items : List Json) :
    (∃ bs, items = Json.ofBytes bs ∧ bytesOfItems items = .ok bs) ∨
    ((∃ item ∈ items, Spoils item) ∧ bytesOfItems items = .error (.encoding .notByte)) := by
  induction items with
  | nil => exact .inl ⟨[], rfl, rfl⟩
  | cons item rest ih =>
    by_cases byte : ∃ b : UInt8, item = Json.ofNat b.toNat
    · obtain ⟨b, rfl⟩ := byte
      rw [itemByte]
      rcases ih with ⟨bs, rfl, read⟩ | ⟨⟨other, mem, spoils⟩, failed⟩
      · rw [read]
        exact .inl ⟨b :: bs, rfl, rfl⟩
      · rw [failed]
        exact .inr ⟨⟨other, List.mem_cons_of_mem _ mem, spoils⟩, rfl⟩
    · have spoils : Spoils item := fun b same => byte ⟨b, same⟩
      exact .inr ⟨⟨item, List.mem_cons_self, spoils⟩, itemSpoils spoils rest⟩

theorem bytesNeverSpoil (bs : Bytes) : ∀ item ∈ Json.ofBytes bs, ¬ Spoils item := by
  intro item mem spoils
  obtain ⟨b, _, rfl⟩ := List.mem_map.mp mem
  exact spoils b rfl

theorem numbersRead (bs : Bytes) : bytesOfItems (Json.ofBytes bs) = .ok bs := by
  induction bs with
  | nil => rfl
  | cons b rest ih =>
    change bytesOfItems (Json.ofNat b.toNat :: Json.ofBytes rest) = _
    rw [itemByte, ih]
    rfl

theorem numbersSpoiled {items : List Json} (bad : ∃ item ∈ items, Spoils item) :
    bytesOfItems items = .error (.encoding .notByte) := by
  rcases itemsRead items with ⟨bs, rfl, _⟩ | ⟨_, failed⟩
  · obtain ⟨item, mem, spoils⟩ := bad
    exact absurd spoils (bytesNeverSpoil bs item mem)
  · exact failed

theorem dataCarried {call : Call} {data : Option Bytes}
    (carries : Json.Carries (call.argument? "pdfData") data) : call.data = .ok data := by
  unfold Call.data
  cases value : call.argument? "pdfData" with
  | none =>
    rw [value] at carries
    cases carries
    rfl
  | some value =>
    simp only [value] at carries
    cases carries with
    | null => rfl
    | numbers bs =>
      change (bytesOfItems _).map some = _
      rw [numbersRead]
      rfl
    | encoded read =>
      dsimp only
      rw [read]
      rfl

theorem dataSpoiled {call : Call}
    (spoiled : ¬ ∃ data, Json.Carries (call.argument? "pdfData") data) :
    ∃ cause, call.data = .error (.encoding cause) := by
  unfold Call.data
  split
  · rename_i value
    rw [value] at spoiled
    exact absurd ⟨none, .absent⟩ spoiled
  · rename_i value
    rw [value] at spoiled
    exact absurd ⟨none, .null⟩ spoiled
  · rename_i text value
    rw [value] at spoiled
    cases read : Base64.decode (Utf8.encode text) with
    | ok bs => exact absurd ⟨some bs, .encoded read⟩ spoiled
    | error cause => exact ⟨.document cause, rfl⟩
  · rename_i items value
    rw [value] at spoiled
    rcases itemsRead items with ⟨bs, rfl, _⟩ | ⟨_, failed⟩
    · exact absurd ⟨some bs, .numbers bs⟩ spoiled
    · rw [failed]
      exact ⟨.notByte, rfl⟩
  · exact ⟨.notBytes, rfl⟩

theorem sourceSpoiled {call : Call} {fault : Fault} (spoiled : call.data = .error fault) :
    call.source = .error fault := by
  rw [source, spoiled]
  rfl

theorem sourcePath {call : Call} {path : String} {data : Option Bytes}
    (named : call.argument? "filePath" = some (.string path)) (read : call.data = .ok data) :
    call.source = .ok (.file path) := by
  rw [source, read, named]
  rfl

theorem sourceBytes {call : Call} {bs : Bytes}
    (pathless : (call.argument? "filePath").bind Json.text? = none)
    (read : call.data = .ok (some bs)) : call.source = .ok (.memory bs) := by
  rw [source, read, pathless]
  rfl

theorem answerChosen {call : Call} {source : Source} (served : call.method = extractMethod)
    (chosen : call.source = .ok source) (files : Source.Files) (options : Options) :
    (call.answer files options).value = .ofRecords (source.records files options).value := by
  simp only [answer, if_pos served, records, chosen, Traced.bind]
  cases extracted : (source.records files options).value with
  | ok records => rfl
  | error fault => exact Reply.faultTold (Source.recordsConcern extracted)

theorem answerSpoiled {call : Call} {cause : EncodingFault} (served : call.method = extractMethod)
    (spoiled : call.data = .error (.encoding cause)) (files : Source.Files) (options : Options) :
    call.answer files options =
      ⟨.failure "ExtractionError" "Failed to extract images." (some (Fault.encoding cause).message),
        [failureNote (.encoding cause)]⟩ := by
  simp only [answer, if_pos served, records, sourceSpoiled spoiled]
  rfl

def without (name : String) (call : Call) : Call :=
  match call.arguments with
  | .object members => { call with arguments := .object (members.filter (·.1 ≠ name)) }
  | _ => call

theorem lookupWithout (name other : String) (members : List (String × Json)) :
    (members.filter (·.1 ≠ name)).lookup other =
      if other = name then none else members.lookup other := by
  induction members with
  | nil => simp
  | cons member rest ih =>
    obtain ⟨n, value⟩ := member
    by_cases taken : n = name
    · rw [List.filter_cons_of_neg (by simpa using taken), ih]
      grind
    · rw [List.filter_cons_of_pos (by simpa using taken)]
      grind

theorem argumentWithout (name other : String) (call : Call) :
    (call.without name).argument? other = if other = name then none else call.argument? other := by
  unfold without
  split
  · rename_i members object
    simp only [argument?, object, Json.member?]
    exact lookupWithout name other members
  · rename_i plain
    have absent : call.argument? other = none := by
      cases arguments : call.arguments with
      | object members => exact absurd arguments (plain members)
      | _ => simp [argument?, arguments, Json.member?]
    rw [absent, ite_self]

theorem methodWithout (name : String) (call : Call) : (call.without name).method = call.method := by
  unfold without
  split <;> rfl

end Call

namespace Fault

theorem initialAppend (start rest : String) {c : Char} (starts : start.toList.head? = some c) :
    (start ++ rest).toList.head? = some c := by
  rw [String.toList_append, List.head?_append, starts]
  rfl

/- No fault of a document is worded as one of the bytes of a call. -/
theorem concernsWording {fault : Fault} (concerns : fault.concernsDocument = true)
    (cause : EncodingFault) : fault.message ≠ (encoding cause).message := by
  intro same
  have initial : fault.message.toList.head? = some 'E' := by
    rw [same]
    exact initialAppend "Encoding error: " cause.message rfl
  have other {c : Char} (starts : fault.message.toList.head? = some c) : c = 'E' := by
    rw [starts] at initial
    exact Option.some.inj initial
  cases fault with
  | file cause => exact absurd (other (initialAppend "I/O error: " _ rfl)) (by decide)
  | unknownFormat => exact absurd (other rfl) (by decide)
  | unsupportedVersion version =>
    exact absurd (other (initialAppend "Unsupported PDF version: " _ rfl)) (by decide)
  | document cause =>
    exact absurd (other (initialAppend "Failed to open document: " _ rfl)) (by decide)
  | _ => contradiction

end Fault

namespace Call

theorem spoiledUnlike (files : Source.Files) (options : Options) (source : Source)
    (cause : EncodingFault) :
    Reply.ofRecords (source.records files options).value ≠
      Reply.ofRecords (.error (.encoding cause)) := by
  cases extracted : (source.records files options).value with
  | ok records => nofun
  | error fault =>
    intro same
    unfold Reply.ofRecords at same
    injection same with _ _ details
    injection details with worded
    exact Fault.concernsWording (Source.recordsConcern extracted) cause worded

/- What stands in the place of bytes matters to a call with a path only if it spoils the call. -/
theorem pathPreferred {call : Call} {path : String} (files : Source.Files) (options : Options)
    (served : call.method = extractMethod)
    (named : call.argument? "filePath" = some (.string path)) :
    let reply := (call.answer files options).value
    (reply = ((call.without "pdfData").answer files options).value ↔
      ∃ data, Json.Carries (call.argument? "pdfData") data) ∧
    (reply = .ofRecords ((Source.file path).records files options).value ∨
      ∃ cause, reply = .failure "ExtractionError" "Failed to extract images."
        (some (Fault.encoding cause).message)) := by
  intro reply
  have pathOnly : (call.without "pdfData").argument? "filePath" = some (.string path) := by
    rw [argumentWithout]
    exact named
  have dataless : (call.without "pdfData").data = .ok none := by
    apply dataCarried
    rw [argumentWithout]
    exact .absent
  have bareReply := answerChosen ((methodWithout _ call).trans served)
    (sourcePath pathOnly dataless) files options
  by_cases carried : ∃ data, Json.Carries (call.argument? "pdfData") data
  · obtain ⟨data, carries⟩ := carried
    have told := answerChosen served (sourcePath named (dataCarried carries)) files options
    exact ⟨iff_of_true (told.trans bareReply.symm) ⟨data, carries⟩, .inl told⟩
  · obtain ⟨cause, spoiled⟩ := dataSpoiled carried
    have told : reply = .ofRecords (.error (.encoding cause)) :=
      congrArg Traced.value (answerSpoiled served spoiled files options)
    refine ⟨iff_of_false ?_ carried, .inr ⟨cause, told⟩⟩
    rw [told, bareReply]
    exact (spoiledUnlike files options (.file path) cause).symm

theorem pathSpoiled :
    let files : Source.Files := fun _ => .error .notFound
    let call (last : Nat) : Call := ⟨"extractImages",
      .object [("filePath", .string "gone.pdf"), ("pdfData", .array [.ofNat 1, .ofNat last])]⟩
    let bare : Call := ⟨"extractImages", .object [("filePath", .string "gone.pdf")]⟩
    (∀ last, (call last).without "pdfData" = bare) ∧
    ((call 255).answer files {}).value = (bare.answer files {}).value ∧
    ((call 300).answer files {}).value ≠ (bare.answer files {}).value := by
  intro files call bare
  have carried : ∃ data, Json.Carries ((call 255).argument? "pdfData") data :=
    ⟨_, .numbers [1, 255]⟩
  have spoiled : ¬ ∃ data, Json.Carries ((call 300).argument? "pdfData") data := by
    rintro ⟨data, carries⟩
    have read : Except.error (Fault.encoding .notByte) = .ok data := dataCarried carries
    contradiction
  refine ⟨fun _ => rfl, ?_, ?_⟩
  · exact (@pathPreferred (call 255) "gone.pdf" files {} rfl rfl).1.mpr carried
  · intro same
    exact spoiled ((@pathPreferred (call 300) "gone.pdf" files {} rfl rfl).1.mp same)

/- Bytes get the reply of their own extraction, however they are written. A list with an item that
is no byte gets one of its own, for which no document is chosen. -/
theorem bytesReplied (files : Source.Files) (options : Options) (bs : Bytes) :
    (∀ value ∈ [Json.array (Json.ofBytes bs), .string (Bytes.toText (Base64.encode bs))],
      ∀ call : Call, call.method = extractMethod →
      (call.argument? "filePath").bind Json.text? = none →
      call.argument? "pdfData" = some value →
      (call.answer files options).value =
        .ofRecords ((Source.memory bs).records files options).value) ∧
    ∀ (call : Call) (items : List Json), call.method = extractMethod →
      call.argument? "pdfData" = some (.array items) → (∃ item ∈ items, Spoils item) →
      call.source = .error (.encoding .notByte) ∧
      call.answer files options =
        ⟨.failure "ExtractionError" "Failed to extract images."
            (some "Encoding error: pdfData holds a non-byte value"),
          [⟨.warning, "extractImages failed: Encoding error: pdfData holds a non-byte value"⟩]⟩ := by
  constructor
  · intro value mem call served pathless given
    have carries : Json.Carries (call.argument? "pdfData") (some bs) := by
      rw [given]
      simp only [List.mem_cons, List.not_mem_nil, or_false] at mem
      rcases mem with rfl | rfl
      · exact .numbers bs
      · exact Json.encodedCarries bs
    exact answerChosen served (sourceBytes pathless (dataCarried carries)) files options
  · intro call items served given bad
    have spoiled : call.data = .error (.encoding .notByte) := by
      simp only [Call.data, given, numbersSpoiled bad]
      rfl
    exact ⟨sourceSpoiled spoiled, answerSpoiled served spoiled files options⟩

theorem twoBytesReplied :
    let files : Source.Files := fun _ => .error .notFound
    let call (value : Json) : Call :=
      ⟨"extractImages", .object [("filePath", .ofNat 5), ("pdfData", value)]⟩
    let reply := Reply.failure "ExtractionError" "Failed to extract images."
      (some "Unknown file format: not a valid PDF")
    ((call (.array [.ofNat 1, .ofNat 255])).answer files {}).value = reply ∧
    ((call (.string "Af8=")).answer files {}).value = reply ∧
    (call (.array [.ofNat 1, .ofNat 256])).source = .error (.encoding .notByte) := by
  intro files call reply
  obtain ⟨replied, refused⟩ := bytesReplied files {} [1, 255]
  have spoils : Spoils (.ofNat 256) := by
    intro b same
    have small := b.toNat_lt
    injection same with value
    injection value with number
    omega
  refine ⟨?_, ?_, ?_⟩
  · exact replied (.array [.ofNat 1, .ofNat 255]) List.mem_cons_self (call _) rfl rfl rfl
  · exact replied (.string "Af8=") (List.mem_cons_of_mem _ List.mem_cons_self) (call _) rfl rfl rfl
  · exact (refused (call _) [.ofNat 1, .ofNat 256] rfl rfl
      ⟨_, List.mem_cons_of_mem _ List.mem_cons_self, spoils⟩).1

end Call
end PaintedImages
