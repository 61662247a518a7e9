import PaintedImages.Proofs.Containment
import PaintedImages.Proofs.Outcomes
import PaintedImages.Proofs.TrimmedText

/-! How far the writing of image files gets. Every record has a file name of its own, and the
records are saved in their order up to the first that cannot be. Those before it have their files
then, and in the files of that record and of the later ones is what was there before. -/
namespace PaintedImages

namespace Record

theorem paddedValue (width n : Nat) :
    Nat.ofDigitChars 10 (Numeral.padded width n).toList 0 = n := by
  unfold Numeral.padded
  rw [String.toList_ofList, Nat.ofDigitChars_append, Nat.ofDigitChars_replicate_zero,
    Nat.mul_zero, Nat.ofDigitChars_ten_toDigits]

/- The number in a file name stands before the first dot. What the label holds does not matter. -/
theorem fileNameNumber {r s : Record} {i j : Nat} (same : r.fileName i = s.fileName j) : i = j := by
  have cut (r : Record) (i : Nat) : Parts.around '.' (r.fileName i).toList =
      some ("image-".toList ++ (Numeral.padded 3 i).toList, r.extension.toList) := by
    have clean : '.' ∉ (Numeral.padded 3 i).toList := fun mem =>
      absurd (paddedDigits 3 i _ mem) (by decide)
    exact Parts.aroundForm.mpr ⟨fileNameChars r i, by simp [clean]⟩
  have fronts := cut r i
  rw [same, cut s j, Option.some.injEq, Prod.mk.injEq] at fronts
  have digits := List.append_cancel_left fronts.1
  rw [← paddedValue 3 i, ← paddedValue 3 j, digits]

end Record

namespace FileTree

structure Single (name : String) : Prop where
  plain : '/' ∉ name.toList
  nonempty : name ≠ ""
  own : name ≠ "."
  above : name ≠ ".."

theorem joinInj {directory name other : String}
    (same : join directory name = join directory other) : name = other := by
  unfold join at same
  split at same
  · exact (String.append_right_inj _).mp same
  · exact (String.append_right_inj _).mp same

theorem Single.relative {name : String} (single : Single name) : startsAtRoot name = false := by
  obtain ⟨c, rest, form⟩ :=
    List.exists_cons_of_ne_nil (mt String.toList_eq_nil_iff.mp single.nonempty)
  have slash : c ≠ '/' := by
    rintro rfl
    exact single.plain (form ▸ List.mem_cons_self)
  rw [startsAtRoot, form]
  simpa using slash

theorem reachJoin (t : FileTree) (directory : String) {name : String} (single : Single name) :
    t.reach (t.origin (join directory name)) (names (join directory name)) =
      (t.reach (t.origin directory) (names directory)).bind fun base => t.enter base name := by
  rw [origin, rootJoin directory single.relative, ← origin, namesJoin,
    namesSingle single.plain single.nonempty]
  unfold reach
  rw [List.foldlM_append]
  simp only [List.foldlM_cons, List.foldlM_nil, bind_pure]
  rfl

theorem enterDirectory {t : FileTree} {place next : Location} {name : String}
    (entered : t.enter place name = .ok next) : t.node? place = some .directory := by
  unfold enter at entered
  split at entered
  · contradiction
  · contradiction
  · assumption

theorem locatePlaced {t : FileTree} {directory name : String} (single : Single name)
    {place : Location} (found : t.locate (join directory name) = .ok place) :
    ∃ base, t.reach (t.origin directory) (names directory) = .ok base ∧
      t.node? base = some .directory ∧ place = base ++ [name] := by
  have reached := locateReaches found
  rw [reachJoin t directory single] at reached
  obtain ⟨base, reached, entered⟩ := bindOk reached
  exact ⟨base, reached, enterDirectory entered, enterNamed entered single.own single.above⟩

theorem lastName {front front' : Location} {name other : String}
    (same : front ++ [name] = front' ++ [other]) : name = other :=
  List.singleton_inj.mp (List.append_inj' same rfl).2

theorem locateName {t : FileTree} {directory name other : String} (single : Single name)
    (single' : Single other) {place : Location} (found : t.locate (join directory name) = .ok place)
    (found' : t.locate (join directory other) = .ok place) : name = other := by
  obtain ⟨_, _, _, rfl⟩ := locatePlaced single found
  obtain ⟨_, _, _, same⟩ := locatePlaced single' found'
  exact lastName same

theorem Extends.locate {t t' : FileTree} (extended : Extends t t') {path : String}
    {place : Location} (found : t.locate path = .ok place) : t'.locate path = .ok place := by
  have reached := extended.reach (locateReaches found)
  rw [← extended.origin] at reached
  unfold FileTree.locate at found ⊢
  split at found
  · contradiction
  rename_i nul
  split at found
  · contradiction
  rename_i empty
  split at found
  · contradiction
  rename_i long
  rw [if_neg nul, if_neg empty, if_neg long]
  exact reached

/- Where a name right in a directory leads does not depend on what else there is. -/
theorem locateSame {t t' : FileTree} (extended : Extends t t') {directory name : String}
    (single : Single name) {base : Location}
    (reached : t.reach (t.origin directory) (names directory) = .ok base)
    (isDirectory : t.node? base = some .directory) :
    t'.locate (join directory name) = t.locate (join directory name) := by
  have reached' := extended.reach reached
  rw [← extended.origin] at reached'
  have entered : t'.enter base name = t.enter base name := by
    unfold enter
    rw [isDirectory, extended.directories base isDirectory]
  have onward : t'.reach (t'.origin (join directory name)) (names (join directory name)) =
      t.reach (t.origin (join directory name)) (names (join directory name)) := by
    rw [reachJoin t' directory single, reachJoin t directory single, reached, reached']
    exact entered
  unfold locate
  exact if_congr .rfl rfl (if_congr .rfl rfl (if_congr .rfl rfl onward))

theorem Made.elsewhere {path : String} {t t' : FileTree} (made : Made path t t')
    (place : Location) : t'.node? place = t.node? place ∨
      t.node? place = none ∧ t'.node? place = some .directory := by
  by_cases same : t'.node? place = t.node? place
  · exact .inl same
  · obtain ⟨free, directory, _⟩ := made.changes place same
    exact .inr ⟨free, directory⟩

theorem readExact {t : FileTree} {path : String} {content : Bytes} :
    t.read path = .ok content ↔ ∃ place, t.locate path = .ok place ∧
      t.node? place = some (.file content) ∧ endsInSlash path = false := by
  simp only [read, bind, Except.bind]
  cases found : t.locate path with
  | error fault => simp
  | ok place =>
    simp only [Except.ok.injEq, exists_eq_left']
    cases held : t.node? place with
    | none => simp
    | some node =>
      cases node with
      | directory => simp
      | file kept => cases endsInSlash path <;> simp

theorem readWritten {t t' : FileTree} {path : String} {content : Bytes}
    (done : t.write path content = .ok t') : t'.read path = .ok content := by
  obtain ⟨place, found, bare, free, rfl⟩ := writeLocated done
  obtain ⟨extended, nodes⟩ := Extends.put free (.file content)
  exact readExact.mpr ⟨place, extended.locate found, (nodes place).trans (if_pos rfl), bare⟩

structure Puts (t t' : FileTree) (directory name : String) (content : Bytes) (base : Location) :
    Prop where
  extended : Extends t t'
  reached : t.reach (t.origin directory) (names directory) = .ok base
  isDirectory : t.node? base = some .directory
  located : t.locate (join directory name) = .ok (base ++ [name])
  nodes : ∀ place, t'.node? place =
    if place = base ++ [name] then some (.file content) else t.node? place

theorem writePuts {t t' : FileTree} {directory name : String} {content : Bytes}
    (single : Single name) (done : t.write (join directory name) content = .ok t') :
    ∃ base, Puts t t' directory name content base := by
  obtain ⟨place, found, _, free, rfl⟩ := writeLocated done
  obtain ⟨base, reached, isDirectory, rfl⟩ := locatePlaced single found
  obtain ⟨extended, nodes⟩ := Extends.put free (.file content)
  exact ⟨base, extended, reached, isDirectory, found, nodes⟩

section
variable {t t' : FileTree} {directory name other : String} {content : Bytes} {base : Location}

theorem Puts.apart (puts : Puts t t' directory name content base) (differ : other ≠ name)
    (front : Location) : t'.node? (front ++ [other]) = t.node? (front ++ [other]) := by
  rw [puts.nodes, if_neg]
  exact fun same => differ (lastName same)

/- Putting one file leaves the reading and the writing of another in the same directory alone. -/
theorem Puts.read (puts : Puts t t' directory name content base) (single : Single other)
    (differ : other ≠ name) {held : Bytes} (read : t.read (join directory other) = .ok held) :
    t'.read (join directory other) = .ok held := by
  obtain ⟨place, found, file, bare⟩ := readExact.mp read
  obtain ⟨front, _, _, rfl⟩ := locatePlaced single found
  exact readExact.mpr ⟨_, puts.extended.locate found, (puts.apart differ front).trans file, bare⟩

theorem Puts.write (puts : Puts t t' directory name content base) (single : Single other)
    (differ : other ≠ name) {payload : Bytes} {cause : FileFault} :
    t'.write (join directory other) payload = .error cause ↔
      t.write (join directory other) payload = .error cause := by
  have same : t'.locate (join directory other) = t.locate (join directory other) :=
    locateSame puts.extended single puts.reached puts.isDirectory
  unfold FileTree.write
  rw [same]
  cases found : t.locate (join directory other) with
  | error fault => rfl
  | ok place =>
    obtain ⟨front, _, _, rfl⟩ := locatePlaced single found
    simp only [bind, Except.bind, puts.apart differ front]
    split <;> simp

end

end FileTree

namespace Record

theorem fileNameSingle {r : Record} (plain : '/' ∉ r.format.toList) (i : Nat) :
    FileTree.Single (r.fileName i) :=
  ⟨fileNamePlain plain i, fileNameNot r i (by decide), fileNameNot r i (by decide),
    fileNameNot r i (by decide)⟩

end Record

namespace Images

inductive Refused (t : FileTree) (directory name : String) (record : Record) : Fault → Prop where
  | payload {fault} (broken : record.payload = .error fault) : Refused t directory name record fault
  | path {payload cause} (read : record.payload = .ok payload)
      (failed : t.write (FileTree.join directory name) payload = .error cause) :
      Refused t directory name record (.other (.unwritten (FileTree.join directory name) cause))

inductive Saves (directory : String) : FileTree → List (String × Record) → FileTree → Prop where
  | nil (t) : Saves directory t [] t
  | cons {t t' t'' name record payload rest} (read : record.payload = .ok payload)
      (written : t.write (FileTree.join directory name) payload = .ok t')
      (later : Saves directory t' rest t'') : Saves directory t ((name, record) :: rest) t''

def joined (directory : String) (named : List (String × Record)) : List (String × Record) :=
  named.map fun entry => (FileTree.join directory entry.1, entry.2)

/- Saving goes on to the end, or to the first record that is refused by the tree as it is then. -/
theorem saveAllUpTo (directory : String) (named : List (String × Record)) (t : FileTree) :
    Saves directory t named (saveAll t (joined directory named)).tree ∧
      (saveAll t (joined directory named)).fault = none ∨
    ∃ front name record back fault, named = front ++ (name, record) :: back ∧
      Saves directory t front (saveAll t (joined directory named)).tree ∧
      Refused (saveAll t (joined directory named)).tree directory name record fault ∧
      (saveAll t (joined directory named)).fault = some fault := by
  induction named generalizing t with
  | nil => exact .inl ⟨.nil t, rfl⟩
  | cons entry rest ih =>
    obtain ⟨name, record⟩ := entry
    unfold saveAll joined
    rw [List.map_cons, List.map_cons, Effect.runAll]
    cases read : record.payload with
    | error fault =>
      simp only [save, read, Effect.run]
      exact .inr ⟨[], name, record, rest, fault, rfl, .nil t, .payload read, rfl⟩
    | ok payload =>
      cases written : t.write (FileTree.join directory name) payload with
      | error cause =>
        simp only [save, read, Effect.run, written, Effect.saved]
        exact .inr ⟨[], name, record, rest, _, rfl, .nil t, .path read written, rfl⟩
      | ok t' =>
        simp only [save, read, Effect.run, written, Effect.saved]
        rcases ih t' with ⟨saves, done⟩ |
          ⟨front, next, other, back, fault, rfl, saves, refused, told⟩
        · exact .inl ⟨.cons read written saves, done⟩
        · exact .inr ⟨(name, record) :: front, next, other, back, fault, rfl,
            .cons read written saves, refused, told⟩

section
variable {directory : String} {t t' : FileTree} {named : List (String × Record)}

theorem putsRefused {name other : String} {content : Bytes} {base : Location}
    (puts : FileTree.Puts t t' directory name content base) (single : FileTree.Single other)
    (differ : other ≠ name) {record : Record} {fault : Fault} :
    Refused t' directory other record fault ↔ Refused t directory other record fault := by
  constructor
  · rintro (broken | ⟨read, failed⟩)
    · exact .payload broken
    · exact .path read ((puts.write single differ).mp failed)
  · rintro (broken | ⟨read, failed⟩)
    · exact .payload broken
    · exact .path read ((puts.write single differ).mpr failed)

theorem Saves.extended (saves : Saves directory t named t') : FileTree.Extends t t' := by
  induction saves with
  | nil t => exact .refl t
  | cons read written later ih =>
    obtain ⟨_, extended, _⟩ := FileTree.writeExact written
    exact extended.trans ih

theorem Saves.refused (saves : Saves directory t named t')
    (singles : ∀ entry ∈ named, FileTree.Single entry.1) {name : String}
    (single : FileTree.Single name) (differ : ∀ entry ∈ named, name ≠ entry.1) {record : Record}
    {fault : Fault} :
    Refused t' directory name record fault ↔ Refused t directory name record fault := by
  induction saves with
  | nil => rfl
  | cons read written later ih =>
    obtain ⟨first, others⟩ := List.forall_mem_cons.mp singles
    obtain ⟨unlike, unlikes⟩ := List.forall_mem_cons.mp differ
    obtain ⟨base, puts⟩ := FileTree.writePuts first written
    exact (ih others unlikes).trans (putsRefused puts single unlike)

theorem Saves.keeps (saves : Saves directory t named t')
    (singles : ∀ entry ∈ named, FileTree.Single entry.1) {name : String}
    (single : FileTree.Single name) (differ : ∀ entry ∈ named, name ≠ entry.1) {held : Bytes}
    (read : t.read (FileTree.join directory name) = .ok held) :
    t'.read (FileTree.join directory name) = .ok held := by
  induction saves with
  | nil => exact read
  | cons _ written later ih =>
    obtain ⟨first, others⟩ := List.forall_mem_cons.mp singles
    obtain ⟨unlike, unlikes⟩ := List.forall_mem_cons.mp differ
    obtain ⟨base, puts⟩ := FileTree.writePuts first written
    exact ih others unlikes (puts.read single unlike read)

/- Of different names, every one was accepted by the tree as it was before any of them, and holds
what was saved under it when all are done. -/
theorem Saves.held (saves : Saves directory t named t')
    (singles : ∀ entry ∈ named, FileTree.Single entry.1)
    (own : named.Pairwise fun entry later => later.1 ≠ entry.1) :
    ∀ entry ∈ named, (∀ fault, ¬ Refused t directory entry.1 entry.2 fault) ∧
      ∃ payload, entry.2.payload = .ok payload ∧
        t'.read (FileTree.join directory entry.1) = .ok payload := by
  induction saves with
  | nil => exact nofun
  | @cons t t' t'' name record payload rest read written later ih =>
    obtain ⟨first, others⟩ := List.forall_mem_cons.mp singles
    obtain ⟨unlike, own⟩ := List.pairwise_cons.mp own
    obtain ⟨base, puts⟩ := FileTree.writePuts first written
    intro entry mem
    rcases List.mem_cons.mp mem with rfl | mem
    · refine ⟨?_, payload, read, ?_⟩
      · rintro fault (broken | ⟨read', failed⟩)
        · exact nomatch read.symm.trans broken
        · cases read.symm.trans read'
          exact nomatch written.symm.trans failed
      · exact later.keeps others first (fun entry mem => (unlike entry mem).symm)
          (FileTree.readWritten written)
    · obtain ⟨accepted, held⟩ := ih others own entry mem
      refine ⟨fun fault refused => accepted fault ?_, held⟩
      exact (putsRefused puts (others entry mem) (unlike entry mem)).mpr refused

theorem Saves.others (saves : Saves directory t named t')
    (singles : ∀ entry ∈ named, FileTree.Single entry.1) {place : Location}
    (elsewhere : ∀ entry ∈ named, t'.locate (FileTree.join directory entry.1) ≠ .ok place) :
    t'.node? place = t.node? place := by
  induction saves with
  | nil => rfl
  | cons read written later ih =>
    obtain ⟨first, others⟩ := List.forall_mem_cons.mp singles
    obtain ⟨apart, aparts⟩ := List.forall_mem_cons.mp elsewhere
    obtain ⟨base, puts⟩ := FileTree.writePuts first written
    rw [ih others aparts, puts.nodes, if_neg]
    rintro rfl
    exact apart ((puts.extended.trans later.extended).locate puts.located)

end

/-- The first records were not refused and have their files with their payloads. Elsewhere nothing
is changed, but for directories made where nothing was, and no file of another record is. -/
structure SavedUpTo (tree after : FileTree) (directory : String) (records : List Record) (k : Nat) :
    Prop where
  accepted : ∀ i record, i < k → records[i]? = some record → ∀ fault,
    ¬ Refused (tree.makeDirectories directory).tree directory (record.fileName (i + 1)) record fault
  held : ∀ i record, i < k → records[i]? = some record → ∃ payload, record.payload = .ok payload ∧
    after.read (FileTree.join directory (record.fileName (i + 1))) = .ok payload
  others : ∀ place, (∀ i record, i < k → records[i]? = some record →
      after.locate (FileTree.join directory (record.fileName (i + 1))) ≠ .ok place) →
    after.node? place = tree.node? place ∨
      tree.node? place = none ∧ after.node? place = some .directory
  later : ∀ i record place, k ≤ i → records[i]? = some record →
    after.locate (FileTree.join directory (record.fileName (i + 1))) = .ok place →
    ∀ content, after.node? place = some (.file content) ↔ tree.node? place = some (.file content)

def named (records : List Record) : List (String × Record) :=
  records.zipIdx.map fun (record, i) => (record.fileName (i + 1), record)

theorem namedAt (records : List Record) (i : Nat) :
    (named records)[i]? = records[i]?.map fun record => (record.fileName (i + 1), record) := by
  unfold named
  rw [List.getElem?_map, List.getElem?_zipIdx, Option.map_map, Nat.zero_add]
  rfl

theorem placedNamed (directory : String) (records : List Record) :
    placed directory records = joined directory (named records) := by
  unfold placed joined named
  rw [List.map_map]
  rfl

theorem namedMember {records : List Record} {front back : List (String × Record)}
    (form : named records = front ++ back) {entry : String × Record} :
    entry ∈ front ↔ ∃ i record, i < front.length ∧ records[i]? = some record ∧
      entry = (record.fileName (i + 1), record) := by
  rw [List.mem_iff_getElem?]
  have frontAt {i : Nat} (early : i < front.length) : front[i]? =
      records[i]?.map fun record => (record.fileName (i + 1), record) := by
    rw [← namedAt, form, List.getElem?_append_left early]
  constructor
  · rintro ⟨i, found⟩
    have early : i < front.length := (List.getElem?_eq_some_iff.mp found).1
    rw [frontAt early] at found
    obtain ⟨record, listed, rfl⟩ := Option.map_eq_some_iff.mp found
    exact ⟨i, record, early, listed, rfl⟩
  · rintro ⟨i, record, early, listed, rfl⟩
    exact ⟨i, by rw [frontAt early, listed, Option.map_some]⟩

theorem namedSingle {records : List Record}
    (plain : ∀ record ∈ records, '/' ∉ record.format.toList) :
    ∀ entry ∈ named records, FileTree.Single entry.1 := by
  intro entry mem
  obtain ⟨⟨record, i⟩, listed, rfl⟩ := List.mem_map.mp mem
  exact Record.fileNameSingle (plain record (List.fst_mem_of_mem_zipIdx listed)) _

theorem namedDiffer (records : List Record) :
    (named records).Pairwise fun entry later => later.1 ≠ entry.1 := by
  have numbers : (records.zipIdx.map Prod.snd).Nodup := by
    rw [List.zipIdx_map_snd]
    exact List.nodup_range'
  refine List.pairwise_map.mpr ((List.pairwise_map.mp numbers).imp ?_)
  rintro ⟨first, i⟩ ⟨second, j⟩ differ same
  have equal := Record.fileNameNumber same
  exact differ (by omega)

theorem pathsDiffer (directory : String) (records : List Record) :
    (paths directory records).Nodup := by
  unfold paths
  rw [placedNamed, joined, List.map_map]
  refine List.pairwise_map.mpr ((namedDiffer records).imp fun differ same => ?_)
  exact differ (FileTree.joinInj same).symm

theorem pathsAt (directory : String) (records : List Record) (i : Nat) :
    (paths directory records)[i]? = records[i]?.map fun record =>
      FileTree.join directory (record.fileName (i + 1)) := by
  rw [paths, List.getElem?_map, placedAt, Option.map_map]
  rfl

section
variable {tree after : FileTree} {directory : String} {records : List Record}
  {front back : List (String × Record)}

theorem savesUpTo (plain : ∀ record ∈ records, '/' ∉ record.format.toList)
    (form : named records = front ++ back)
    (saves : Saves directory (tree.makeDirectories directory).tree front after) :
    SavedUpTo tree after directory records front.length := by
  have single {i : Nat} {record : Record} (listed : records[i]? = some record) :
      FileTree.Single (record.fileName (i + 1)) :=
    Record.fileNameSingle (plain record (List.mem_of_getElem? listed)) _
  have singles (entry : String × Record) (mem : entry ∈ front) : FileTree.Single entry.1 :=
    namedSingle plain entry (form ▸ List.mem_append_left back mem)
  have others {place : Location} (elsewhere : ∀ i record, i < front.length →
      records[i]? = some record →
      after.locate (FileTree.join directory (record.fileName (i + 1))) ≠ .ok place) :
      after.node? place = tree.node? place ∨
        tree.node? place = none ∧ after.node? place = some .directory := by
    have kept : after.node? place = (tree.makeDirectories directory).tree.node? place := by
      refine saves.others singles fun entry mem => ?_
      obtain ⟨i, record, early, listed, rfl⟩ := (namedMember form).mp mem
      exact elsewhere i record early listed
    rw [kept]
    exact (FileTree.makeDirectoriesMade tree directory).elsewhere place
  have own := (List.pairwise_append.mp (form ▸ namedDiffer records)).1
  have saved (i : Nat) (record : Record) (early : i < front.length)
      (listed : records[i]? = some record) :=
    saves.held singles own _ ((namedMember form).mpr ⟨i, record, early, listed, rfl⟩)
  refine ⟨fun i record early listed => (saved i record early listed).1,
    fun i record early listed => (saved i record early listed).2, fun place => others, ?_⟩
  · intro i record place late listed found content
    have elsewhere : ∀ j earlier, j < front.length → records[j]? = some earlier →
        after.locate (FileTree.join directory (earlier.fileName (j + 1))) ≠ .ok place := by
      intro j earlier early listed' found'
      have equal := Record.fileNameNumber
        (FileTree.locateName (single listed) (single listed') found found')
      omega
    rcases others elsewhere with same | ⟨free, directory⟩
    · rw [same]
    · simp [free, directory]

end

theorem writeUpTo {tree : FileTree} {directory : String} (records : List Record)
    (able : (tree.makeDirectories directory).fault = none) :
    let last := saveAll (tree.makeDirectories directory).tree (joined directory (named records))
    (write tree directory records).1 = last.tree ∧
      (write tree directory records).2 =
        last.fault.elim (.ok (paths directory records)) .error := by
  rw [← placedNamed]
  rcases @Effect.runAllCons tree (.makeDirectories directory) rfl
    ((placed directory records).map fun file => save file.1 file.2) with
    ⟨fault, failed, _⟩ | ⟨_, files, ended⟩
  · rw [Effect.run, able] at failed
    contradiction
  · constructor
    · rw [write, effects, files]
      rfl
    · rw [write, effects, ended]
      rfl

theorem prefixWritten {tree : FileTree} {directory : String} {records : List Record}
    (able : (tree.makeDirectories directory).fault = none)
    (plain : ∀ record ∈ records, '/' ∉ record.format.toList) :
    let made := (tree.makeDirectories directory).tree
    let after := (write tree directory records).1
    ((paths directory records).Nodup ∧ ∀ i : Nat, (paths directory records)[i]? =
      records[i]?.map fun record : Record => FileTree.join directory (record.fileName (i + 1))) ∧
    ((write tree directory records).2 = .ok (paths directory records) ∧
        SavedUpTo tree after directory records records.length ∨
      ∃ (k : Nat) (record : Record) (fault : Fault),
        (write tree directory records).2 = .error fault ∧ records[k]? = some record ∧
        Refused made directory (record.fileName (k + 1)) record fault ∧
        SavedUpTo tree after directory records k) := by
  intro made after
  obtain ⟨left, told⟩ := writeUpTo records able
  refine ⟨⟨pathsDiffer directory records, pathsAt directory records⟩, ?_⟩
  rcases saveAllUpTo directory (named records) made with
    ⟨saves, done⟩ | ⟨front, name, record, back, fault, form, saves, refused, failed⟩
  · rw [← left] at saves
    have every : (named records).length = records.length := by simp [named]
    refine .inl ⟨?_, every ▸ savesUpTo plain (List.append_nil _).symm saves⟩
    rw [told, done, Option.elim_none]
  · rw [← left] at saves refused
    have last := namedAt records front.length
    rw [form, List.getElem?_append_right (Nat.le_refl _), Nat.sub_self, List.getElem?_cons_zero,
      eq_comm, Option.map_eq_some_iff] at last
    obtain ⟨_, listed, same⟩ := last
    cases same
    have differ := (List.pairwise_append.mp (form ▸ namedDiffer records)).2.2
    refine .inr ⟨front.length, record, fault, ?_, listed, ?_, savesUpTo plain form saves⟩
    · rw [told, failed, Option.elim_some]
    · have singles : ∀ entry ∈ front ++ (_, record) :: back, FileTree.Single entry.1 :=
        form ▸ namedSingle plain
      obtain ⟨before, later⟩ := List.forall_mem_append.mp singles
      refine (saves.refused before (later _ List.mem_cons_self) fun entry mem => ?_).mp refused
      exact differ entry mem _ List.mem_cons_self

/- Padding is missing in the second of three payloads. The image under its name stays. -/
theorem brokenPayloadKept :
    let tree : FileTree := ⟨[(["out"], .directory), (["out", "image-002.png"], .file [7])], []⟩
    let records : List Record := [⟨"jpg", "QQ=="⟩, ⟨"png", "QQ="⟩, ⟨"v1.2", "Qg=="⟩]
    (tree.makeDirectories "out").fault = none ∧
    (∀ record ∈ records, '/' ∉ record.format.toList) ∧
    SavedUpTo tree (write tree "out" records).1 "out" records 1 ∧
    (write tree "out" records).1.read "out/image-001.jpg" = .ok [65] ∧
    (write tree "out" records).1.read "out/image-002.png" = .ok [7] ∧
    (write tree "out" records).1.read "out/image-003.v1.2" = .error .notFound := by
  dsimp only
  refine ⟨rfl, by decide, ?_, rfl, rfl, rfl⟩
  have broken : (⟨"png", "QQ="⟩ : Record).payload = .error (.encoding (.payload .padding)) := rfl
  obtain ⟨_, ⟨_, saved⟩ | ⟨k, record, fault, _, _, _, saved⟩⟩ := @prefixWritten
    ⟨[(["out"], .directory), (["out", "image-002.png"], .file [7])], []⟩ "out"
    [⟨"jpg", "QQ=="⟩, ⟨"png", "QQ="⟩, ⟨"v1.2", "Qg=="⟩] rfl (by decide)
  · exact absurd (.payload broken) (saved.accepted 1 _ (by decide) rfl _)
  · rcases k with _ | _ | k
    · have fresh := saved.later 0 _ ["out", "image-001.jpg"] (Nat.le_refl 0) rfl rfl [65]
      exact nomatch fresh.mp rfl
    · exact saved
    · exact absurd (.payload broken) (saved.accepted 1 _ (by omega) rfl _)

end Images
end PaintedImages
