import PaintedImages.Output.Images
import PaintedImages.Proofs.Paths

/-! Where image files can go. Besides the directory they are meant for, and those above it that are
missing, nothing is made, and what is written is where the name of a record leads to from that
directory. A format label without a slash leads to a place right in it. A label with a slash is
taken as a path like any other, and can lead anywhere. -/
namespace PaintedImages

namespace FileTree

def reach (t : FileTree) (place : Location) (names : List String) : Except FileFault Location :=
  names.foldlM t.enter place

def origin (t : FileTree) (path : String) : Location := if startsAtRoot path then [] else t.start

theorem locateReaches {t : FileTree} {path : String} {place : Location}
    (found : t.locate path = .ok place) : t.reach (t.origin path) (names path) = .ok place := by
  unfold locate at found
  split at found
  · contradiction
  split at found
  · contradiction
  split at found
  · contradiction
  exact found

theorem enterNamed {t : FileTree} {place next : Location} {name : String}
    (entered : t.enter place name = .ok next) (own : name ≠ ".") (above : name ≠ "..") :
    next = place ++ [name] := by
  unfold enter at entered
  split at entered
  · contradiction
  · contradiction
  · rw [if_neg own, if_neg above] at entered
    split at entered
    · contradiction
    · exact (Except.ok.inj entered).symm

theorem reachCons {t : FileTree} {start place : Location} {name : String} {rest : List String} :
    t.reach start (name :: rest) = .ok place ↔
      ∃ next, t.enter start name = .ok next ∧ t.reach next rest = .ok place := by
  unfold reach
  rw [List.foldlM_cons]
  cases t.enter start name with
  | error fault => simp [bind, Except.bind]
  | ok next => simp [bind, Except.bind]

theorem reachAppend {t : FileTree} {start place : Location} {front back : List String} :
    t.reach start (front ++ back) = .ok place ↔
      ∃ middle, t.reach start front = .ok middle ∧ t.reach middle back = .ok place := by
  unfold reach
  rw [List.foldlM_append]
  cases front.foldlM t.enter start with
  | error fault => simp [bind, Except.bind]
  | ok middle => simp [bind, Except.bind]

theorem lookupSetNode (place other : Location) (node : Node) (nodes : List (Location × Node)) :
    (setNode place node nodes).lookup other =
      if other = place then some node else nodes.lookup other := by
  induction nodes with
  | nil => grind [setNode]
  | cons entry rest ih =>
    obtain ⟨p, n⟩ := entry
    by_cases taken : p = place
    · grind [setNode]
    · grind [setNode]

theorem nodePut {t : FileTree} {place : Location} (deep : place ≠ []) (node : Node)
    (other : Location) :
    (t.put place node).node? other = if other = place then some node else t.node? other := by
  cases other with
  | nil => exact (if_neg (Ne.symm deep)).symm
  | cons name rest => exact lookupSetNode place (name :: rest) node t.nodes

/-- No directory is lost, so that what could be reached still can be. -/
structure Extends (t t' : FileTree) : Prop where
  start : t'.start = t.start
  directories : ∀ place, t.node? place = some .directory → t'.node? place = some .directory

theorem Extends.refl (t : FileTree) : Extends t t := ⟨rfl, fun _ found => found⟩

theorem Extends.trans {t t' t'' : FileTree} (first : Extends t t') (second : Extends t' t'') :
    Extends t t'' :=
  ⟨second.start.trans first.start, fun place found =>
    second.directories place (first.directories place found)⟩

theorem Extends.origin {t t' : FileTree} (extended : Extends t t') (path : String) :
    t'.origin path = t.origin path := by
  rw [FileTree.origin, FileTree.origin, extended.start]

theorem Extends.enter {t t' : FileTree} (extended : Extends t t') {place next : Location}
    {name : String} (found : t.enter place name = .ok next) : t'.enter place name = .ok next := by
  unfold FileTree.enter at found ⊢
  split at found
  · contradiction
  · contradiction
  · rename_i directory
    rw [extended.directories place directory]
    exact found

theorem Extends.reach {t t' : FileTree} (extended : Extends t t') {start place : Location}
    {names : List String} (found : t.reach start names = .ok place) :
    t'.reach start names = .ok place := by
  induction names generalizing start with
  | nil => exact found
  | cons name rest ih =>
    obtain ⟨next, entered, later⟩ := reachCons.mp found
    exact reachCons.mpr ⟨next, extended.enter entered, ih later⟩

theorem Extends.put {t : FileTree} {place : Location} (free : t.node? place ≠ some .directory)
    (node : Node) : Extends t (t.put place node) ∧
      ∀ other, (t.put place node).node? other =
        if other = place then some node else t.node? other := by
  have deep : place ≠ [] := by
    rintro rfl
    exact free rfl
  refine ⟨⟨rfl, fun other directory => ?_⟩, nodePut deep node⟩
  rw [nodePut deep, if_neg, directory]
  rintro rfl
  exact free directory

theorem writeLocated {t t' : FileTree} {path : String} {content : Bytes}
    (done : t.write path content = .ok t') :
    ∃ place, t.locate path = .ok place ∧ endsInSlash path = false ∧
      t.node? place ≠ some .directory ∧ t' = t.put place (.file content) := by
  simp only [write, bind, Except.bind] at done
  cases found : t.locate path with
  | error fault =>
    rw [found] at done
    contradiction
  | ok place =>
    rw [found] at done
    dsimp only at done
    split at done
    · contradiction
    · rename_i free
      cases done
      obtain ⟨bare, free⟩ := not_or.mp free
      exact ⟨place, rfl, Bool.eq_false_iff.mpr bare, free, rfl⟩

/- All that writing a file does, and all that making a directory does. -/
theorem writeExact {t t' : FileTree} {path : String} {content : Bytes}
    (done : t.write path content = .ok t') :
    ∃ place, Extends t t' ∧ t'.reach (t.origin path) (names path) = .ok place ∧
      ∀ other, t'.node? other = if other = place then some (.file content) else t.node? other := by
  obtain ⟨place, found, _, free, rfl⟩ := writeLocated done
  obtain ⟨extended, nodes⟩ := Extends.put free (.file content)
  exact ⟨place, extended, extended.reach (locateReaches found), nodes⟩

theorem makeDirectoryExact {t t' : FileTree} {path : String}
    (done : t.makeDirectory path = .ok t') :
    ∃ place, t.node? place = none ∧ Extends t t' ∧
      t'.reach (t.origin path) (names path) = .ok place ∧
      ∀ other, t'.node? other = if other = place then some .directory else t.node? other := by
  simp only [makeDirectory, bind, Except.bind] at done
  cases found : t.locate path with
  | error fault =>
    rw [found] at done
    contradiction
  | ok place =>
    rw [found] at done
    dsimp only at done
    split at done
    · contradiction
    · rename_i absent
      cases done
      have free : t.node? place = none := by simpa using absent
      have unused : t.node? place ≠ some .directory := by simp [free]
      obtain ⟨extended, nodes⟩ := Extends.put unused .directory
      exact ⟨place, free, extended, extended.reach (locateReaches found), nodes⟩

structure Made (path : String) (t t' : FileTree) : Prop where
  extended : Extends t t'
  changes : ∀ place, t'.node? place ≠ t.node? place →
    t.node? place = none ∧ t'.node? place = some .directory ∧
    ∃ lead, lead <+: names path ∧ t'.reach (t.origin path) lead = .ok place

theorem Made.refl (path : String) (t : FileTree) : Made path t t :=
  ⟨.refl t, fun _ changed => absurd rfl changed⟩

theorem Made.trans {path : String} {t t' t'' : FileTree} (first : Made path t t')
    (second : Made path t' t'') : Made path t t'' := by
  refine ⟨first.extended.trans second.extended, fun place changed => ?_⟩
  by_cases later : t''.node? place = t'.node? place
  · rw [later] at changed ⊢
    obtain ⟨free, made, lead, leads, reached⟩ := first.changes place changed
    exact ⟨free, made, lead, leads, second.extended.reach reached⟩
  · obtain ⟨free, made, lead, leads, reached⟩ := second.changes place later
    rw [first.extended.origin] at reached
    refine ⟨?_, made, lead, leads, reached⟩
    by_cases earlier : t'.node? place = t.node? place
    · rw [← earlier, free]
    · rw [(first.changes place earlier).2.1] at free
      contradiction

theorem makeDirectoryMade {directory path : String} {t t' : FileTree}
    (above : path ∈ lineage directory) (done : t.makeDirectory path = .ok t') :
    Made directory t t' := by
  obtain ⟨place, free, extended, reached, nodes⟩ := makeDirectoryExact done
  obtain ⟨leads, root⟩ := lineageLeads above
  rw [origin, root] at reached
  refine ⟨extended, fun other changed => ?_⟩
  rw [nodes] at changed ⊢
  split at changed
  · rename_i same
    subst same
    rw [if_pos rfl]
    exact ⟨free, rfl, names path, leads, reached⟩
  · exact absurd rfl changed

theorem ensureMade {directory path : String} (t : FileTree) (above : path ∈ lineage directory) :
    Made directory t (t.ensure path).tree := by
  unfold ensure
  split
  · rename_i t' done
    exact makeDirectoryMade above done
  · exact .refl directory t

theorem ensureLineageMade {directory : String} (t : FileTree) {paths : List String}
    (above : ∀ path ∈ paths, path ∈ lineage directory) :
    Made directory t (t.ensureLineage paths).tree := by
  induction paths with
  | nil => exact .refl directory t
  | cons path rest ih =>
    have higher := ih fun path mem => above path (List.mem_cons_of_mem _ mem)
    have own := above path List.mem_cons_self
    unfold ensureLineage
    split
    · dsimp only
      split
      · exact higher
      · exact higher.trans (ensureMade _ own)
    · exact ensureMade t own

theorem makeDirectoriesMade (t : FileTree) (directory : String) :
    Made directory t (t.makeDirectories directory).tree :=
  ensureLineageMade t fun _ mem => mem

end FileTree

namespace Record

theorem fileNameChars (r : Record) (i : Nat) :
    (r.fileName i).toList =
      "image-".toList ++ (Numeral.padded 3 i).toList ++ '.' :: r.extension.toList := by
  unfold fileName
  rw [String.toList_append, String.toList_append, String.toList_append, List.append_assoc]
  rfl

theorem fileNameHead (r : Record) (i : Nat) : (r.fileName i).toList.head? = some 'i' := by
  rw [fileNameChars]
  rfl

theorem fileNameNot (r : Record) (i : Nat) {text : String}
    (other : text.toList.head? ≠ some 'i') : r.fileName i ≠ text := by
  rintro rfl
  exact other (fileNameHead r i)

theorem fileNameRelative (r : Record) (i : Nat) :
    FileTree.startsAtRoot (r.fileName i) = false := by
  rw [FileTree.startsAtRoot, fileNameHead]
  rfl

theorem paddedDigits (width n : Nat) :
    ∀ c ∈ (Numeral.padded width n).toList, c.isDigit = true := by
  unfold Numeral.padded
  rw [String.toList_ofList]
  intro c mem
  rcases List.mem_append.mp mem with zero | digit
  · rw [List.eq_of_mem_replicate zero]
    rfl
  · exact Nat.isDigit_of_mem_toDigits (by omega) (by omega) digit

theorem fileNamePlain {r : Record} (plain : '/' ∉ r.format.toList) (i : Nat) :
    '/' ∉ (r.fileName i).toList := by
  have number : '/' ∉ (Numeral.padded 3 i).toList := fun mem =>
    absurd (paddedDigits 3 i _ mem) (by decide)
  have label : '/' ∉ r.extension.toList := by
    unfold extension
    split
    · decide
    · exact plain
  rw [fileNameChars]
  simp [number, label]

/- Without a slash in the label, the name of the file is a single one that leads further down. -/
theorem fileNamePlaced {r : Record} (plain : '/' ∉ r.format.toList) {i : Nat} {t : FileTree}
    {base place : Location} (reached : t.reach base (FileTree.names (r.fileName i)) = .ok place) :
    place = base ++ [r.fileName i] := by
  have single := FileTree.namesSingle (fileNamePlain plain i) (fileNameNot r i (by decide))
  rw [single] at reached
  obtain ⟨next, entered, rest⟩ := FileTree.reachCons.mp reached
  obtain rfl : next = place := Except.ok.inj rest
  exact FileTree.enterNamed entered (fileNameNot r i (by decide)) (fileNameNot r i (by decide))

end Record

theorem Effect.runAllCons {tree : FileTree} {effect : Effect}
    (running : (effect.run tree).aborted = false) (rest : List Effect) :
    (∃ fault, (effect.run tree).fault = some fault ∧
      runAll tree (effect :: rest) = effect.run tree) ∨
    (effect.run tree).fault = none ∧
      (runAll tree (effect :: rest)).tree = (runAll (effect.run tree).tree rest).tree ∧
      (runAll tree (effect :: rest)).fault = (runAll (effect.run tree).tree rest).fault := by
  rw [runAll]
  simp only [Outcome.ended, running, Bool.or_false]
  cases failed : (effect.run tree).fault with
  | some fault => exact .inl ⟨fault, rfl, if_pos rfl⟩
  | none => exact .inr ⟨rfl, rfl, rfl⟩

namespace Images

structure Saved (files : List (String × Record)) (t t' : FileTree) : Prop where
  extended : FileTree.Extends t t'
  changes : ∀ place, t'.node? place ≠ t.node? place → ∃ path record payload,
    (path, record) ∈ files ∧ record.payload = .ok payload ∧
    t'.node? place = some (.file payload) ∧
    t'.reach (t.origin path) (FileTree.names path) = .ok place

theorem Saved.refl (files : List (String × Record)) (t : FileTree) : Saved files t t :=
  ⟨.refl t, fun _ changed => absurd rfl changed⟩

theorem Saved.cons {file : String × Record} {files : List (String × Record)} {t t' t'' : FileTree}
    (first : Saved [file] t t') (second : Saved files t' t'') : Saved (file :: files) t t'' := by
  refine ⟨first.extended.trans second.extended, fun place changed => ?_⟩
  by_cases later : t''.node? place = t'.node? place
  · rw [later] at changed ⊢
    obtain ⟨path, record, payload, mem, read, saved, reached⟩ := first.changes place changed
    obtain rfl := List.mem_singleton.mp mem
    exact ⟨path, record, payload, List.mem_cons_self, read, saved, second.extended.reach reached⟩
  · obtain ⟨path, record, payload, mem, read, saved, reached⟩ := second.changes place later
    rw [first.extended.origin] at reached
    exact ⟨path, record, payload, List.mem_cons_of_mem _ mem, read, saved, reached⟩

theorem writeSaved {path : String} {record : Record} {payload : Bytes} {t t' : FileTree}
    (read : record.payload = .ok payload) (done : t.write path payload = .ok t') :
    Saved [(path, record)] t t' := by
  obtain ⟨place, extended, reached, nodes⟩ := FileTree.writeExact done
  refine ⟨extended, fun other changed => ?_⟩
  rw [nodes] at changed ⊢
  split at changed
  · rename_i same
    subst same
    rw [if_pos rfl]
    exact ⟨path, record, payload, List.mem_cons_self, read, rfl, reached⟩
  · exact absurd rfl changed

def saveAll (t : FileTree) (files : List (String × Record)) : Outcome :=
  Effect.runAll t (files.map fun file => save file.1 file.2)

/- Saving ends at the first record that cannot be read or written. -/
theorem saveAllCons (t : FileTree) (path : String) (record : Record)
    (rest : List (String × Record)) :
    (saveAll t ((path, record) :: rest)).fault ≠ none ∧
      (saveAll t ((path, record) :: rest)).tree = t ∨
    ∃ payload t', record.payload = .ok payload ∧ t.write path payload = .ok t' ∧
      (saveAll t ((path, record) :: rest)).fault = (saveAll t' rest).fault ∧
      (saveAll t ((path, record) :: rest)).tree = (saveAll t' rest).tree := by
  unfold saveAll
  rw [List.map_cons, Effect.runAll]
  cases read : record.payload with
  | error fault =>
    simp only [save, read, Effect.run]
    exact .inl ⟨nofun, rfl⟩
  | ok payload =>
    cases written : t.write path payload with
    | error fault =>
      simp only [save, read, Effect.run, written, Effect.saved]
      exact .inl ⟨nofun, rfl⟩
    | ok t' =>
      simp only [save, read, Effect.run, written, Effect.saved]
      exact .inr ⟨payload, t', rfl, written, rfl, rfl⟩

theorem saveAllSaved (files : List (String × Record)) (t : FileTree) :
    Saved files t (saveAll t files).tree := by
  induction files generalizing t with
  | nil => exact .refl [] t
  | cons file rest ih =>
    obtain ⟨path, record⟩ := file
    rcases saveAllCons t path record rest with ⟨_, kept⟩ | ⟨payload, t', read, written, _, later⟩
    · rw [kept]
      exact .refl _ t
    · rw [later]
      exact (writeSaved read written).cons (ih t')

/- Saving that does not end early has saved every file, and what is in its place then is from it or
from one after it. -/
theorem saveAllHeld {files : List (String × Record)} {t : FileTree}
    (done : (saveAll t files).fault = none) {i : Nat} {file : String × Record}
    (listed : files[i]? = some file) :
    ∃ place, (saveAll t files).tree.reach (t.origin file.1) (FileTree.names file.1) = .ok place ∧
      ∃ j other payload, i ≤ j ∧ files[j]? = some other ∧ other.2.payload = .ok payload ∧
        (saveAll t files).tree.node? place = some (.file payload) ∧
        (saveAll t files).tree.reach (t.origin other.1) (FileTree.names other.1) = .ok place := by
  induction files generalizing t i with
  | nil => contradiction
  | cons first rest ih =>
    obtain ⟨path, record⟩ := first
    rcases saveAllCons t path record rest with ⟨failed, _⟩ |
      ⟨payload, t', read, written, ended, later⟩
    · exact absurd done failed
    rw [ended] at done
    rw [later]
    obtain ⟨place, extended, reached, nodes⟩ := FileTree.writeExact written
    have saved := saveAllSaved rest t'
    cases i with
    | zero =>
      cases listed
      have still := saved.extended.reach reached
      refine ⟨place, still, ?_⟩
      by_cases changed : (saveAll t' rest).tree.node? place = t'.node? place
      · have own := changed.trans ((nodes place).trans (if_pos rfl))
        exact ⟨0, (path, record), payload, Nat.le_refl 0, rfl, read, own, still⟩
      · obtain ⟨path, record, payload, mem, read, held, reached⟩ := saved.changes place changed
        obtain ⟨j, found⟩ := List.mem_iff_getElem?.mp mem
        rw [extended.origin] at reached
        exact ⟨j + 1, (path, record), payload, Nat.zero_le _, found, read, held, reached⟩
    | succ i =>
      obtain ⟨place, reached, j, other, payload, after, found, read, held, also⟩ := ih done listed
      rw [extended.origin] at reached also
      exact ⟨place, reached, j + 1, other, payload, Nat.succ_le_succ after, found, read, held, also⟩

theorem placedAt (directory : String) (records : List Record) (i : Nat) :
    (placed directory records)[i]? = records[i]?.map fun record =>
      (FileTree.join directory (record.fileName (i + 1)), record) := by
  unfold placed
  rw [List.getElem?_map, List.getElem?_zipIdx, Option.map_map, Nat.zero_add]
  rfl

/-- The file name of a numbered record leads to a place from the directory for the images. Without
a slash in its label the place is right in the directory. -/
def Leads (tree after : FileTree) (directory : String) (record : Record) (number : Nat)
    (place : Location) : Prop :=
  ∃ base, after.reach (tree.origin directory) (FileTree.names directory) = .ok base ∧
    after.reach base (FileTree.names (record.fileName number)) = .ok place ∧
    ('/' ∉ record.format.toList → place = base ++ [record.fileName number])

def Holds (tree after : FileTree) (directory : String) (records : List Record) (i : Nat)
    (place : Location) : Prop :=
  ∃ record payload, records[i]? = some record ∧ record.payload = .ok payload ∧
    after.node? place = some (.file payload) ∧ Leads tree after directory record (i + 1) place

inductive Change (tree after : FileTree) (directory : String) (records : List Record)
    (place : Location) : Prop where
  | made {lead : List String} (free : tree.node? place = none)
      (made : after.node? place = some .directory) (leads : lead <+: FileTree.names directory)
      (reached : after.reach (tree.origin directory) lead = .ok place)
  | saved {i : Nat} (holds : Holds tree after directory records i place)

theorem joinLeads {tree after : FileTree} {directory : String} {record : Record} {number : Nat}
    {place : Location}
    (reached : after.reach (tree.origin (FileTree.join directory (record.fileName number)))
      (FileTree.names (FileTree.join directory (record.fileName number))) = .ok place) :
    Leads tree after directory record number place := by
  have relative := Record.fileNameRelative record number
  rw [FileTree.origin, FileTree.rootJoin directory relative, ← FileTree.origin,
    FileTree.namesJoin] at reached
  obtain ⟨base, reachedBase, reached⟩ := FileTree.reachAppend.mp reached
  exact ⟨base, reachedBase, reached, fun plain => Record.fileNamePlaced plain reached⟩

theorem placedHolds {tree after : FileTree} {directory : String} {records : List Record} {i : Nat}
    {file : String × Record} {payload : Bytes} {place : Location}
    (listed : (placed directory records)[i]? = some file) (read : file.2.payload = .ok payload)
    (saved : after.node? place = some (.file payload))
    (reached : after.reach (tree.origin file.1) (FileTree.names file.1) = .ok place) :
    Holds tree after directory records i place := by
  rw [placedAt, Option.map_eq_some_iff] at listed
  obtain ⟨record, listed, rfl⟩ := listed
  exact ⟨record, payload, listed, read, saved, joinLeads reached⟩

theorem writeMade (tree : FileTree) (directory : String) (records : List Record) :
    Saved (placed directory records) (tree.makeDirectories directory).tree
      (write tree directory records).1 := by
  have saved := saveAllSaved (placed directory records) (tree.makeDirectories directory).tree
  rcases @Effect.runAllCons tree (.makeDirectories directory) rfl
    ((placed directory records).map fun file => save file.1 file.2) with
    ⟨fault, failed, stopped⟩ | ⟨done, files, ended⟩
  · rw [write, effects, stopped]
    exact .refl _ _
  · rw [write, effects, files]
    exact saved

theorem writeTold {tree : FileTree} {directory : String} {records : List Record}
    {told : List String} (written : (write tree directory records).2 = .ok told) :
    let last := saveAll (tree.makeDirectories directory).tree (placed directory records)
    last.fault = none ∧ (write tree directory records).1 = last.tree := by
  rcases @Effect.runAllCons tree (.makeDirectories directory) rfl
    ((placed directory records).map fun file => save file.1 file.2) with
    ⟨fault, failed, stopped⟩ | ⟨done, files, ended⟩
  · rw [write, effects, stopped, failed] at written
    contradiction
  · refine ⟨?_, files⟩
    rw [write, effects, ended] at written
    change (saveAll (tree.makeDirectories directory).tree (placed directory records)).fault.elim
      _ _ = _ at written
    cases faultless :
        (saveAll (tree.makeDirectories directory).tree (placed directory records)).fault with
    | none => rfl
    | some fault =>
      rw [faultless] at written
      contradiction

/- Nothing changes but what had to be made on the way and what records have; and when paths are
told, the file name of each record leads to a place that it has, or one after it. -/
theorem changesTraced (tree : FileTree) (directory : String) (records : List Record) :
    let after := (write tree directory records).1
    (∀ place, after.node? place ≠ tree.node? place → Change tree after directory records place) ∧
    ∀ told, (write tree directory records).2 = .ok told →
      ∀ i record, records[i]? = some record → ∃ place,
        Leads tree after directory record (i + 1) place ∧
        ∃ j, i ≤ j ∧ Holds tree after directory records j place := by
  have made := FileTree.makeDirectoriesMade tree directory
  have saved := writeMade tree directory records
  constructor
  · intro place changed
    by_cases later : (write tree directory records).1.node? place =
        (tree.makeDirectories directory).tree.node? place
    · rw [later] at changed
      obtain ⟨free, directory, lead, leads, reached⟩ := made.changes place changed
      exact .made free (later.trans directory) leads (saved.extended.reach reached)
    · obtain ⟨path, record, payload, mem, read, file, reached⟩ := saved.changes place later
      obtain ⟨i, listed⟩ := List.mem_iff_getElem?.mp mem
      rw [made.extended.origin] at reached
      exact .saved (placedHolds listed read file reached)
  · intro told written i record listed
    obtain ⟨done, last⟩ := writeTold written
    have file := placedAt directory records i
    rw [listed] at file
    obtain ⟨place, reached, j, other, payload, after, found, read, held, also⟩ :=
      saveAllHeld done file
    rw [← last] at reached held also
    rw [made.extended.origin] at reached also
    exact ⟨place, joinLeads reached, j, after, placedHolds found read held also⟩

/- A label that names what is above: the file is neither in the directory nor below it. -/
theorem labelEscapes :
    let directory := "out/image-001./.."
    let records : List Record := [⟨"/../../evil", "QQ=="⟩]
    let after := (write {} directory records).1
    after.node? ["evil"] ≠ ({} : FileTree).node? ["evil"] ∧
    Change {} after directory records ["evil"] ∧
    (write {} directory records).2 = .ok ["out/image-001./../image-001./../../evil"] ∧
    records[0]? = some ⟨"/../../evil", "QQ=="⟩ ∧
    (∃ place, Leads {} after directory ⟨"/../../evil", "QQ=="⟩ 1 place ∧
      ∃ j, 0 ≤ j ∧ Holds {} after directory records j place) ∧
    after.reach (({} : FileTree).origin directory) (FileTree.names directory) = .ok ["out"] ∧
    after.node? ["evil"] = some (.file [65]) ∧ ¬ ["out"] <+: ["evil"] := by
  obtain ⟨traced, held⟩ :=
    changesTraced {} "out/image-001./.." [⟨"/../../evil", "QQ=="⟩]
  have changed : (write {} "out/image-001./.." [⟨"/../../evil", "QQ=="⟩]).1.node? ["evil"] ≠
      ({} : FileTree).node? ["evil"] := by decide
  exact ⟨changed, traced _ changed, rfl, rfl, held _ rfl 0 _ rfl, rfl, rfl, by decide⟩

end Images
end PaintedImages
