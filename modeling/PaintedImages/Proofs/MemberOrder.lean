import Mathlib.Algebra.Group.Nat.Defs
import Mathlib.Data.List.Nodup
import PaintedImages.Json.Reader

/-! The order of members. A value that was read has the members of each object in the order of their
names. Where names are distinct that order is all that reading can change: members are looked up in
any order the same, and values that differ by the order of members alone come out as one. -/
namespace PaintedImages.Json

def Ascending (members : List (String × Json)) : Prop := (members.map Prod.fst).Pairwise (· < ·)

section Members
variable {name : String} {value : Json} {members others : List (String × Json)}

theorem insertPerm (fresh : name ∉ members.map Prod.fst) :
    (insert name value members).Perm ((name, value) :: members) := by
  induction members with
  | nil => exact .refl _
  | cons member rest ih =>
    obtain ⟨n, v⟩ := member
    have other : n ≠ name := fun same => fresh (same ▸ List.mem_cons_self)
    have later : name ∉ rest.map Prod.fst := fun mem => fresh (List.mem_cons_of_mem _ mem)
    simp only [insert, if_neg other]
    split
    · exact .refl _
    · exact ((ih later).cons _).trans (.swap _ _ _)

theorem insertMember {member : String × Json} (mem : member ∈ insert name value members) :
    member.1 = name ∨ member ∈ members := by
  induction members with
  | nil => exact .inl (congrArg Prod.fst (List.mem_singleton.mp mem))
  | cons head rest ih =>
    obtain ⟨n, v⟩ := head
    simp only [insert] at mem
    split at mem
    · cases mem with
      | head => exact .inl rfl
      | tail _ later => exact .inr (List.mem_cons_of_mem _ later)
    · split at mem
      · cases mem with
        | head => exact .inl rfl
        | tail _ later => exact .inr later
      · cases mem with
        | head => exact .inr List.mem_cons_self
        | tail _ later => exact (ih later).imp id (List.mem_cons_of_mem _)

theorem insertAscending (ascending : Ascending members) (name : String) (value : Json) :
    Ascending (insert name value members) := by
  unfold Ascending at ascending ⊢
  induction members with
  | nil => exact List.pairwise_singleton _ _
  | cons head rest ih =>
    obtain ⟨n, v⟩ := head
    obtain ⟨first, later⟩ := List.pairwise_cons.mp ascending
    simp only [insert]
    split
    · rename_i same
      subst same
      exact ascending
    · rename_i other
      split
      · rename_i before
        refine List.pairwise_cons.mpr ⟨?_, ascending⟩
        intro m mem
        obtain rfl | mem := List.mem_cons.mp mem
        · exact before
        · exact String.lt_trans before (first m mem)
      · rename_i notBefore
        refine List.pairwise_cons.mpr ⟨?_, ih later⟩
        intro m mem
        obtain ⟨member, inserted, rfl⟩ := List.mem_map.mp mem
        obtain same | kept := insertMember inserted
        · rw [same]
          exact Std.lt_of_le_of_ne (String.not_lt.mp notBefore) other
        · exact first _ (List.mem_map_of_mem kept)

theorem gatheredPerm (distinct : ((members ++ others).map Prod.fst).Nodup) :
    (members.foldl (fun ms m => insert m.1 m.2 ms) others).Perm (members ++ others) := by
  induction members generalizing others with
  | nil => exact .refl _
  | cons member rest ih =>
    have moved : (rest ++ member :: others).Perm (member :: (rest ++ others)) :=
      List.perm_middle
    have apart : ((rest ++ member :: others).map Prod.fst).Nodup :=
      (moved.map Prod.fst).nodup_iff.mpr distinct
    have fresh : member.1 ∉ others.map Prod.fst := by
      rw [List.map_append, List.nodup_append] at apart
      exact (List.nodup_cons.mp apart.2.1).1
    have inserted : (rest ++ insert member.1 member.2 others).Perm (rest ++ member :: others) :=
      (insertPerm fresh).append_left rest
    have gathered := ih ((inserted.map Prod.fst).nodup_iff.mpr apart)
    exact gathered.trans (inserted.trans moved)

theorem gatheredAscending (ascending : Ascending others) :
    Ascending (members.foldl (fun ms m => insert m.1 m.2 ms) others) := by
  induction members generalizing others with
  | nil => exact ascending
  | cons member rest ih => exact ih (insertAscending ascending _ _)

theorem inOrderPerm (distinct : (members.map Prod.fst).Nodup) :
    (inOrder members).Perm members := by
  have gathered := @gatheredPerm members [] (by simpa using distinct)
  rwa [List.append_nil] at gathered

theorem inOrderAscending (members : List (String × Json)) : Ascending (inOrder members) :=
  gatheredAscending .nil

theorem ascendingUnique (first : Ascending members) (second : Ascending others)
    (perm : members.Perm others) : members = others := by
  have apart : ∀ a b, a ∈ members → b ∈ others → a.1 < b.1 → b.1 < a.1 → a = b :=
    fun a b _ _ before after => absurd after (String.lt_asymm before)
  exact perm.eq_of_pairwise apart (List.pairwise_map.mp first) (List.pairwise_map.mp second)

theorem inOrderAlike (distinct : (members.map Prod.fst).Nodup) (perm : members.Perm others) :
    inOrder members = inOrder others := by
  have distinctOthers := (perm.map Prod.fst).nodup_iff.mp distinct
  refine ascendingUnique (inOrderAscending _) (inOrderAscending _) ?_
  exact (inOrderPerm distinct).trans (perm.trans (inOrderPerm distinctOthers).symm)

theorem inOrderStays (ascending : Ascending members) : inOrder members = members := by
  have distinct : (members.map Prod.fst).Nodup :=
    List.Pairwise.imp (fun before => Std.ne_of_lt before) ascending
  exact ascendingUnique (inOrderAscending _) ascending (inOrderPerm distinct)

theorem lookupPerm (distinct : (members.map Prod.fst).Nodup) (perm : members.Perm others)
    (name : String) : members.lookup name = others.lookup name := by
  induction perm with
  | nil => rfl
  | cons member _ ih =>
    obtain ⟨n, v⟩ := member
    simp only [List.lookup_cons, ih (List.nodup_cons.mp distinct).2]
  | swap first second rest =>
    obtain ⟨m, v⟩ := first
    obtain ⟨n, w⟩ := second
    have apart : n ≠ m := fun same => (List.nodup_cons.mp distinct).1 (same ▸ List.mem_cons_self)
    simp only [List.lookup_cons]
    by_cases one : name = m
    · subst one
      have other : (name == n) = false := beq_eq_false_iff_ne.mpr (Ne.symm apart)
      simp only [other, BEq.rfl]
    · have other : (name == m) = false := beq_eq_false_iff_ne.mpr one
      simp only [other]
  | trans before _ ihBefore ihAfter =>
    exact (ihBefore distinct).trans (ihAfter ((before.map Prod.fst).nodup_iff.mp distinct))

end Members

mutual

def sorted : Json → Json
  | .array items => .array (sortedItems items)
  | .object members => .object (inOrder (sortedMembers members))
  | plain => plain

def sortedItems : List Json → List Json
  | [] => []
  | item :: rest => sorted item :: sortedItems rest

def sortedMembers : List (String × Json) → List (String × Json)
  | [] => []
  | (name, value) :: rest => (name, sorted value) :: sortedMembers rest

end

theorem sortedItemsExact (items : List Json) : sortedItems items = items.map sorted := by
  induction items with
  | nil => rfl
  | cons item rest ih => rw [sortedItems, ih, List.map_cons]

theorem sortedMembersExact (members : List (String × Json)) :
    sortedMembers members = members.map fun m => (m.1, sorted m.2) := by
  induction members with
  | nil => rfl
  | cons member rest ih => rw [sortedMembers, ih, List.map_cons]

theorem sortedNames (members : List (String × Json)) :
    (sortedMembers members).map Prod.fst = members.map Prod.fst := by
  rw [sortedMembersExact, List.map_map]
  rfl

def Fits (n : Int) : Prop := -((2 ^ 63 : Nat) : Int) ≤ n ∧ n < ((2 ^ 64 : Nat) : Int)

/-- Its own text is read as the number, which is so of every integer that fits, and of reals unless
reading rounds them. -/
def ReadBack (n : JsonNumber) : Prop :=
  ∃ written, numeral (numberText n) = some (written, []) ∧ written.number = some n

inductive Formed (before : String → String → Prop) : Json → Prop where
  | null : Formed before .null
  | boolean (value : Bool) : Formed before (.boolean value)
  | integer {n : Int} (fits : Fits n) : Formed before (.number (.integer n))
  | real {negative : Bool} {magnitude : Binary.Dyadic}
      (readBack : ReadBack (.real negative magnitude)) :
      Formed before (.number (.real negative magnitude))
  | string (text : String) : Formed before (.string text)
  | array {items : List Json} (each : ∀ item ∈ items, Formed before item) :
      Formed before (.array items)
  | object {members : List (String × Json)} (names : (members.map Prod.fst).Pairwise before)
      (each : ∀ member ∈ members, Formed before member.2) : Formed before (.object members)

abbrev Whole : Json → Prop := Formed (· ≠ ·)

abbrev Canonical : Json → Prop := Formed (· < ·)

theorem canonicalWhole {j : Json} (canonical : j.Canonical) : j.Whole := by
  induction canonical with
  | null => exact .null
  | boolean value => exact .boolean value
  | integer fits => exact .integer fits
  | real readBack => exact .real readBack
  | string text => exact .string text
  | array _ each => exact .array each
  | object names _ each => exact .object (names.imp fun before => Std.ne_of_lt before) each

theorem canonicalSorted {j : Json} (canonical : j.Canonical) : j.sorted = j := by
  induction canonical with
  | array _ each =>
    rw [sorted, sortedItemsExact, List.map_congr_left each, List.map_id']
  | object names _ each =>
    rename_i members _
    have same : sortedMembers members = members := by
      rw [sortedMembersExact]
      exact (List.map_congr_left fun m mem => congrArg (m.1, ·) (each m mem)).trans (List.map_id' _)
    rw [sorted, same, inOrderStays names]
  | _ => rfl

inductive Reordered : Json → Json → Prop where
  | refl (j : Json) : Reordered j j
  | trans {i j k : Json} (first : Reordered i j) (second : Reordered j k) : Reordered i k
  | members {members others : List (String × Json)} (perm : members.Perm others) :
      Reordered (.object members) (.object others)
  | item (before : List Json) {j k : Json} (inside : Reordered j k) (after : List Json) :
      Reordered (.array (before ++ j :: after)) (.array (before ++ k :: after))
  | member (before : List (String × Json)) (name : String) {j k : Json} (inside : Reordered j k)
      (after : List (String × Json)) :
      Reordered (.object (before ++ (name, j) :: after)) (.object (before ++ (name, k) :: after))

theorem reorderedSorted {j k : Json} (reordered : Reordered j k) (whole : j.Whole) :
    j.sorted = k.sorted ∧ k.Whole := by
  induction reordered with
  | refl j => exact ⟨rfl, whole⟩
  | trans _ _ first second =>
    obtain ⟨same, wholeNext⟩ := first whole
    exact (second wholeNext).imp same.trans id
  | members perm =>
    cases whole with
    | object names each =>
      refine ⟨?_, .object ((perm.map Prod.fst).nodup_iff.mp names) fun m mem =>
        each m (perm.mem_iff.mpr mem)⟩
      have moved := perm.map fun m : String × Json => (m.1, sorted m.2)
      rw [← sortedMembersExact, ← sortedMembersExact] at moved
      rw [sorted, sorted, inOrderAlike (by rwa [sortedNames]) moved]
  | item before _ after ih =>
    cases whole with
    | array each =>
      obtain ⟨same, inner⟩ := ih (each _ (List.mem_append_right _ List.mem_cons_self))
      refine ⟨?_, .array fun item mem => ?_⟩
      · simp only [sorted, sortedItemsExact, List.map_append, List.map_cons, same]
      · obtain early | late := List.mem_append.mp mem
        · exact each item (List.mem_append_left _ early)
        · obtain rfl | later := List.mem_cons.mp late
          · exact inner
          · exact each item (List.mem_append_right _ (List.mem_cons_of_mem _ later))
  | member before name _ after ih =>
    cases whole with
    | object names each =>
      obtain ⟨same, inner⟩ := ih (each _ (List.mem_append_right _ List.mem_cons_self))
      refine ⟨?_, .object (by simpa using names) fun m mem => ?_⟩
      · simp only [sorted, sortedMembersExact, List.map_append, List.map_cons, same]
      · obtain early | late := List.mem_append.mp mem
        · exact each m (List.mem_append_left _ early)
        · obtain rfl | later := List.mem_cons.mp late
          · exact inner
          · exact each m (List.mem_append_right _ (List.mem_cons_of_mem _ later))

end PaintedImages.Json
