import PaintedImages.FileTree

/-! What paths name. The names of a joined path are those of its two sides, and a directory above a
path has the first few of its names. Nothing here looks at a tree. -/
namespace PaintedImages

namespace Parts

theorem betweenSplitOn (c : Char) (l : List Char) : between c l = l.splitOn c := by
  induction l with
  | nil => rfl
  | cons d rest ih =>
    rw [between, ih, List.splitOn_cons_eq_if_modifyHead]
    by_cases same : d = c
    · rw [if_pos same, if_pos (beq_iff_eq.mpr same)]
    · rw [if_neg same, if_neg (by simpa using same)]
      obtain ⟨part, parts, form⟩ := List.exists_cons_of_ne_nil (List.splitOn_ne_nil c rest)
      rw [form]
      rfl

theorem betweenClean (c : Char) (l : List Char) : ∀ part ∈ between c l, c ∉ part := by
  induction l with
  | nil => simp [between]
  | cons d rest ih =>
    rw [between]
    split
    · intro part mem
      rcases List.mem_cons.mp mem with rfl | later
      · exact List.not_mem_nil
      · exact ih part later
    · rename_i other
      split
      · rename_i head tail form
        rw [form] at ih
        intro part mem
        rcases List.mem_cons.mp mem with rfl | later
        · have clean := ih head List.mem_cons_self
          simp [Ne.symm other, clean]
        · exact ih part (List.mem_cons_of_mem _ later)
      · simpa using Ne.symm other

end Parts

namespace FileTree

theorem namesSlash (front back : String) :
    names (front ++ "/" ++ back) = names front ++ names back := by
  have chars : (front ++ "/" ++ back).toList = front.toList ++ '/' :: back.toList := by
    rw [String.toList_append, String.toList_append, List.append_assoc]
    rfl
  simp only [names, chars, Parts.betweenSplitOn, List.splitOn_append_cons_self, List.filter_append,
    List.map_append]

theorem namesEmpty : names "" = [] := rfl

theorem endsInSlashForm {path : String} (ends : endsInSlash path = true) :
    ∃ front : String, path = front ++ "/" := by
  have last : path.toList.getLast? = some '/' := by simpa [endsInSlash] using ends
  obtain ⟨front, form⟩ := List.getLast?_eq_some_iff.mp last
  refine ⟨String.ofList front, ?_⟩
  rw [← String.toList_inj, form, String.toList_append, String.toList_ofList]
  rfl

theorem namesJoin (directory name : String) :
    names (join directory name) = names directory ++ names name := by
  unfold join
  split
  · rename_i bare
    rcases Bool.or_eq_true_iff.mp bare with empty | ends
    · obtain rfl : directory = "" := String.isEmpty_iff.mp empty
      rw [String.empty_append, namesEmpty, List.nil_append]
    · obtain ⟨front, rfl⟩ := endsInSlashForm ends
      have plain := namesSlash front ""
      rw [namesEmpty, List.append_nil, String.append_empty] at plain
      rw [namesSlash, plain]
  · exact namesSlash directory name

theorem rootAppend {front : String} (nonempty : front ≠ "") (back : String) :
    startsAtRoot (front ++ back) = startsAtRoot front := by
  obtain ⟨c, rest, form⟩ := List.exists_cons_of_ne_nil (mt String.toList_eq_nil_iff.mp nonempty)
  rw [startsAtRoot, startsAtRoot, String.toList_append, form]
  rfl

theorem rootJoin (directory : String) {name : String} (relative : startsAtRoot name = false) :
    startsAtRoot (join directory name) = startsAtRoot directory := by
  by_cases empty : directory = ""
  · subst empty
    exact relative
  · unfold join
    split
    · exact rootAppend empty name
    · rw [String.append_assoc]
      exact rootAppend empty ("/" ++ name)

theorem namesSingle {name : String} (plain : '/' ∉ name.toList) (nonempty : name ≠ "") :
    names name = [name] := by
  have shown : (!name.toList.isEmpty) = true := by
    simpa using mt String.toList_eq_nil_iff.mp nonempty
  simp only [names, Parts.betweenSplitOn, List.splitOn_eq_singleton plain, List.filter_cons, shown,
    if_true, List.filter_nil, List.map_cons, List.map_nil, String.ofList_toList]

/- The directories above a path. Each is written with the first part of the path and some of the
parts after it, from the left. -/
theorem aboveForm {first : List Char} {parts : List (List Char)} {path : String}
    (mem : path ∈ above first parts) :
    parts ≠ [] ∧ ∃ lead, lead <+: parts.reverse ∧
      path = String.ofList (['/'].intercalate (first :: lead)) := by
  induction parts with
  | nil => contradiction
  | cons part rest ih =>
    refine ⟨List.cons_ne_nil _ _, ?_⟩
    have longer {lead : List (List Char)} (shorter : lead <+: rest.reverse) :
        lead <+: (part :: rest).reverse := by
      rw [List.reverse_cons]
      exact shorter.trans (List.prefix_append _ _)
    have later (mem : path ∈ above first rest) : ∃ lead, lead <+: (part :: rest).reverse ∧
        path = String.ofList (['/'].intercalate (first :: lead)) := by
      obtain ⟨_, lead, shorter, form⟩ := ih mem
      exact ⟨lead, longer shorter, form⟩
    rw [above] at mem
    split at mem
    · exact later mem
    · rcases List.mem_cons.mp mem with form | mem
      · have kept : rest.dropWhile isIdle <:+ rest := List.dropWhile_suffix isIdle
        exact ⟨_, longer (List.reverse_prefix.mpr kept), form⟩
      · exact later mem

theorem namesForm {parts : List (List Char)} (nonempty : parts ≠ [])
    (clean : ∀ part ∈ parts, '/' ∉ part) :
    names (String.ofList (['/'].intercalate parts)) =
      (parts.filter (!·.isEmpty)).map String.ofList := by
  rw [names, String.toList_ofList, Parts.betweenSplitOn, List.splitOn_intercalate _ clean nonempty]

theorem rootForm {first : List Char} (clean : '/' ∉ first) (parts : List (List Char)) :
    startsAtRoot (String.ofList (['/'].intercalate (first :: parts))) = true ↔
      first = [] ∧ parts ≠ [] := by
  rw [startsAtRoot, String.toList_ofList]
  cases parts with
  | nil =>
    cases first with
    | nil => simp
    | cons c first => simpa using fun same : c = '/' => clean (same ▸ List.mem_cons_self)
  | cons part parts =>
    cases first with
    | nil => simp
    | cons c first => simpa using fun same : c = '/' => clean (same ▸ List.mem_cons_self)

theorem lineageLeads {directory path : String} (mem : path ∈ lineage directory) :
    names path <+: names directory ∧ startsAtRoot path = startsAtRoot directory := by
  have clean := Parts.betweenClean '/' directory.toList
  have whole :
      directory = String.ofList (['/'].intercalate (Parts.between '/' directory.toList)) := by
    rw [Parts.betweenSplitOn, List.intercalate_splitOn, String.ofList_toList]
  unfold lineage at mem
  split at mem
  · rename_i first parts form
    rw [form] at clean whole
    obtain ⟨listed, shown⟩ := List.mem_filter.mp mem
    rcases List.mem_cons.mp listed with rfl | higher
    · exact ⟨List.prefix_rfl, rfl⟩
    · obtain ⟨nonempty, lead, shorter, rfl⟩ := aboveForm higher
      rw [List.reverse_reverse] at shorter
      have nonempty : parts ≠ [] := by simpa using nonempty
      have leads : first :: lead <+: first :: parts := List.prefix_cons_inj first |>.mpr shorter
      have cleanLead : ∀ part ∈ first :: lead, '/' ∉ part := fun part mem =>
        clean part (leads.subset mem)
      constructor
      · conv => rhs; rw [whole]
        rw [namesForm (List.cons_ne_nil _ _) cleanLead, namesForm (List.cons_ne_nil _ _) clean]
        exact (leads.filter _).map _
      · conv => rhs; rw [whole]
        have proper : first = [] → lead ≠ [] := by
          rintro rfl rfl
          simp at shown
        rw [Bool.eq_iff_iff, rootForm (clean first List.mem_cons_self) lead,
          rootForm (clean first List.mem_cons_self) parts]
        constructor
        · exact fun root => ⟨root.1, nonempty⟩
        · exact fun root => ⟨root.1, proper root.1⟩
  · contradiction

end FileTree
end PaintedImages
