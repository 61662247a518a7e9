import PaintedImages.XObject

/-! What a walk reads: the pages of a document, the operators of each page's content, and the
external objects that a page knows by name. -/
namespace PaintedImages

inductive Operand where
  | integer (value : Int)
  | real (bits : UInt32)
  | name (name : Bytes)
  | string (bytes : Bytes)
  | array (items : List Operand)
  | other
  deriving Repr

def Operand.kind : Operand → String
  | integer _ => "integer"
  | real _ => "real"
  | name _ => "name"
  | string _ => "string"
  | array _ => "array"
  | other => "other"

structure Operation where
  keyword : String
  operands : List Operand
  deriving Repr

structure PageMap where
  entries : List (UInt32 × ObjectId)
  ascending : (entries.map Prod.fst).Pairwise (· < ·)
  deriving Repr

namespace PageMap

def insertEntry (number : UInt32) (page : ObjectId) :
    List (UInt32 × ObjectId) → List (UInt32 × ObjectId)
  | [] => [(number, page)]
  | (n, p) :: rest =>
    if number < n then (number, page) :: (n, p) :: rest
    else if number = n then (number, page) :: rest
    else (n, p) :: insertEntry number page rest

theorem mem_insertEntry {number n : UInt32} {page : ObjectId} {entries : List (UInt32 × ObjectId)}
    (h : n ∈ (insertEntry number page entries).map Prod.fst) :
    n = number ∨ n ∈ entries.map Prod.fst := by
  induction entries with
  | nil => simpa [insertEntry] using h
  | cons entry rest ih =>
    obtain ⟨m, p⟩ := entry
    simp only [insertEntry] at h
    split at h
    · simpa using h
    · split at h
      · rename_i same
        subst same
        simp only [List.map_cons, List.mem_cons] at h ⊢
        rcases h with h | h
        · exact .inl h
        · exact .inr (.inr h)
      · simp only [List.map_cons, List.mem_cons] at h ⊢
        rcases h with h | h
        · exact .inr (.inl h)
        · rcases ih h with h | h
          · exact .inl h
          · exact .inr (.inr h)

theorem ascending_insertEntry {number : UInt32} {page : ObjectId}
    {entries : List (UInt32 × ObjectId)} (h : (entries.map Prod.fst).Pairwise (· < ·)) :
    ((insertEntry number page entries).map Prod.fst).Pairwise (· < ·) := by
  induction entries with
  | nil => simp [insertEntry]
  | cons entry rest ih =>
    obtain ⟨m, p⟩ := entry
    simp only [List.map_cons, List.pairwise_cons] at h
    simp only [insertEntry]
    split
    · rename_i below
      simp only [List.map_cons, List.pairwise_cons, List.mem_cons]
      refine ⟨?_, h.1, h.2⟩
      rintro n (rfl | mem)
      · exact below
      · exact UInt32.lt_trans below (h.1 n mem)
    · split
      · rename_i same
        subst same
        simpa using h
      · rename_i notBelow different
        simp only [List.map_cons, List.pairwise_cons]
        refine ⟨fun n mem => ?_, ih h.2⟩
        rcases mem_insertEntry mem with rfl | mem
        · exact UInt32.lt_of_le_of_ne (UInt32.not_lt.1 notBelow) (Ne.symm different)
        · exact h.1 n mem

def empty : PageMap := ⟨[], .nil⟩

def insert (m : PageMap) (number : UInt32) (page : ObjectId) : PageMap :=
  ⟨insertEntry number page m.entries, ascending_insertEntry m.ascending⟩

def ofList (entries : List (UInt32 × ObjectId)) : PageMap :=
  entries.foldl (fun m entry => m.insert entry.1 entry.2) empty

def size (m : PageMap) : Nat := m.entries.length

def find? (m : PageMap) (number : UInt32) : Option ObjectId := m.entries.lookup number

end PageMap

structure PageSource where
  pages : PageMap
  operations : ObjectId → Traced (Except Fault (List Operation))
  lookup : ObjectId → Bytes → Traced (Except Fault (Option XObject))

end PaintedImages
