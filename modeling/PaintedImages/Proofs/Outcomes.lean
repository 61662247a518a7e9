import PaintedImages.Message

/-! What a composition of steps that may fail comes to, told by what its steps come to. -/
namespace PaintedImages
variable {ε α β γ : Type}

theorem mapOk {x : Except ε α} {f : α → β} {b : β} (ok : x.map f = .ok b) :
    ∃ a, x = .ok a ∧ f a = b := by
  cases x with
  | error e => contradiction
  | ok a => exact ⟨a, rfl, Except.ok.inj ok⟩

theorem bindOk {x : Except ε α} {f : α → Except ε β} {b : β} (ok : x.bind f = .ok b) :
    ∃ a, x = .ok a ∧ f a = .ok b := by
  cases x with
  | error e => contradiction
  | ok a => exact ⟨a, rfl, ok⟩

theorem andThenOk {x : Traced (Except ε α)} {f : α → Traced (Except ε β)} {b : β}
    (ok : (x.andThen f).value = .ok b) : ∃ a, x.value = .ok a ∧ (f a).value = .ok b := by
  rw [Traced.andThen] at ok
  cases found : x.value with
  | error e =>
    rw [found] at ok
    contradiction
  | ok a =>
    rw [found] at ok
    exact ⟨a, rfl, ok⟩

theorem andThenCongr {x : Traced (Except ε α)} {f g : α → Traced (Except ε β)}
    (same : ∀ a, x.value = .ok a → f a = g a) : x.andThen f = x.andThen g := by
  cases found : x.value with
  | error e => simp only [Traced.andThen, found]
  | ok a => simp only [Traced.andThen, found, same a found]

theorem andThenAssoc (x : Traced (Except ε α)) (f : α → Traced (Except ε β))
    (g : β → Traced (Except ε γ)) :
    (x.andThen f).andThen g = x.andThen fun a => (f a).andThen g := by
  cases first : x.value with
  | error e => simp only [Traced.andThen, first]
  | ok a =>
    cases second : (f a).value with
    | error e => simp only [Traced.andThen, first, second]
    | ok b => simp only [Traced.andThen, first, second, List.append_assoc]

/-! The same step for each element of a list, up to the first failure. -/

theorem eachRead {f : α → Except ε β} {l : List α} {bs : List β} (read : l.mapM f = .ok bs) :
    (∀ a ∈ l, ∃ b, f a = .ok b) ∧ ∀ b, b ∈ bs ↔ ∃ a ∈ l, f a = .ok b := by
  induction l generalizing bs with
  | nil =>
    cases read
    simp
  | cons head rest ih =>
    rw [List.mapM_cons] at read
    obtain ⟨first, here, read⟩ := bindOk read
    obtain ⟨others, later, told⟩ := bindOk read
    cases told
    obtain ⟨each, members⟩ := ih later
    constructor
    · intro a mem
      rcases List.mem_cons.mp mem with rfl | mem
      · exact ⟨first, here⟩
      · exact each a mem
    · intro b
      simp only [List.mem_cons, exists_eq_or_imp, members, here, Except.ok.injEq]
      exact or_congr_left eq_comm

theorem eachFails {f : α → Except ε β} {l : List α} {e : ε} :
    l.mapM f = .error e ↔ ∃ front x back, l = front ++ x :: back ∧
      (∀ a ∈ front, ∃ b, f a = .ok b) ∧ f x = .error e := by
  constructor
  · intro failed
    induction l with
    | nil => contradiction
    | cons head rest ih =>
      rw [List.mapM_cons] at failed
      cases first : f head with
      | error fault =>
        rw [first] at failed
        cases failed
        exact ⟨[], head, rest, rfl, nofun, first⟩
      | ok b =>
        cases later : rest.mapM f with
        | ok bs =>
          rw [first, later] at failed
          contradiction
        | error fault =>
          rw [first, later] at failed
          cases failed
          obtain ⟨front, x, back, rfl, before, here⟩ := ih later
          refine ⟨head :: front, x, back, rfl, ?_, here⟩
          intro a mem
          rcases List.mem_cons.mp mem with rfl | mem
          · exact ⟨b, first⟩
          · exact before a mem
  · rintro ⟨front, x, back, rfl, before, here⟩
    induction front with
    | nil =>
      rw [List.nil_append, List.mapM_cons, here]
      rfl
    | cons head front ih =>
      obtain ⟨b, first⟩ := before head List.mem_cons_self
      have later := ih fun a mem => before a (List.mem_cons_of_mem _ mem)
      rw [List.cons_append, List.mapM_cons, first, later]
      rfl

theorem eachOk {f : α → Except ε β} {l : List α} :
    (∃ bs, l.mapM f = .ok bs) ↔ ∀ a ∈ l, ∃ b, f a = .ok b := by
  constructor
  · rintro ⟨bs, read⟩
    exact (eachRead read).1
  · intro each
    cases read : l.mapM f with
    | ok bs => exact ⟨bs, rfl⟩
    | error e =>
      obtain ⟨front, x, back, rfl, _, here⟩ := eachFails.mp read
      obtain ⟨b, ok⟩ := each x (List.mem_append_right front List.mem_cons_self)
      rw [here] at ok
      contradiction

end PaintedImages
