import PaintedImages.Proofs.MovedOut

/-! The resources a page paints from. Above a page stand the nodes that one parent reference after
the other names, without end where they form a cycle. A page uses the resources of the first node
that has any, itself included, if that is one of the first sixty-four, and nothing of the nodes
above it. What an object found there is as an external object is not looked at here. -/
namespace PaintedImages.Document

def nodeAbove (doc : Document) (page : ObjectId) : (steps : Nat) → Option ObjectId
  | 0 => some page
  | steps + 1 => (doc.nodeAbove page steps).bind doc.parent?

def resourcesAbove (doc : Document) (page : ObjectId) (steps : Nat) : Option Dictionary :=
  (doc.nodeAbove page steps).bind doc.ownResources?

structure Nearest (doc : Document) (page : ObjectId) (steps : Nat) (resources : Dictionary) :
    Prop where
  within : steps < 64
  has : doc.resourcesAbove page steps = some resources
  first : ∀ below < steps, doc.resourcesAbove page below = none

inductive Tells (doc : Document) (resources : Dictionary) (name : Bytes) :
    Except Fault (Option XObject) → Prop where
  | noTable (absent : (resources.find? "XObject").bind doc.resolveDictionary? = none) :
      Tells doc resources name (.ok none)
  | noName {table : Dictionary}
      (found : (resources.find? "XObject").bind doc.resolveDictionary? = some table)
      (absent : List.lookup name table = none) : Tells doc resources name (.ok none)
  | nowhere {table : Dictionary} {entry : Object} {fault : DocumentFault}
      (found : (resources.find? "XObject").bind doc.resolveDictionary? = some table)
      (named : List.lookup name table = some entry) (lost : doc.resolve entry = .error fault) :
      Tells doc resources name (.ok none)
  | object {table : Dictionary} {entry o : Object}
      (found : (resources.find? "XObject").bind doc.resolveDictionary? = some table)
      (named : List.lookup name table = some entry) (resolved : doc.resolve entry = .ok o) :
      Tells doc resources name ((doc.xobject o).map some)

inductive Answered (doc : Document) (page : ObjectId) (name : Bytes) :
    Except Fault (Option XObject) → Prop where
  | near {steps : Nat} {resources : Dictionary} {answer : Except Fault (Option XObject)}
      (nearest : doc.Nearest page steps resources) (told : doc.Tells resources name answer) :
      Answered doc page name answer
  | bare (nothing : ∀ steps < 64, doc.resourcesAbove page steps = none) :
      Answered doc page name (.ok none)

section Search
variable (doc : Document)

theorem nodeAboveNext (page : ObjectId) (steps : Nat) :
    doc.nodeAbove page (steps + 1) =
      (doc.parent? page).bind fun parent => doc.nodeAbove parent steps := by
  induction steps with
  | zero =>
    rw [nodeAbove, nodeAbove, Option.bind_some]
    cases doc.parent? page <;> rfl
  | succ steps ih =>
    rw [nodeAbove, ih, Option.bind_assoc]
    rfl

theorem resourcesAboveNext (page : ObjectId) (steps : Nat) :
    doc.resourcesAbove page (steps + 1) =
      (doc.parent? page).bind fun parent => doc.resourcesAbove parent steps := by
  rw [resourcesAbove, nodeAboveNext, Option.bind_assoc]
  rfl

theorem resourcesAboveSelf (page : ObjectId) :
    doc.resourcesAbove page 0 = doc.ownResources? page := rfl

theorem resourcesFromNone (limit : Nat) (page : ObjectId) :
    doc.resourcesFrom limit page = none ↔
      ∀ steps < limit, doc.resourcesAbove page steps = none := by
  induction limit generalizing page with
  | zero => exact ⟨fun _ steps within => absurd within (Nat.not_lt_zero steps), fun _ => rfl⟩
  | succ limit ih =>
    rw [resourcesFromSucc, Option.or_eq_none_iff]
    constructor
    · rintro ⟨own, above⟩ steps within
      cases steps with
      | zero => exact own
      | succ steps =>
        rw [resourcesAboveNext]
        cases parent : doc.parent? page with
        | none => rfl
        | some up =>
          rw [parent, Option.bind_some] at above
          exact (ih up).mp above steps (Nat.lt_of_succ_lt_succ within)
    · intro bare
      refine ⟨bare 0 (Nat.succ_pos limit), ?_⟩
      cases parent : doc.parent? page with
      | none => rfl
      | some up =>
        rw [Option.bind_some, ih]
        intro steps within
        have above := bare (steps + 1) (Nat.succ_lt_succ within)
        rwa [resourcesAboveNext, parent, Option.bind_some] at above

/- A node with resources of its own ends the search; without any, the first ones are found from its
parent on. -/
theorem resourcesFromFirst {limit : Nat} {page : ObjectId} {resources : Dictionary} {steps : Nat}
    (within : steps < limit) (has : doc.resourcesAbove page steps = some resources)
    (first : ∀ below < steps, doc.resourcesAbove page below = none) :
    doc.resourcesFrom limit page = some resources := by
  induction steps generalizing limit page with
  | zero =>
    obtain ⟨limit, rfl⟩ := Nat.exists_eq_add_one_of_ne_zero (Nat.ne_of_gt within)
    rw [resourcesFromSucc, ← resourcesAboveSelf, has]
    rfl
  | succ steps ih =>
    obtain ⟨limit, rfl⟩ :=
      Nat.exists_eq_add_one_of_ne_zero (Nat.ne_of_gt (Nat.zero_lt_of_lt within))
    have own := first 0 (Nat.succ_pos steps)
    rw [resourcesAboveNext] at has
    obtain ⟨up, parent, above⟩ := Option.bind_eq_some_iff.mp has
    rw [resourcesFromSucc, ← resourcesAboveSelf, own, Option.none_or, parent, Option.bind_some]
    refine ih (Nat.lt_of_succ_lt_succ within) above fun below lower => ?_
    have missing := first (below + 1) (Nat.succ_lt_succ lower)
    rwa [resourcesAboveNext, parent, Option.bind_some] at missing

theorem nearestExists {page : ObjectId} {steps : Nat} {resources : Dictionary}
    (within : steps < 64) (has : doc.resourcesAbove page steps = some resources) :
    ∃ steps resources, doc.Nearest page steps resources := by
  induction steps using Nat.strongRecOn generalizing resources with
  | ind steps ih =>
    by_cases first : ∀ below < steps, doc.resourcesAbove page below = none
    · exact ⟨steps, resources, within, has, first⟩
    · obtain ⟨below, lower⟩ := Classical.not_forall.mp first
      obtain ⟨lower, found⟩ := Classical.not_imp.mp lower
      obtain ⟨nearer, has⟩ := Option.ne_none_iff_exists'.mp found
      exact ih below lower (Nat.lt_trans lower within) has

theorem resourcesNearest {page : ObjectId} {steps : Nat} {resources : Dictionary}
    (nearest : doc.Nearest page steps resources) : doc.resources page = some resources :=
  resourcesFromFirst doc nearest.within nearest.has nearest.first

theorem resourcesBare {page : ObjectId}
    (bare : ∀ steps < 64, doc.resourcesAbove page steps = none) : doc.resources page = none :=
  (resourcesFromNone doc 64 page).mpr bare

theorem resourcesCases (page : ObjectId) :
    (∃ steps resources, doc.Nearest page steps resources) ∨
      ∀ steps < 64, doc.resourcesAbove page steps = none := by
  by_cases bare : ∀ steps < 64, doc.resourcesAbove page steps = none
  · exact .inr bare
  · obtain ⟨steps, found⟩ := Classical.not_forall.mp bare
    obtain ⟨within, found⟩ := Classical.not_imp.mp found
    obtain ⟨resources, has⟩ := Option.ne_none_iff_exists'.mp found
    exact .inl (nearestExists doc within has)

end Search

section Names
variable {doc : Document} {resources : Dictionary} {name : Bytes}

theorem tellsExists (doc : Document) (resources : Dictionary) (name : Bytes) :
    ∃ answer, doc.Tells resources name answer := by
  cases found : (resources.find? "XObject").bind doc.resolveDictionary? with
  | none => exact ⟨_, .noTable found⟩
  | some table =>
    cases named : List.lookup name table with
    | none => exact ⟨_, .noName found named⟩
    | some entry =>
      cases resolved : doc.resolve entry with
      | error fault => exact ⟨_, .nowhere found named resolved⟩
      | ok o => exact ⟨_, .object found named resolved⟩

theorem lookupTold {page : ObjectId} {answer : Except Fault (Option XObject)}
    (used : doc.resources page = some resources) (told : doc.Tells resources name answer) :
    doc.lookup page name = answer := by
  rw [lookup, xobjects?, used, Option.bind_some]
  cases told with
  | noTable absent => rw [absent]; rfl
  | noName found absent => rw [found, Option.bind_some, absent]
  | nowhere found named lost => rw [found, Option.bind_some, named]; simp only [lost]
  | object found named resolved => rw [found, Option.bind_some, named]; simp only [resolved]

theorem lookupBare {page : ObjectId} (unused : doc.resources page = none) :
    doc.lookup page name = .ok none := by
  rw [lookup, xobjects?, unused]
  rfl

theorem lookupAnswered {page : ObjectId} {answer : Except Fault (Option XObject)}
    (answered : doc.Answered page name answer) : doc.lookup page name = answer := by
  cases answered with
  | near nearest told => exact lookupTold (resourcesNearest doc nearest) told
  | bare nothing => exact lookupBare (resourcesBare doc nothing)

theorem answeredExists (doc : Document) (page : ObjectId) (name : Bytes) :
    ∃ answer, doc.Answered page name answer := by
  obtain ⟨steps, resources, nearest⟩ | bare := resourcesCases doc page
  · obtain ⟨answer, told⟩ := tellsExists doc resources name
    exact ⟨answer, .near nearest told⟩
  · exact ⟨_, .bare bare⟩

end Names

/-! What the search goes over. -/

section Nodes
variable (doc : Document)

theorem ancestorsAt (limit : Nat) (page : ObjectId) {i : Nat} (within : i < limit) :
    (doc.ancestors limit page)[i]? = doc.nodeAbove page i := by
  induction limit generalizing page i with
  | zero => contradiction
  | succ limit ih =>
    rw [ancestors]
    cases i with
    | zero => rfl
    | succ i =>
      rw [List.getElem?_cons_succ, nodeAboveNext]
      cases doc.parent? page with
      | none => rfl
      | some up => exact ih up (Nat.lt_of_succ_lt_succ within)

theorem ancestorsFew (limit : Nat) (page : ObjectId) :
    (doc.ancestors limit page).length ≤ limit := by
  induction limit generalizing page with
  | zero => exact Nat.le_refl 0
  | succ limit ih =>
    rw [ancestors, List.length_cons]
    cases doc.parent? page with
    | none => exact Nat.succ_le_succ (Nat.zero_le limit)
    | some up => exact Nat.succ_le_succ (ih up)

theorem resourcesFromAncestors (limit : Nat) (page : ObjectId) :
    doc.resourcesFrom limit page = (doc.ancestors limit page).findSome? doc.ownResources? := by
  induction limit generalizing page with
  | zero => rfl
  | succ limit ih =>
    rw [resourcesFromSucc, ancestors, List.findSome?_cons]
    cases doc.ownResources? page with
    | some resources => rfl
    | none =>
      cases doc.parent? page with
      | none => rfl
      | some up => exact ih up

theorem nodeAboveAdd (page : ObjectId) (steps more : Nat) :
    doc.nodeAbove page (steps + more) =
      (doc.nodeAbove page steps).bind fun node => doc.nodeAbove node more := by
  induction more with
  | zero => exact (Option.bind_fun_some _).symm
  | succ more ih =>
    rw [← Nat.add_assoc, nodeAbove, ih, Option.bind_assoc]
    rfl

/- On a cycle every node stands below the place where it closes. -/
theorem cycleBare {page : ObjectId} {i j : Nat} (later : i < j)
    (cycle : doc.nodeAbove page i = doc.nodeAbove page j)
    (bare : ∀ below < j, doc.resourcesAbove page below = none) (steps : Nat) :
    doc.resourcesAbove page steps = none := by
  induction steps using Nat.strongRecOn with
  | ind steps ih =>
    obtain below | above := Nat.lt_or_ge steps j
    · exact bare steps below
    · obtain ⟨more, rfl⟩ := Nat.exists_eq_add_of_le above
      have again := ih (i + more) (Nat.add_lt_add_right later more)
      rwa [resourcesAbove, nodeAboveAdd, cycle, ← nodeAboveAdd] at again

end Nodes

theorem lookupNearest (doc : Document) (page : ObjectId) (name : Bytes) :
    (∀ answer, doc.lookup page name = answer ↔ doc.Answered page name answer) ∧
    (∀ other steps steps' resources, doc.Nearest page steps resources →
      doc.Nearest other steps' resources → doc.lookup other name = doc.lookup page name) ∧
    (∀ i j, i < j → doc.nodeAbove page i = doc.nodeAbove page j →
      (∀ below < j, doc.resourcesAbove page below = none) → doc.lookup page name = .ok none) ∧
    ∃ nodes : List ObjectId, nodes.length ≤ 64 ∧
      (∀ steps < 64, nodes[steps]? = doc.nodeAbove page steps) ∧
      doc.resources page = nodes.findSome? doc.ownResources? := by
  refine ⟨fun answer => ⟨fun found => ?_, lookupAnswered⟩, fun other steps steps' resources
    nearest nearest' => ?_, fun i j later cycle bare => ?_, ?_⟩
  · obtain ⟨answer', answered⟩ := answeredExists doc page name
    rwa [← lookupAnswered answered, found] at answered
  · obtain ⟨answer, told⟩ := tellsExists doc resources name
    rw [lookupTold (resourcesNearest doc nearest) told,
      lookupTold (resourcesNearest doc nearest') told]
  · exact lookupBare (resourcesBare doc fun steps _ => cycleBare doc later cycle bare steps)
  · exact ⟨doc.ancestors 64 page, ancestorsFew doc 64 page, fun _ => ancestorsAt doc 64 page,
      resourcesFromAncestors doc 64 page⟩

def tower (height holder : Nat) : Document :=
  let node (i : Nat) : ObjectId := { number := UInt32.ofNat i, generation := 0 }
  let form : Object := .stream [(Bytes.ofText "Subtype", .name (Bytes.ofText "Form"))] []
  let resources : Object :=
    .dictionary [(Bytes.ofText "XObject", .dictionary [(Bytes.ofText "Fm", .reference (node 0))])]
  { version := "1.7", trailer := []
    objects := (node 0, form) :: (List.range height).map fun i =>
      (node (i + 1), .dictionary ((Bytes.ofText "Parent", .reference (node (min (i + 2) height))) ::
        if i = holder then [(Bytes.ofText "Resources", resources)] else [])) }

example : ((tower 64 63).lookup { number := 1, generation := 0 } (Bytes.ofText "Fm")).toOption =
  some (some .form) := by decide +kernel
example : ((tower 65 64).lookup { number := 1, generation := 0 } (Bytes.ofText "Fm")).toOption =
  some none := by decide +kernel

end PaintedImages.Document
