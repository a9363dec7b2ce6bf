/-
EffectHandlers/Capability.lean

Capabilities and finite sets of them.

A capability is a name for one vocabulary of requests.  Programs declare
the capabilities they require, handlers declare the capabilities they
provide, and both declarations are finite sets.

Design.  A set is stored as the strictly increasing list of its names, and
the ordering is a field of the type.  Two sets with the same members are
therefore equal (`CapabilitySet.ext`), so that laws about unions are
equations and not equivalences, and the order in which names are shown
needs no further rule.

Main results: membership in each operation (`mem_insert`, `mem_union`,
`mem_diff`, `mem_inter`, `mem_ofList`) and extensionality (`ext`).
-/

namespace EffectHandlers

/-- A tag that names one vocabulary of requests. -/
structure Capability where
  name : String
deriving DecidableEq, Repr

/-- A finite set of capabilities, as the strictly increasing list of names. -/
structure CapabilitySet where
  names : List String
  sorted : names.Pairwise (· < ·)
deriving DecidableEq, Repr

namespace CapabilitySet

/-! ### Insertion into a sorted list -/

/-- Insert a name at its place, once. -/
def insertName (x : String) : List String → List String
  | [] => [x]
  | y :: ys =>
    if x < y then x :: y :: ys
    else if y < x then y :: insertName x ys
    else y :: ys

theorem mem_insertName {a x : String} {ys : List String} :
    a ∈ insertName x ys ↔ a = x ∨ a ∈ ys := by
  induction ys with
  | nil => simp [insertName]
  | cons y ys ih =>
    unfold insertName
    split
    · simp
    · split
      · simp [ih, or_left_comm]
      · rename_i h h'
        have hxy : x = y := String.le_antisymm (String.not_lt.mp h') (String.not_lt.mp h)
        simp [hxy]

theorem sorted_insertName {x : String} {ys : List String} (h : ys.Pairwise (· < ·)) :
    (insertName x ys).Pairwise (· < ·) := by
  induction ys with
  | nil => simp [insertName]
  | cons y ys ih =>
    unfold insertName
    rw [List.pairwise_cons] at h
    split
    · rename_i hxy
      refine List.pairwise_cons.mpr ⟨fun a ha => ?_, List.pairwise_cons.mpr h⟩
      rcases List.mem_cons.mp ha with rfl | ha
      · exact hxy
      · exact String.lt_trans hxy (h.1 a ha)
    · split
      · rename_i hyx
        refine List.pairwise_cons.mpr ⟨fun a ha => ?_, ih h.2⟩
        rcases mem_insertName.mp ha with rfl | ha
        · exact hyx
        · exact h.1 a ha
      · exact List.pairwise_cons.mpr h

/-- Strictly increasing lists with the same members are equal. -/
theorem sorted_ext {xs ys : List String} (hx : xs.Pairwise (· < ·))
    (hy : ys.Pairwise (· < ·)) (h : ∀ a, a ∈ xs ↔ a ∈ ys) : xs = ys := by
  induction xs generalizing ys with
  | nil =>
    cases ys with
    | nil => rfl
    | cons y ys => exact absurd ((h y).mpr List.mem_cons_self) (by simp)
  | cons x xs ih =>
    cases ys with
    | nil => exact absurd ((h x).mp List.mem_cons_self) (by simp)
    | cons y ys =>
      rw [List.pairwise_cons] at hx hy
      have hxy : x = y := by
        rcases List.mem_cons.mp ((h x).mp List.mem_cons_self) with hx' | hx'
        · exact hx'
        · rcases List.mem_cons.mp ((h y).mpr List.mem_cons_self) with hy' | hy'
          · exact hy'.symm
          · exact absurd (String.lt_trans (hx.1 y hy') (hy.1 x hx')) (String.lt_irrefl x)
      subst hxy
      refine congrArg (x :: ·) (ih hx.2 hy.2 fun a => ?_)
      constructor
      · intro ha
        rcases List.mem_cons.mp ((h a).mp (List.mem_cons_of_mem x ha)) with rfl | ha'
        · exact absurd (hx.1 a ha) (String.lt_irrefl a)
        · exact ha'
      · intro ha
        rcases List.mem_cons.mp ((h a).mpr (List.mem_cons_of_mem x ha)) with rfl | ha'
        · exact absurd (hy.1 a ha) (String.lt_irrefl a)
        · exact ha'

/-! ### Operations -/

instance : Membership Capability CapabilitySet where
  mem s c := c.name ∈ s.names

instance (c : Capability) (s : CapabilitySet) : Decidable (c ∈ s) :=
  inferInstanceAs (Decidable (c.name ∈ s.names))

/-- The set without members. -/
def empty : CapabilitySet := ⟨[], List.Pairwise.nil⟩

instance : EmptyCollection CapabilitySet := ⟨empty⟩

instance : Inhabited CapabilitySet := ⟨empty⟩

/-- Whether the set has no members. -/
def isEmpty (s : CapabilitySet) : Bool := s.names.isEmpty

/-- The set with one more member. -/
def insert (c : Capability) (s : CapabilitySet) : CapabilitySet :=
  ⟨insertName c.name s.names, sorted_insertName s.sorted⟩

/-- The set with one member. -/
def single (c : Capability) : CapabilitySet := insert c empty

/-- The set of the members of a list. -/
def ofList (cs : List Capability) : CapabilitySet :=
  cs.foldr insert empty

/-- The members, by name in increasing order. -/
def toList (s : CapabilitySet) : List Capability := s.names.map Capability.mk

/-- The members of either set. -/
def union (s t : CapabilitySet) : CapabilitySet :=
  s.names.foldr (fun x u => insert ⟨x⟩ u) t

instance : Union CapabilitySet := ⟨union⟩

/-- The members of the first set that the second lacks. -/
def diff (s t : CapabilitySet) : CapabilitySet :=
  ⟨s.names.filter (fun x => !t.names.contains x), s.sorted.filter _⟩

instance : SDiff CapabilitySet := ⟨diff⟩

/-- The members of both sets. -/
def inter (s t : CapabilitySet) : CapabilitySet :=
  ⟨s.names.filter (fun x => t.names.contains x), s.sorted.filter _⟩

instance : Inter CapabilitySet := ⟨inter⟩

/-! ### Membership -/

theorem mem_def {c : Capability} {s : CapabilitySet} : c ∈ s ↔ c.name ∈ s.names := Iff.rfl

/-- Sets with the same members are equal. -/
theorem ext {s t : CapabilitySet} (h : ∀ c, c ∈ s ↔ c ∈ t) : s = t := by
  have hn : s.names = t.names := sorted_ext s.sorted t.sorted fun a => h ⟨a⟩
  cases s
  cases t
  simp only at hn
  subst hn
  rfl

@[simp] theorem not_mem_empty (c : Capability) : ¬ c ∈ (∅ : CapabilitySet) := by
  intro h
  exact absurd (mem_def.mp h) (by simp [EmptyCollection.emptyCollection, empty])

@[simp] theorem mem_insert {c d : Capability} {s : CapabilitySet} :
    c ∈ insert d s ↔ c = d ∨ c ∈ s := by
  rw [mem_def, mem_def]
  simp only [insert, mem_insertName]
  cases c
  cases d
  simp

@[simp] theorem mem_single {c d : Capability} : c ∈ single d ↔ c = d := by
  simp only [single, mem_insert]
  exact or_iff_left (not_mem_empty c)

@[simp] theorem mem_ofList {c : Capability} {cs : List Capability} :
    c ∈ ofList cs ↔ c ∈ cs := by
  induction cs with
  | nil => exact iff_of_false (not_mem_empty c) (by simp)
  | cons d cs ih =>
    have : ofList (d :: cs) = insert d (ofList cs) := rfl
    rw [this, mem_insert, ih, List.mem_cons]

@[simp] theorem mem_union {c : Capability} {s t : CapabilitySet} :
    c ∈ s ∪ t ↔ c ∈ s ∨ c ∈ t := by
  have key : ∀ xs : List String,
      c ∈ xs.foldr (fun x u => insert ⟨x⟩ u) t ↔ c.name ∈ xs ∨ c ∈ t := by
    intro xs
    induction xs with
    | nil => simp
    | cons x xs ih =>
      rw [List.foldr_cons, mem_insert, ih, List.mem_cons, or_assoc]
      refine or_congr ?_ Iff.rfl
      cases c
      simp
  exact key s.names

@[simp] theorem mem_diff {c : Capability} {s t : CapabilitySet} :
    c ∈ s \ t ↔ c ∈ s ∧ ¬ c ∈ t := by
  rw [mem_def, mem_def, mem_def]
  simp [SDiff.sdiff, diff]

@[simp] theorem mem_inter {c : Capability} {s t : CapabilitySet} :
    c ∈ s ∩ t ↔ c ∈ s ∧ c ∈ t := by
  rw [mem_def, mem_def, mem_def]
  simp [Inter.inter, inter]

theorem isEmpty_iff {s : CapabilitySet} : s.isEmpty = true ↔ ∀ c, ¬ c ∈ s := by
  constructor
  · intro h c hc
    rw [isEmpty, List.isEmpty_iff] at h
    rw [mem_def, h] at hc
    exact absurd hc (by simp)
  · intro h
    rw [isEmpty, List.isEmpty_iff]
    exact List.eq_nil_iff_forall_not_mem.mpr fun a ha => h ⟨a⟩ ha

end CapabilitySet

end EffectHandlers
