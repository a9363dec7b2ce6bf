/-
EffectHandlers/Proofs/Growth.lean

Records only grow.

Whatever a computation does, the calls that were made before keep their
routines and bindings, their coroutines stay, and a history has for ever
the answers that it has; numbers are never given away again
(`World.Grows`).

A coroutine that is not live is nobody's business but that of the one who
executes it: no other computation makes it live (`Invocation.Spares`).  A
computation leads from a world to one that follows it if both hold of all
records (`World.Follows`).
-/
import EffectHandlers.Proofs.Records

namespace EffectHandlers

namespace Invocation

/-- What stays of a record. -/
structure Grows (i j : Invocation) : Prop where
  body : j.body = i.body
  env : j.env = i.env
  coroutines : i.coroutines.size ≤ j.coroutines.size
  histories (h : Nat) (answers : List Value) :
    i.histories[h]? = some answers → j.histories[h]? = some answers

/-- A coroutine is not live. -/
def Away (i : Invocation) (gen : Nat) : Prop := ∀ h, i.live ≠ some (gen, h)

/-- No coroutine becomes live that is not. -/
def Spares (i j : Invocation) : Prop := ∀ gen, gen < i.coroutines.size → i.Away gen → j.Away gen

theorem Grows.refl (i : Invocation) : i.Grows i := ⟨rfl, rfl, Nat.le_refl _, fun _ _ h => h⟩

theorem Grows.trans {i j k : Invocation} (hij : i.Grows j) (hjk : j.Grows k) : i.Grows k where
  body := hjk.body.trans hij.body
  env := hjk.env.trans hij.env
  coroutines := Nat.le_trans hij.coroutines hjk.coroutines
  histories h answers hi := hjk.histories h answers (hij.histories h answers hi)

theorem Spares.refl (i : Invocation) : i.Spares i := fun _ _ h => h

theorem Spares.trans {i j k : Invocation} (hg : i.Grows j) (hij : i.Spares j)
    (hjk : j.Spares k) : i.Spares k := fun gen hgen hi =>
  hjk gen (Nat.lt_of_lt_of_le hgen hg.coroutines) (hij gen hgen hi)

/-! ### Single changes -/

theorem grows_withLive (i : Invocation) (l : Option (Nat × Nat)) : i.Grows (i.withLive l) :=
  ⟨rfl, rfl, Nat.le_refl _, fun _ _ h => h⟩

theorem grows_withReceived (i : Invocation) (gen : Nat) (answer : Value) :
    i.Grows (i.withReceived gen answer) :=
  ⟨rfl, rfl, by simp [withReceived], fun _ _ h => h⟩

theorem grows_setPosition (i : Invocation) (gen : Nat) (p : Position) :
    i.Grows (i.setPosition gen p) :=
  ⟨rfl, rfl, by simp [setPosition], fun _ _ h => h⟩

theorem grows_withHistory (i : Invocation) (answers : List Value) :
    i.Grows (i.withHistory answers) := by
  refine ⟨rfl, rfl, Nat.le_refl _, fun h vs hvs => ?_⟩
  have hlt : h < i.histories.size := (Array.getElem?_eq_some_iff.mp hvs).1
  show (i.histories.push answers)[h]? = some vs
  rw [Array.getElem?_push, if_neg (Nat.ne_of_lt hlt), hvs]

theorem grows_withFresh (i : Invocation) : i.Grows i.withFresh :=
  ⟨rfl, rfl, by simp [withFresh], fun _ _ h => h⟩

end Invocation

namespace World

/-- Everything in one world is there in another one: the records, and whatever is numbered. -/
structure Grows (w u : World) : Prop where
  records (id : Nat) (i : Invocation) : w.invocations[id]? = some i →
    ∃ j, u.invocations[id]? = some j ∧ i.Grows j
  fresh : w.fresh ≤ u.fresh
  cells : w.cells.size ≤ u.cells.size
  sources : w.sources.size ≤ u.sources.size
  journals : w.journals.size ≤ u.journals.size

/-- One world grows from another one, and no coroutine is live that was not live before. -/
structure Follows (w u : World) : Prop where
  grows : w.Grows u
  spares (id : Nat) (i j : Invocation) : w.invocations[id]? = some i →
    u.invocations[id]? = some j → i.Spares j

variable {w u v : World}

theorem Grows.trans (hwu : w.Grows u) (huv : u.Grows v) : w.Grows v where
  records id i hi := by
    obtain ⟨j, hj, hij⟩ := hwu.records id i hi
    obtain ⟨k, hk, hjk⟩ := huv.records id j hj
    exact ⟨k, hk, hij.trans hjk⟩
  fresh := Nat.le_trans hwu.fresh huv.fresh
  cells := Nat.le_trans hwu.cells huv.cells
  sources := Nat.le_trans hwu.sources huv.sources
  journals := Nat.le_trans hwu.journals huv.journals

theorem Follows.trans (hwu : w.Follows u) (huv : u.Follows v) : w.Follows v where
  grows := hwu.grows.trans huv.grows
  spares id i k hi hk := by
    obtain ⟨j, hj, hij⟩ := hwu.grows.records id i hi
    exact (hwu.spares id i j hi hj).trans hij (huv.spares id j k hj hk)

theorem Grows.record {id : Nat} {i j : Invocation} (h : w.Grows u)
    (hi : w.invocations[id]? = some i) (hj : u.invocations[id]? = some j) : i.Grows j := by
  obtain ⟨k, hk, hik⟩ := h.records id i hi
  rw [hj] at hk
  cases hk
  exact hik

/-- A world grows from another one that has the same records. -/
theorem grows_of_eq (h : u.invocations = w.invocations) (hfresh : w.fresh ≤ u.fresh)
    (hcells : w.cells.size ≤ u.cells.size) (hsources : w.sources.size ≤ u.sources.size)
    (hjournals : w.journals.size ≤ u.journals.size) : w.Grows u where
  records id i hi := ⟨i, by rw [h, hi], .refl i⟩
  fresh := hfresh
  cells := hcells
  sources := hsources
  journals := hjournals

/-- A world follows another one that it grows from and that has the same records. -/
theorem Grows.follows_of_eq (hg : w.Grows u) (h : u.invocations = w.invocations) :
    w.Follows u where
  grows := hg
  spares id i j hi hj := by
    rw [h, hi] at hj
    cases hj
    exact .refl i

theorem Grows.refl (w : World) : w.Grows w :=
  grows_of_eq rfl (Nat.le_refl _) (Nat.le_refl _) (Nat.le_refl _) (Nat.le_refl _)

theorem Follows.refl (w : World) : w.Follows w := (Grows.refl w).follows_of_eq rfl

theorem Grows.size_le (h : w.Grows u) : w.invocations.size ≤ u.invocations.size := by
  refine Nat.le_of_not_lt fun hlt => ?_
  obtain ⟨j, hj, -⟩ := h.records _ _ (Array.getElem?_eq_getElem hlt)
  simp at hj

/-- A change of one record in which it grows. -/
theorem grows_changeCall {id : Nat} {i : Invocation} (hi : w.invocations[id]? = some i)
    {f : Invocation → Invocation} (hf : i.Grows (f i)) : w.Grows (w.changeCall id f) := by
  refine { Grows.refl w with records := fun k j hj => ?_ }
  by_cases hk : k = id
  · subst hk
    rw [hi] at hj
    cases hj
    exact ⟨f i, record_changeCall hi f, hf⟩
  · exact ⟨j, by rw [record_changeCall_ne w hk, hj], .refl j⟩

/-- A change of the record of a call that was perhaps not made. -/
theorem grows_change (w : World) (id : Nat) {f : Invocation → Invocation}
    (hf : ∀ i : Invocation, i.Grows (f i)) : w.Grows (w.changeCall id f) := by
  cases hi : w.invocations[id]? with
  | some i => exact grows_changeCall hi (hf i)
  | none =>
    have hsize : w.invocations.size ≤ id := by simpa using hi
    have hsame : (w.changeCall id f).invocations = w.invocations := by
      apply Array.ext_getElem?
      intro k
      by_cases hk : k = id
      · subst hk
        simp [changeCall, hsize]
      · exact record_changeCall_ne w hk f
    exact { Grows.refl w with records := fun k j hj => ⟨j, by rw [hsame, hj], .refl j⟩ }

theorem grows_setPosition (w : World) (id gen : Nat) (p : Position) :
    w.Grows (w.setPosition id gen p) :=
  w.grows_change id fun i => i.grows_setPosition gen p

/-- A change of one record in which it grows and spares its coroutines. -/
theorem follows_changeCall {id : Nat} {i : Invocation} (hi : w.invocations[id]? = some i)
    {f : Invocation → Invocation} (hf : i.Grows (f i)) (hs : i.Spares (f i)) :
    w.Follows (w.changeCall id f) where
  grows := grows_changeCall hi hf
  spares k j j' hj hj' := by
    rcases record_changeCall_cases hi hj' with ⟨rfl, rfl⟩ | ⟨-, hj'⟩
    · cases hi.symm.trans hj
      exact hs
    · cases hj.symm.trans hj'
      exact .refl j

/-- A new record. -/
theorem follows_push (w : World) (i : Invocation) :
    w.Follows { w with invocations := w.invocations.push i } := by
  have hkeep (k : Nat) (j : Invocation) (hj : w.invocations[k]? = some j) :
      (w.invocations.push i)[k]? = some j := by
    have hlt : k < w.invocations.size := (Array.getElem?_eq_some_iff.mp hj).1
    rw [Array.getElem?_push, if_neg (Nat.ne_of_lt hlt), hj]
  refine ⟨{ Grows.refl w with records := fun k j hj => ⟨j, hkeep k j hj, .refl j⟩ }, ?_⟩
  intro k j j' hj hj'
  have hj'' : (w.invocations.push i)[k]? = some j' := hj'
  rw [hkeep k j hj] at hj''
  cases hj''
  exact .refl j

end World

end EffectHandlers
