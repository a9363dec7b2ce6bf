/-
EffectHandlers/Value/Mapping.lean

Mappings in order of insertion.

A mapping is a list of entries with unequal keys.  Writing to a key that is
present keeps its place and the key that was written first; a new key goes
to the end.

Main statements: what is read after a write (`lookup_set`), where a write
leaves the keys (`keys_set`), and that keys stay unequal (`Distinct.set`).
-/
import EffectHandlers.Value.Equality.Lemmas

namespace EffectHandlers

/-- Entries of keys and values. -/
abbrev Mapping := List (Value × Value)

namespace Mapping

/-- The value under a key. -/
def lookup (m : Mapping) (k : Value) : Option Value :=
  match m with
  | [] => none
  | (k', v) :: rest => if k'.same k then some v else lookup rest k

/-- The mapping with a value under a key. -/
def set (m : Mapping) (k v : Value) : Mapping :=
  match m with
  | [] => [(k, v)]
  | (k', w) :: rest => if k'.same k then (k', v) :: rest else (k', w) :: set rest k v

/-- The keys, first written first. -/
def keys (m : Mapping) : List Value := m.map Prod.fst

/-! ### Reading -/

@[simp] theorem lookup_nil (k : Value) : lookup [] k = none := rfl

theorem lookup_cons (k' w : Value) (rest : Mapping) (k : Value) :
    lookup ((k', w) :: rest) k = if k'.same k then some w else lookup rest k := rfl

/-- Equal keys read alike. -/
theorem lookup_congr (m : Mapping) {j k : Value} (h : j.same k = true) :
    m.lookup j = m.lookup k := by
  induction m with
  | nil => rfl
  | cons e rest ih =>
    rw [lookup_cons, lookup_cons, ih, e.1.same_comm j, e.1.same_comm k,
      Value.same_congr_left h e.1]

/-- After a write its value is read under every key that equals the one written, and under
every other key what was there before. -/
theorem lookup_set (m : Mapping) (k v j : Value) :
    (m.set k v).lookup j = if k.same j then some v else m.lookup j := by
  induction m with
  | nil => rfl
  | cons e rest ih =>
    obtain ⟨k', w⟩ := e
    unfold set
    split
    · rename_i h
      rw [lookup_cons, lookup_cons, Value.same_congr_left h j]
      split <;> rfl
    · rename_i h
      rw [lookup_cons, lookup_cons, ih]
      split
      · rename_i hj
        have hk : ¬ k.same j = true := fun hk =>
          h (k'.same_trans j k hj (k.same_symm j hk))
        rw [if_neg hk]
      · rfl

theorem lookup_eq_none_iff {m : Mapping} {k : Value} :
    m.lookup k = none ↔ ∀ j ∈ m.keys, j.same k = false := by
  induction m with
  | nil => simp [keys]
  | cons e rest ih =>
    rw [lookup_cons]
    by_cases h : e.1.same k = true
    · simp [keys, h]
    · rw [if_neg h, ih]
      simp [keys, h]

/-! ### Keys -/

/-- A write leaves the keys in place; a new key comes last. -/
theorem keys_set (m : Mapping) (k v : Value) :
    (m.set k v).keys = if (m.lookup k).isSome then m.keys else m.keys ++ [k] := by
  induction m with
  | nil => rfl
  | cons e rest ih =>
    obtain ⟨k', w⟩ := e
    unfold set
    rw [lookup_cons]
    split
    · rfl
    · have step : keys ((k', w) :: set rest k v) = k' :: keys (set rest k v) := rfl
      rw [step, ih]
      split <;> rfl

/-- No two keys are equal. -/
def Distinct (m : Mapping) : Prop := m.keys.Pairwise fun j k => j.same k = false

theorem Distinct.nil : Distinct [] := List.Pairwise.nil

/-- Keys that are unequal stay so. -/
theorem Distinct.set {m : Mapping} (h : m.Distinct) (k v : Value) : (m.set k v).Distinct := by
  unfold Distinct at h ⊢
  rw [keys_set]
  split
  · exact h
  · rename_i hk
    rw [Bool.not_eq_true, Option.isSome_eq_false_iff, Option.isNone_iff_eq_none,
      lookup_eq_none_iff] at hk
    refine List.pairwise_append.mpr ⟨h, List.pairwise_singleton _ _, fun j hj k' hk' => ?_⟩
    rw [List.mem_singleton.mp hk']
    exact hk j hj

end Mapping

end EffectHandlers
