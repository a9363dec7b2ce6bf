/-
EffectHandlers/Proofs/Link.lean

Values of two worlds that stand for each other.

A link says which identities and which calls of one world stand for which of
another one, one to one; what it does not mention stands for nothing.  Under
a link a pair of numbers that stand for each other has one name, and two
values are counterparts if they are the same with names.

Of a call that is linked it may be known that everything is the same on both
sides.  Then chains that go on with it can be values.  Otherwise they may
only be run.

Main statements: counterparts have the same shape (`Value.Pairs.of_counterpart`
and its likes), and they stay counterparts if a link is extended
(`Counterpart.mono`).
-/
import Mathlib.Data.PEquiv
import Mathlib.Data.Nat.Pairing
import EffectHandlers.Proofs.Naming.Fields

namespace EffectHandlers

/-- Which identities and which calls of two worlds stand for each other, and of which calls
everything is the same. -/
structure Link where
  ids : Nat ≃. Nat
  calls : Nat ≃. Nat
  plain : Nat → Bool

namespace Link

/-- The names in the first world. -/
def left (L : Link) : Naming where
  ids n := (L.ids n).map (Nat.pair n)
  calls n := if L.plain n then (L.calls n).map (Nat.pair n) else none
  ids_inj {m n k} hm hn := by
    obtain ⟨m', -, rfl⟩ := Option.map_eq_some_iff.mp hm
    obtain ⟨n', -, h⟩ := Option.map_eq_some_iff.mp hn
    exact (Nat.pair_eq_pair.mp h).1.symm

/-- The names in the second world. -/
def right (L : Link) : Naming where
  ids n := (L.ids.symm n).map fun m => Nat.pair m n
  calls n := (L.calls.symm n).bind fun m => if L.plain m then some (Nat.pair m n) else none
  ids_inj {m n k} hm hn := by
    obtain ⟨m', -, rfl⟩ := Option.map_eq_some_iff.mp hm
    obtain ⟨n', -, h⟩ := Option.map_eq_some_iff.mp hn
    exact (Nat.pair_eq_pair.mp h).2.symm

/-- One link extends another one: everything that was linked still is. -/
protected structure Le (L M : Link) : Prop where
  ids : L.ids ≤ M.ids
  calls : L.calls ≤ M.calls
  plain (n k : Nat) : L.calls n = some k → M.plain n = L.plain n

instance : LE Link := ⟨Link.Le⟩

variable {L M N : Link}

theorem le_refl (L : Link) : L ≤ L := ⟨fun _ _ h => h, fun _ _ h => h, fun _ _ _ => rfl⟩

theorem le_trans (h : L ≤ M) (h' : M ≤ N) : L ≤ N where
  ids := fun n k hn => h'.ids n k (h.ids n k hn)
  calls := fun n k hn => h'.calls n k (h.calls n k hn)
  plain n k hn := (h'.plain n k (h.calls n k hn)).trans (h.plain n k hn)

theorem left_mono (h : L ≤ M) : L.left ≤ M.left where
  ids n k hn := by
    obtain ⟨n', hn', rfl⟩ := Option.map_eq_some_iff.mp hn
    exact Option.map_eq_some_iff.mpr ⟨n', h.ids n n' hn', rfl⟩
  calls n k hn := by
    simp only [left] at hn ⊢
    split at hn
    · rename_i hplain
      obtain ⟨n', hn', rfl⟩ := Option.map_eq_some_iff.mp hn
      rw [h.plain n n' hn', if_pos hplain]
      exact Option.map_eq_some_iff.mpr ⟨n', h.calls n n' hn', rfl⟩
    · cases hn

theorem right_mono (h : L ≤ M) : L.right ≤ M.right where
  ids n k hn := by
    obtain ⟨m, hm, rfl⟩ := Option.map_eq_some_iff.mp hn
    have hmn := h.ids m n ((PEquiv.eq_some_iff _).mp hm)
    exact Option.map_eq_some_iff.mpr ⟨m, (PEquiv.eq_some_iff _).mpr hmn, rfl⟩
  calls n k hn := by
    obtain ⟨m, hm, hk⟩ := Option.bind_eq_some_iff.mp hn
    have hmn := (PEquiv.eq_some_iff _).mp hm
    refine Option.bind_eq_some_iff.mpr ⟨m, (PEquiv.eq_some_iff _).mpr (h.calls m n hmn), ?_⟩
    rwa [h.plain m n hmn]

end Link

/-- Data of two worlds that are the same with names. -/
def Counterpart {α : Type} [Along α] (L : Link) (a a' : α) : Prop :=
  ∃ m, NamedAs L.left a m ∧ NamedAs L.right a' m

namespace Counterpart

variable {L M : Link} {α β γ : Type} [Along α] [Along β] [Along γ]

theorem mono {a a' : α} (h : Counterpart L a a') (hLM : L ≤ M) : Counterpart M a a' :=
  let ⟨m, hl, hr⟩ := h
  ⟨m, hl.mono (Link.left_mono hLM), hr.mono (Link.right_mono hLM)⟩

/-- What is done to data is done to data with names. -/
theorem map (F : α → β) (hF : ∀ {N : Naming} {a m : α}, NamedAs N a m → NamedAs N (F a) (F m))
    {a a' : α} (h : Counterpart L a a') : Counterpart L (F a) (F a') :=
  let ⟨_, hl, hr⟩ := h
  ⟨_, hF hl, hF hr⟩

theorem map₂ (F : α → β → γ)
    (hF : ∀ {N : Naming} {a m : α} {b n : β}, NamedAs N a m → NamedAs N b n →
      NamedAs N (F a b) (F m n))
    {a a' : α} {b b' : β} (ha : Counterpart L a a') (hb : Counterpart L b b') :
    Counterpart L (F a b) (F a' b') :=
  let ⟨_, hla, hra⟩ := ha
  let ⟨_, hlb, hrb⟩ := hb
  ⟨_, hF hla hlb, hF hra hrb⟩

theorem map₃ {δ : Type} [Along δ] (F : α → β → γ → δ)
    (hF : ∀ {N : Naming} {a m : α} {b n : β} {c k : γ}, NamedAs N a m → NamedAs N b n →
      NamedAs N c k → NamedAs N (F a b c) (F m n k))
    {a a' : α} {b b' : β} {c c' : γ} (ha : Counterpart L a a') (hb : Counterpart L b b')
    (hc : Counterpart L c c') : Counterpart L (F a b c) (F a' b' c') :=
  let ⟨_, hla, hra⟩ := ha
  let ⟨_, hlb, hrb⟩ := hb
  let ⟨_, hlc, hrc⟩ := hc
  ⟨_, hF hla hlb hlc, hF hra hrb hrc⟩

/-- Data that reads the same with names. -/
theorem same_of {δ : Type} (F : α → δ) (hF : ∀ {N : Naming} {a m : α}, NamedAs N a m → F m = F a)
    {a a' : α} (h : Counterpart L a a') : F a' = F a :=
  let ⟨_, hl, hr⟩ := h
  (hF hr).symm.trans (hF hl)

/-- Data without identities and calls. -/
theorem of_plain {a : α} (h : ∀ {N : Naming}, NamedAs N a a) : Counterpart L a a := ⟨a, h, h⟩

end Counterpart

end EffectHandlers
