/-
EffectHandlers/Proofs/Sameness.lean

Values that cannot be told apart by the library.

The library looks into some values itself: it adds up numbers, collects
values in lists, finds entries by their keys, calls functions and shows
effects in records.  A sameness is a likeness that is fine enough for this:
numbers that are alike are equal, lists are alike if their items are, effects
that are alike ask for equal keys and can both be shown or neither, and
functions that are alike come to outcomes that are alike whenever they are
called with arguments that are alike.  It stays open which functions,
programs or handlers are alike.

A kept world is known (`Known`) if it is known from which world each of its
calls was made.  A computation that starts in a known world leads to one in
which the births of the earlier calls are the same (`Known.Later`), so two
computations can be compared, each with what is known of its own calls
(`Concurs`).
-/
import EffectHandlers.Proofs.Likeness
import EffectHandlers.Proofs.Resumption
import EffectHandlers.Value.Equality.Lemmas

namespace EffectHandlers

/-! ### Known worlds -/

/-- A kept world and the worlds from which its calls were made. -/
structure Known (s : Settings) where
  world : World
  births : Births
  keptFrom : KeptFrom s births world

namespace Known

variable {s : Settings}

instance : CoeOut (Known s) World := ⟨world⟩

theorem kept (w : Known s) : Kept s w := w.keptFrom.kept

theorem exists_of_kept {w : World} (hw : Kept s w) : ∃ w' : Known s, w'.world = w := by
  obtain ⟨births, hw⟩ := hw.exists_births
  exact ⟨⟨w, births, hw⟩, rfl⟩

/-- One world has grown to another one, and of the earlier calls the same is known. -/
structure Later (w u : Known s) : Prop where
  grows : w.world.Grows u
  births (id : Nat) : id < w.world.invocations.size → u.births id = w.births id

theorem Later.refl (w : Known s) : w.Later w := ⟨.refl w, fun _ _ => rfl⟩

theorem Later.trans {w u v : Known s} (h : w.Later u) (h' : u.Later v) : w.Later v := by
  refine ⟨h.grows.trans h'.grows, fun id hid => ?_⟩
  exact (h'.births id (Nat.lt_of_lt_of_le hid h.grows.size_le)).trans (h.births id hid)

end Known

section

variable {s : Settings} {w u : Known s} {α β γ δ : Type}

/-- A world that follows a known one is a later known one. -/
theorem After.known {w' : World} (h : After s w.births w w') :
    ∃ u : Known s, u.world = w' ∧ w.Later u := by
  obtain ⟨hf, births, hagree, hw'⟩ := h
  exact ⟨⟨w', births, hw'⟩, rfl, hf.grows, hagree⟩

/-- Whatever an action that keeps worlds kept comes to, it leaves a later world. -/
theorem Keeps.known {P : α → Prop} {x : Action α} (hx : Keeps s P x) (w : Known s) {w' : World}
    (h : (x w).world? = some w') : ∃ u : Known s, u.world = w' ∧ w.Later u :=
  ((hx w.births w w.keptFrom).after_world h).known

/-! ### Two computations -/

/-- Two actions, executed in known worlds, come to values that are related in later known worlds,
or fail alike, or are both exhausted. -/
def Concurs (R : Known s → α → Known s → β → Prop) (w : Known s) (x : Action α) (u : Known s)
    (y : Action β) : Prop :=
  (x w).Alike (fun w' a u' b => ∃ v v' : Known s, v.world = w' ∧ v'.world = u' ∧ w.Later v ∧
    u.Later v' ∧ R v a v' b) (y u)

namespace Concurs

variable {R : Known s → α → Known s → β → Prop} {x : Action α} {y : Action β}

theorem ret {a : α} {b : β} (h : R w a u b) : Concurs R w (pure a) u (pure b) :=
  Outcome.Alike.value ⟨w, u, rfl, rfl, .refl w, .refl u, h⟩

theorem fail {f g : Failure} (h : f.Alike g) :
    Concurs R w (Action.fail f) u (Action.fail g) := Outcome.Alike.failed h

theorem exhaust : Concurs R w Action.exhaust u Action.exhaust := Outcome.Alike.exhausted

theorem mono {R' : Known s → α → Known s → β → Prop} (h : Concurs R w x u y)
    (hR : ∀ v a v' b, w.Later v → u.Later v' → R v a v' b → R' v a v' b) :
    Concurs R' w x u y := by
  refine Outcome.Alike.mono h ?_
  rintro _ a _ b ⟨v, v', rfl, rfl, hv, hv', hR'⟩
  exact ⟨v, v', rfl, rfl, hv, hv', hR v a v' b hv hv' hR'⟩

/-- Actions that come to outcomes that are alike concur. -/
theorem of_alike {P : α → Prop} {P' : β → Prop} {S : World → α → World → β → Prop}
    (h : (x w).Alike S (y u)) (hx : Keeps s P x) (hy : Keeps s P' y) :
    Concurs (fun v a v' b => S v a v' b) w x u y := by
  unfold Concurs
  generalize hxw : x w = o at h ⊢
  generalize hyu : y u = o' at h ⊢
  cases h with
  | value h =>
    obtain ⟨v, rfl, hv⟩ := hx.known w (by rw [hxw]; rfl)
    obtain ⟨v', rfl, hv'⟩ := hy.known u (by rw [hyu]; rfl)
    exact .value ⟨v, v', rfl, rfl, hv, hv', h⟩
  | failed h => exact .failed h
  | exhausted => exact .exhausted

/-- Sequences concur if their parts do. -/
theorem bind {f : α → Action γ} {g : β → Action δ} {Q : Known s → γ → Known s → δ → Prop}
    (h : Concurs R w x u y)
    (hnext : ∀ v a v' b, w.Later v → u.Later v' → R v a v' b → Concurs Q v (f a) v' (g b)) :
    Concurs Q w (x >>= f) u (y >>= g) := by
  refine Outcome.Alike.bind h ?_
  intro a _ b _ _ _ ⟨v, v', hvw, hvu, hv, hv', hR⟩
  subst hvw hvu
  refine Outcome.Alike.mono (hnext v a v' b hv hv' hR) ?_
  rintro _ c _ d ⟨z, z', rfl, rfl, hz, hz', hQ⟩
  exact ⟨z, z', rfl, rfl, hv.trans hz, hv'.trans hz', hQ⟩

end Concurs

theorem keeps_meaning (s : Settings) (f : Callable) (args : List Value) :
    Keeps s (fun _ => True) (Callable.meaning s f args) :=
  (keeping_meaning s f args f.obeys_free fun a _ => a.obeys_free).weaken fun _ _ => trivial

end

/-! ### Keys -/

/-- Equal keys, or values that are no keys for the same reason. -/
def Value.SameKey (j k : Value) : Prop := j.same k = true ∧ j.keyFault? = k.keyFault?

/-- The keys that a request is about. -/
def Request.keys : Request → List Value
  | .get k | .put k _ | .modify k _ => [k]
  | _ => []

/-- Keys that are equal find the same. -/
theorem Value.SameKey.same_eq {j j' k k' : Value} (hj : j.SameKey j') (hk : k.SameKey k') :
    j.same k = j'.same k' := by
  rw [Value.same_congr_left hj.1 k, Value.same_comm, Value.same_congr_left hk.1 j',
    Value.same_comm]

theorem Value.SameKey.refl (k : Value) : k.SameKey k := ⟨k.same_refl, rfl⟩

theorem Value.SameKey.symm {j k : Value} (h : j.SameKey k) : k.SameKey j :=
  ⟨Value.same_symm j k h.1, h.2.symm⟩

theorem Value.SameKey.trans {i j k : Value} (h : i.SameKey j) (h' : j.SameKey k) : i.SameKey k :=
  ⟨Value.same_trans i j k h.1 h'.1, h.2.trans h'.2⟩

/-! ### Sameness -/

/-- A likeness that is fine enough for what the library does with values. -/
structure Sameness (s : Settings) extends Likeness s where
  null (w u : World) : same w .null u .null
  int (w u : World) (n : Int) : same w (.int n) u (.int n)
  number {w u : World} {a b : Value} : same w a u b → a.number? = b.number?
  list {w u : World} {as bs : List Value} :
    List.Forall₂ (fun a b => same w a u b) as bs → same w (.list as) u (.list bs)
  items {w u : World} {as : List Value} {b : Value} : same w (.list as) u b →
    ∃ bs, b = .list bs ∧ List.Forall₂ (fun a b => same w a u b) as bs
  requires {w u : World} {c c' : Chain} : same w (.chain c) u (.chain c') →
    c.requires = c'.requires
  keys {w u : World} {e e' : Effect} : same w (.effect e) u (.effect e') →
    List.Forall₂ Value.SameKey e.request.keys e'.request.keys
  fault {w u : World} {e e' : Effect} : same w (.effect e) u (.effect e') →
    e.request.fault? = e'.request.fault?
  /-- Functions that are alike do alike. -/
  apply {w u : World} {f : Callable} {b : Value} : same w (.function f) u b →
    ∃ g, b = .function g ∧ ∀ w' u' as bs, Kept s w' → Kept s u' → w.Grows w' → u.Grows u' →
      List.Forall₂ (fun a b => same w' a u' b) as bs →
      (Callable.meaning s f as w').Alike same (Callable.meaning s g bs u')

namespace Sameness

variable {s : Settings} (L : Sameness s)

/-- Requests that cannot be told apart: of one kind, with fields that are alike, about equal keys,
and such that both can be shown or neither. -/
structure Asks (w : World) (r : Request) (u : World) (r' : Request) : Prop where
  relates : r.Relates (fun a b => L.same w a u b) r'
  keys : List.Forall₂ Value.SameKey r.keys r'.keys
  fault : r.fault? = r'.fault?

variable {L} {w w' u u' : World}

theorem asks_of_same {e e' : Effect} (h : L.same w (.effect e) u (.effect e')) :
    L.Asks w e.request u e'.request := by
  obtain ⟨_, he, hr⟩ := L.effect h
  cases he
  exact ⟨hr, L.keys h, L.fault h⟩

theorem Asks.grow {r r' : Request} (h : L.Asks w r u r') (hw : w.Grows w') (hu : u.Grows u') :
    L.Asks w' r u' r' := by
  refine ⟨⟨h.relates.1, h.relates.2.imp ?_⟩, h.keys, h.fault⟩
  intro f g hfg
  exact ⟨hfg.1, L.grow hfg.2 hw hu⟩

theorem Asks.capability {r r' : Request} (h : L.Asks w r u r') : r.capability = r'.capability := by
  have hkind := congrArg Kind.capability? h.relates.1
  rw [Request.capability?_kind, Request.capability?_kind] at hkind
  exact Option.some.inj hkind

/-- Values that are alike are called alike. -/
theorem call_concurs {w u : Known s} {f f' : Value} {as bs : List Value} (hf : L.same w f u f')
    (hall : L.All w as u bs) :
    Concurs (fun w a u b => L.same w a u b) w (Call.value (Callable.meaning s) f as) u
      (Call.value (Callable.meaning s) f' bs) := by
  by_cases hfun : ∃ g, f = .function g
  · obtain ⟨g, rfl⟩ := hfun
    obtain ⟨g', rfl, happly⟩ := L.apply hf
    exact Concurs.of_alike (happly w u as bs w.kept u.kept (.refl _) (.refl _) hall)
      (keeps_meaning s g as) (keeps_meaning s g' bs)
  · have hfun' : ¬ ∃ g, f' = .function g := by
      rintro ⟨g, rfl⟩
      obtain ⟨g', rfl, -⟩ := L.apply (L.symm hf)
      exact hfun ⟨g', rfl⟩
    have hfail (v : Value) (as : List Value) (hv : ¬ ∃ g, v = .function g) :
        Call.value (Callable.meaning s) v as = Action.fail (.notInvocable v.typeName) := by
      cases v with
      | function g => exact absurd ⟨g, rfl⟩ hv
      | _ => rfl
    rw [hfail f as hfun, hfail f' bs hfun', L.typeName hf]
    exact .fail (.refl _)

end Sameness

end EffectHandlers
