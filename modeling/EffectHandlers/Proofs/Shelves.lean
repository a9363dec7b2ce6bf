/-
EffectHandlers/Proofs/Shelves.lean

What stores hold.

No program sees the state of a handler.  It sees what stores hold only by
asking, and asking for one key shows what is under that key.  So two runs
that go on with the same chain, while their stores hold mappings that read
the same under every key and keep doing so (`Unnoticed`), cannot be told
apart before they end.  One such relation is equality; another one is to
have the same entries in some order (`Mapping.Reordered`).

States of the handlers in a combination are compared leaf by leaf: they are
the same, or they are mappings of a store that are related (`Shelves`).

Main results: drives of one chain from states that are related do the same,
and leave states that are related (`drive_shelves`); the handlers then finish
with outputs that are related (`closeRun_shelves`).
-/
import EffectHandlers.Proofs.KeyedStore

namespace EffectHandlers

/-! ### The same but for values -/

/-- The same failure, or nothing on either side, or values that are related, in the same world. -/
inductive Outcome.SameBut {α β : Type} (Q : α → β → Prop) : Outcome α → Outcome β → Prop
  | value {a : α} {b : β} (w : World) (related : Q a b) : SameBut Q (.value a w) (.value b w)
  | failed (f : Failure) (w : World) : SameBut Q (.failed f w) (.failed f w)
  | exhausted : SameBut Q .exhausted .exhausted

/-- Two actions that do the same, but for the values that they come to. -/
def Action.SameBut {α β : Type} (Q : α → β → Prop) (x : Action α) (y : Action β) : Prop :=
  ∀ w : World, (x w).SameBut Q (y w)

namespace Action.SameBut

variable {α β γ δ : Type} {Q : α → β → Prop} {x : Action α} {y : Action β}

theorem ret {a : α} {b : β} (h : Q a b) : Action.SameBut Q (pure a) (pure b) :=
  fun w => .value w h

theorem fail (f : Failure) : Action.SameBut Q (Action.fail f) (Action.fail f) :=
  fun w => .failed f w

theorem bind {T : γ → δ → Prop} {f : α → Action γ} {g : β → Action δ} (h : Action.SameBut Q x y)
    (hnext : ∀ a b, Q a b → Action.SameBut T (f a) (g b)) :
    Action.SameBut T (x >>= f) (y >>= g) := by
  intro w
  have hw := h w
  rw [Action.bind_apply, Action.bind_apply]
  generalize x w = o at hw ⊢
  generalize y w = o' at hw ⊢
  cases hw with
  | value u related => exact hnext _ _ related u
  | failed f u => exact .failed f u
  | exhausted => exact .exhausted

theorem mono {Q' : α → β → Prop} (h : Action.SameBut Q x y) (hQ : ∀ a b, Q a b → Q' a b) :
    Action.SameBut Q' x y := by
  intro w
  have hw := h w
  generalize x w = o at hw ⊢
  generalize y w = o' at hw ⊢
  cases hw with
  | value u related => exact .value u (hQ _ _ related)
  | failed f u => exact .failed f u
  | exhausted => exact .exhausted

theorem refl (x : Action α) : Action.SameBut Eq x x := by
  intro w
  cases x w with
  | value a u => exact .value u rfl
  | failed f u => exact .failed f u
  | exhausted => exact .exhausted

/-- The same action, and then actions that do the same but for their values. -/
theorem after {T : γ → δ → Prop} (x : Action α) {f : α → Action γ} {g : α → Action δ}
    (hnext : ∀ a, Action.SameBut T (f a) (g a)) : Action.SameBut T (x >>= f) (x >>= g) :=
  (refl x).bind fun a _ hab => hab ▸ hnext a

end Action.SameBut

/-! ### Stores among handlers -/

/-- Whether a handler is a store. -/
def Handler.isStore : Handler → Bool
  | .store _ _ => true
  | _ => false

theorem Handler.isStore_iff {h : Handler} :
    h.isStore = true ↔ ∃ id initial, h = .store id initial := by
  cases h <;> simp [isStore]

/-! ### What stores hold -/

/-- A relation of mappings that cannot be noticed by reading, and that writing keeps. -/
structure Unnoticed (E : Mapping → Mapping → Prop) : Prop where
  lookup {m m' : Mapping} (h : E m m') (k : Value) : m.lookup k = m'.lookup k
  set {m m' : Mapping} (h : E m m') (k v : Value) : E (m.set k v) (m'.set k v)

namespace Mapping

/-- The same entries in any order, no key twice. -/
def Reordered (m m' : Mapping) : Prop := m.Distinct ∧ m.Perm m'

theorem Distinct.perm {m m' : Mapping} (h : m.Distinct) (hp : m.Perm m') : m'.Distinct := by
  refine (hp.map Prod.fst).pairwise h fun {j k} hjk => ?_
  rw [k.same_comm j]
  exact hjk

theorem Distinct.tail {e : Value × Value} {m : Mapping} (h : Distinct (e :: m)) : m.Distinct :=
  List.Pairwise.of_cons h

/-- The first two keys are not both equal to a third one. -/
theorem Distinct.swap {d e : Value × Value} {m : Mapping} (h : Distinct (d :: e :: m)) (k : Value) :
    ¬ (d.1.same k = true ∧ e.1.same k = true) := by
  rintro ⟨hd, he⟩
  have hde : d.1.same e.1 = false := (List.pairwise_cons.mp h).1 e.1 List.mem_cons_self
  rw [d.1.same_trans k e.1 hd (e.1.same_symm k he)] at hde
  cases hde

theorem lookup_perm {m m' : Mapping} (hp : m.Perm m') (h : m.Distinct) (k : Value) :
    m.lookup k = m'.lookup k := by
  induction hp with
  | nil => rfl
  | cons e _ ih => rw [lookup_cons, lookup_cons, ih h.tail]
  | swap d e m =>
    have hswap := h.swap k
    rw [lookup_cons, lookup_cons, lookup_cons, lookup_cons]
    split
    · rename_i he
      rw [if_neg fun hd => hswap ⟨he, hd⟩]
    · rfl
  | trans hp _ ih ih' => rw [ih h, ih' (h.perm hp)]

theorem set_cons_of_same {e : Value × Value} {k : Value} (h : e.1.same k = true) (m : Mapping)
    (v : Value) : set (e :: m) k v = (e.1, v) :: m := if_pos h

theorem set_cons_of_unequal {e : Value × Value} {k : Value} (h : ¬ e.1.same k = true)
    (m : Mapping) (v : Value) : set (e :: m) k v = e :: m.set k v := if_neg h

theorem set_perm {m m' : Mapping} (hp : m.Perm m') (h : m.Distinct) (k v : Value) :
    (m.set k v).Perm (m'.set k v) := by
  induction hp with
  | nil => exact .refl _
  | cons e hp ih =>
    by_cases he : e.1.same k = true
    · rw [set_cons_of_same he, set_cons_of_same he]
      exact hp.cons _
    · rw [set_cons_of_unequal he, set_cons_of_unequal he]
      exact (ih h.tail).cons _
  | swap d e m =>
    by_cases hd : d.1.same k = true
    · have he : ¬ e.1.same k = true := fun he => h.swap k ⟨he, hd⟩
      rw [set_cons_of_unequal he, set_cons_of_same hd, set_cons_of_same hd]
      exact .swap _ _ _
    · by_cases he : e.1.same k = true
      · rw [set_cons_of_same he, set_cons_of_unequal hd, set_cons_of_same he]
        exact .swap _ _ _
      · rw [set_cons_of_unequal he, set_cons_of_unequal hd, set_cons_of_unequal hd,
          set_cons_of_unequal he]
        exact .swap _ _ _
  | trans hp _ ih ih' => exact (ih h).trans (ih' (h.perm hp))

/-- Writing twice under one key leaves what was written last. -/
theorem set_set (m : Mapping) (k v u : Value) : (m.set k v).set k u = m.set k u := by
  induction m with
  | nil => exact set_cons_of_same k.same_refl [] u
  | cons e m ih =>
    by_cases he : e.1.same k = true
    · rw [set_cons_of_same he, set_cons_of_same he]
      exact set_cons_of_same (e := (e.1, v)) he m u
    · rw [set_cons_of_unequal he, set_cons_of_unequal he, set_cons_of_unequal he, ih]

/-- Writing under unequal keys, in either order, leaves the same entries. -/
theorem set_comm {j k : Value} (h : j.same k = false) (m : Mapping) (v u : Value) :
    ((m.set k v).set j u).Perm ((m.set j u).set k v) := by
  have hjk : ¬ j.same k = true := by simp [h]
  have hkj : ¬ k.same j = true := by rw [k.same_comm]; exact hjk
  induction m with
  | nil =>
    show (set [(k, v)] j u).Perm (set [(j, u)] k v)
    rw [set_cons_of_unequal hkj, set_cons_of_unequal hjk]
    exact .swap _ _ _
  | cons e m ih =>
    by_cases hk : e.1.same k = true
    · have hj : ¬ e.1.same j = true := fun hj => hkj (k.same_trans e.1 j (e.1.same_symm k hk) hj)
      rw [set_cons_of_same hk, set_cons_of_unequal hj, set_cons_of_same hk]
      exact .of_eq (set_cons_of_unequal (e := (e.1, v)) hj m u)
    · by_cases hj : e.1.same j = true
      · rw [set_cons_of_unequal hk, set_cons_of_same hj, set_cons_of_same hj]
        exact .of_eq (set_cons_of_unequal (e := (e.1, u)) hk m v).symm
      · rw [set_cons_of_unequal hk, set_cons_of_unequal hj, set_cons_of_unequal hj,
          set_cons_of_unequal hk]
        exact ih.cons _

end Mapping

theorem unnoticed_reordered : Unnoticed Mapping.Reordered where
  lookup h k := Mapping.lookup_perm h.2 h.1 k
  set h k v := ⟨h.1.set k v, Mapping.set_perm h.2 h.1 k v⟩

/-- Two mappings are the same, but for the order of their keys if that is let loose. -/
def Mapping.Alike (loose : Bool) (m m' : Mapping) : Prop :=
  m = m' ∨ loose = true ∧ m.Reordered m'

theorem unnoticed_alike (loose : Bool) : Unnoticed (Mapping.Alike loose) where
  lookup h k := by
    obtain rfl | ⟨-, h⟩ := h
    · rfl
    · exact unnoticed_reordered.lookup h k
  set h k v := by
    obtain rfl | ⟨hloose, h⟩ := h
    · exact .inl rfl
    · exact .inr ⟨hloose, unnoticed_reordered.set h k v⟩

theorem Mapping.Alike.trans {loose : Bool} {m m' m'' : Mapping} (h : m.Alike loose m')
    (h' : m'.Alike loose m'') : m.Alike loose m'' := by
  obtain rfl | ⟨hloose, hd, hp⟩ := h
  · exact h'
  · obtain rfl | ⟨-, -, hp'⟩ := h'
    · exact .inr ⟨hloose, hd, hp⟩
    · exact .inr ⟨hloose, hd, hp.trans hp'⟩

variable {ι : Type} {hs : ι → Handler}

/-- States of a handler that are the same; or what a store holds is related. -/
inductive Shelves (E : Mapping → Mapping → Prop) (hs : ι → Handler) (i : ι) : Value → Value → Prop
  | same (a : Value) : Shelves E hs i a a
  | store {m m' : Mapping} (hi : (hs i).isStore = true) (related : E m m') :
      Shelves E hs i (.frozen m) (.frozen m')

theorem Shelves.trans {loose : Bool} {i : ι} {a b c : Value}
    (h : Shelves (Mapping.Alike loose) hs i a b) (h' : Shelves (Mapping.Alike loose) hs i b c) :
    Shelves (Mapping.Alike loose) hs i a c := by
  cases h with
  | same => exact h'
  | store hi related =>
    cases h' with
    | same => exact .store hi related
    | store _ related' => exact .store hi (related.trans related')

/-- States that are related stay so if one handler moves to states that are related. -/
theorem Shelves.update [DecidableEq ι] {E : Mapping → Mapping → Prop} {is : List ι}
    {σ τ : ι → Value} (h : ∀ j ∈ is, Shelves E hs j (σ j) (τ j)) {i : ι} {a a' : Value}
    (ha : Shelves E hs i a a') :
    ∀ j ∈ is, Shelves E hs j (Function.update σ i a j) (Function.update τ i a' j) := by
  intro j hj
  by_cases hij : j = i
  · subst hij
    rw [Function.update_self, Function.update_self]
    exact ha
  · rw [Function.update_of_ne hij, Function.update_of_ne hij]
    exact h j hj

section

variable {E : Mapping → Mapping → Prop} {s : Settings} {call : Call} {i : ι} {a a' : Value}

/-! ### Drives -/

/-- A store in mappings that are related takes an effect alike. -/
theorem storeStep_shelves {m m' : Mapping} (h : E m m') (hE : Unnoticed E) (e : Effect) :
    Action.SameBut
      (fun p q => (∃ m m', p.1 = .frozen m ∧ q.1 = .frozen m' ∧ E m m') ∧ p.2 = q.2)
      (Handler.storeStep call (.frozen m) e) (Handler.storeStep call (.frozen m') e) := by
  obtain ⟨r, ss⟩ := e
  have hread (k : Value) : Handler.readKey (.frozen m) k = Handler.readKey (.frozen m') k := by
    simp only [Handler.readKey, hE.lookup h]
  cases r with
  | get k =>
    simp only [Handler.storeStep, hread]
    exact .after _ fun x => .after _ fun n => .ret ⟨⟨m, m', rfl, rfl, h⟩, rfl⟩
  | put k x =>
    cases hk : k.keyFault? with
    | some t =>
      simp only [Handler.storeStep, Handler.writeKey, Handler.checkKey, hk]
      exact .fail _
    | none =>
      rw [storeStep_put m rfl hk, storeStep_put m' rfl hk]
      exact .after _ fun n => .ret ⟨⟨_, _, rfl, rfl, hE.set h k x⟩, rfl⟩
  | modify k f =>
    cases hk : k.keyFault? with
    | some t =>
      simp only [Handler.storeStep, Handler.readKey, Handler.checkKey, hk]
      exact .fail _
    | none =>
      rw [storeStep_modify m rfl hk, storeStep_modify m' rfl hk, hE.lookup h k]
      exact .after _ fun x => .after _ fun n => .ret ⟨⟨_, _, rfl, rfl, hE.set h k x⟩, rfl⟩
  | _ => exact .fail _

/-- What came of two offers: the same handler took the effect, to states that are related, and goes
on with the same; or nobody took it. -/
inductive Shelves.Claims (E : Mapping → Mapping → Prop) (hs : ι → Handler) :
    Claim ι → Claim ι → Prop
  | taken {i : ι} {a a' : Value} (states : Shelves E hs i a a') (next : Value) :
      Claims E hs (some (i, a, next)) (some (i, a', next))
  | left : Claims E hs none none

/-- A handler in states that are related takes an effect alike. -/
theorem offer_shelves (hE : Unnoticed E) (h : Shelves E hs i a a') (e : Effect) :
    Action.SameBut (fun x y => Shelves.Claims E hs (x.claim i) (y.claim i))
      ((hs i).offer call a e) ((hs i).offer call a' e) := by
  cases h with
  | same =>
    refine (Action.SameBut.refl _).mono fun x y hxy => ?_
    subst hxy
    cases x with
    | handled b next => exact .taken (.same b) next
    | _ => exact .left
  | store hi related =>
    obtain ⟨id, initial, hstore⟩ := Handler.isStore_iff.mp hi
    rw [hstore]
    show Action.SameBut _ (Handler.whenKind .state e _) (Handler.whenKind .state e _)
    unfold Handler.whenKind
    split
    · refine (storeStep_shelves related hE e).bind fun p q hpq => ?_
      obtain ⟨_, next⟩ := p
      obtain ⟨_, _⟩ := q
      obtain ⟨⟨m, m', rfl, rfl, hm⟩, rfl⟩ := hpq
      exact .ret (.taken (.store hi hm) next)
    · exact .ret .left

theorem offerEach_shelves (hE : Unnoticed E) {σ τ : ι → Value} {is : List ι}
    (h : ∀ i ∈ is, Shelves E hs i (σ i) (τ i)) (e : Effect) :
    Action.SameBut (Shelves.Claims E hs) (offerEach call hs σ e is) (offerEach call hs τ e is) := by
  induction is with
  | nil => exact .ret .left
  | cons i is ih =>
    rw [offerEach_cons, offerEach_cons]
    refine (offer_shelves hE (h i List.mem_cons_self) e).bind fun x y hxy => ?_
    generalize x.claim i = c at hxy ⊢
    generalize y.claim i = c' at hxy ⊢
    cases hxy with
    | taken states next => exact .ret (.taken states next)
    | left => exact ih fun j hj => h j (List.mem_cons_of_mem _ hj)

variable [DecidableEq ι] {t : Shape ι} {A : Handler}

/-- Drives that end with the same value after as many steps, in states that are related. -/
def Shelves.Ends (E : Mapping → Mapping → Prop) (hs : ι → Handler) (t : Shape ι) (d d' : Drive) :
    Prop :=
  d.value = d'.value ∧ d.steps = d'.steps ∧ ∃ σ τ, d.state = t.nest σ ∧ d'.state = t.nest τ ∧
    ∀ i ∈ t.leaves, Shelves E hs i (σ i) (τ i)

omit [DecidableEq ι] in
/-- States of a combination are the same at every leaf. -/
theorem Shape.eq_of_nest {σ τ : ι → Value} (h : t.nest σ = t.nest τ) :
    ∀ i ∈ t.leaves, σ i = τ i := by
  induction t with
  | leaf j =>
    intro i hi
    rw [List.mem_singleton.mp hi]
    exact h
  | pair left right ihl ihr =>
    simp only [Shape.nest, Value.tuple.injEq, List.cons.injEq, and_true] at h
    intro i hi
    rcases List.mem_append.mp hi with hi | hi
    · exact ihl h.1 i hi
    · exact ihr h.2 i hi

omit [DecidableEq ι] in
theorem Shelves.Ends.trans {loose : Bool} {d d' d'' : Drive}
    (h : Shelves.Ends (Mapping.Alike loose) hs t d d')
    (h' : Shelves.Ends (Mapping.Alike loose) hs t d' d'') :
    Shelves.Ends (Mapping.Alike loose) hs t d d'' := by
  obtain ⟨hvalue, hsteps, σ, τ, hσ, hτ, hστ⟩ := h
  obtain ⟨hvalue', hsteps', σ', τ', hσ', hτ', hστ'⟩ := h'
  refine ⟨hvalue.trans hvalue', hsteps.trans hsteps', σ, τ', hσ, hτ', fun i hi => ?_⟩
  have hmiddle := Shape.eq_of_nest (hτ.symm.trans hσ') i hi
  exact (hστ i hi).trans (hmiddle ▸ hστ' i hi)

/-- **No program sees what the stores hold but by asking.**  Drives of one chain from states that
are related do the same. -/
theorem drive_shelves (hE : Unnoticed E) (hA : Arranged hs t A) (hn : t.leaves.Nodup)
    (fuel p : Nat) {σ τ : ι → Value} (next : Value)
    (h : ∀ i ∈ t.leaves, Shelves E hs i (σ i) (τ i)) :
    Action.SameBut (Shelves.Ends E hs t) (drive s (A.offer call) fuel p (t.nest σ) next)
      (drive s (A.offer call) fuel p (t.nest τ) next) := by
  induction fuel generalizing p σ τ next with
  | zero =>
    cases next with
    | chain c =>
      cases c with
      | done x r => exact .ret ⟨rfl, rfl, σ, τ, rfl, rfl, h⟩
      | suspended e r => exact fun _ => .exhausted
    | _ => exact .fail _
  | succ fuel ih =>
    cases next with
    | chain c =>
      cases c with
      | done x r => exact .ret ⟨rfl, rfl, σ, τ, rfl, rfl, h⟩
      | suspended e r =>
        rw [hA.drive_suspended hn, hA.drive_suspended hn]
        refine (offerEach_shelves hE h e).bind fun c c' hcc' => ?_
        cases hcc' with
        | left =>
          obtain ⟨text, hfail⟩ | ⟨f, hfail⟩ := failUnhandled_cases (α := Drive) p e
          · simp only [Arranged.afterOffer, hfail]
            exact .after _ fun _ => .fail _
          · simp only [Arranged.afterOffer, hfail]
            exact .fail _
        | taken states next =>
          exact .after _ fun _ => ih (p + 1) next (Shelves.update h states)
    | _ => exact .fail _

/-! ### Results -/

/-- Results of runs with the same value, and outputs that are the same but for what stores hold,
which is related. -/
def Shelves.Results (E : Mapping → Mapping → Prop) (hs : ι → Handler) (t : Shape ι) (v v' : Value) :
    Prop :=
  ∃ x o o', v = .result x (t.nest o) ∧ v' = .result x (t.nest o') ∧
    ∀ i ∈ t.leaves, Shelves E hs i (o i) (o' i)

/-- Outputs that are the same, but for the order of the keys that stores hold. -/
inductive Value.Reordered (loose : Bool) : Value → Value → Prop
  | same (v : Value) : Value.Reordered loose v v
  | frozen {m m' : Mapping} (h : m.Alike loose m') :
    Value.Reordered loose (.frozen m) (.frozen m')
  | pair {a a' b b' : Value} (ha : Value.Reordered loose a a') (hb : Value.Reordered loose b b') :
    Value.Reordered loose (.tuple [a, b]) (.tuple [a', b'])

/-- Unless the order is let loose, they are the same. -/
theorem Value.Reordered.eq_of_strict {v v' : Value} (h : v.Reordered false v') : v = v' := by
  induction h with
  | same v => rfl
  | frozen h =>
    obtain rfl | ⟨hloose, -⟩ := h
    · rfl
    · cases hloose
  | pair _ _ iha ihb => rw [iha, ihb]

omit [DecidableEq ι] in
theorem Shelves.reordered {loose : Bool} {o o' : ι → Value}
    (h : ∀ i ∈ t.leaves, Shelves (Mapping.Alike loose) hs i (o i) (o' i)) :
    (t.nest o).Reordered loose (t.nest o') := by
  induction t with
  | leaf j =>
    show (o j).Reordered loose (o' j)
    have hj := h j (List.mem_singleton.mpr rfl)
    generalize o j = a at hj ⊢
    generalize o' j = a' at hj ⊢
    cases hj with
    | same => exact .same a
    | store _ related => exact .frozen related
  | pair left right ihl ihr =>
    exact .pair (ihl fun i hi => h i (List.mem_append_left _ hi))
      (ihr fun i hi => h i (List.mem_append_right _ hi))

omit [DecidableEq ι] in
/-- A handler finishes alike in states that are related: a store gives what it holds. -/
theorem finish_shelves (h : Shelves E hs i a a') : Action.SameBut (Shelves E hs i)
    ((hs i).finish call a) ((hs i).finish call a') := by
  cases h with
  | same =>
    refine (Action.SameBut.refl _).mono fun b b' hb => ?_
    subst hb
    exact .same b
  | store hi related =>
    obtain ⟨id, initial, hstore⟩ := Handler.isStore_iff.mp hi
    rw [hstore]
    exact .ret (.store hi related)

theorem visit_shelves {x y : ι → Action Value} {S : ι → Value → Value → Prop}
    (hn : t.leaves.Nodup) (h : ∀ i ∈ t.leaves, Action.SameBut (S i) (x i) (y i)) :
    Action.SameBut (fun a b => ∃ o o', a = t.nest o ∧ b = t.nest o' ∧
      ∀ i ∈ t.leaves, S i (o i) (o' i)) (t.visit x) (t.visit y) := by
  induction t with
  | leaf i =>
    refine (h i (List.mem_singleton.mpr rfl)).mono fun a b hab => ?_
    refine ⟨fun _ => a, fun _ => b, rfl, rfl, fun j hj => ?_⟩
    rw [List.mem_singleton.mp hj]
    exact hab
  | pair left right ihl ihr =>
    obtain ⟨hnl, hnr, hdisjoint⟩ := List.nodup_append.mp hn
    rw [Shape.visit_pair, Shape.visit_pair]
    refine (ihl hnl fun i hi => h i (List.mem_append_left _ hi)).bind ?_
    rintro _ _ ⟨o, o', rfl, rfl, ho⟩
    refine (ihr hnr fun i hi => h i (List.mem_append_right _ hi)).bind ?_
    rintro _ _ ⟨q, q', rfl, rfl, hq⟩
    -- No name stands on both sides.
    let both (f g : ι → Value) (i : ι) : Value := if i ∈ left.leaves then f i else g i
    have hleft (f g : ι → Value) (i : ι) (hi : i ∈ left.leaves) : both f g i = f i := if_pos hi
    have hright (f g : ι → Value) (i : ι) (hi : i ∈ right.leaves) : both f g i = g i :=
      if_neg fun hi' => hdisjoint i hi' i hi rfl
    refine .ret ⟨both o q, both o' q', ?_, ?_, fun i hi => ?_⟩
    · rw [Shape.nest, Shape.nest_congr (hleft o q), Shape.nest_congr (hright o q)]
    · rw [Shape.nest, Shape.nest_congr (hleft o' q'), Shape.nest_congr (hright o' q')]
    · rcases List.mem_append.mp hi with hi | hi
      · rw [hleft o q i hi, hleft o' q' i hi]
        exact ho i hi
      · rw [hright o q i hi, hright o' q' i hi]
        exact hq i hi

/-- **From states that are related the handlers finish with outputs that are related.** -/
theorem closeRun_shelves (hA : Arranged hs t A) (hn : t.leaves.Nodup) {d d' : Drive}
    (hd : Shelves.Ends E hs t d d') :
    Action.SameBut (Shelves.Results E hs t) (closeRun call A d) (closeRun call A d') := by
  obtain ⟨x, _, p⟩ := d
  obtain ⟨_, _, _⟩ := d'
  obtain ⟨rfl, rfl, σ, τ, rfl, rfl, h⟩ := hd
  refine .after _ fun _ => ?_
  rw [hA.finish_eq, hA.finish_eq]
  refine (visit_shelves hn fun i hi => finish_shelves (h i hi)).bind ?_
  rintro _ _ ⟨o, o', rfl, rfl, ho⟩
  exact .ret ⟨x, o, o', rfl, rfl, ho⟩

end

end EffectHandlers
