/-
EffectHandlers/Value/Equality/Lemmas.lean

Equality of values is an equivalence.

Each law is proved by recursion on the first value.  Collections reduce it
to the same law for their parts: `EntriesAgree` says that each of two lists
of entries has the entries of the other, and `same_iff_of_tupleItems`
treats tuples and run results, which equal each other, in one way.

Main results: `Value.same_refl`, `Value.same_symm`, `Value.same_trans`, and
that the first side of a comparison may be replaced by an equal value
(`Value.same_congr_left`).
-/
import EffectHandlers.Value.Equality

namespace EffectHandlers

/-! ### Entries -/

/-- Whether two entries have equal keys and equal values. -/
def EntryAgrees (e f : Value × Value) : Prop := e.1.same f.1 = true ∧ e.2.same f.2 = true

/-- Whether each of two lists of entries has the entries of the other. -/
def EntriesAgree (xs ys : List (Value × Value)) : Prop :=
  (∀ e ∈ xs, ∃ f ∈ ys, EntryAgrees e f) ∧ ∀ f ∈ ys, ∃ e ∈ xs, EntryAgrees e f

theorem entriesWithin_iff {xs ys : List (Value × Value)} :
    entriesWithin xs ys = true ↔ ∀ e ∈ xs, ∃ f ∈ ys, EntryAgrees e f := by
  induction xs with
  | nil => simp [entriesWithin]
  | cons x xs ih => simp [entriesWithin, ih, EntryAgrees]

theorem hasEntry_iff {xs : List (Value × Value)} {f : Value × Value} :
    hasEntry xs f = true ↔ ∃ e ∈ xs, EntryAgrees e f := by
  induction xs with
  | nil => simp [hasEntry]
  | cons x xs ih => simp [hasEntry, ih, EntryAgrees]

theorem entriesAgree_iff {xs ys : List (Value × Value)} :
    (entriesWithin xs ys && ys.all (hasEntry xs)) = true ↔ EntriesAgree xs ys := by
  simp [entriesWithin_iff, hasEntry_iff, EntriesAgree]

theorem EntriesAgree.refl {xs : List (Value × Value)} (h : ∀ e ∈ xs, EntryAgrees e e) :
    EntriesAgree xs xs :=
  ⟨fun e he => ⟨e, he, h e he⟩, fun e he => ⟨e, he, h e he⟩⟩

theorem EntriesAgree.symm {xs ys : List (Value × Value)}
    (h : ∀ e ∈ xs, ∀ f, EntryAgrees e f → EntryAgrees f e) (hxy : EntriesAgree xs ys) :
    EntriesAgree ys xs := by
  constructor
  · intro f hf
    obtain ⟨e, he, hef⟩ := hxy.2 f hf
    exact ⟨e, he, h e he f hef⟩
  · intro e he
    obtain ⟨f, hf, hef⟩ := hxy.1 e he
    exact ⟨f, hf, h e he f hef⟩

theorem EntriesAgree.trans {xs ys zs : List (Value × Value)}
    (h : ∀ e ∈ xs, ∀ f g, EntryAgrees e f → EntryAgrees f g → EntryAgrees e g)
    (hxy : EntriesAgree xs ys) (hyz : EntriesAgree ys zs) : EntriesAgree xs zs := by
  constructor
  · intro e he
    obtain ⟨f, hf, hef⟩ := hxy.1 e he
    obtain ⟨g, hg, hfg⟩ := hyz.1 f hf
    exact ⟨g, hg, h e he f g hef hfg⟩
  · intro g hg
    obtain ⟨f, hf, hfg⟩ := hyz.2 g hg
    obtain ⟨e, he, hef⟩ := hxy.2 f hf
    exact ⟨e, he, h e he f g hef hfg⟩

/-! ### Items -/

theorem sameItems_symm {xs ys : List Value}
    (h : ∀ x ∈ xs, ∀ y, x.same y = true → y.same x = true) (hxy : sameItems xs ys = true) :
    sameItems ys xs = true := by
  induction xs generalizing ys with
  | nil =>
    cases ys with
    | nil => rfl
    | cons _ _ => cases hxy
  | cons x xs ih =>
    cases ys with
    | nil => cases hxy
    | cons y ys =>
      obtain ⟨h1, h2⟩ := Bool.and_eq_true_iff.mp hxy
      exact Bool.and_eq_true_iff.mpr ⟨h x List.mem_cons_self y h1,
        ih (fun x hx => h x (List.mem_cons_of_mem _ hx)) h2⟩

theorem sameItems_trans {xs ys zs : List Value}
    (h : ∀ x ∈ xs, ∀ y z, x.same y = true → y.same z = true → x.same z = true)
    (hxy : sameItems xs ys = true) (hyz : sameItems ys zs = true) : sameItems xs zs = true := by
  induction xs generalizing ys zs with
  | nil =>
    cases ys with
    | nil => exact hyz
    | cons _ _ => cases hxy
  | cons x xs ih =>
    cases ys with
    | nil => cases hxy
    | cons y ys =>
      cases zs with
      | nil => cases hyz
      | cons z zs =>
        obtain ⟨h1, h2⟩ := Bool.and_eq_true_iff.mp hxy
        obtain ⟨h3, h4⟩ := Bool.and_eq_true_iff.mp hyz
        exact Bool.and_eq_true_iff.mpr ⟨h x List.mem_cons_self y z h1 h3,
          ih (fun x hx => h x (List.mem_cons_of_mem _ hx)) h2 h4⟩

/-- The items of a tuple, or of a run result as one. -/
def Value.tupleItems? : Value → Option (List Value)
  | .tuple xs => some xs
  | .result v o => some [v, o]
  | _ => none

/-- Tuples and run results are equal if their items are. -/
theorem same_iff_of_tupleItems {v w : Value} {xs : List Value} (hv : v.tupleItems? = some xs) :
    v.same w = true ↔ ∃ ys, w.tupleItems? = some ys ∧ sameItems xs ys = true := by
  match v, hv with
  | .tuple xs, rfl =>
    cases w with
    | tuple ys => exact ⟨fun h => ⟨ys, rfl, h⟩, fun ⟨_, rfl, h⟩ => h⟩
    | result x y => exact ⟨fun h => ⟨[x, y], rfl, h⟩, fun ⟨_, rfl, h⟩ => h⟩
    | _ => exact ⟨fun h => (by cases h), fun ⟨_, h, _⟩ => (by cases h)⟩
  | .result a b, rfl =>
    cases w with
    | tuple ys =>
      rcases ys with _ | ⟨x, _ | ⟨y, _ | ⟨z, zs⟩⟩⟩ <;>
        simp [Value.same, sameItems, Value.tupleItems?]
    | result x y => simp [Value.same, sameItems, Value.tupleItems?]
    | _ => exact ⟨fun h => (by cases h), fun ⟨_, h, _⟩ => (by cases h)⟩

/-! ### Reflexivity -/

mutual

/-- A value equals itself. -/
theorem Value.same_refl : ∀ v : Value, v.same v = true
  | .null | .declined => rfl
  | .bool _ | .int _ | .text _ | .capability _ | .capabilities _ | .function _ | .handler _
  | .cell _ | .refusal _ _ => beq_self_eq_true _
  | .list xs => sameItems_refl xs
  | .tuple xs => sameItems_refl xs
  | .dict es => entriesAgree_iff.mpr (.refl (entryAgrees_refl es))
  | .frozen es => entriesAgree_iff.mpr (.refl (entryAgrees_refl es))
  | .effect e => e.same_refl
  | .chain c => c.same_refl
  | .handled s n => Bool.and_eq_true_iff.mpr ⟨s.same_refl, n.same_refl⟩
  | .result v o => Bool.and_eq_true_iff.mpr ⟨v.same_refl, o.same_refl⟩
termination_by structural v => v

theorem sameItems_refl : ∀ xs : List Value, sameItems xs xs = true
  | [] => rfl
  | x :: xs => Bool.and_eq_true_iff.mpr ⟨x.same_refl, sameItems_refl xs⟩
termination_by structural xs => xs

theorem entryAgrees_refl : ∀ (es : List (Value × Value)) (e : Value × Value),
    e ∈ es → EntryAgrees e e
  | [], _, h => absurd h List.not_mem_nil
  | (k, v) :: es, e, h => by
    rcases List.mem_cons.mp h with rfl | h
    · exact ⟨k.same_refl, v.same_refl⟩
    · exact entryAgrees_refl es e h
termination_by structural es => es

theorem Effect.same_refl : ∀ e : Effect, e.same e = true
  | ⟨r, _⟩ => r.same_refl
termination_by structural e => e

theorem Request.same_refl : ∀ r : Request, r.same r = true
  | .log m => m.same_refl
  | .loudLog m v => Bool.and_eq_true_iff.mpr ⟨m.same_refl, v.same_refl⟩
  | .writeLine t => t.same_refl
  | .readLine | .beep => rfl
  | .get k => k.same_refl
  | .put k v => Bool.and_eq_true_iff.mpr ⟨k.same_refl, v.same_refl⟩
  | .modify k f => Bool.and_eq_true_iff.mpr ⟨k.same_refl, f.same_refl⟩
  | .poke k => k.same_refl
  | .tick n => n.same_refl
  | .custom _ _ p =>
    Bool.and_eq_true_iff.mpr
      ⟨Bool.and_eq_true_iff.mpr ⟨beq_self_eq_true _, beq_self_eq_true _⟩, p.same_refl⟩
termination_by structural r => r

theorem Chain.same_refl : ∀ c : Chain, c.same c = true
  | .done v _ => v.same_refl
  | .suspended e _ => e.same_refl
termination_by structural c => c

end

/-! ### Symmetry -/

mutual

/-- Equality does not depend on the side. -/
theorem Value.same_symm : ∀ v w : Value, v.same w = true → w.same v = true
  | .null, w, h => by
    cases w with
    | null => rfl
    | _ => cases h
  | .declined, w, h => by
    cases w with
    | declined => rfl
    | _ => cases h
  | .bool _, w, h => by
    cases w with
    | bool _ => exact BEq.symm h
    | int _ => exact BEq.symm h
    | _ => cases h
  | .int _, w, h => by
    cases w with
    | bool _ => exact BEq.symm h
    | int _ => exact BEq.symm h
    | _ => cases h
  | .text _, w, h => by
    cases w with
    | text _ => exact BEq.symm h
    | _ => cases h
  | .capability _, w, h => by
    cases w with
    | capability _ => exact BEq.symm h
    | _ => cases h
  | .capabilities _, w, h => by
    cases w with
    | capabilities _ => exact BEq.symm h
    | _ => cases h
  | .function _, w, h => by
    cases w with
    | function _ => exact BEq.symm h
    | _ => cases h
  | .handler _, w, h => by
    cases w with
    | handler _ => exact BEq.symm h
    | _ => cases h
  | .cell _, w, h => by
    cases w with
    | cell _ => exact BEq.symm h
    | _ => cases h
  | .refusal _ _, w, h => by
    cases w with
    | refusal _ _ => exact BEq.symm h
    | _ => cases h
  | .list xs, w, h => by
    cases w with
    | list ys => exact sameItems_symm (item_symm xs) h
    | _ => cases h
  | .tuple xs, w, h => by
    obtain ⟨ys, hw, h⟩ := (same_iff_of_tupleItems rfl).mp h
    exact (same_iff_of_tupleItems hw).mpr ⟨xs, rfl, sameItems_symm (item_symm xs) h⟩
  | .result v o, w, h => by
    obtain ⟨ys, hw, h⟩ := (same_iff_of_tupleItems rfl).mp h
    refine (same_iff_of_tupleItems hw).mpr ⟨[v, o], rfl, sameItems_symm (fun x hx => ?_) h⟩
    rcases List.mem_cons.mp hx with hx | hx
    · rw [hx]
      exact v.same_symm
    · rw [List.mem_singleton.mp hx]
      exact o.same_symm
  | .dict es, w, h => by
    cases w with
    | dict fs => exact entriesAgree_iff.mpr ((entriesAgree_iff.mp h).symm (entryAgrees_symm es))
    | frozen fs => exact entriesAgree_iff.mpr ((entriesAgree_iff.mp h).symm (entryAgrees_symm es))
    | _ => cases h
  | .frozen es, w, h => by
    cases w with
    | dict fs => exact entriesAgree_iff.mpr ((entriesAgree_iff.mp h).symm (entryAgrees_symm es))
    | frozen fs => exact entriesAgree_iff.mpr ((entriesAgree_iff.mp h).symm (entryAgrees_symm es))
    | _ => cases h
  | .effect e, w, h => by
    cases w with
    | effect f => exact e.same_symm f h
    | _ => cases h
  | .chain c, w, h => by
    cases w with
    | chain d => exact c.same_symm d h
    | _ => cases h
  | .handled s n, w, h => by
    cases w with
    | handled t m =>
      obtain ⟨h1, h2⟩ := Bool.and_eq_true_iff.mp h
      exact Bool.and_eq_true_iff.mpr ⟨s.same_symm t h1, n.same_symm m h2⟩
    | _ => cases h
termination_by structural v => v

theorem item_symm : ∀ (xs : List Value) (x : Value),
    x ∈ xs → ∀ y, x.same y = true → y.same x = true
  | [], _, h => absurd h List.not_mem_nil
  | y :: xs, x, h => by
    rcases List.mem_cons.mp h with h | h
    · rw [h]
      exact y.same_symm
    · exact item_symm xs x h
termination_by structural xs => xs

theorem entryAgrees_symm : ∀ (es : List (Value × Value)) (e : Value × Value),
    e ∈ es → ∀ f, EntryAgrees e f → EntryAgrees f e
  | [], _, h => absurd h List.not_mem_nil
  | (k, v) :: es, e, h => by
    rcases List.mem_cons.mp h with rfl | h
    · exact fun f hf => ⟨k.same_symm f.1 hf.1, v.same_symm f.2 hf.2⟩
    · exact entryAgrees_symm es e h
termination_by structural es => es

theorem Effect.same_symm : ∀ e f : Effect, e.same f = true → f.same e = true
  | ⟨r, _⟩, ⟨q, _⟩, h => r.same_symm q h
termination_by structural e => e

theorem Request.same_symm : ∀ r q : Request, r.same q = true → q.same r = true
  | .log m, q, h => by
    cases q with
    | log m' => exact m.same_symm m' h
    | _ => cases h
  | .loudLog m v, q, h => by
    cases q with
    | loudLog m' v' =>
      obtain ⟨h1, h2⟩ := Bool.and_eq_true_iff.mp h
      exact Bool.and_eq_true_iff.mpr ⟨m.same_symm m' h1, v.same_symm v' h2⟩
    | _ => cases h
  | .writeLine t, q, h => by
    cases q with
    | writeLine t' => exact t.same_symm t' h
    | _ => cases h
  | .readLine, q, h => by
    cases q with
    | readLine => rfl
    | _ => cases h
  | .beep, q, h => by
    cases q with
    | beep => rfl
    | _ => cases h
  | .get k, q, h => by
    cases q with
    | get k' => exact k.same_symm k' h
    | _ => cases h
  | .put k v, q, h => by
    cases q with
    | put k' v' =>
      obtain ⟨h1, h2⟩ := Bool.and_eq_true_iff.mp h
      exact Bool.and_eq_true_iff.mpr ⟨k.same_symm k' h1, v.same_symm v' h2⟩
    | _ => cases h
  | .modify k f, q, h => by
    cases q with
    | modify k' f' =>
      obtain ⟨h1, h2⟩ := Bool.and_eq_true_iff.mp h
      exact Bool.and_eq_true_iff.mpr ⟨k.same_symm k' h1, f.same_symm f' h2⟩
    | _ => cases h
  | .poke k, q, h => by
    cases q with
    | poke k' => exact k.same_symm k' h
    | _ => cases h
  | .tick n, q, h => by
    cases q with
    | tick n' => exact n.same_symm n' h
    | _ => cases h
  | .custom a c p, q, h => by
    cases q with
    | custom a' c' p' =>
      obtain ⟨h1, h2⟩ := Bool.and_eq_true_iff.mp h
      obtain ⟨h3, h4⟩ := Bool.and_eq_true_iff.mp h1
      exact Bool.and_eq_true_iff.mpr
        ⟨Bool.and_eq_true_iff.mpr ⟨BEq.symm h3, BEq.symm h4⟩, p.same_symm p' h2⟩
    | _ => cases h
termination_by structural r => r

theorem Chain.same_symm : ∀ c d : Chain, c.same d = true → d.same c = true
  | .done v _, d, h => by
    cases d with
    | done w _ => exact v.same_symm w h
    | _ => cases h
  | .suspended e _, d, h => by
    cases d with
    | suspended f _ => exact e.same_symm f h
    | _ => cases h
termination_by structural c => c

end

/-! ### Transitivity -/

mutual

/-- Values that a third one equals are equal. -/
theorem Value.same_trans : ∀ u v w : Value, u.same v = true → v.same w = true → u.same w = true
  | .null, v, w, h, h' => by
    cases v with
    | null =>
      cases w with
      | null => rfl
      | _ => cases h'
    | _ => cases h
  | .declined, v, w, h, h' => by
    cases v with
    | declined =>
      cases w with
      | declined => rfl
      | _ => cases h'
    | _ => cases h
  | .bool _, v, w, h, h' => by
    cases v with
    | bool _ =>
      cases w with
      | bool _ => exact BEq.trans h h'
      | int _ => exact BEq.trans h h'
      | _ => cases h'
    | int _ =>
      cases w with
      | bool _ => exact BEq.trans h h'
      | int _ => exact BEq.trans h h'
      | _ => cases h'
    | _ => cases h
  | .int _, v, w, h, h' => by
    cases v with
    | bool _ =>
      cases w with
      | bool _ => exact BEq.trans h h'
      | int _ => exact BEq.trans h h'
      | _ => cases h'
    | int _ =>
      cases w with
      | bool _ => exact BEq.trans h h'
      | int _ => exact BEq.trans h h'
      | _ => cases h'
    | _ => cases h
  | .text _, v, w, h, h' => by
    cases v with
    | text _ =>
      cases w with
      | text _ => exact BEq.trans h h'
      | _ => cases h'
    | _ => cases h
  | .capability _, v, w, h, h' => by
    cases v with
    | capability _ =>
      cases w with
      | capability _ => exact BEq.trans h h'
      | _ => cases h'
    | _ => cases h
  | .capabilities _, v, w, h, h' => by
    cases v with
    | capabilities _ =>
      cases w with
      | capabilities _ => exact BEq.trans h h'
      | _ => cases h'
    | _ => cases h
  | .function _, v, w, h, h' => by
    cases v with
    | function _ =>
      cases w with
      | function _ => exact BEq.trans h h'
      | _ => cases h'
    | _ => cases h
  | .handler _, v, w, h, h' => by
    cases v with
    | handler _ =>
      cases w with
      | handler _ => exact BEq.trans h h'
      | _ => cases h'
    | _ => cases h
  | .cell _, v, w, h, h' => by
    cases v with
    | cell _ =>
      cases w with
      | cell _ => exact BEq.trans h h'
      | _ => cases h'
    | _ => cases h
  | .refusal _ _, v, w, h, h' => by
    cases v with
    | refusal _ _ =>
      cases w with
      | refusal _ _ => exact BEq.trans h h'
      | _ => cases h'
    | _ => cases h
  | .list xs, v, w, h, h' => by
    cases v with
    | list ys =>
      cases w with
      | list zs => exact sameItems_trans (item_trans xs) h h'
      | _ => cases h'
    | _ => cases h
  | .tuple xs, v, w, h, h' => by
    obtain ⟨ys, hv, h⟩ := (same_iff_of_tupleItems rfl).mp h
    obtain ⟨zs, hw, h'⟩ := (same_iff_of_tupleItems hv).mp h'
    exact (same_iff_of_tupleItems rfl).mpr ⟨zs, hw, sameItems_trans (item_trans xs) h h'⟩
  | .result a b, v, w, h, h' => by
    obtain ⟨ys, hv, h⟩ := (same_iff_of_tupleItems rfl).mp h
    obtain ⟨zs, hw, h'⟩ := (same_iff_of_tupleItems hv).mp h'
    refine (same_iff_of_tupleItems rfl).mpr ⟨zs, hw, sameItems_trans (fun x hx => ?_) h h'⟩
    rcases List.mem_cons.mp hx with hx | hx
    · rw [hx]
      exact a.same_trans
    · rw [List.mem_singleton.mp hx]
      exact b.same_trans
  | .dict es, v, w, h, h' => by
    cases v with
    | dict fs =>
      cases w with
      | dict gs =>
        exact entriesAgree_iff.mpr
          ((entriesAgree_iff.mp h).trans (entryAgrees_trans es) (entriesAgree_iff.mp h'))
      | frozen gs =>
        exact entriesAgree_iff.mpr
          ((entriesAgree_iff.mp h).trans (entryAgrees_trans es) (entriesAgree_iff.mp h'))
      | _ => cases h'
    | frozen fs =>
      cases w with
      | dict gs =>
        exact entriesAgree_iff.mpr
          ((entriesAgree_iff.mp h).trans (entryAgrees_trans es) (entriesAgree_iff.mp h'))
      | frozen gs =>
        exact entriesAgree_iff.mpr
          ((entriesAgree_iff.mp h).trans (entryAgrees_trans es) (entriesAgree_iff.mp h'))
      | _ => cases h'
    | _ => cases h
  | .frozen es, v, w, h, h' => by
    cases v with
    | dict fs =>
      cases w with
      | dict gs =>
        exact entriesAgree_iff.mpr
          ((entriesAgree_iff.mp h).trans (entryAgrees_trans es) (entriesAgree_iff.mp h'))
      | frozen gs =>
        exact entriesAgree_iff.mpr
          ((entriesAgree_iff.mp h).trans (entryAgrees_trans es) (entriesAgree_iff.mp h'))
      | _ => cases h'
    | frozen fs =>
      cases w with
      | dict gs =>
        exact entriesAgree_iff.mpr
          ((entriesAgree_iff.mp h).trans (entryAgrees_trans es) (entriesAgree_iff.mp h'))
      | frozen gs =>
        exact entriesAgree_iff.mpr
          ((entriesAgree_iff.mp h).trans (entryAgrees_trans es) (entriesAgree_iff.mp h'))
      | _ => cases h'
    | _ => cases h
  | .effect e, v, w, h, h' => by
    cases v with
    | effect f =>
      cases w with
      | effect g => exact e.same_trans f g h h'
      | _ => cases h'
    | _ => cases h
  | .chain c, v, w, h, h' => by
    cases v with
    | chain d =>
      cases w with
      | chain e => exact c.same_trans d e h h'
      | _ => cases h'
    | _ => cases h
  | .handled s n, v, w, h, h' => by
    cases v with
    | handled t m =>
      cases w with
      | handled r l =>
        obtain ⟨h1, h2⟩ := Bool.and_eq_true_iff.mp h
        obtain ⟨h3, h4⟩ := Bool.and_eq_true_iff.mp h'
        exact Bool.and_eq_true_iff.mpr ⟨s.same_trans t r h1 h3, n.same_trans m l h2 h4⟩
      | _ => cases h'
    | _ => cases h
termination_by structural u => u

theorem item_trans : ∀ (xs : List Value) (x : Value),
    x ∈ xs → ∀ y z, x.same y = true → y.same z = true → x.same z = true
  | [], _, h => absurd h List.not_mem_nil
  | y :: xs, x, h => by
    rcases List.mem_cons.mp h with h | h
    · rw [h]
      exact y.same_trans
    · exact item_trans xs x h
termination_by structural xs => xs

theorem entryAgrees_trans : ∀ (es : List (Value × Value)) (e : Value × Value),
    e ∈ es → ∀ f g, EntryAgrees e f → EntryAgrees f g → EntryAgrees e g
  | [], _, h => absurd h List.not_mem_nil
  | (k, v) :: es, e, h => by
    rcases List.mem_cons.mp h with rfl | h
    · exact fun f g hf hg =>
        ⟨k.same_trans f.1 g.1 hf.1 hg.1, v.same_trans f.2 g.2 hf.2 hg.2⟩
    · exact entryAgrees_trans es e h
termination_by structural es => es

theorem Effect.same_trans : ∀ e f g : Effect, e.same f = true → f.same g = true → e.same g = true
  | ⟨r, _⟩, ⟨q, _⟩, ⟨p, _⟩, h, h' => r.same_trans q p h h'
termination_by structural e => e

theorem Request.same_trans : ∀ r q p : Request,
    r.same q = true → q.same p = true → r.same p = true
  | .log x, q, p, h, h' => by
    cases q with
    | log y =>
      cases p with
      | log z => exact x.same_trans y z h h'
      | _ => cases h'
    | _ => cases h
  | .loudLog x a, q, p, h, h' => by
    cases q with
    | loudLog y b =>
      cases p with
      | loudLog z c =>
        obtain ⟨h1, h2⟩ := Bool.and_eq_true_iff.mp h
        obtain ⟨h3, h4⟩ := Bool.and_eq_true_iff.mp h'
        exact Bool.and_eq_true_iff.mpr ⟨x.same_trans y z h1 h3, a.same_trans b c h2 h4⟩
      | _ => cases h'
    | _ => cases h
  | .writeLine x, q, p, h, h' => by
    cases q with
    | writeLine y =>
      cases p with
      | writeLine z => exact x.same_trans y z h h'
      | _ => cases h'
    | _ => cases h
  | .readLine, q, p, h, h' => by
    cases q with
    | readLine =>
      cases p with
      | readLine => rfl
      | _ => cases h'
    | _ => cases h
  | .beep, q, p, h, h' => by
    cases q with
    | beep =>
      cases p with
      | beep => rfl
      | _ => cases h'
    | _ => cases h
  | .get x, q, p, h, h' => by
    cases q with
    | get y =>
      cases p with
      | get z => exact x.same_trans y z h h'
      | _ => cases h'
    | _ => cases h
  | .put x a, q, p, h, h' => by
    cases q with
    | put y b =>
      cases p with
      | put z c =>
        obtain ⟨h1, h2⟩ := Bool.and_eq_true_iff.mp h
        obtain ⟨h3, h4⟩ := Bool.and_eq_true_iff.mp h'
        exact Bool.and_eq_true_iff.mpr ⟨x.same_trans y z h1 h3, a.same_trans b c h2 h4⟩
      | _ => cases h'
    | _ => cases h
  | .modify x a, q, p, h, h' => by
    cases q with
    | modify y b =>
      cases p with
      | modify z c =>
        obtain ⟨h1, h2⟩ := Bool.and_eq_true_iff.mp h
        obtain ⟨h3, h4⟩ := Bool.and_eq_true_iff.mp h'
        exact Bool.and_eq_true_iff.mpr ⟨x.same_trans y z h1 h3, a.same_trans b c h2 h4⟩
      | _ => cases h'
    | _ => cases h
  | .poke x, q, p, h, h' => by
    cases q with
    | poke y =>
      cases p with
      | poke z => exact x.same_trans y z h h'
      | _ => cases h'
    | _ => cases h
  | .tick x, q, p, h, h' => by
    cases q with
    | tick y =>
      cases p with
      | tick z => exact x.same_trans y z h h'
      | _ => cases h'
    | _ => cases h
  | .custom _ _ x, q, p, h, h' => by
    cases q with
    | custom _ _ y =>
      cases p with
      | custom _ _ z =>
        obtain ⟨h1, h2⟩ := Bool.and_eq_true_iff.mp h
        obtain ⟨h3, h4⟩ := Bool.and_eq_true_iff.mp h1
        obtain ⟨h5, h6⟩ := Bool.and_eq_true_iff.mp h'
        obtain ⟨h7, h8⟩ := Bool.and_eq_true_iff.mp h5
        exact Bool.and_eq_true_iff.mpr
          ⟨Bool.and_eq_true_iff.mpr ⟨BEq.trans h3 h7, BEq.trans h4 h8⟩, x.same_trans y z h2 h6⟩
      | _ => cases h'
    | _ => cases h
termination_by structural r => r

theorem Chain.same_trans : ∀ b c d : Chain, b.same c = true → c.same d = true → b.same d = true
  | .done u _, c, d, h, h' => by
    cases c with
    | done v _ =>
      cases d with
      | done w _ => exact u.same_trans v w h h'
      | _ => cases h'
    | _ => cases h
  | .suspended e _, c, d, h, h' => by
    cases c with
    | suspended f _ =>
      cases d with
      | suspended g _ => exact e.same_trans f g h h'
      | _ => cases h'
    | _ => cases h
termination_by structural b => b

end

/-! ### Consequences -/

theorem Value.same_comm (v w : Value) : v.same w = w.same v :=
  Bool.eq_iff_iff.mpr ⟨v.same_symm w, w.same_symm v⟩

/-- The first side of a comparison may be replaced by an equal value. -/
theorem Value.same_congr_left {u v : Value} (h : u.same v = true) (w : Value) :
    u.same w = v.same w :=
  Bool.eq_iff_iff.mpr
    ⟨v.same_trans u w (u.same_symm v h), u.same_trans v w h⟩

end EffectHandlers
