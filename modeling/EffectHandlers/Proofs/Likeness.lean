/-
EffectHandlers/Proofs/Likeness.lean

Values that cannot be told apart, and routines that depend on their answers only.

A routine that is executed twice makes two functions where it is written to
make one, and two calls of the programs that it calls.  So what it yields is
not the same the second time; it is alike.  A likeness (`Likeness`) relates
values in worlds.  It is left open which values are alike, but what is alike
looks alike: types, the kinds of effects and their fields; and effects that
are alike, resumed with answers that are alike, come to outcomes that are
alike, in all kept worlds from then on.

A routine is determinate (`Determinate`) if what it comes to, up to a
likeness, depends on nothing but the answers that it has received: in which
worlds it is executed, how often and with what between its slices makes no
difference.
-/
import EffectHandlers.Proofs.Keeping
import EffectHandlers.Proofs.DirectStyle
import Mathlib.Data.List.Forall2

namespace EffectHandlers

/-! ### Side by side -/

/-- Failures of the same class with the same wording. -/
def Failure.Alike (f g : Failure) : Prop := f.className = g.className ∧ f.message = g.message

/-- Two values that are related in their worlds, two failures that look the same, or nothing on
either side. -/
inductive Outcome.Alike {α β : Type} (R : World → α → World → β → Prop) :
    Outcome α → Outcome β → Prop
  | value {a : α} {b : β} {w u : World} (h : R w a u b) : Alike R (.value a w) (.value b u)
  | failed {f g : Failure} {w u : World} (h : f.Alike g) : Alike R (.failed f w) (.failed g u)
  | exhausted : Alike R .exhausted .exhausted

namespace Failure.Alike

theorem refl (f : Failure) : f.Alike f := ⟨rfl, rfl⟩

theorem symm {f g : Failure} (h : f.Alike g) : g.Alike f := ⟨h.1.symm, h.2.symm⟩

theorem trans {f g k : Failure} (h : f.Alike g) (h' : g.Alike k) : f.Alike k :=
  ⟨h.1.trans h'.1, h.2.trans h'.2⟩

end Failure.Alike

namespace Outcome.Alike

variable {α β γ δ : Type} {R : World → α → World → β → Prop}

theorem mono {R' : World → α → World → β → Prop} {o : Outcome α} {o' : Outcome β}
    (h : o.Alike R o') (hR : ∀ w a u b, R w a u b → R' w a u b) : o.Alike R' o' := by
  cases h with
  | value h => exact .value (hR _ _ _ _ h)
  | failed h => exact .failed h
  | exhausted => exact .exhausted

theorem comp {R' : World → β → World → γ → Prop} {o : Outcome α} {o' : Outcome β}
    {o'' : Outcome γ} (h : o.Alike R o') (h' : o'.Alike R' o'') :
    o.Alike (fun w a v c => ∃ u b, R w a u b ∧ R' u b v c) o'' := by
  cases h with
  | value h =>
    cases h' with
    | value h' => exact .value ⟨_, _, h, h'⟩
  | failed h =>
    cases h' with
    | failed h' => exact .failed (h.trans h')
  | exhausted =>
    cases h'
    exact .exhausted

theorem symm {o : Outcome α} {o' : Outcome β} (h : o.Alike R o') :
    o'.Alike (fun u b w a => R w a u b) o := by
  cases h with
  | value h => exact .value h
  | failed h => exact .failed h.symm
  | exhausted => exact .exhausted

/-- Sequences have outcomes that are alike if their parts have. -/
theorem bind {x : Action α} {y : Action β} {f : α → Action γ} {g : β → Action δ}
    {Q : World → γ → World → δ → Prop} {w u : World} (h : (x w).Alike R (y u))
    (hnext : ∀ a w' b u', x w = .value a w' → y u = .value b u' → R w' a u' b →
      (f a w').Alike Q (g b u')) :
    ((x >>= f) w).Alike Q ((y >>= g) u) := by
  rw [Action.bind_apply, Action.bind_apply]
  generalize hx : x w = o at h ⊢
  generalize hy : y u = o' at h ⊢
  cases h with
  | value h => exact hnext _ _ _ _ hx hy h
  | failed h => exact .failed h
  | exhausted => exact .exhausted

end Outcome.Alike

/-- Two finished chains or two pending ones, with parts that are related. -/
def Chain.Relates (R : Value → Value → Prop) : Chain → Chain → Prop
  | .done a _, .done b _ => R a b
  | .suspended e _, .suspended e' _ => R (.effect e) (.effect e')
  | _, _ => False

/-- Two yields or two returns, with values that are related. -/
def Advance.Relates (R : Value → Value → Prop) : Advance → Advance → Prop
  | .yielded a, .yielded b => R a b
  | .returned a, .returned b => R a b
  | _, _ => False

/-- Requests of the same kind with fields that are related. -/
def Request.Relates (R : Value → Value → Prop) (r r' : Request) : Prop :=
  r.kind = r'.kind ∧ List.Forall₂ (fun f g => f.1 = g.1 ∧ R f.2 g.2) r.fields r'.fields

/-! ### Lists side by side -/

theorem forall₂_comp {α β γ : Type} {R : α → β → Prop} {S : β → γ → Prop} {T : α → γ → Prop}
    (h : ∀ a b c, R a b → S b c → T a c) {as : List α} {bs : List β} {cs : List γ}
    (hR : List.Forall₂ R as bs) (hS : List.Forall₂ S bs cs) : List.Forall₂ T as cs := by
  induction hR generalizing cs with
  | nil =>
    cases hS
    exact .nil
  | cons hab _ ih =>
    cases hS with
    | cons hbc hrest => exact .cons (h _ _ _ hab hbc) (ih hrest)

/-! ### Likeness -/

/-- A notion of values that cannot be told apart: `same w a u b` says that `a` in the world `w` is
like `b` in the world `u`. -/
structure Likeness (s : Settings) where
  same : World → Value → World → Value → Prop
  symm {w u : World} {a b : Value} : same w a u b → same u b w a
  trans {w u v : World} {a b c : Value} : same w a u b → same u b v c → same w a v c
  grow {w w' u u' : World} {a b : Value} : same w a u b → w.Grows w' → u.Grows u' →
    same w' a u' b
  typeName {w u : World} {a b : Value} : same w a u b → a.typeName = b.typeName
  chain {w u : World} {c : Chain} {b : Value} : same w (.chain c) u b →
    ∃ c', b = .chain c' ∧ c.Relates (fun a b => same w a u b) c'
  effect {w u : World} {e : Effect} {b : Value} : same w (.effect e) u b →
    ∃ e', b = .effect e' ∧ e.request.Relates (fun a b => same w a u b) e'.request
  /-- Effects that are alike are resumed alike. -/
  resume {w w' u u' : World} {e e' : Effect} {a b : Value} :
    same w (.effect e) u (.effect e') → w.Grows w' → u.Grows u' → Kept s w' → Kept s u' →
    same w' a u' b →
    (e.resume (Callable.meaning s) a w').Alike same (e'.resume (Callable.meaning s) b u')

namespace Likeness

variable {s : Settings} (L : Likeness s)

/-- Answers that are alike, one by one. -/
def All (w : World) (as : List Value) (u : World) (bs : List Value) : Prop :=
  List.Forall₂ (fun a b => L.same w a u b) as bs

/-- A routine comes to something that is alike. -/
def Exits (w : World) (x : Exit) (u : World) (y : Exit) : Prop :=
  x.advance.Relates (fun a b => L.same w a u b) y.advance

variable {L} {w w' u u' v : World} {as bs cs : List Value}

theorem All.grow (h : L.All w as u bs) (hw : w.Grows w') (hu : u.Grows u') :
    L.All w' as u' bs := h.imp fun _ _ h => L.grow h hw hu

theorem All.symm (h : L.All w as u bs) : L.All u bs w as := by
  induction h with
  | nil => exact .nil
  | cons hab _ ih => exact .cons (L.symm hab) ih

theorem All.trans (h : L.All w as u bs) (h' : L.All u bs v cs) : L.All w as v cs := by
  refine forall₂_comp ?_ h h'
  exact fun _ _ _ => L.trans

end Likeness

/-! ### Determinate routines -/

/-- The first slice of a routine, with its failures as they leave the routine. -/
noncomputable def firstSlice (s : Settings) (body : List Stmt) (env : Env) : Action Exit :=
  (execBlock (Evaluation.meaning s) body env).outward

/-- The slice of a routine that follows the answer to a yield, with its failures as they leave
the routine. -/
noncomputable def nextSlice (s : Settings) (target : Option String) (rest : List Frame)
    (env : Env) (answer : Value) : Action Exit :=
  (execFrames (Evaluation.meaning s) rest (Coroutine.bindAnswer env target answer)).outward

/-- What a routine comes to depends on the answers that it has received only, in kept worlds not
earlier than `b`. -/
structure Determinate {s : Settings} (L : Likeness s) (b : World) (body : List Stmt)
    (env : Env) : Prop where
  first {w u : World} : Kept s w → Kept s u → b.Grows w → b.Grows u →
    (firstSlice s body env w).Alike L.Exits (firstSlice s body env u)
  next {w u : World} {as as' : List Value} {a a' : Value} {target target' : Option String}
    {rest rest' : List Frame} {env₁ env₁' : Env} : Kept s w → Kept s u → b.Grows w → b.Grows u →
    Reached s b body env as target rest env₁ → Reached s b body env as' target' rest' env₁' →
    L.All w (a :: as) u (a' :: as') →
    (nextSlice s target rest env₁ a w).Alike L.Exits (nextSlice s target' rest' env₁' a' u)

/-- Whether a part of a routine ends at a yield. -/
def Exit.yields : Exit → Bool
  | .yielded _ _ _ _ => true
  | .through _ | .returned _ => false

/-- Two routines that yield together when they have received answers that are alike; one is
executed in kept worlds not earlier than `b`, the other one in kept worlds not earlier than
`b'`. -/
structure Abreast {s : Settings} (L : Likeness s) (b : World) (body : List Stmt) (env : Env)
    (b' : World) (body' : List Stmt) (env' : Env) : Prop where
  first {w u : World} : Kept s w → Kept s u → b.Grows w → b'.Grows u →
    (firstSlice s body env w).Alike (fun _ x _ y => x.yields = y.yields)
      (firstSlice s body' env' u)
  next {w u : World} {as as' : List Value} {a a' : Value} {target target' : Option String}
    {rest rest' : List Frame} {env₁ env₁' : Env} : Kept s w → Kept s u → b.Grows w → b'.Grows u →
    Reached s b body env as target rest env₁ → Reached s b' body' env' as' target' rest' env₁' →
    L.All w (a :: as) u (a' :: as') →
    (nextSlice s target rest env₁ a w).Alike (fun _ x _ y => x.yields = y.yields)
      (nextSlice s target' rest' env₁' a' u)

theorem Exit.yields_of_relates {R : Value → Value → Prop} {x y : Exit}
    (h : x.advance.Relates R y.advance) : x.yields = y.yields := by
  cases x <;> cases y <;> first | rfl | cases h

/-- A determinate routine is abreast of itself. -/
theorem Determinate.abreast {s : Settings} {L : Likeness s} {b : World} {body : List Stmt}
    {env : Env} (hd : Determinate L b body env) : Abreast L b body env b body env where
  first hw hu hbw hbu := (hd.first hw hu hbw hbu).mono fun _ _ _ _ => Exit.yields_of_relates
  next hw hu hbw hbu hr hr' hall :=
    (hd.next hw hu hbw hbu hr hr' hall).mono fun _ _ _ _ => Exit.yields_of_relates

theorem Abreast.symm {s : Settings} {L : Likeness s} {b b' : World} {body body' : List Stmt}
    {env env' : Env} (h : Abreast L b body env b' body' env') :
    Abreast L b' body' env' b body env where
  first hw hu hbw hbu := (h.first hu hw hbu hbw).symm.mono fun _ _ _ _ => Eq.symm
  next hw hu hbw hbu hr hr' hall :=
    (h.next hu hw hbu hbw hr' hr hall.symm).symm.mono fun _ _ _ _ => Eq.symm

/-- What yields together with a yield is a yield. -/
theorem Outcome.Alike.yields {w : World} {v : Value} {target : Option String} {rest : List Frame}
    {env : Env} {o : Outcome Exit} (h : (Outcome.value (Exit.yielded v target rest env) w).Alike
      (fun _ x _ (y : Exit) => x.yields = y.yields) o) :
    ∃ v' target' rest' env' u, o = .value (.yielded v' target' rest' env') u := by
  cases h with
  | @value _ y _ u h =>
    cases y with
    | yielded v' target' rest' env' => exact ⟨v', target', rest', env', u, rfl⟩
    | through env' => cases h
    | returned v' => cases h

/-! ### Slices -/

section

variable {α : Type} {s : Settings} {x : Action α} {w u : World}

theorem firstSlice_eq_value {body : List Stmt} {env : Env} {exit : Exit} :
    firstSlice s body env w = .value exit u ↔
      execBlock (Evaluation.meaning s) body env w = .value exit u :=
  Action.outward_eq_value

theorem nextSlice_eq_value {target : Option String} {rest : List Frame} {env : Env}
    {answer : Value} {exit : Exit} :
    nextSlice s target rest env answer w = .value exit u ↔
      execFrames (Evaluation.meaning s) rest (Coroutine.bindAnswer env target answer) w
        = .value exit u :=
  Action.outward_eq_value

theorem Keeps.outward {P : α → Prop} (hx : Keeps s P x) : Keeps s P x.outward := by
  intro births w hw
  have hlead := hx births w hw
  unfold Action.outward
  cases hxw : x w with
  | value a w' => rwa [hxw] at hlead
  | failed f w' => rwa [hxw] at hlead
  | exhausted => trivial

theorem keeps_firstSlice (s : Settings) (body : List Stmt) (env : Env) :
    Keeps s (fun _ => True) (firstSlice s body env) :=
  ((sound_meaning s).keeps_execBlock body env).outward.weaken fun _ _ => trivial

theorem keeps_nextSlice (s : Settings) (target : Option String) (rest : List Frame) (env : Env)
    (answer : Value) : Keeps s (fun _ => True) (nextSlice s target rest env answer) :=
  ((sound_meaning s).keeps_execFrames rest _).outward.weaken fun _ _ => trivial

variable {L : Likeness s}

/-- What is like a yield is a yield. -/
theorem Outcome.Alike.yielded {o : Outcome Exit} {v : Value} {target : Option String}
    {rest : List Frame} {env : Env} (h : (Outcome.value (.yielded v target rest env) w).Alike
      L.Exits o) :
    ∃ v' target' rest' env' u, o = .value (.yielded v' target' rest' env') u ∧
      L.same w v u v' := by
  cases h with
  | @value _ y _ u h =>
    cases y with
    | yielded v' target' rest' env' => exact ⟨v', target', rest', env', u, rfl, h⟩
    | through env' => cases h
    | returned v' => cases h

end

end EffectHandlers
