/-
EffectHandlers/Proofs/Meaning.lean

What a call means when its depth is not bounded.

`Callable.apply s depth` is exhausted if calls are nested deeper than
`depth`.  More depth changes no outcome that is not exhausted, so there is
one outcome that all sufficient depths agree on, or none of them is
sufficient.  The meaning of a call is that outcome.

Two families of outcomes are compared: a less and a more defined outcome
(`Comparison.defined`), and a sequence with its limit (`Comparison.limit`).
Both comparisons go through sequences of actions, so both are disciplines
and hold of the whole interpreter.

Main results: the meaning is the outcome at every sufficient depth
(`Callable.meaning_of_apply`, `Callable.apply_of_meaning`), and it does not
change when it is unfolded once (`Callable.meaning_unfold`).
-/
import EffectHandlers.Proofs.Discipline.Calls

namespace EffectHandlers

/-! ### Comparisons of outcomes -/

/-- What an outcome leads to, if nothing is known after it is exhausted. -/
def Outcome.elim {α β : Type} (o : Outcome α) (next : α → World → Outcome β)
    (failed : Failure → World → Outcome β) : Outcome β :=
  match o with
  | .value a w => next a w
  | .failed f w => failed f w
  | .exhausted => .exhausted

theorem Action.bind_elim {α β : Type} (x : Action α) (f : α → Action β) (w : World) :
    (x >>= f) w = (x w).elim (fun a w' => f a w') .failed := by
  rw [Action.bind_apply]
  cases x w <;> rfl

theorem Coroutine.execute_apply (id gen : Nat) (part : Action Exit) (w : World) :
    Coroutine.execute id gen part w
      = (part (w.setPosition id gen .running)).elim
        (fun exit w' => .value exit.advance (w'.setPosition id gen exit.position))
        fun f w' => .failed (Coroutine.outward f) (w'.setPosition id gen .finished) := by
  rw [Coroutine.execute]
  cases part (w.setPosition id gen .running) <;> rfl

/-- A relation between the outcomes of a family that holds if they are all the same and goes on
to what the outcomes lead to. -/
structure Comparison (ι : Type) where
  rel {α : Type} (o : ι → Outcome α) : Prop
  const {α : Type} (o : Outcome α) : rel fun _ => o
  elim {α β : Type} {o : ι → Outcome α} {next : ι → α → World → Outcome β}
    {failed : Failure → World → Outcome β} (ho : rel o)
    (hnext : ∀ i a w, o i = .value a w → rel fun i => next i a w) :
    rel fun i => (o i).elim (next i) failed

namespace Comparison

variable {ι : Type} (C : Comparison ι)

/-- The actions of a family compare from every world, and what they give satisfies `P`. -/
def Holds {α : Type} (P : α → Prop) (x : ι → Action α) : Prop :=
  ∀ w, C.rel (fun i => x i w) ∧ ∀ i a w', x i w = .value a w' → P a

variable {C}

theorem Holds.const {α : Type} {P : α → Prop} {x : Action α}
    (h : ∀ w a w', x w = .value a w' → P a) : C.Holds P fun _ => x :=
  fun w => ⟨C.const (x w), fun _ => h w⟩

theorem Holds.bind {α β : Type} {P : α → Prop} {Q : β → Prop} {x : ι → Action α}
    {f : ι → α → Action β} (hx : C.Holds P x) (hf : ∀ a, P a → C.Holds Q fun i => f i a) :
    C.Holds Q fun i => x i >>= f i := by
  intro w
  obtain ⟨hrel, hpost⟩ := hx w
  constructor
  · simp only [Action.bind_elim]
    exact C.elim hrel fun i a w' ha => (hf a (hpost i a w' ha) w').1
  · intro i b w'' hb
    obtain ⟨a, w', ha, hb⟩ := Action.bind_eq_value.mp hb
    exact (hf a (hpost i a w' ha) w').2 i b w'' hb

/-- The comparison of the worlds and positions in which the execution of a part of a coroutine
ends. -/
theorem Holds.execute {P : Exit → Prop} {part : ι → Action Exit} (hpart : C.Holds P part)
    (id gen : Nat) : C.Holds (Advance.Obeys .free) fun i => Coroutine.execute id gen (part i) := by
  intro w
  obtain ⟨hrel, -⟩ := hpart (w.setPosition id gen .running)
  refine ⟨?_, fun i next w' _ => ?_⟩
  · simp only [Coroutine.execute_apply]
    exact C.elim hrel fun _ _ _ _ => C.const _
  · cases next <;> exact Value.obeys_free _

/-- Comparisons are disciplines. -/
def discipline (C : Comparison ι) : CallDiscipline ι .free where
  holds := C.Holds
  ret ha := Holds.const fun _ _ _ h => (Action.pure_eq_value.mp h).1 ▸ ha
  fail P f := Holds.const fun _ _ _ h => by cases h
  exhaust P := Holds.const fun _ _ _ h => by cases h
  bind := Holds.bind
  fresh := Holds.const fun _ _ _ _ => trivial
  emit _ := Holds.const fun _ _ _ _ => trivial
  showValue _ := Holds.const fun _ _ _ _ => trivial
  newCell _ := Holds.const fun _ _ _ _ => Value.obeys_free _
  readCell _ := Holds.const fun _ _ _ _ => Value.obeys_free _
  writeCell _ _ _ := Holds.const fun _ _ _ _ => trivial
  newSource _ := Holds.const fun _ _ _ _ => trivial
  readLine _ := Holds.const fun _ _ _ _ => trivial
  newJournal := Holds.const fun _ _ _ _ => trivial
  journalEntries _ := Holds.const fun _ _ _ _ _ _ => Value.obeys_free _
  record _ _ _ _ := Holds.const fun _ _ _ _ => trivial
  create _ _ := Holds.const fun _ _ _ _ => trivial
  spawn _ := Holds.const fun _ _ _ _ => trivial
  liveOf _ := Holds.const fun _ _ _ _ => trivial
  setLive _ _ := Holds.const fun _ _ _ _ => trivial
  answersOf _ _ := Holds.const fun _ _ _ _ _ _ => Value.obeys_free _
  extendHistory _ _ _ _ := Holds.const fun _ _ _ _ => trivial
  standing _ _ := Holds.const fun _ p _ _ => p.obeys_free
  receive _ _ _ _ := Holds.const fun _ _ _ _ => trivial
  execute _ gen _ hpart := hpart.execute _ gen

/-! ### The two comparisons -/

/-- The second outcome is the first one unless that is exhausted. -/
def defined : Comparison Bool where
  rel o := o false = .exhausted ∨ o true = o false
  const _ := .inr rfl
  elim {_ _ o _ _} ho hnext := by
    dsimp only at hnext ⊢
    cases hlow : o false with
    | value a w =>
      have hhigh : o true = .value a w := by simpa [hlow] using ho
      rw [hhigh]
      exact hnext false a w hlow
    | failed f w =>
      have hhigh : o true = .failed f w := by simpa [hlow] using ho
      rw [hhigh]
      exact .inr rfl
    | exhausted => exact .inl rfl

/-- The outcomes of a sequence are exhausted or what the sequence comes to in the end, which is
the outcome at `none`. -/
def limit : Comparison (Option Nat) where
  rel o := (∀ n, o (some n) = .exhausted ∨ o (some n) = o none) ∧
    ∃ n, ∀ m, n ≤ m → o (some m) = o none
  const _ := ⟨fun _ => .inr rfl, 0, fun _ _ => rfl⟩
  elim {_ _ o next failed} ho hnext := by
    obtain ⟨hbelow, n, hn⟩ := ho
    dsimp only at hnext ⊢
    cases htop : o none with
    | value a w =>
      obtain ⟨hbelow', n', hn'⟩ := hnext none a w htop
      refine ⟨fun m => ?_, max n n', fun m hm => ?_⟩
      · rcases hbelow m with h | h
        · exact .inl (by rw [h]; rfl)
        · rw [h, htop]
          exact hbelow' m
      · rw [hn m (by omega), htop]
        exact hn' m (by omega)
    | failed f w =>
      refine ⟨fun m => ?_, n, fun m hm => ?_⟩
      · rcases hbelow m with h | h
        · exact .inl (by rw [h]; rfl)
        · exact .inr (by rw [h, htop]; rfl)
      · rw [hn m hm, htop]
        rfl
    | exhausted =>
      have hall (m : Nat) : o (some m) = .exhausted := by
        rcases hbelow m with h | h
        · exact h
        · rw [h, htop]
      exact ⟨fun m => .inl (by rw [hall m]; rfl), 0, fun m _ => by rw [hall m]; rfl⟩

end Comparison

/-! ### The meaning of calls -/

namespace Callable

variable {s : Settings} {depth : Nat} {f : Callable} {args : List Value} {w : World}

/-- What holds of the settings of a family if they are all the same. -/
theorem runsAlike_const {ι : Type} (R : Regime) (s : Settings) :
    RunsAlike R fun _ : ι => s := fun _ => ⟨s, rfl⟩

/-- One more level of depth changes no outcome that is not exhausted. -/
theorem apply_succ (s : Settings) (depth : Nat) :
    Comparison.defined.discipline.Calls
      fun b => Callable.apply s (if b then depth + 1 else depth) := by
  induction depth with
  | zero => exact fun f args _ _ w => ⟨.inl rfl, fun _ v _ _ => v.obeys_free⟩
  | succ depth ih =>
    have h := CallDiscipline.applyWith (runsAlike_const _ s) (fun _ => rfl) ih
    intro f args hf hargs
    have hfam : (fun b : Bool => Callable.apply s (if b then depth + 1 + 1 else depth + 1) f args)
        = fun b : Bool => f.applyWith s (Callable.apply s (if b then depth + 1 else depth)) args := by
      funext b
      cases b <;> rfl
    rw [hfam]
    exact h f args hf hargs

/-- More depth changes no outcome that is not exhausted. -/
theorem apply_mono {depth' : Nat} (h : Callable.apply s depth f args w ≠ .exhausted)
    (hle : depth ≤ depth') :
    Callable.apply s depth' f args w = Callable.apply s depth f args w := by
  induction hle with
  | refl => rfl
  | @step depth' _ ih =>
    have hstep := (apply_succ s depth' f args f.obeys_free (fun a _ => a.obeys_free) w).1
    rcases hstep with hex | heq
    · exact absurd (ih ▸ hex) h
    · exact heq.trans ih

open Classical in
/-- What a call comes to if its depth is not bounded. -/
noncomputable def meaning (s : Settings) : Call := fun f args w =>
  if h : ∃ depth, Callable.apply s depth f args w ≠ .exhausted then
    Callable.apply s h.choose f args w
  else .exhausted

/-- The meaning is what every sufficient depth gives. -/
theorem meaning_of_apply (h : Callable.apply s depth f args w ≠ .exhausted) :
    meaning s f args w = Callable.apply s depth f args w := by
  have hex : ∃ depth, Callable.apply s depth f args w ≠ .exhausted := ⟨depth, h⟩
  rw [meaning, dif_pos hex]
  rcases Nat.le_total depth hex.choose with hle | hle
  · exact apply_mono h hle
  · exact (apply_mono hex.choose_spec hle).symm

/-- Some depth is sufficient. -/
theorem apply_of_meaning (s : Settings) (f : Callable) (args : List Value) (w : World) :
    ∃ depth, Callable.apply s depth f args w = meaning s f args w := by
  by_cases hex : ∃ depth, Callable.apply s depth f args w ≠ .exhausted
  · obtain ⟨depth, h⟩ := hex
    exact ⟨depth, (meaning_of_apply h).symm⟩
  · rw [meaning, dif_neg hex]
    exact ⟨0, rfl⟩

/-- A call of bounded depth is exhausted, or the depth does not matter. -/
theorem apply_or_meaning (s : Settings) (depth : Nat) (f : Callable) (args : List Value)
    (w : World) : Callable.apply s depth f args w = .exhausted ∨
      Callable.apply s depth f args w = meaning s f args w := by
  by_cases h : Callable.apply s depth f args w = .exhausted
  · exact .inl h
  · exact .inr (meaning_of_apply h).symm

/-- Calls at growing depth come to their meaning. -/
theorem meaning_limit (s : Settings) :
    Comparison.limit.discipline.Calls fun
      | some depth => Callable.apply s depth
      | none => meaning s := by
  intro f args _ _ w
  have hbelow (depth : Nat) := apply_or_meaning s depth f args w
  refine ⟨⟨hbelow, ?_⟩, fun _ v _ _ => v.obeys_free⟩
  obtain ⟨depth, h⟩ := apply_of_meaning s f args w
  by_cases hex : meaning s f args w = .exhausted
  · refine ⟨0, fun m _ => ?_⟩
    rcases hbelow m with h | h
    · exact h.trans hex.symm
    · exact h
  · refine ⟨depth, fun m hm => ?_⟩
    exact (apply_mono (by rwa [h]) hm).trans h

/-- From some depth on, calls come to their meaning. -/
theorem apply_eventually (s : Settings) (f : Callable) (args : List Value) (w : World) :
    ∃ n, ∀ m, n ≤ m → Callable.apply s m f args w = meaning s f args w :=
  (meaning_limit s f args f.obeys_free (fun a _ => a.obeys_free) w).1.2

/-- The meaning of a call is what the function comes to if the calls that it makes have their
meaning. -/
theorem meaning_unfold (s : Settings) (f : Callable) (args : List Value) :
    meaning s f args = f.applyWith s (meaning s) args := by
  funext w
  have hcalls := CallDiscipline.applyWith (runsAlike_const _ s) (fun _ => rfl) (meaning_limit s)
  obtain ⟨n, hn⟩ := (hcalls f args f.obeys_free (fun a _ => a.obeys_free) w).1.2
  obtain ⟨m, hm⟩ := apply_eventually s f args w
  have hleft := hm (max n m + 1) (by omega)
  have hright := hn (max n m) (by omega)
  exact hleft.symm.trans hright

end Callable

/-- The evaluation of expressions in which the depth of calls is not bounded. -/
noncomputable def Evaluation.meaning (s : Settings) : Evaluation := fun env e =>
  e.eval s (Callable.meaning s) env

/-- Evaluation with calls of a bounded depth is exhausted, or the depth does not matter. -/
theorem Evaluation.apply_or_meaning (s : Settings) (depth : Nat) (env : Env) (e : Expr)
    (w : World) : e.eval s (Callable.apply s depth) env w = .exhausted ∨
      e.eval s (Callable.apply s depth) env w = Evaluation.meaning s env e w := by
  have hlimit := Discipline.eval (D := Comparison.limit.discipline.toDiscipline)
    (Callable.meaning_limit s) (Callable.runsAlike_const _ s) e (Expr.uses_any e)
    (fun b (_ : b ∈ env) => Value.obeys_free b.2)
  exact (hlimit w).1.1 depth

end EffectHandlers
