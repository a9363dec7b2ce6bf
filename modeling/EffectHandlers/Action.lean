/-
EffectHandlers/Action.lean

Computations over the world.

An action takes the world and has an outcome: a value and the next world, a
failure and the next world, or `exhausted`: the bound on the depth of calls
or on the length of a loop was too small.  The world is kept at a failure,
because what happened before it has happened.  Nothing is known of a
computation that is exhausted.

Design.  Actions are plain functions, so that two actions are equal when
they have the same outcome from every world; equality of actions says at
once that the same functions were called, on the same arguments and in the
same order.

Main results: actions form a lawful monad (`LawfulMonad Action`).
-/
import EffectHandlers.World

namespace EffectHandlers

/-- What a computation comes to, and in which world. -/
inductive Outcome (α : Type)
  | value (a : α) (w : World)
  | failed (f : Failure) (w : World)
  | exhausted

/-- A computation over the world. -/
def Action (α : Type) : Type := World → Outcome α

namespace Action

/-- The action that does nothing and gives a value. -/
@[inline] protected def pure {α : Type} (a : α) : Action α := fun w => .value a w

/-- One action after another, unless the first one fails. -/
@[inline] protected def bind {α β : Type} (x : Action α) (f : α → Action β) : Action β := fun w =>
  match x w with
  | .value a w' => f a w'
  | .failed e w' => .failed e w'
  | .exhausted => .exhausted

instance : Monad Action where
  pure := Action.pure
  bind := Action.bind

/-- The action that fails. -/
@[inline] def fail {α : Type} (f : Failure) : Action α := fun w => .failed f w

/-- The action whose bound is used up. -/
@[inline] def exhaust {α : Type} : Action α := fun _ => .exhausted

/-- Read from the world. -/
@[inline] def ask {α : Type} (f : World → α) : Action α := fun w => .value (f w) w

/-- Change the world. -/
@[inline] def change (f : World → World) : Action Unit := fun w => .value () (f w)

/-- Read from the world and change it. -/
@[inline] def exchange {α : Type} (f : World → α × World) : Action α := fun w =>
  match f w with
  | (a, w') => .value a w'

/-- The value of an optional, or a failure. -/
@[inline] def require {α : Type} (f : Failure) : Option α → Action α
  | some a => Action.pure a
  | none => fail f

/-- A value or a failure as an action. -/
@[inline] def ofExcept {α : Type} : Except Failure α → Action α
  | .ok a => Action.pure a
  | .error f => fail f

/-- The text of a value, or the failure that it has none. -/
def text (t : Except TextFault String) : Action String := ofExcept (t.mapError .noText)

/-! ### Laws -/

theorem pure_apply {α : Type} (a : α) (w : World) : (pure a : Action α) w = .value a w := rfl

theorem bind_apply {α β : Type} (x : Action α) (f : α → Action β) (w : World) :
    (x >>= f) w = match x w with
      | .value a w' => f a w'
      | .failed e w' => .failed e w'
      | .exhausted => .exhausted := rfl

protected theorem pure_bind {α β : Type} (a : α) (f : α → Action β) :
    (pure a : Action α) >>= f = f a := rfl

protected theorem bind_pure {α : Type} (x : Action α) : x >>= pure = x := by
  funext w
  rw [bind_apply]
  cases x w <;> rfl

protected theorem bind_assoc {α β γ : Type} (x : Action α) (f : α → Action β)
    (g : β → Action γ) : x >>= f >>= g = x >>= fun a => f a >>= g := by
  funext w
  simp only [bind_apply]
  cases x w <;> rfl

/-- A sequence succeeds exactly if both of its parts do. -/
theorem bind_eq_value {α β : Type} {x : Action α} {f : α → Action β} {w w'' : World} {b : β} :
    (x >>= f) w = .value b w'' ↔ ∃ a w', x w = .value a w' ∧ f a w' = .value b w'' := by
  rw [bind_apply]
  cases x w with
  | value a w' => exact ⟨fun h => ⟨a, w', rfl, h⟩, fun ⟨_, _, rfl, h⟩ => h⟩
  | failed e w' => simp
  | exhausted => simp

theorem pure_eq_value {α : Type} {a b : α} {w w' : World} :
    (pure a : Action α) w = .value b w' ↔ a = b ∧ w = w' := by
  rw [pure_apply]
  simp

theorem bind_of_value {α β : Type} {x : Action α} {f : α → Action β} {w w' : World} {a : α}
    (h : x w = .value a w') : (x >>= f) w = f a w' := by
  rw [bind_apply, h]

/-- Nothing follows a failure. -/
theorem bind_of_failed {α β : Type} {x : Action α} {f : α → Action β} {w w' : World} {e : Failure}
    (h : x w = .failed e w') : (x >>= f) w = .failed e w' := by
  rw [bind_apply, h]

/-- What follows depends on the outcome before it only. -/
theorem bind_congr_apply {α β : Type} {x y : Action α} {f : α → Action β} {w : World}
    (h : x w = y w) : (x >>= f) w = (y >>= f) w := by
  rw [bind_apply, bind_apply, h]

/-- What follows is asked for at the values that come before it only. -/
theorem bind_congr_of_value {α β : Type} {x : Action α} {f g : α → Action β} {w : World}
    (h : ∀ a w', x w = .value a w' → f a w' = g a w') : (x >>= f) w = (x >>= g) w := by
  rw [bind_apply, bind_apply]
  cases hx : x w with
  | value a w' => exact h a w' hx
  | failed e w' => rfl
  | exhausted => rfl

/-- A sequence fails where its first part fails, or else its second one. -/
theorem bind_eq_failed {α β : Type} {x : Action α} {f : α → Action β} {w w'' : World}
    {e : Failure} :
    (x >>= f) w = .failed e w'' ↔
      x w = .failed e w'' ∨ ∃ a w', x w = .value a w' ∧ f a w' = .failed e w'' := by
  rw [bind_apply]
  cases x w with
  | value a w' =>
    exact ⟨fun h => .inr ⟨a, w', rfl, h⟩, fun h => h.elim nofun fun ⟨_, _, rfl, h⟩ => h⟩
  | failed e' w' => simp
  | exhausted => simp

theorem fail_bind {α β : Type} (e : Failure) (f : α → Action β) :
    (fail e : Action α) >>= f = fail e := rfl

instance : LawfulMonad Action :=
  LawfulMonad.mk' Action
    (fun x => Action.bind_pure x)
    (fun a f => Action.pure_bind a f)
    (fun x f g => Action.bind_assoc x f g)

/-! ### Identities and events -/

/-- Draw a new identity. -/
def fresh : Action Nat := exchange fun w => (w.fresh, { w with fresh := w.fresh + 1 })

/-- Add an event. -/
def emit (e : Event) : Action Unit := change fun w => { w with events := e :: w.events }

/-- Make a diagnostic record. -/
def note (severity : Severity) (text : String) : Action Unit := emit (.noted severity text)

end Action

/-- How functions are called: the meaning of a function on arguments. -/
abbrev Call := Callable → List Value → Action Value

/-- Call a value, which has to be a function. -/
def Call.value (call : Call) (v : Value) (args : List Value) : Action Value :=
  match v with
  | .function f => call f args
  | other => Action.fail (.notInvocable other.typeName)

end EffectHandlers
