/-
EffectHandlers/Proofs/DirectRun.lean

Running a routine directly against a handler.

The direct run executes the statements of a routine once, from top to
bottom.  At every yield it drives what is yielded to its value, from the
state that the handler is in, and goes on with exactly that value.  It knows
of no resumptions, no histories and no pipelines that end in them.

The handler is started when the first chain is driven, or else at the end,
as it is in a run of the chain of the routine: what the routine does before
its first pending chain, it does when the chain is made.
-/
import EffectHandlers.Proofs.Resumption
import EffectHandlers.Proofs.TailResumption
import EffectHandlers.Proofs.Constructed
import EffectHandlers.Proofs.Twin

namespace EffectHandlers

/-! ### The direct run -/

/-- How far a direct run has come: the state of the handler if it was started, the number of its
steps, and the number of finished chains that were answered in a row. -/
structure Progress where
  state : Option Value
  steps : Nat
  streak : Nat

section

variable (s : Settings) (call : Call) (h : Handler) (offer : Offer)

/-- Drive a chain from where a run has come to. -/
def Progress.drive (p : Progress) (c : Chain) : Action Drive :=
  match p.state with
  | none => do EffectHandlers.drive s offer s.maxSteps 0 (← openRun call h) (.chain c)
  | some state => EffectHandlers.drive s offer (s.maxSteps - p.steps) p.steps state (.chain c)

/-- Answer what is yielded with the value that it is driven to. -/
def answerDirectly : Answering Progress := fun v p => do
  match ← Invocation.yieldedChain v with
  | .done a _ =>
    if p.streak < s.maxSteps then return (a, { p with streak := p.streak + 1 })
    else Action.exhaust
  | .suspended e r => do
    let d ← p.drive s call h offer (.suspended e r)
    return (d.value, ⟨some d.state, d.steps, 0⟩)

/-- The result of a direct run whose statements have ended. -/
def finishDirectly (ending : Ending) (p : Progress) : Action Value := do
  closeRun call h (← p.drive s call h offer (.finished ending.value))

end

/-! ### Where the live coroutine stands -/

/-- The live coroutine of a call is parked at a yield, after a history that is recorded. -/
structure Invocation.Stands (R : Regime) (i : Invocation) (gen hist : Nat)
    (target : Option String) (rest : List Frame) (env : Env) : Prop where
  live : i.live = some (gen, hist)
  parked : ∃ received, i.coroutines[gen]? = some ⟨.parked target rest env, received⟩
  recorded : ∃ answers, i.histories[hist]? = some answers
  frames : ∀ f ∈ rest, f.Obeys R
  bindings : Env.Obeys R env

namespace Invocation

variable {R : Regime} {i : Invocation} {gen hist : Nat} {target : Option String}
  {rest : List Frame} {env : Env} {answer : Value}

/-- After the next yield the live coroutine stands at the history with the answer. -/
theorem Stands.yield (hs : i.Stands R gen hist target rest env) (answers : List Value)
    {target' : Option String} {rest' : List Frame} {env' : Env}
    (hf : ∀ f ∈ rest', f.Obeys R) (he : Env.Obeys R env') :
    Stands R ((((((i.withLive none).withReceived gen answer).setPosition gen
        (.parked target' rest' env')).withHistory answers).withLive
        (some (gen, i.histories.size)))) gen i.histories.size target' rest' env' := by
  obtain ⟨received, hparked⟩ := hs.parked
  refine ⟨rfl, ⟨answer :: received, ?_⟩, ⟨answers, ?_⟩, hf, he⟩
  · simp [withLive, withReceived, setPosition, withHistory, Array.getElem?_modify, hparked]
  · simp [withLive, withReceived, setPosition, withHistory]

end Invocation

/-- An answer is fed to the live coroutine on one side; on the other one, what its yield left is
executed. -/
theorem Twin.feed {s : Settings} {R : Regime} {id : Nat} {i : Invocation} {w v : World} {gen hist : Nat}
    {target : Option String} {rest : List Frame} {env : Env} {answer : Value} {β : Type}
    {eval : Evaluation} {f : Advance × Nat → Action β} {g : Exit → Action β}
    (ht : Twin R id i w v) (hs : i.Stands R gen hist target rest env)
    (hpart : Framed R id (Exit.Obeys R)
      (execFrames eval rest (Coroutine.bindAnswer env target answer)))
    (hreturned : ∀ u exit i' w' v', u.Obeys R → exit.advance = .returned u →
      Twin R id i' w' v' → (f (.returned u, hist) w').Tallies s id (g exit v'))
    (hyielded : ∀ u target' rest' env' i' hist' w' v', u.Obeys R →
      i'.Stands R gen hist' target' rest' env' → Twin R id i' w' v' →
      (f (.yielded u, hist') w').Tallies s id (g (.yielded u target' rest' env') v')) :
    ((Invocation.feed eval id hist answer >>= f) w).Tallies s id
      ((execFrames eval.inside rest (Coroutine.bindAnswer env target answer) >>= g) v) := by
  obtain ⟨answers, hanswers⟩ := hs.recorded
  obtain ⟨received, hparked⟩ := hs.parked
  -- What happens before the slice is executed is known.
  have hsent := (ht.changeCall (·.withLive none)).changeCall (·.withReceived gen answer)
  rw [Action.bind_apply, Invocation.feed_apply ht.record hs.live hparked, ← Action.bind_apply,
    bind_assoc, ← execFrames_outward]
  refine hsent.execute hpart fun exit w' v' hexit ht' => ?_
  cases exit with
  | through e => exact hreturned .null _ _ w' v' trivial rfl ht'
  | returned u => exact hreturned u _ _ w' v' hexit rfl ht'
  | yielded u target' rest' env' =>
    obtain ⟨hu, hf, he⟩ := hexit
    dsimp only [Exit.advance]
    rw [Action.bind_of_value (Invocation.settle_yielded ht'.record answer u hanswers)]
    have hlast := (ht'.changeCall (·.withHistory (answer :: answers))).changeCall
      (·.withLive (some (gen, i.histories.size)))
    exact hyielded u target' rest' env' _ _ _ v' hu (hs.yield (answer :: answers) hf he) hlast

/-! ### Quiet actions -/

/-- An action that makes a diagnostic record at most. -/
inductive Action.Quiet : Action Unit → Prop
  | nothing : Quiet (pure ())
  | note (severity : Severity) (text : String) : Quiet (Action.note severity text)

/-- The record of a step is quiet, if it can be made. -/
theorem Settings.quiet_noteStep (s : Settings) (step : Nat) (e : Effect) :
    (s.noteStep step e).Quiet ∨
      s.logSteps = true ∧ ∃ f, s.noteStep step e = Action.fail (.noText f) := by
  obtain hnote | ⟨text, hnote⟩ | hnote := s.noteStep_cases step e
  · exact .inl (hnote ▸ .nothing)
  · exact .inl (hnote ▸ .note .debug text)
  · exact .inr hnote

namespace Twin

variable {s : Settings} {R : Regime} {id : Nat} {i : Invocation} {w v : World} {β : Type}

theorem quiet_left {x : Action Unit} {f : Unit → Action β} {o : Outcome β} (hx : x.Quiet)
    (ht : Twin R id i w v) (h : ∀ w', Twin R id i w' v → (f () w').Tallies s id o) :
    ((x >>= f) w).Tallies s id o := by
  cases hx with
  | nothing => exact h w ht
  | note severity text => exact h _ (ht.note severity text)

theorem quiet_right {x : Action Unit} {f : Unit → Action β} {o : Outcome β} (hx : x.Quiet)
    (ht : Twin R id i w v) (h : ∀ v', Twin R id i w v' → o.Tallies s id (f () v')) :
    o.Tallies s id ((x >>= f) v) := by
  cases hx with
  | nothing => exact h v ht
  | note severity text => exact h _ (ht.note_right severity text)

/-- An effect that nobody handles fails on both sides. -/
theorem failUnhandled {f g : Drive → Action β} (ht : Twin R id i w v) (steps : Nat)
    {e e' : Effect} (he : e.request = e'.request) :
    ((EffectHandlers.failUnhandled steps e >>= f) w).Tallies s id
      ((EffectHandlers.failUnhandled steps e' >>= g) v) := by
  rw [failUnhandled_bind, failUnhandled_bind]
  unfold EffectHandlers.failUnhandled Effect.noted
  rw [Effect.recordText_congr he]
  cases e'.recordText with
  | ok text =>
    show ((Action.note .error _ >>= fun _ => Action.fail _) w).Tallies s id
      ((Action.note .error _ >>= fun _ => Action.fail _) v)
    refine quiet_left (.note _ _) ht fun w' ht' => quiet_right (.note _ _) ht' fun v' ht'' => ?_
    exact ht''.fail (by rw [Failure.outline, Failure.outline, he])
  | error f => exact ht.fail rfl

end Twin

end EffectHandlers
