/-
EffectHandlers/Proofs/Resumption.lean

What it is to resume an effect.

The loop that resumes an effect moves whole runs of bind stages at once.
Nothing of this can be seen: resuming is the left fold that applies each
stage of the pipeline to the value so far.

Both sides are actions for an arbitrary call model, which may fail, change
the world or record what it is called with.  So the equation says that the
same functions are called on the same arguments in the same order, with the
same value or failure at the end.

Main statements: the equation itself (`Effect.resume_eq_foldlM`), and its
first uses: an effect with one more stage resumes as before and then goes
through that stage (`Effect.resume_map`).
-/
import EffectHandlers.Pipeline

namespace EffectHandlers

/-- **Resuming is folding**: an answer goes through the stages of an effect one by one. -/
theorem Effect.resume_eq_foldlM (call : Call) (e : Effect) (answer : Value) :
    e.resume call answer = e.pipeline.foldlM (fun v s => s.apply call v) answer :=
  resumeFrom_eq_applyStages call answer e.pipeline

/-- An answer that goes through no stage is what the effect is resumed to. -/
@[simp] theorem Effect.resume_of (call : Call) (r : Request) (answer : Value) :
    (Effect.of r).resume call answer = pure answer := by
  rw [Effect.resume, Effect.of, resumeFrom]

/-- Resuming an effect with one more stage: the stage is applied last. -/
theorem Effect.resume_map (call : Call) (e : Effect) (s : Stage) (answer : Value) :
    (e.map s).resume call answer = e.resume call answer >>= s.apply call := by
  have single (v : Value) : applyStages call v [s] = s.apply call v := by
    rw [applyStages_cons]
    exact bind_pure (s.apply call v)
  calc (e.map s).resume call answer
      = applyStages call answer (e.pipeline ++ [s]) := resumeFrom_eq_applyStages _ _ _
    _ = applyStages call answer e.pipeline >>= fun v => applyStages call v [s] :=
        applyStages_append call answer e.pipeline [s]
    _ = e.resume call answer >>= s.apply call := by
        rw [← resumeFrom_eq_applyStages]
        exact congrArg (resumeFrom call answer e.pipeline >>= ·) (funext single)

end EffectHandlers
