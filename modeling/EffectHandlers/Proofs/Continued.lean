/-
EffectHandlers/Proofs/Continued.lean

Chains that are continued by the rest of a program.

The rest of a program is a list of binders: a chain is continued by the
first one, and what this gives by the next one.  A suspended chain keeps
them all and waits.  What it comes to when it is answered is continued by
them in turn.

Main statements: `Chain.continued_suspended`, `Effect.resume_extend`, and
`performing_resume` for a request that is made in a program.
-/
import EffectHandlers.Proofs.Resumption

namespace EffectHandlers

/-! ### The rest of a program -/

/-- A chain continued by binders, one after the other. -/
def Chain.continued (call : Call) (c : Chain) : List Binder → Action Chain
  | [] => pure c
  | b :: bs => c.bind call b >>= fun d => d.continued call bs

theorem Chain.continued_suspended (call : Call) (e : Effect) (r : CapabilitySet)
    (bs : List Binder) : (Chain.suspended e r).continued call bs
      = pure (.suspended (e.extend (bs.map .bind)) r) := by
  induction bs generalizing e with
  | nil => rw [List.map_nil, Effect.extend_nil]; rfl
  | cons b bs ih =>
    rw [continued, Chain.bind_suspended, pure_bind, ih, Effect.map_eq_extend,
      Effect.extend_extend]
    rfl

/-- An effect with more stages is resumed as before, and then goes through them. -/
theorem Effect.resume_stages (call : Call) (e : Effect) (ss : List Stage) (a : Value) :
    (e.extend ss).resume call a = e.resume call a >>= fun v => applyStages call v ss := by
  rw [Effect.resume, Effect.resume, resumeFrom_eq_applyStages, resumeFrom_eq_applyStages]
  exact applyStages_append call a e.pipeline ss

/-- What an effect comes to is continued by what it is continued by. -/
theorem Effect.resume_extend {call : Call} {e : Effect} {a : Value} {x : Action Chain}
    (h : e.resume call a = x >>= fun c => pure (.chain c)) (bs : List Binder) :
    (e.extend (bs.map .bind)).resume call a
      = x >>= fun c => c.continued call bs >>= fun d => pure (.chain d) := by
  induction bs generalizing e x with
  | nil =>
    rw [List.map_nil, Effect.extend_nil, h]
    rfl
  | cons b bs ih =>
    have hmap : (e.map (.bind b)).resume call a
        = (x >>= fun c => c.bind call b) >>= fun c => pure (.chain c) := by
      rw [Effect.resume_map, h, bind_assoc, bind_assoc]
      simp only [pure_bind]
      rfl
    have hsplit : e.extend ((b :: bs).map .bind) = (e.map (.bind b)).extend (bs.map .bind) := by
      rw [Effect.map_eq_extend, Effect.extend_extend]
      rfl
    rw [hsplit, ih hmap]
    simp only [Chain.continued, bind_assoc]

/-! ### Chains that wait for an answer -/

/-- A request that is performed and then continued. -/
def performing (r : Request) (bs : List Binder) : Effect :=
  ((Effect.of r).map .lift).extend (bs.map .bind)

/-- A chain that makes one request and is then continued. -/
def waiting (q : Request) (bs : List Binder) : Chain :=
  .suspended (performing q bs) (.single q.capability)

theorem waiting_nil (q : Request) : waiting q [] = Chain.perform (.of q) := by
  rw [waiting, performing, List.map_nil, Effect.extend_nil]
  rfl

theorem performing_extend (q : Request) (bs₀ bs : List Binder) :
    (performing q bs₀).extend (bs.map .bind) = performing q (bs₀ ++ bs) := by
  rw [performing, performing, Effect.extend_extend, List.map_append]

theorem performing_resume (call : Call) (r : Request) (bs : List Binder) (a : Value) :
    (performing r bs).resume call a
      = (Chain.finished a).continued call bs >>= fun d => pure (.chain d) := by
  have hperform : ((Effect.of r).map .lift).resume call a
      = pure (Chain.finished a) >>= fun c => pure (.chain c) := by
    rw [Effect.resume_map, Effect.resume_of]
    rfl
  rw [performing, Effect.resume_extend hperform, pure_bind]

end EffectHandlers
