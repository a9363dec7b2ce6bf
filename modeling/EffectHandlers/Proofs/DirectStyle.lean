/-
EffectHandlers/Proofs/DirectStyle.lean

Executing a routine directly.

A routine is written as if every effect had its answer at once.  The direct
execution takes it at its word: it goes through the statements from top to
bottom, once, and asks at every yield for the answer; nothing is kept of
what is left to do.  What is asked carries a state of its own along.

Resumable execution cuts the same statements into slices, from one yield to
the next.  Main result: the direct execution is the first slice, then the
answer, then the direct execution of the frames that the slice left
(`walkBlock_eq`, `walkFrames_eq`).
-/
import EffectHandlers.Script.Routine

namespace EffectHandlers

/-! ### Failures that leave a routine -/

/-- An action with its failures as they leave a routine. -/
def Action.outward {α : Type} (x : Action α) : Action α := fun w =>
  match x w with
  | .failed f w' => .failed (Coroutine.outward f) w'
  | other => other

/-- Evaluation inside a routine. -/
def Evaluation.inside (eval : Evaluation) : Evaluation := fun env e => (eval env e).outward

/-! ### Direct execution -/

/-- How the direct execution of statements ends. -/
inductive Ending
  | through (env : Env)
  | returned (v : Value)

/-- What a routine that ends in some way gives. -/
def Ending.value : Ending → Value
  | .through _ => .null
  | .returned v => v

/-- How what is yielded is answered, in a state that is carried along. -/
abbrev Answering (σ : Type) := Value → σ → Action (Value × σ)

variable {σ : Type}

/-- Go on after statements that did not return. -/
def Ending.andThen (x : Action (Ending × σ)) (next : Env → σ → Action (Ending × σ)) :
    Action (Ending × σ) := do
  match ← x with
  | (.through env, p) => next env p
  | (.returned v, p) => return (.returned v, p)

/-- Go through items, with a body to execute for each. -/
def walkLoop (body : Env → σ → Action (Ending × σ)) (name : String) :
    List Value → Env → σ → Action (Ending × σ)
  | [], env, p => pure (.through env, p)
  | v :: items, env, p =>
    Ending.andThen (body (Env.set env name v) p) fun env p => walkLoop body name items env p

mutual

/-- Execute a statement directly. -/
def Stmt.walk (eval : Evaluation) (answer : Answering σ) :
    Stmt → Env → σ → Action (Ending × σ)
  | .yield target e, env, p => do
    let (a, p) ← answer (← eval env e) p
    return (.through (Coroutine.bindAnswer env target a), p)
  | .assign name e, env, p => do return (.through (Env.set env name (← eval env e)), p)
  | .eval e, env, p => do
    let _ ← eval env e
    return (.through env, p)
  | .exit e, env, p => do return (.returned (← eval env e), p)
  | .cond test yes no, env, p => do
    if (← eval env test).isTrue then walkBlock eval answer yes env p
    else walkBlock eval answer no env p
  | .each name items body, env, p => do
    let vs ← Action.ofExcept (← eval env items).items
    walkLoop (fun env p => walkBlock eval answer body env p) name vs env p
termination_by structural s => s

/-- Execute statements directly, one after the other. -/
def walkBlock (eval : Evaluation) (answer : Answering σ) :
    List Stmt → Env → σ → Action (Ending × σ)
  | [], env, p => pure (.through env, p)
  | s :: rest, env, p =>
    Ending.andThen (s.walk eval answer env p) fun env p => walkBlock eval answer rest env p
termination_by structural ss => ss

end

/-- Execute directly what a yield left. -/
def walkFrames (eval : Evaluation) (answer : Answering σ) :
    List Frame → Env → σ → Action (Ending × σ)
  | [], env, p => pure (.through env, p)
  | .block rest :: frames, env, p =>
    Ending.andThen (walkBlock eval answer rest env p) (walkFrames eval answer frames)
  | .loop name items body :: frames, env, p =>
    Ending.andThen (walkLoop (walkBlock eval answer body) name items env p)
      (walkFrames eval answer frames)

/-- Go on directly from where a slice ended. -/
def Exit.walk (eval : Evaluation) (answer : Answering σ) (exit : Exit) (p : σ) :
    Action (Ending × σ) :=
  match exit with
  | .through env => pure (.through env, p)
  | .returned v => pure (.returned v, p)
  | .yielded v target rest env => do
    let (a, p) ← answer v p
    walkFrames eval answer rest (Coroutine.bindAnswer env target a) p

/-! ### Slices -/

section

variable {eval : Evaluation} {answer : Answering σ}

theorem Ending.andThen_bind {α : Type} (x : Action α) (f : α → Action (Ending × σ))
    (next : Env → σ → Action (Ending × σ)) :
    Ending.andThen (x >>= f) next = x >>= fun a => Ending.andThen (f a) next :=
  bind_assoc x f _

theorem Ending.andThen_andThen (x : Action (Ending × σ))
    (f g : Env → σ → Action (Ending × σ)) :
    Ending.andThen (Ending.andThen x f) g
      = Ending.andThen x fun env p => Ending.andThen (f env p) g := by
  unfold Ending.andThen
  rw [bind_assoc]
  refine congrArg (x >>= ·) (funext fun r => ?_)
  obtain ⟨ending, p⟩ := r
  cases ending <;> rfl

/-- Statements that are followed by nothing. -/
theorem Ending.andThen_pure (x : Action (Ending × σ)) :
    Ending.andThen x (fun env p => pure (.through env, p)) = x := by
  have hpure : ∀ r : Ending × σ, (match r with
      | (.through env, p) => (pure (.through env, p) : Action (Ending × σ))
      | (.returned v, p) => pure (.returned v, p)) = pure r := by
    intro r
    obtain ⟨ending, p⟩ := r
    cases ending <;> rfl
  unfold Ending.andThen
  simp only [hpure, bind_pure]

theorem walkFrames_append (fs gs : List Frame) (env : Env) (p : σ) :
    walkFrames eval answer (fs ++ gs) env p
      = Ending.andThen (walkFrames eval answer fs env p) (walkFrames eval answer gs) := by
  induction fs generalizing env p with
  | nil => rfl
  | cons f fs ih =>
    have hrest : walkFrames eval answer (fs ++ gs) = fun env p =>
        Ending.andThen (walkFrames eval answer fs env p) (walkFrames eval answer gs) :=
      funext fun env => funext fun p => ih env p
    cases f <;> simp only [List.cons_append, walkFrames, Ending.andThen_andThen, hrest]

theorem walkFrames_block (rest : List Stmt) :
    walkFrames eval answer [.block rest] = walkBlock eval answer rest := by
  funext env p
  exact Ending.andThen_pure _

theorem walkFrames_loop (name : String) (items : List Value) (body : List Stmt) :
    walkFrames eval answer [.loop name items body]
      = walkLoop (walkBlock eval answer body) name items := by
  funext env p
  exact Ending.andThen_pure _

/-- More frames after a slice are executed after what it left. -/
theorem Exit.walk_followedBy (exit : Exit) (frames : List Frame) (p : σ)
    (h : ∀ env, exit ≠ .through env) :
    (exit.followedBy frames).walk eval answer p
      = Ending.andThen (exit.walk eval answer p) (walkFrames eval answer frames) := by
  cases exit with
  | through env => exact absurd rfl (h env)
  | returned v => rfl
  | yielded v target rest env =>
    simp only [Exit.followedBy, Exit.walk, walkFrames_append, Ending.andThen_bind]

/-- A slice, and then what follows it. -/
theorem Ending.andThen_slice (x : Action Exit) (frames : List Frame)
    (next : Env → Action Exit) (p : σ)
    (hnext : ∀ env, walkFrames eval answer frames env p = next env >>= (·.walk eval answer p)) :
    Ending.andThen (x >>= (·.walk eval answer p)) (walkFrames eval answer frames)
      = (x >>= fun exit => match exit with
          | .through env => next env
          | other => pure (other.followedBy frames)) >>= (·.walk eval answer p) := by
  rw [Ending.andThen_bind, bind_assoc]
  refine congrArg (x >>= ·) (funext fun exit => ?_)
  cases exit with
  | through env => exact hnext env
  | returned v => rfl
  | yielded v target rest env =>
    exact (Exit.walk_followedBy (.yielded v target rest env) frames p (by simp)).symm

/-- A loop over slices. -/
theorem walkLoop_eq (name : String) (body : List Stmt)
    (hbody : ∀ env p, walkBlock eval answer body env p
      = execBlock eval body env >>= (·.walk eval answer p)) (items : List Value) (env : Env)
    (p : σ) :
    walkLoop (walkBlock eval answer body) name items env p
      = execLoop (execBlock eval body) name body items env >>= (·.walk eval answer p) := by
  induction items generalizing env p with
  | nil => rfl
  | cons v items ih =>
    rw [walkLoop, hbody, ← walkFrames_loop]
    refine Ending.andThen_slice _ _ (execLoop (execBlock eval body) name body items) p ?_
    intro env
    rw [walkFrames_loop]
    exact ih env p

mutual

/-- A statement is its first slice and then what that left. -/
theorem Stmt.walk_eq : ∀ (s : Stmt) (env : Env) (p : σ),
    s.walk eval answer env p = s.exec eval env >>= (·.walk eval answer p)
  | .yield _ _, _, _ => by
    rw [Stmt.walk, Stmt.exec, bind_assoc]
    rfl
  | .assign _ _, _, _ | .eval _, _, _ | .exit _, _, _ => by
    rw [Stmt.walk, Stmt.exec, bind_assoc]
    rfl
  | .cond test yes no, env, p => by
    rw [Stmt.walk, Stmt.exec, bind_assoc]
    refine congrArg (eval env test >>= ·) (funext fun v => ?_)
    cases v.isTrue with
    | true => exact walkBlock_eq yes env p
    | false => exact walkBlock_eq no env p
  | .each name items body, env, p => by
    rw [Stmt.walk, Stmt.exec, bind_assoc]
    refine congrArg (eval env items >>= ·) (funext fun v => ?_)
    rw [bind_assoc]
    refine congrArg (Action.ofExcept v.items >>= ·) (funext fun vs => ?_)
    exact walkLoop_eq name body (walkBlock_eq body) vs env p
termination_by structural s => s

/-- Statements are their first slice and then what that left. -/
theorem walkBlock_eq : ∀ (ss : List Stmt) (env : Env) (p : σ),
    walkBlock eval answer ss env p = execBlock eval ss env >>= (·.walk eval answer p)
  | [], _, _ => rfl
  | s :: rest, env, p => by
    have hrest : (fun env p => walkBlock eval answer rest env p)
        = walkFrames eval answer [.block rest] := (walkFrames_block rest).symm
    rw [walkBlock, Stmt.walk_eq s env p, hrest]
    refine Ending.andThen_slice _ _ (execBlock eval rest) p fun env => ?_
    rw [walkFrames_block]
    exact walkBlock_eq rest env p
termination_by structural ss => ss

end

end

/-! ### Slices inside a routine -/

namespace Action

theorem outward_eq_value {α : Type} {x : Action α} {a : α} {w u : World} :
    x.outward w = .value a u ↔ x w = .value a u := by
  unfold outward
  cases x w <;> simp

theorem outward_bind {α β : Type} (x : Action α) (f : α → Action β) :
    (x >>= f).outward = x.outward >>= fun a => (f a).outward := by
  funext w
  simp only [outward, bind_apply]
  cases x w <;> rfl

theorem outward_items (v : Value) :
    (Action.ofExcept v.items).outward = Action.ofExcept v.items := by
  unfold Value.items
  cases v.items? <;> rfl

end Action

section

variable {eval : Evaluation}

theorem execLoop_outward {exec exec' : Env → Action Exit}
    (h : ∀ env, (exec env).outward = exec' env) (name : String) (body : List Stmt)
    (items : List Value) (env : Env) :
    (execLoop exec name body items env).outward = execLoop exec' name body items env := by
  induction items generalizing env with
  | nil => rfl
  | cons v items ih =>
    rw [execLoop, execLoop, Action.outward_bind, h]
    refine congrArg (exec' _ >>= ·) (funext fun exit => ?_)
    cases exit with
    | through env => exact ih env
    | _ => rfl

mutual

theorem Stmt.exec_outward : ∀ (s : Stmt) (env : Env),
    (s.exec eval env).outward = s.exec eval.inside env
  | .yield _ _, _ | .assign _ _, _ | .eval _, _ | .exit _, _ => by
    rw [Stmt.exec, Stmt.exec, Action.outward_bind]
    rfl
  | .cond test yes no, env => by
    rw [Stmt.exec, Stmt.exec, Action.outward_bind]
    refine congrArg ((eval env test).outward >>= ·) (funext fun v => ?_)
    cases v.isTrue with
    | true => exact execBlock_outward yes env
    | false => exact execBlock_outward no env
  | .each name items body, env => by
    rw [Stmt.exec, Stmt.exec, Action.outward_bind]
    refine congrArg ((eval env items).outward >>= ·) (funext fun v => ?_)
    rw [Action.outward_bind, Action.outward_items]
    refine congrArg (Action.ofExcept v.items >>= ·) (funext fun vs => ?_)
    exact execLoop_outward (execBlock_outward body) name body vs env
termination_by structural s => s

theorem execBlock_outward : ∀ (ss : List Stmt) (env : Env),
    (execBlock eval ss env).outward = execBlock eval.inside ss env
  | [], _ => rfl
  | s :: rest, env => by
    rw [execBlock, execBlock, Action.outward_bind, Stmt.exec_outward s env]
    refine congrArg (s.exec eval.inside env >>= ·) (funext fun exit => ?_)
    cases exit with
    | through env => exact execBlock_outward rest env
    | _ => rfl
termination_by structural ss => ss

end

theorem execFrames_outward (fs : List Frame) (env : Env) :
    (execFrames eval fs env).outward = execFrames eval.inside fs env := by
  induction fs generalizing env with
  | nil => rfl
  | cons f fs ih =>
    have hgo (x y : Action Exit) (hx : x.outward = y) :
        (x >>= fun exit => match exit with
          | .through env => execFrames eval fs env
          | other => pure (other.followedBy fs)).outward
        = y >>= fun exit => match exit with
          | .through env => execFrames eval.inside fs env
          | other => pure (other.followedBy fs) := by
      rw [Action.outward_bind, hx]
      refine congrArg (y >>= ·) (funext fun exit => ?_)
      cases exit with
      | through env => exact ih env
      | _ => rfl
    cases f with
    | block rest => exact hgo _ _ (execBlock_outward rest env)
    | loop name items body =>
      exact hgo _ _ (execLoop_outward (execBlock_outward body) name body items env)

end

end EffectHandlers
