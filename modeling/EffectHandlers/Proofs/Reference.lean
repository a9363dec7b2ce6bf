/-
EffectHandlers/Proofs/Reference.lean

The translation of a routine that keeps nothing.

The reference knows of no live coroutine and of no record.  To know what a
routine comes to after some answers, it executes the routine from its start
and sends it all of them, every time (`Reference.send`).  A pending node of
the reference is the effect that the routine waits for, and the answers
that it has received before; resumed to the end, it has one more answer, and
the routine is executed again.

The answers of a history stand newest first.

Main result: for a determinate routine the reference comes again to a yield
to which it, or the routine, came before with answers that are alike
(`Reference.send_yields`).
-/
import EffectHandlers.Proofs.Likeness

namespace EffectHandlers

namespace Reference

/-! ### The translation -/

/-- A pending node: a routine that waits for the answer to an effect, and what it has received
before. -/
structure Node where
  body : List Stmt
  env : Env
  effect : Effect
  history : List Value

/-- What the translation comes to. -/
inductive Result
  | finished (v : Value)
  | pending (n : Node)

section

variable (s : Settings) (body : List Stmt) (env : Env)

/-- Execute a routine from its start and send it answers. -/
noncomputable def send : List Value → Action Exit
  | [] => firstSlice s body env
  | answer :: earlier => do
    match ← send earlier with
    | .yielded _ target rest env => nextSlice s target rest env answer
    | .through _ | .returned _ => Action.fail .replayEndedEarly

/-- Go on from what a routine came to after a history.  The answer to a finished chain is its
value; the fuel bounds the number of finished chains in a row. -/
noncomputable def turn : Nat → Advance → List Value → Action Result :=
  fun fuel next history =>
    match next with
    | .returned v => pure (.finished v)
    | .yielded v => do
      match ← Invocation.yieldedChain v with
      | .suspended e _ => return .pending ⟨body, env, e, history⟩
      | .done answer _ =>
        match fuel with
        | 0 => Action.exhaust
        | fuel + 1 => do turn fuel (← send s body env (answer :: history)).advance (answer :: history)
termination_by structural fuel => fuel

/-- What a routine comes to after a history. -/
noncomputable def translate (history : List Value) : Action Result := do
  turn s body env s.maxSteps (← send s body env history).advance history

/-- Answer a node. -/
noncomputable def Node.resume (n : Node) (answer : Value) : Action Result := do
  match ← n.effect.resume (Callable.meaning s) answer with
  | .chain (.done v _) => translate s n.body n.env (v :: n.history)
  | .chain (.suspended e _) => return .pending { n with effect := e }
  | other => Action.fail (.notChain "bind" other.typeName)

/-- Call a routine. -/
noncomputable def call (params : List String) (args : List Value) : Action Result := do
  let env ← Action.require .arity (Env.setAll? env params args)
  translate s body env []

end

theorem turn_returned (s : Settings) (body : List Stmt) (env : Env) (fuel : Nat) (v : Value)
    (history : List Value) :
    turn s body env fuel (.returned v) history = pure (.finished v) := by
  cases fuel <;> rfl

theorem turn_yielded (s : Settings) (body : List Stmt) (env : Env) (fuel : Nat) (v : Value)
    (history : List Value) :
    turn s body env fuel (.yielded v) history = Invocation.yieldedChain v >>= fun c =>
      match c, fuel with
      | .suspended e _, _ => pure (.pending ⟨body, env, e, history⟩)
      | .done _ _, 0 => Action.exhaust
      | .done answer _, fuel + 1 => send s body env (answer :: history) >>= fun exit =>
        turn s body env fuel exit.advance (answer :: history) := by
  cases fuel
  all_goals
    rw [turn]
    refine congrArg (Invocation.yieldedChain v >>= ·) (funext fun c => ?_)
    cases c <;> rfl

/-- A routine that yields an effect waits for its answer. -/
theorem translate_effect {s : Settings} {body : List Stmt} {env env' : Env} {e : Effect}
    {target : Option String} {rest : List Frame} {history : List Value} {w w' : World}
    (h : send s body env history w = .value (.yielded (.effect e) target rest env') w') :
    translate s body env history w
      = .value (.pending ⟨body, env, e.map .lift, history⟩) w' := by
  rw [translate, Action.bind_of_value h]
  show turn s body env s.maxSteps (.yielded (.effect e)) history w' = _
  rw [turn_yielded]
  rfl

/-- A routine that yields a pending chain waits for the answer to its effect. -/
theorem translate_suspended {s : Settings} {body : List Stmt} {env env' : Env} {e : Effect}
    {r : CapabilitySet} {target : Option String} {rest : List Frame} {history : List Value}
    {w w' : World} (h : send s body env history w
      = .value (.yielded (.chain (.suspended e r)) target rest env') w') :
    translate s body env history w = .value (.pending ⟨body, env, e, history⟩) w' := by
  rw [translate, Action.bind_of_value h]
  show turn s body env s.maxSteps (.yielded (.chain (.suspended e r))) history w' = _
  rw [turn_yielded]
  rfl

theorem translate_returned {s : Settings} {body : List Stmt} {env : Env} {v : Value}
    {history : List Value} {w w' : World}
    (h : send s body env history w = .value (.returned v) w') :
    translate s body env history w = .value (.finished v) w' := by
  rw [translate, Action.bind_of_value h]
  show turn s body env s.maxSteps (.returned v) history w' = _
  rw [turn_returned]
  rfl

/-! ### The reference keeps worlds kept -/

section

variable (s : Settings) (body : List Stmt) (env : Env)

theorem keeps_send (history : List Value) :
    Keeps s (fun _ => True) (send s body env history) := by
  induction history with
  | nil => exact keeps_firstSlice s body env
  | cons answer earlier ih =>
    refine Keeps.bind ih fun exit _ => ?_
    cases exit
    case yielded target rest env => exact keeps_nextSlice s target rest env answer
    all_goals exact Keeps.fail _ _

theorem keeps_turn (fuel : Nat) (next : Advance) (history : List Value) :
    Keeps s (fun _ => True) (turn s body env fuel next history) := by
  induction fuel using Nat.strongRecOn generalizing next history with
  | ind fuel ih =>
    cases next with
    | returned v =>
      rw [turn_returned]
      exact Keeps.ret trivial
    | yielded v =>
      rw [turn_yielded]
      rcases Invocation.yieldedChain_cases v with ⟨c, hc⟩ | hfail
      case inr =>
        rw [hfail]
        exact Keeps.fail _ _
      rw [hc, pure_bind]
      rcases c with ⟨answer, r⟩ | ⟨e, r⟩
      · cases fuel with
        | zero => exact Keeps.exhaust _
        | succ fuel =>
          exact Keeps.bind (keeps_send s body env _) fun exit _ =>
            ih fuel (Nat.lt_succ_self fuel) _ _
      · exact Keeps.ret trivial

theorem keeps_translate (history : List Value) :
    Keeps s (fun _ => True) (translate s body env history) :=
  Keeps.bind (keeps_send s body env history) fun _ _ => keeps_turn s body env _ _ _

theorem keeps_effectResume (s : Settings) (e : Effect) (a : Value) :
    Keeps s (fun _ => True) (e.resume (Callable.meaning s) a) :=
  (Discipline.resume (D := keeping s) (keeping_meaning s) e.obeys_free a.obeys_free).weaken
    fun _ _ => trivial

theorem Node.keeps_resume (n : Node) (answer : Value) :
    Keeps s (fun _ => True) (n.resume s answer) := by
  refine Keeps.bind (keeps_effectResume s n.effect answer) fun v _ => ?_
  cases v
  case chain c =>
    cases c
    case done x r => exact keeps_translate s n.body n.env _
    case suspended e r => exact Keeps.ret trivial
  all_goals exact Keeps.fail _ _

end

/-! ### Coming to a yield again -/

/-- A determinate routine that came to a yield comes to one again, from answers that are alike. -/
theorem send_yields {s : Settings} {L : Likeness s} {b w u : World} {body : List Stmt} {env : Env}
    (hd : Determinate L b body env) {as bs : List Value} {target : Option String}
    {rest : List Frame} {env₁ : Env} (hr : Reached s w body env as target rest env₁)
    (hbw : b.Grows w) (hbu : b.Grows u) (hu : Kept s u) (hall : L.All w as u bs) :
    ∃ v target' rest' env' u', send s body env bs u = .value (.yielded v target' rest' env') u' ∧
      Reached s u body env bs target' rest' env' ∧ Kept s u' ∧ u.Grows u' := by
  induction as generalizing bs target rest env₁ with
  | nil =>
    cases hall
    cases hr with
    | start hk hwk hslice =>
      have hlike := hd.first hk hu (hbw.trans hwk) hbu
      rw [firstSlice_eq_value.mpr hslice] at hlike
      obtain ⟨v, target', rest', env', u', hu', -⟩ := hlike.yielded
      obtain ⟨hkept, hgrows, -⟩ := (keeps_firstSlice s body env).of_value hu hu'
      exact ⟨v, target', rest', env', u', hu',
        .start hu (.refl u) (firstSlice_eq_value.mp hu'), hkept, hgrows⟩
  | cons a as ih =>
    cases hall with
    | cons hab hall =>
      cases hr with
      | answer hr hk hwk hslice =>
        obtain ⟨v, target', rest', env', u', hsend, hr', hu', huu'⟩ := ih hr hall
        have hlike := hd.next hk hu' (hbw.trans hwk) (hbu.trans huu') (hr.of_grows hbw)
          (hr'.of_grows hbu) (.cons (L.grow hab hwk huu') (Likeness.All.grow hall hwk huu'))
        rw [nextSlice_eq_value.mpr hslice] at hlike
        obtain ⟨v', target'', rest'', env'', u'', hu'', -⟩ := hlike.yielded
        obtain ⟨hkept, hgrows, -⟩ := (keeps_nextSlice s _ _ _ _).of_value hu' hu''
        refine ⟨v', target'', rest'', env'', u'', ?_, ?_, hkept, huu'.trans hgrows⟩
        · rw [send, Action.bind_of_value hsend]
          exact hu''
        · exact .answer hr' hu' huu' (nextSlice_eq_value.mp hu'')

end Reference

end EffectHandlers
