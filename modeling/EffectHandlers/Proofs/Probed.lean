/-
EffectHandlers/Proofs/Probed.lean

Failures that come out of a body.

A second interpreter answers every query through a look-out: the value of
an expression, at any depth of an expression, and the call of a function, at
any depth of calls.  A look-out that changes nothing gives the interpreter
itself (`Probed.apply_plain`); one that puts another outcome in the place of
a probe tells whether a call asks for what is probed, however deep inside
it: in a body, in the body of another program, in a run or in a binder.

Main result: whatever a body asks for, if it fails, then the call of the
program or the resumption fails, in the same way but for the stop signal
(`Callable.Executes.failed_of_asks`).
-/
import EffectHandlers.Proofs.Containment
import EffectHandlers.Proofs.Heeding
import EffectHandlers.Proofs.Meaning

namespace EffectHandlers

variable {α β : Type}

/-! ### The interpreter with a look-out -/

/-- How queries are answered, given the actions that answer them. -/
abbrev Lookout := Query → Action Value → Action Value

/-- The look-out that changes nothing. -/
def Lookout.plain : Lookout := fun _ x => x

namespace Probed

variable (look : Lookout) (s : Settings) (call : Call)

mutual

/-- The value of an expression, whose parts are looked at. -/
def inner : Expr → Env → Action Value
  | .literal l, _ => pure l.value
  | .var name, env => evalVar env name
  | .lambda params body, env => do
    return .function (.closure (← Action.fresh) params body env)
  | .fixpoint name params body, env => do
    return .function (.fixpoint (← Action.fresh) name params body env)
  | .cond test yes no, env => do
    if (← look (.eval env test) (inner test env)).isTrue then look (.eval env yes) (inner yes env)
    else look (.eval env no) (inner no env)
  | .letIn name bound body, env => do
    let v ← look (.eval env bound) (inner bound env)
    look (.eval (Env.set env name v) body) (inner body (Env.set env name v))
  | .block es, env => last .null es env
  | .mapping es, env => do return .dict (← entries [] es env)
  | .program requires params body, env => do
    let caps ← declaredCapabilities (← values requires env)
    return .function (.program (← Action.fresh) caps params body env)
  | .custom spec, env => handler spec env
  | .op o args, env => do o.apply s call (← values args env)
termination_by structural e => e

/-- The values of expressions, evaluated from left to right. -/
def values : List Expr → Env → Action (List Value)
  | [], _ => pure []
  | e :: es, env => do
    let v ← look (.eval env e) (inner e env)
    return v :: (← values es env)
termination_by structural es => es

/-- The value of the last of some expressions, all of them evaluated. -/
def last (v : Value) : List Expr → Env → Action Value
  | [], _ => pure v
  | e :: es, env => do last (← look (.eval env e) (inner e env)) es env
termination_by structural es => es

/-- The mapping with entries added one after the other. -/
def entries (m : Mapping) : List (Expr × Expr) → Env → Action Mapping
  | [], _ => pure m
  | (k, v) :: es, env => do
    let k ← look (.eval env k) (inner k env)
    let v ← look (.eval env v) (inner v env)
    entries (← Action.ofExcept (addMappingEntry m k v)) es env
termination_by structural es => es

/-- The value of an expression that may be absent. -/
def optional : Option Expr → Env → Action (Option Value)
  | none, _ => pure none
  | some e, env => do return some (← look (.eval env e) (inner e env))
termination_by structural e => e

/-- The custom handler of a description. -/
def handler : HandlerSpec → Env → Action Value
  | .mk name base kind names start step offer finish, env => do
    let start ← optional start env
    let step ← optional step env
    let offer ← optional offer env
    let finish ← optional finish env
    let capabilities ← customCapabilities base kind names
    newHandler (.custom · { name, base, kind, capabilities, start, step, offer, finish })
termination_by structural spec => spec

end

/-- The value of an expression, which is looked at with its parts. -/
def eval : Evaluation := fun env e => look (.eval env e) (inner look s call e env)

/-- The value of a function on arguments, given how functions that it calls are called. -/
def applyWith (f : Callable) (args : List Value) : Action Value :=
  match f with
  | .closure _ params body env => do
    eval look s call (← Action.require .arity (Env.setAll? env params args)) body
  | .fixpoint _ name params body env => do
    let env := Env.set env name (.function f)
    eval look s call (← Action.require .arity (Env.setAll? env params args)) body
  | .program _ requires params (.resumable body) env => do
    let env ← Action.require .arity (Env.setAll? env params args)
    let c ← Invocation.begin (eval look s call) call s.maxSteps body env
    return .chain (c.declare requires)
  | .program _ requires params (.plain body) env => do
    let env ← Action.require .arity (Env.setAll? env params args)
    match ← eval look s call env body with
    | .chain c => return .chain (c.declare requires)
    | v => return .chain ((Chain.finished v).declare requires)
  | .resumption id h =>
    match args with
    | [answer] => do
      return .chain (← Invocation.resume (eval look s call) call s.maxSteps id h answer)
    | _ => Action.fail .arity

/-- The value of a function on arguments, if calls are nested no deeper than `depth`. -/
def apply : Nat → Call
  | 0 => fun _ _ => Action.exhaust
  | depth + 1 => fun f args => look (.call f args) (applyWith look s (apply depth) f args)

end Probed

/-! ### Looking without changing anything -/

namespace Probed

variable (s : Settings) (call : Call)

mutual

theorem inner_plain : ∀ (e : Expr) (env : Env), inner .plain s call e env = e.eval s call env
  | .literal _, _ | .var _, _ | .lambda _ _, _ | .fixpoint _ _ _, _ => rfl
  | .cond test yes no, env => by
    rw [inner, Expr.eval, inner_plain test, inner_plain yes, inner_plain no]
    rfl
  | .letIn name bound body, env => by
    rw [inner, Expr.eval, inner_plain bound]
    exact congrArg (bound.eval s call env >>= ·) (funext fun v => inner_plain body _)
  | .block es, env => last_plain .null es env
  | .mapping es, env => by rw [inner, Expr.eval, entries_plain]
  | .program requires params body, env => by rw [inner, Expr.eval, values_plain]
  | .custom spec, env => handler_plain spec env
  | .op o args, env => by rw [inner, Expr.eval, values_plain]
termination_by structural e => e

theorem values_plain : ∀ (es : List Expr) (env : Env),
    values .plain s call es env = evalAll s call es env
  | [], _ => rfl
  | e :: es, env => by
    rw [values, evalAll, inner_plain e, values_plain es]
    rfl
termination_by structural es => es

theorem last_plain (v : Value) : ∀ (es : List Expr) (env : Env),
    last .plain s call v es env = evalLast s call v es env
  | [], _ => rfl
  | e :: es, env => by
    rw [last, evalLast, inner_plain e]
    exact congrArg (e.eval s call env >>= ·) (funext fun v => last_plain v es env)
termination_by structural es => es

theorem entries_plain (m : Mapping) : ∀ (es : List (Expr × Expr)) (env : Env),
    entries .plain s call m es env = evalEntries s call m es env
  | [], _ => rfl
  | (k, v) :: es, env => by
    rw [entries, evalEntries, inner_plain k, inner_plain v]
    refine congrArg (k.eval s call env >>= ·) (funext fun x => ?_)
    refine congrArg (v.eval s call env >>= ·) (funext fun y => ?_)
    exact congrArg (Action.ofExcept (addMappingEntry m x y) >>= ·)
      (funext fun m => entries_plain m es env)
termination_by structural es => es

theorem optional_plain : ∀ (e : Option Expr) (env : Env),
    optional .plain s call e env = evalOption s call e env
  | none, _ => rfl
  | some e, env => by
    rw [optional, evalOption, inner_plain e]
    rfl
termination_by structural e => e

theorem handler_plain : ∀ (spec : HandlerSpec) (env : Env),
    handler .plain s call spec env = spec.eval s call env
  | .mk _ _ _ _ start step offer finish, env => by
    rw [handler, HandlerSpec.eval, optional_plain start, optional_plain step,
      optional_plain offer, optional_plain finish]
termination_by structural spec => spec

end

theorem eval_plain : eval .plain s call = fun env e => e.eval s call env :=
  funext fun env => funext fun e => inner_plain s call e env

theorem applyWith_plain (f : Callable) (args : List Value) :
    applyWith .plain s call f args = f.applyWith s call args := by
  rw [applyWith.eq_def, eval_plain]
  rcases f with _ | _ | ⟨_, _, _, body | body, _⟩ | _
  all_goals rfl

/-- **A look-out that changes nothing** gives the interpreter itself. -/
theorem apply_plain (depth : Nat) : apply .plain s depth = Callable.apply s depth := by
  induction depth with
  | zero => rfl
  | succ depth ih =>
    funext f args
    show applyWith .plain s (apply .plain s depth) f args = _
    rw [ih, applyWith_plain]
    rfl

end Probed

/-! ### The walk through the interpreter with a look-out -/

namespace Probed

section

variable {ι : Type} {D : Discipline ι .free} {look : ι → Lookout} {call : ι → Call} {s : Settings}

/-- Looking at expressions respects a discipline. -/
def Looks (D : Discipline ι .free) (look : ι → Lookout) (s : Settings) (call : ι → Call) : Prop :=
  ∀ e env, D.holds (Value.Obeys .free) (fun i => inner (look i) s (call i) e env) →
    D.holds (Value.Obeys .free) fun i => look i (.eval env e) (inner (look i) s (call i) e env)

theorem Env.obeys_free (env : Env) : Env.Obeys .free env := fun b _ => b.2.obeys_free

mutual

theorem holds_inner (hcall : D.Calls call) (hlook : Looks D look s call) : ∀ (e : Expr) (env : Env),
    D.holds (Value.Obeys .free) fun i => inner (look i) s (call i) e env
  | .literal _, _ => D.ret (Value.obeys_free _)
  | .var name, env => Discipline.evalVar (Env.obeys_free env) name
  | .lambda _ _, _ => D.map D.fresh fun _ _ => Value.obeys_free _
  | .fixpoint _ _ _, _ => D.map D.fresh fun _ _ => Value.obeys_free _
  | .cond test yes no, env =>
    D.bind (hlook test env (holds_inner hcall hlook test env)) fun _ _ =>
      D.ite (hlook yes env (holds_inner hcall hlook yes env))
        (hlook no env (holds_inner hcall hlook no env))
  | .letIn _ bound body, env =>
    D.bind (hlook bound env (holds_inner hcall hlook bound env)) fun _ _ =>
      hlook body _ (holds_inner hcall hlook body _)
  | .block es, env => holds_last hcall hlook .null es env
  | .mapping es, env => D.map (holds_entries hcall hlook [] es env) fun _ _ => Value.obeys_free _
  | .program requires _ _, env =>
    D.bind (holds_values hcall hlook requires env) fun vs _ =>
      D.bind (Discipline.declaredCapabilities vs) fun _ _ =>
        D.map D.fresh fun _ _ => Value.obeys_free _
  | .custom spec, env => holds_handler hcall hlook spec env
  | .op o args, env =>
    D.bind (holds_values hcall hlook args env) fun _ _ =>
      Discipline.opApply hcall (Callable.runsAlike_const _ s) (o := o) trivial
        fun v _ => v.obeys_free
termination_by structural e => e

theorem holds_values (hcall : D.Calls call) (hlook : Looks D look s call) :
    ∀ (es : List Expr) (env : Env),
      D.holds (fun _ => True) fun i => values (look i) s (call i) es env
  | [], _ => D.ret trivial
  | e :: es, env =>
    D.bind (hlook e env (holds_inner hcall hlook e env)) fun _ _ =>
      D.map (holds_values hcall hlook es env) fun _ _ => trivial
termination_by structural es => es

theorem holds_last (hcall : D.Calls call) (hlook : Looks D look s call) (v : Value) :
    ∀ (es : List Expr) (env : Env),
      D.holds (Value.Obeys .free) fun i => last (look i) s (call i) v es env
  | [], _ => D.ret v.obeys_free
  | e :: es, env =>
    D.bind (hlook e env (holds_inner hcall hlook e env)) fun v _ => holds_last hcall hlook v es env
termination_by structural es => es

theorem holds_entries (hcall : D.Calls call) (hlook : Looks D look s call) (m : Mapping) :
    ∀ (es : List (Expr × Expr)) (env : Env),
      D.holds (fun _ => True) fun i => entries (look i) s (call i) m es env
  | [], _ => D.ret trivial
  | (k, v) :: es, env =>
    D.bind (hlook k env (holds_inner hcall hlook k env)) fun _ _ =>
      D.bind (hlook v env (holds_inner hcall hlook v env)) fun _ _ =>
        D.bind (P := fun _ => True) (D.ofExcept fun _ _ => trivial) fun m _ =>
          holds_entries hcall hlook m es env
termination_by structural es => es

theorem holds_optional (hcall : D.Calls call) (hlook : Looks D look s call) :
    ∀ (e : Option Expr) (env : Env),
      D.holds (fun _ => True) fun i => optional (look i) s (call i) e env
  | none, _ => D.ret trivial
  | some e, env => D.map (hlook e env (holds_inner hcall hlook e env)) fun _ _ => trivial
termination_by structural e => e

theorem holds_handler (hcall : D.Calls call) (hlook : Looks D look s call) :
    ∀ (spec : HandlerSpec) (env : Env),
      D.holds (Value.Obeys .free) fun i => handler (look i) s (call i) spec env
  | .mk _ base kind names start step offer finish, env =>
    D.bind (holds_optional hcall hlook start env) fun _ _ =>
      D.bind (holds_optional hcall hlook step env) fun _ _ =>
        D.bind (holds_optional hcall hlook offer env) fun _ _ =>
          D.bind (holds_optional hcall hlook finish env) fun _ _ =>
            D.bind (Discipline.customCapabilities base kind names) fun _ _ =>
              D.map D.fresh fun _ _ => Value.obeys_free _
termination_by structural spec => spec

end

theorem evaluates (hcall : D.Calls call) (hlook : Looks D look s call) :
    D.Evaluates fun i => eval (look i) s (call i) :=
  fun e env _ _ => hlook e env (holds_inner hcall hlook e env)

end

section

variable {ι : Type} {D : CallDiscipline ι .free} {look : ι → Lookout} {call : ι → Call}
  {s : Settings}

theorem holds_applyWith (hcall : D.Calls call) (hlook : Looks D.toDiscipline look s call) :
    D.Calls fun i => applyWith (look i) s (call i) := by
  have heval := evaluates hcall hlook
  intro f args hf hargs
  have hbind (env : Env) (params : List String) :
      D.holds (Env.Obeys .free) fun _ => Action.require .arity (Env.setAll? env params args) :=
    Discipline.bindParameters (Env.obeys_free env) params hargs
  rcases f with ⟨_, params, body, env⟩ | ⟨_, name, params, body, env⟩ |
    ⟨_, requires, params, body | body, env⟩ | ⟨id, h⟩
  · exact D.bind (hbind env params) fun env henv => heval body env (Expr.uses_any body) henv
  · exact D.bind (hbind _ params) fun env henv => heval body env (Expr.uses_any body) henv
  · refine D.bind (hbind env params) fun env henv => ?_
    exact D.map (CallDiscipline.begin hcall heval s.maxSteps (stmtsUse_any body) henv)
      fun c _ => Chain.obeys_free _
  · refine D.bind (hbind env params) fun env henv => ?_
    refine D.bind (heval body env (Expr.uses_any body) henv) fun v _ => ?_
    cases v
    all_goals exact D.ret (Chain.obeys_free _)
  · rcases args with _ | ⟨answer, _ | ⟨_, _⟩⟩
    · exact D.fail _ _
    · exact D.map (CallDiscipline.resume hcall heval trivial s.maxSteps h answer.obeys_free)
        fun c _ => c.obeys_free
    · exact D.fail _ _

end

end Probed

/-! ### What a body asks for -/

/-- Asking for a query without a bound on the depth of calls. -/
noncomputable def Query.action (s : Settings) : Query → Action Value
  | .call f args => Callable.meaning s f args
  | .eval env e => Evaluation.meaning s env e

/-- The call of a function asks for what is probed, at some depth: another outcome there makes a
difference. -/
def Probe.AskedAt (p : Probe) (s : Settings) (depth : Nat) (f : Callable) (args : List Value)
    (w : World) : Prop :=
  ∃ o, Probed.apply (p.instead (some o)) s depth f args w ≠ Callable.apply s depth f args w

/-- The ends with a failure, as it was raised or as it leaves a routine, and exhaustion. -/
def Ends.outward (e : Failure) : Ends := ⟨fun f _ => f = e ∨ f = Coroutine.outward e, True⟩

theorem Heeds.execute {e : Failure} {P : Exit → Prop} {part : Option (Outcome Value) → Action Exit}
    (hpart : Heeds (.outward e) P part) (id gen : Nat) :
    Heeds (.outward e) (Advance.Obeys .free) fun o => Coroutine.execute id gen (part o) := by
  intro w
  refine ⟨?_, fun next u _ => ?_⟩
  · simp only [Coroutine.execute_apply]
    rcases (hpart (w.setPosition id gen .running)).1 with hsame | hend
    · exact .inl fun o => by rw [hsame o]
    · refine .inr ?_
      cases hnone : part none (w.setPosition id gen .running) with
      | value exit u =>
        rw [hnone] at hend
        exact hend
      | failed f u =>
        rw [hnone] at hend
        rcases hend with rfl | rfl
        · exact .inr rfl
        · exact .inr (Coroutine.outward_outward e)
      | exhausted => trivial
  · cases next <;> exact Value.obeys_free _

/-- To heed what is asked for in a routine is a discipline, up to what becomes of stop signals. -/
def heedingCalls (e : Failure) : CallDiscipline (Option (Outcome Value)) .free where
  toDiscipline := heeding (.outward e)
  create _ _ := Heeds.const fun _ _ _ _ => trivial
  spawn _ := Heeds.const fun _ _ _ _ => trivial
  liveOf _ := Heeds.const fun _ _ _ _ => trivial
  setLive _ _ := Heeds.const fun _ _ _ _ => trivial
  answersOf _ _ := Heeds.const fun _ _ _ _ _ _ => Value.obeys_free _
  extendHistory _ _ _ _ := Heeds.const fun _ _ _ _ => trivial
  standing _ _ := Heeds.const fun _ p _ _ => p.obeys_free
  receive _ _ _ _ := Heeds.const fun _ _ _ _ => trivial
  execute _ gen _ hpart := Heeds.execute hpart _ gen

section

variable {s : Settings} {p : Probe} {e : Failure} {z : World}

theorem endsIn_of_meaning {o : Outcome Value} (h : o = .exhausted ∨ o = .failed e z) :
    o.EndsIn (.outward e) := by
  rcases h with rfl | rfl
  · trivial
  · exact .inl rfl

/-- Whatever is asked for at any depth, a call ends if it fails. -/
theorem heeding_apply (hfails : p.query.action s p.world = .failed e z) (depth : Nat) :
    (heedingCalls e).Calls fun o => Probed.apply (p.instead o) s depth := by
  -- What is probed fails without a bound, so with one it fails in the same way or is exhausted.
  induction depth with
  | zero => exact fun _ _ _ _ => (heedingCalls e).exhaust _
  | succ depth ih =>
    have hlooks : Probed.Looks (heedingCalls e).toDiscipline p.instead s
        fun o => Probed.apply (p.instead o) s depth := by
      intro b env hinner
      have hheeds : Heeds (.outward e) (Value.Obeys .free) fun o =>
          Probed.inner (p.instead o) s (Probed.apply (p.instead o) s depth) b env := hinner
      refine hheeds.instead p (.eval env b) fun hat => ?_
      show (Probed.inner .plain s (Probed.apply .plain s depth) b env p.world).EndsIn _
      rw [← hat] at hfails
      rw [Probed.apply_plain, Probed.inner_plain]
      exact endsIn_of_meaning ((Evaluation.apply_or_meaning s depth env b p.world).imp id
        fun h => h.trans hfails)
    intro f args hf hargs
    have hheeds : Heeds (.outward e) (Value.Obeys .free) fun o =>
        Probed.applyWith (p.instead o) s (Probed.apply (p.instead o) s depth) f args :=
      Probed.holds_applyWith ih hlooks f args hf hargs
    refine hheeds.instead p (.call f args) fun hat => ?_
    show (Probed.apply .plain s (depth + 1) f args p.world).EndsIn _
    rw [← hat] at hfails
    rw [Probed.apply_plain]
    exact endsIn_of_meaning ((Callable.apply_or_meaning s (depth + 1) f args p.world).imp id
      fun h => h.trans hfails)

/-- **Failures come out of a body.**  If the call of a program or a resumption asks for something
that fails, at whatever depth, then it fails: as that does, and a stop signal as the failure that
it is outside of routines. -/
theorem Callable.Executes.failed_of_asks {f : Callable} (hf : f.Executes)
    (hfails : p.query.action s p.world = .failed e z) {depth : Nat} {args : List Value} {w : World}
    (hends : Callable.apply s depth f args w ≠ .exhausted)
    (hasks : p.AskedAt s depth f args w) :
    ∃ u, Callable.apply s depth f args w = .failed (Coroutine.outward e) u := by
  have hheeds : Heeds (.outward e) (Value.Obeys .free) fun o =>
      Probed.apply (p.instead o) s depth f args :=
    heeding_apply hfails depth f args f.obeys_free fun a _ => a.obeys_free
  have hplain : Probed.apply (p.instead none) s depth f args = Callable.apply s depth f args :=
    congrFun (congrFun (Probed.apply_plain s depth) f) args
  obtain ⟨o, ho⟩ := hasks
  have hend : (Probed.apply (p.instead none) s depth f args w).EndsIn (.outward e) :=
    ((hheeds w).1).resolve_left fun hsame => ho ((hsame o).trans (congrFun hplain w))
  rw [hplain] at hend
  cases houtcome : Callable.apply s depth f args w with
  | value v u =>
    rw [houtcome] at hend
    exact hend.elim
  | failed e' u =>
    rw [houtcome] at hend
    refine ⟨u, congrArg (Outcome.failed · u) ?_⟩
    rcases hend with rfl | rfl
    · -- What comes out is no stop signal.
      cases depth with
      | zero => cases houtcome
      | succ depth => exact ((hf.contained s _ args).outward_eq houtcome).symm
    · rfl
  | exhausted => exact absurd houtcome hends

end

end EffectHandlers
