/-
EffectHandlers/Proofs/Discipline/Programs.lean

The walk through expressions, statements and functions.

Evaluation follows the structure of expressions and statements, one case
for each constructor.  What a call of a program and a resumption do to the
records of calls is left to the discipline: `Discipline.applyWith` asks for
both, for every evaluation and call model that respect the discipline.

Main statement: calls of functions respect the discipline if new calls of
programs, resumptions and the calls that they make do
(`Discipline.applyWith`).
-/
import EffectHandlers.Proofs.Discipline.Scripts

namespace EffectHandlers

variable {ι : Type} {R : Regime} {D : Discipline ι R} {call : ι → Call} {s : ι → Settings}

/-- Runs are excluded unless all settings of a family are the same. -/
def RunsAlike (R : Regime) (s : ι → Settings) : Prop :=
  R.op (.handler .runChain) → ∃ s', s = fun _ => s'

namespace Discipline

/-! ### Expressions -/

theorem opApply (hcall : D.Calls call) (hs : RunsAlike R s) {o : Op} (ho : R.op o)
    {vs : List Value} (hvs : ∀ v ∈ vs, v.Obeys R) :
    D.holds (Value.Obeys R) fun i => o.apply (s i) (call i) vs := by
  rcases o with o | o | o | o
  · exact dataOp hcall o hvs
  · exact effectOp hcall o hvs
  · exact chainOp hcall ho hvs
  · refine handlerOp hcall (fun hrun => hs ?_) hvs
    rw [← hrun]
    exact ho

theorem evalVar {env : Env} (henv : Env.Obeys R env) (name : String) :
    D.holds (Value.Obeys R) fun _ => EffectHandlers.evalVar env name := by
  unfold EffectHandlers.evalVar
  split
  · rename_i hv
    exact D.ret (Env.obeys_lookup henv hv)
  · exact D.fail _ _

theorem customCapabilities (base : HandlerBase) (kind : Option Kind)
    (names : Option (List String)) :
    D.holds (fun _ => True) fun _ => EffectHandlers.customCapabilities base kind names := by
  unfold EffectHandlers.customCapabilities
  split
  · exact D.ret trivial
  · split
    · split
      · exact D.ret trivial
      · exact D.fail _ _
    · exact D.ret trivial
  · exact D.ret trivial

mutual

theorem eval (hcall : D.Calls call) (hs : RunsAlike R s) : ∀ (e : Expr) {env : Env},
    e.Uses R.op → Env.Obeys R env →
    D.holds (Value.Obeys R) fun i => e.eval (s i) (call i) env
  | .literal l, _, _, _ => D.ret (by cases l <;> trivial)
  | .var name, _, _, henv => evalVar henv name
  | .lambda _ _, _, he, henv => D.map D.fresh fun _ _ => ⟨he, bindingsObey_iff.mpr henv⟩
  | .fixpoint _ _ _, _, he, henv => D.map D.fresh fun _ _ => ⟨he, bindingsObey_iff.mpr henv⟩
  | .cond test yes no, _, he, henv =>
    D.bind (eval hcall hs test he.1 henv) fun _ _ =>
      D.ite (eval hcall hs yes he.2.1 henv) (eval hcall hs no he.2.2 henv)
  | .letIn name bound body, _, he, henv =>
    D.bind (eval hcall hs bound he.1 henv) fun _ hv =>
      eval hcall hs body he.2 (Env.obeys_set henv name hv)
  | .block es, _, he, henv => evalLast hcall hs es trivial he henv
  | .mapping entries, _, he, henv =>
    D.map (evalEntries hcall hs entries (by simp) he henv) fun _ hm => entriesObey_iff.mpr hm
  | .program requires _ _, _, he, henv =>
    D.bind (evalAll hcall hs requires he.1 henv) fun vs _ =>
      D.bind (declaredCapabilities vs) fun _ _ =>
        D.map D.fresh fun _ _ => ⟨he.2, bindingsObey_iff.mpr henv⟩
  | .custom spec, _, he, henv => evalHandler hcall hs spec he henv
  | .op _ args, _, he, henv =>
    D.bind (evalAll hcall hs args he.2 henv) fun _ hvs => opApply hcall hs he.1 hvs
termination_by structural e => e

theorem evalAll (hcall : D.Calls call) (hs : RunsAlike R s) : ∀ (es : List Expr) {env : Env},
    exprsUse R.op es → Env.Obeys R env →
    D.holds (fun vs => ∀ v ∈ vs, v.Obeys R) fun i =>
      EffectHandlers.evalAll (s i) (call i) es env
  | [], _, _, _ => D.ret (by simp)
  | e :: es, _, he, henv =>
    D.bind (eval hcall hs e he.1 henv) fun _ hv =>
      D.map (evalAll hcall hs es he.2 henv) fun _ hvs => by simpa [hv] using hvs
termination_by structural es => es

theorem evalLast (hcall : D.Calls call) (hs : RunsAlike R s) : ∀ (es : List Expr) {env : Env}
    {last : Value}, last.Obeys R → exprsUse R.op es → Env.Obeys R env →
    D.holds (Value.Obeys R) fun i => EffectHandlers.evalLast (s i) (call i) last es env
  | [], _, _, hlast, _, _ => D.ret hlast
  | e :: es, _, _, _, he, henv =>
    D.bind (eval hcall hs e he.1 henv) fun _ hv => evalLast hcall hs es hv he.2 henv
termination_by structural es => es

theorem evalEntries (hcall : D.Calls call) (hs : RunsAlike R s) :
    ∀ (es : List (Expr × Expr)) {env : Env} {m : Mapping}, Mapping.Obeys R m →
    entriesUse R.op es → Env.Obeys R env →
    D.holds (Mapping.Obeys R) fun i => EffectHandlers.evalEntries (s i) (call i) m es env
  | [], _, _, hm, _, _ => D.ret hm
  | (k, v) :: es, _, m, hm, he, henv => by
    refine D.bind (eval hcall hs k he.1 henv) fun k hk => ?_
    refine D.bind (eval hcall hs v he.2.1 henv) fun v hv => ?_
    refine D.bind (P := Mapping.Obeys R)
      (D.ofExcept fun _ h => Mapping.obeys_addEntry hm hk hv h) fun m hm => ?_
    exact evalEntries hcall hs es hm he.2.2 henv
termination_by structural es => es

theorem evalOption (hcall : D.Calls call) (hs : RunsAlike R s) : ∀ (e : Option Expr) {env : Env},
    optionUses R.op e → Env.Obeys R env →
    D.holds (optionObeys R) fun i => EffectHandlers.evalOption (s i) (call i) e env
  | none, _, _, _ => D.ret trivial
  | some e, _, he, henv => D.map (eval hcall hs e he henv) fun _ hv => hv
termination_by structural e => e

theorem evalHandler (hcall : D.Calls call) (hs : RunsAlike R s) : ∀ (spec : HandlerSpec)
    {env : Env}, spec.Uses R.op → Env.Obeys R env →
    D.holds (Value.Obeys R) fun i => spec.eval (s i) (call i) env
  | .mk _ base kind names start step offer finish, _, he, henv => by
    refine D.bind (evalOption hcall hs start he.1 henv) fun start hstart => ?_
    refine D.bind (evalOption hcall hs step he.2.1 henv) fun step hstep => ?_
    refine D.bind (evalOption hcall hs offer he.2.2.1 henv) fun offer hoffer => ?_
    refine D.bind (evalOption hcall hs finish he.2.2.2 henv) fun finish hfinish => ?_
    refine D.bind (customCapabilities base kind names) fun capabilities _ => ?_
    exact newHandler fun _ => ⟨hstart, hstep, hoffer, hfinish⟩
termination_by structural spec => spec

end

end Discipline

/-! ### Statements -/

/-- Everything in a frame keeps to a regime. -/
def Frame.Obeys (R : Regime) : Frame → Prop
  | .block rest => stmtsUse R.op rest
  | .loop _ items body => (∀ v ∈ items, v.Obeys R) ∧ stmtsUse R.op body

theorem Frame.obeys_free (f : Frame) : f.Obeys .free := by
  cases f
  case block rest => exact stmtsUse_any rest
  case loop items body => exact ⟨fun v _ => v.obeys_free, stmtsUse_any body⟩

/-- Everything keeps to a regime where the execution of statements ends. -/
def Exit.Obeys (R : Regime) : Exit → Prop
  | .through env => Env.Obeys R env
  | .yielded v _ rest env => v.Obeys R ∧ (∀ f ∈ rest, f.Obeys R) ∧ Env.Obeys R env
  | .returned v => v.Obeys R

theorem Exit.obeys_followedBy {exit : Exit} (h : exit.Obeys R) {frames : List Frame}
    (hf : ∀ f ∈ frames, f.Obeys R) : (exit.followedBy frames).Obeys R := by
  cases exit
  case yielded =>
    refine ⟨h.1, fun f hm => ?_, h.2.2⟩
    exact (List.mem_append.mp hm).elim (h.2.1 f) (hf f)
  all_goals exact h

theorem Coroutine.obeys_bindAnswer {env : Env} (henv : Env.Obeys R env) (target : Option String)
    {answer : Value} (ha : answer.Obeys R) :
    Env.Obeys R (Coroutine.bindAnswer env target answer) := by
  cases target
  case none => exact henv
  case some name => exact Env.obeys_set henv name ha

namespace Discipline

/-- Evaluation of expressions respects a discipline. -/
def Evaluates (D : Discipline ι R) (eval : ι → Evaluation) : Prop :=
  ∀ e env, e.Uses R.op → Env.Obeys R env → D.holds (Value.Obeys R) fun i => eval i env e

variable {eval : ι → Evaluation}

/-- What follows statements that may have ended early. -/
theorem afterExit {x : ι → Action Exit} (hx : D.holds (Exit.Obeys R) x) {frames : List Frame}
    (hf : ∀ f ∈ frames, f.Obeys R) {next : ι → Env → Action Exit}
    (hnext : ∀ env, Env.Obeys R env → D.holds (Exit.Obeys R) fun i => next i env) :
    D.holds (Exit.Obeys R) fun i => x i >>= fun exit =>
      match exit with
      | .through env => next i env
      | other => pure (other.followedBy frames) := by
  refine D.bind hx fun exit hexit => ?_
  cases exit
  case through env => exact hnext env hexit
  all_goals exact D.ret (Exit.obeys_followedBy hexit hf)

theorem execLoop {exec : ι → Env → Action Exit}
    (hexec : ∀ env, Env.Obeys R env → D.holds (Exit.Obeys R) fun i => exec i env)
    (name : String) {body : List Stmt} (hbody : stmtsUse R.op body) {vs : List Value}
    (hvs : ∀ v ∈ vs, v.Obeys R) {env : Env} (henv : Env.Obeys R env) :
    D.holds (Exit.Obeys R) fun i => EffectHandlers.execLoop (exec i) name body vs env := by
  induction vs generalizing env with
  | nil => exact D.ret henv
  | cons v vs ih =>
    have hrest : ∀ v ∈ vs, v.Obeys R := fun v hv => hvs v (List.mem_cons_of_mem _ hv)
    refine afterExit (hexec _ (Env.obeys_set henv name (hvs v List.mem_cons_self))) ?_
      fun env henv => ih hrest henv
    intro f hf
    rw [List.mem_singleton.mp hf]
    exact ⟨hrest, hbody⟩

mutual

theorem exec (heval : Evaluates D eval) : ∀ (s : Stmt) {env : Env}, s.Uses R.op →
    Env.Obeys R env → D.holds (Exit.Obeys R) fun i => s.exec (eval i) env
  | .yield _ e, _, he, henv =>
    D.map (heval e _ he henv) fun _ hv => ⟨hv, by simp, henv⟩
  | .assign name e, _, he, henv => D.map (heval e _ he henv) fun _ hv => Env.obeys_set henv name hv
  | .eval e, _, he, henv => D.map (heval e _ he henv) fun _ _ => henv
  | .exit e, _, he, henv => D.map (heval e _ he henv) fun _ hv => hv
  | .cond test yes no, _, he, henv =>
    D.bind (heval test _ he.1 henv) fun _ _ =>
      D.ite (execBlock heval yes he.2.1 henv) (execBlock heval no he.2.2 henv)
  | .each name xs body, _, he, henv =>
    D.bind (heval xs _ he.1 henv) fun _ hv => D.bind (items hv) fun _ hvs =>
      execLoop (fun _ henv => execBlock heval body he.2 henv) name he.2 hvs henv
termination_by structural s => s

theorem execBlock (heval : Evaluates D eval) : ∀ (ss : List Stmt) {env : Env},
    stmtsUse R.op ss → Env.Obeys R env →
    D.holds (Exit.Obeys R) fun i => EffectHandlers.execBlock (eval i) ss env
  | [], _, _, henv => D.ret henv
  | s :: ss, _, hss, henv =>
    afterExit (exec heval s hss.1 henv)
      (fun f hf => by
        rw [List.mem_singleton.mp hf]
        exact hss.2)
      fun _ henv => execBlock heval ss hss.2 henv
termination_by structural ss => ss

end

theorem execFrames (heval : Evaluates D eval) {fs : List Frame} (hfs : ∀ f ∈ fs, f.Obeys R)
    {env : Env} (henv : Env.Obeys R env) :
    D.holds (Exit.Obeys R) fun i => EffectHandlers.execFrames (eval i) fs env := by
  induction fs generalizing env with
  | nil => exact D.ret henv
  | cons f fs ih =>
    have hf : f.Obeys R := hfs f List.mem_cons_self
    have hrest : ∀ f ∈ fs, f.Obeys R := fun f hm => hfs f (List.mem_cons_of_mem _ hm)
    cases f
    case block rest => exact afterExit (execBlock heval rest hf henv) hrest fun _ => ih hrest
    case loop name vs body =>
      have hloop := execLoop (fun _ henv => execBlock heval body hf.2 henv) name hf.2 hf.1 henv
      exact afterExit hloop hrest fun _ => ih hrest

/-! ### Functions -/

/-- New calls of routines respect a discipline. -/
def Begins (D : Discipline ι R) (s : ι → Settings) (call : ι → Call) : Prop :=
  ∀ body env, stmtsUse R.op body → Env.Obeys R env →
    D.holds (Chain.Obeys R) fun i => Invocation.begin (fun env e => e.eval (s i) (call i) env)
      (call i) (s i).maxSteps body env

/-- Resumptions of routines respect a discipline. -/
def Resumes (D : Discipline ι R) (s : ι → Settings) (call : ι → Call) : Prop :=
  ∀ id h answer, R.call id → answer.Obeys R →
    D.holds (Chain.Obeys R) fun i => Invocation.resume (fun env e => e.eval (s i) (call i) env)
      (call i) (s i).maxSteps id h answer

theorem bindParameters {env : Env} (henv : Env.Obeys R env) (params : List String)
    {args : List Value} (hargs : ∀ a ∈ args, a.Obeys R) :
    D.holds (Env.Obeys R) fun _ => Action.require .arity (Env.setAll? env params args) :=
  D.require _ fun _ h => Env.obeys_setAll henv hargs h

theorem applyWith (hs : RunsAlike R s) (hcall : D.Calls call) (hbegin : Begins D s call)
    (hresume : Resumes D s call) : D.Calls fun i f args => f.applyWith (s i) (call i) args := by
  intro f args hf hargs
  rcases f with ⟨_, params, body, env⟩ | ⟨_, name, params, body, env⟩ |
    ⟨_, requires, params, body | body, env⟩ | ⟨id, h⟩
  · exact D.bind (bindParameters (bindingsObey_iff.mp hf.2) params hargs) fun _ henv =>
      eval hcall hs body hf.1 henv
  · have hself := Env.obeys_set (bindingsObey_iff.mp hf.2) name (v := .function _) hf
    exact D.bind (bindParameters hself params hargs) fun _ henv => eval hcall hs body hf.1 henv
  · refine D.bind (bindParameters (bindingsObey_iff.mp hf.2) params hargs) fun _ henv => ?_
    exact D.map (hbegin body _ hf.1 henv) fun _ hc => Chain.obeys_declare hc requires
  · refine D.bind (bindParameters (bindingsObey_iff.mp hf.2) params hargs) fun _ henv => ?_
    refine D.bind (eval hcall hs body hf.1 henv) fun v hv => ?_
    cases v
    case chain c => exact D.ret (Chain.obeys_declare (c := c) hv requires)
    all_goals exact D.ret (Chain.obeys_declare (Chain.obeys_finished hv) requires)
  · rcases args with _ | ⟨answer, _ | ⟨_, _⟩⟩
    · exact D.fail _ _
    · exact D.map (hresume id h answer hf (hargs answer (by simp))) fun _ hc => hc
    · exact D.fail _ _

end Discipline

end EffectHandlers
