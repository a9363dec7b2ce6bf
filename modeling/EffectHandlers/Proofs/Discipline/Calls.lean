/-
EffectHandlers/Proofs/Discipline/Calls.lean

The walk through calls of programs.

A discipline that also respects each single access to the record of a call
respects new calls and resumptions, and so everything that the interpreter
does (`CallDiscipline.calls`).

Disciplines whose invariant is broken between two accesses, such as one
about the live coroutine, have to provide new calls and resumptions as a
whole and cannot use this module.
-/
import EffectHandlers.Proofs.Discipline.Programs

namespace EffectHandlers

/-- Everything keeps to a regime where a routine stands. -/
def Position.Obeys (R : Regime) : Position → Prop
  | .entry body env => stmtsUse R.op body ∧ Env.Obeys R env
  | .parked _ rest env => (∀ f ∈ rest, f.Obeys R) ∧ Env.Obeys R env
  | .running | .finished => True

/-- What a routine comes to keeps to a regime. -/
def Advance.Obeys (R : Regime) : Advance → Prop
  | .yielded v | .returned v => v.Obeys R

theorem Exit.Obeys.advance {R : Regime} {exit : Exit} (h : exit.Obeys R) :
    exit.advance.Obeys R := by
  cases exit
  case yielded => exact h.1
  case through => trivial
  case returned => exact h

theorem Exit.Obeys.position {R : Regime} {exit : Exit} (h : exit.Obeys R) :
    exit.position.Obeys R := by
  cases exit
  case yielded => exact h.2
  all_goals trivial

theorem Position.obeys_free (p : Position) : p.Obeys .free := by
  cases p
  case entry body env => exact ⟨stmtsUse_any body, fun b _ => Value.obeys_free b.2⟩
  case parked rest env => exact ⟨fun f _ => f.obeys_free, fun b _ => Value.obeys_free b.2⟩
  all_goals trivial

/-- A discipline that respects every access to the records of calls. -/
structure CallDiscipline (ι : Type) (R : Regime) extends Discipline ι R where
  create {body : List Stmt} {env : Env} (hbody : stmtsUse R.op body) (henv : Env.Obeys R env) :
    holds R.call fun _ => Invocation.create body env
  spawn {id : Nat} (hid : R.call id) : holds (fun _ => True) fun _ => Invocation.spawn id
  liveOf {id : Nat} (hid : R.call id) : holds (fun _ => True) fun _ => Invocation.liveOf id
  setLive {id : Nat} (hid : R.call id) (l : Option (Nat × Nat)) :
    holds (fun _ => True) fun _ => Invocation.setLive id l
  answersOf {id : Nat} (hid : R.call id) (h : Nat) :
    holds (fun vs => ∀ v ∈ vs, v.Obeys R) fun _ => Invocation.answersOf id h
  extendHistory {id : Nat} (hid : R.call id) (h : Nat) {answer : Value}
    (ha : answer.Obeys R) : holds (fun _ => True) fun _ => Invocation.extendHistory id h answer
  standing {id : Nat} (hid : R.call id) (gen : Nat) :
    holds (Position.Obeys R) fun _ => Coroutine.standing id gen
  receive {id : Nat} (hid : R.call id) (gen : Nat) {answer : Value} (ha : answer.Obeys R) :
    holds (fun _ => True) fun _ => Coroutine.receive id gen answer
  execute {id : Nat} (hid : R.call id) (gen : Nat) {part : ι → Action Exit}
    (hpart : holds (Exit.Obeys R) part) :
    holds (Advance.Obeys R) fun i => Coroutine.execute id gen (part i)

namespace CallDiscipline

variable {ι : Type} {R : Regime} {D : CallDiscipline ι R} {call : ι → Call}
  {eval : ι → Evaluation} {id : Nat}

/-! ### Coroutines -/

theorem send (heval : D.Evaluates eval) (hid : R.call id) (gen : Nat) {answer : Value}
    (ha : answer.Obeys R) :
    D.holds (Advance.Obeys R) fun i => Coroutine.send (eval i) id gen answer := by
  refine D.bind (D.standing hid gen) fun p hp => ?_
  cases p
  case entry => exact D.fail _ _
  case parked target rest env =>
    refine D.bind (D.receive hid gen ha) fun _ _ => D.execute hid gen ?_
    exact Discipline.execFrames heval hp.1 (Coroutine.obeys_bindAnswer hp.2 target ha)
  case running => exact D.fail _ _
  case finished => exact D.ret trivial

theorem start (heval : D.Evaluates eval) (hid : R.call id) (gen : Nat) :
    D.holds (Advance.Obeys R) fun i => Coroutine.start (eval i) id gen := by
  refine D.bind (D.standing hid gen) fun p hp => ?_
  cases p
  case entry body env => exact D.execute hid gen (Discipline.execBlock heval body hp.1 hp.2)
  all_goals exact send heval hid gen trivial

/-! ### Replay -/

theorem mustYield (next : Advance) :
    D.holds (fun _ => True) fun _ => Invocation.mustYield next := by
  cases next
  case yielded => exact D.ret trivial
  case returned => exact D.fail _ _

theorem replay (heval : D.Evaluates eval) (hid : R.call id) (gen : Nat) {answers : List Value}
    (h : ∀ a ∈ answers, a.Obeys R) :
    D.holds (fun _ => True) fun i => Invocation.replay (eval i) id gen answers := by
  induction answers with
  | nil => exact D.ret trivial
  | cons a rest ih =>
    refine D.bind (send heval hid gen (h a List.mem_cons_self)) fun next _ => ?_
    exact D.bind (mustYield next) fun _ _ => ih fun a ha => h a (List.mem_cons_of_mem _ ha)

theorem rebuild (heval : D.Evaluates eval) (hid : R.call id) (h : Nat) :
    D.holds (fun _ => True) fun i => Invocation.rebuild (eval i) id h := by
  refine D.bind (D.answersOf hid h) fun answers hanswers => ?_
  refine D.bind (D.spawn hid) fun gen _ => ?_
  refine D.bind (start heval hid gen) fun next _ => D.bind (mustYield next) fun _ _ => ?_
  refine D.bind (replay heval hid gen fun a ha => hanswers a (List.mem_reverse.mp ha)) fun _ _ => ?_
  exact D.setLive hid _

/-! ### Yielding and going on -/

theorem yieldedChain {v : Value} (hv : v.Obeys R) :
    D.holds (Chain.Obeys R) fun _ => Invocation.yieldedChain v := by
  cases v
  case effect => exact D.ret (Chain.obeys_perform hv)
  case chain => exact D.ret hv
  all_goals exact D.fail _ _

theorem takeLive (hid : R.call id) :
    D.holds (fun _ => True) fun _ => Invocation.takeLive id := by
  refine D.bind (D.liveOf hid) fun l _ => ?_
  rcases l with _ | ⟨gen, h⟩
  · exact D.fail _ _
  · exact D.toDiscipline.map (D.setLive hid none) fun _ _ => trivial

theorem feed (heval : D.Evaluates eval) (hid : R.call id) (h : Nat) {answer : Value}
    (ha : answer.Obeys R) :
    D.holds (fun p => p.1.Obeys R) fun i => Invocation.feed (eval i) id h answer := by
  refine D.bind (takeLive hid) fun gen _ => D.bind (send heval hid gen ha) fun next hnext => ?_
  cases next
  case returned => exact D.ret hnext
  case yielded =>
    refine D.bind (D.extendHistory hid h ha) fun h' _ => ?_
    exact D.toDiscipline.map (D.setLive hid _) fun _ _ => hnext

theorem suspend (hcall : D.Calls call) (heval : D.Evaluates eval) (hid : R.call id)
    (fuel : Nat) {next : Advance} (hnext : next.Obeys R) (h : Nat) :
    D.holds (Chain.Obeys R) fun i => Invocation.suspend (eval i) (call i) id fuel next h := by
  induction fuel generalizing next h with
  | zero =>
    cases next
    case returned => exact D.ret (Chain.obeys_finished hnext)
    case yielded v =>
      simp only [Invocation.suspend_yielded]
      refine D.bind (yieldedChain hnext) fun c hc => ?_
      cases c
      case done => exact D.exhaust _
      case suspended => exact Discipline.chainBind hcall hc (b := .call (.resumption id h)) hid rfl
  | succ fuel ih =>
    cases next
    case returned => exact D.ret (Chain.obeys_finished hnext)
    case yielded v =>
      simp only [Invocation.suspend_yielded]
      refine D.bind (yieldedChain hnext) fun c hc => ?_
      cases c
      case done => exact D.bind (feed heval hid h hc) fun p hp => ih hp p.2
      case suspended => exact Discipline.chainBind hcall hc (b := .call (.resumption id h)) hid rfl

theorem resume (hcall : D.Calls call) (heval : D.Evaluates eval) (hid : R.call id)
    (maxSteps h : Nat) {answer : Value} (ha : answer.Obeys R) :
    D.holds (Chain.Obeys R) fun i =>
      Invocation.resume (eval i) (call i) maxSteps id h answer := by
  refine D.bind (D.liveOf hid) fun l _ => ?_
  have hgo : D.holds (Chain.Obeys R) fun i => Invocation.feed (eval i) id h answer >>= fun p =>
      Invocation.suspend (eval i) (call i) id maxSteps p.1 p.2 :=
    D.bind (feed heval hid h ha) fun p hp => suspend hcall heval hid maxSteps hp p.2
  exact D.ite hgo (D.bind (rebuild heval hid h) fun _ _ => hgo)

theorem enter (heval : D.Evaluates eval) {body : List Stmt} (hbody : stmtsUse R.op body)
    {env : Env} (henv : Env.Obeys R env) :
    D.holds (fun p => R.call p.1 ∧ p.2.Obeys R) fun i => Invocation.enter (eval i) body env := by
  refine D.bind (D.create hbody henv) fun id hid => D.bind (D.spawn hid) fun gen _ => ?_
  refine D.bind (start heval hid gen) fun next hnext => ?_
  cases next
  case returned => exact D.ret ⟨hid, hnext⟩
  case yielded => exact D.toDiscipline.map (D.setLive hid _) fun _ _ => ⟨hid, hnext⟩

theorem begin (hcall : D.Calls call) (heval : D.Evaluates eval) (maxSteps : Nat)
    {body : List Stmt} (hbody : stmtsUse R.op body) {env : Env} (henv : Env.Obeys R env) :
    D.holds (Chain.Obeys R) fun i =>
      Invocation.begin (eval i) (call i) maxSteps body env :=
  D.bind (enter heval hbody henv) fun _ hp => suspend hcall heval hp.1 maxSteps hp.2 _

/-! ### Functions -/

theorem applyWith {s : ι → Settings} (hs : RunsAlike R s) {n : Nat}
    (hn : ∀ i, (s i).maxSteps = n) (hcall : D.Calls call) :
    D.Calls fun i f args => f.applyWith (s i) (call i) args := by
  have heval : D.Evaluates fun i env e => e.eval (s i) (call i) env :=
    fun e _ he henv => Discipline.eval hcall hs e he henv
  refine Discipline.applyWith hs hcall ?_ ?_
  · intro body env hbody henv
    simp only [hn]
    exact begin hcall heval n hbody henv
  · intro id h answer hid ha
    simp only [hn]
    exact resume hcall heval hid n h ha

/-- Calls respect a discipline at every depth, for settings with one bound on loops. -/
theorem calls (D : CallDiscipline ι R) {s : ι → Settings} (hs : RunsAlike R s) {n : Nat}
    (hn : ∀ i, (s i).maxSteps = n) (depth : Nat) :
    D.Calls fun i => Callable.apply (s i) depth := by
  induction depth with
  | zero => exact fun _ _ _ _ => D.exhaust _
  | succ depth ih => exact applyWith hs hn ih

end CallDiscipline

end EffectHandlers
