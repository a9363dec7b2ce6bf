/-
EffectHandlers/Proofs/Returning.lean

Only a return finishes a program.

A program is called, and its nodes are resumed: in any order, each as often
as one likes.  What that comes to is told by the last slice of the body
(`Callable.course`).  The call or the resumption

* is finished with a value if and only if the slice returns that value;
* fails as a replay that ends early if and only if the body has returned
  while it was sent the recorded answers, or something in it fails so;
* fails if the slice does, with the same failure unless it is a stop signal,
  which leaves the body as a failure of its own.

So a stop signal is taken neither for a return nor for the end of a replay,
and whatever fails deep inside the body fails the call.  Outside of bodies
a failure is not changed at all.

Main result: `only_returns_finish`.
-/
import EffectHandlers.Proofs.Course
import EffectHandlers.Proofs.Identity
import EffectHandlers.Proofs.Probed
import EffectHandlers.Proofs.Reference
import Mathlib.Data.List.Permutation

namespace EffectHandlers

variable {s : Settings} {call : Call} {id h : Nat} {f : Callable} {args : List Value}
  {r : CapabilitySet} {v a : Value} {w u : World}

/-- The end of a replay is no stop signal. -/
theorem Action.outward_eq_early {α : Type} {x : Action α} :
    x.outward w = .failed .replayEndedEarly u ↔ x w = .failed .replayEndedEarly u := by
  rw [outward]
  cases x w with
  | value a u => rfl
  | failed e u =>
    cases e
    case raised kind message => cases kind <;> simp [Coroutine.outward]
    all_goals rfl
  | exhausted => rfl

/-- A node of a program: a request that goes on with a body from one of its histories. -/
def Effect.node (e : Effect) (id h : Nat) : Effect := e.map (.bind (.call (.resumption id h)))

/-! ### What is made of the last slice -/

namespace Body

section

variable {last : Option (Exit × Nat)}

theorem concludeResumed_eq_done : concludeResumed call id last w = .value (.done v r) u ↔
    ∃ exit h, last = some (exit, h) ∧ exit.Returns v ∧ r = ∅ ∧ u = w := by
  cases last with
  | none => exact iff_of_false (by rintro ⟨⟩) (by simp)
  | some p =>
    rw [concludeResumed, conclude_eq_done]
    exact ⟨fun h => ⟨p.1, p.2, rfl, h⟩, by rintro ⟨_, _, ⟨⟩, h⟩; exact h⟩

/-- A body returns, or what it yields becomes a node or is refused. -/
theorem conclude_cases (call : Call) (id : Nat) (p : Exit × Nat) (w : World) :
    (∃ v, conclude call id p w = .value (Chain.finished v) w) ∨
      (∃ (e : Effect) (r : CapabilitySet),
        conclude call id p w = .value (.suspended (e.node id p.2) r) w) ∨
      (∃ found, conclude call id p w = .failed (.notYieldable found) w) ∨
      conclude call id p w = .exhausted := by
  rw [conclude]
  cases p.1.advance with
  | returned v => exact .inl ⟨v, rfl⟩
  | yielded v =>
    cases v
    case effect e => exact .inr (.inl ⟨_, _, rfl⟩)
    case chain c =>
      cases c with
      | done a r => exact .inr (.inr (.inr rfl))
      | suspended e r => exact .inr (.inl ⟨e, r, rfl⟩)
    all_goals exact .inr (.inr (.inl ⟨_, rfl⟩))

theorem concludeResumed_eq_early :
    concludeResumed call id last w = .failed .replayEndedEarly u ↔ last = none ∧ u = w := by
  cases last with
  | none => exact ⟨by rintro ⟨⟩; exact ⟨rfl, rfl⟩, by rintro ⟨-, rfl⟩; rfl⟩
  | some p =>
    rw [concludeResumed]
    rcases conclude_cases call id p w with ⟨_, h⟩ | ⟨_, _, h⟩ | ⟨_, h⟩ | h
    all_goals simp [h]

/-- What a body leaves pending is a node. -/
theorem concludeResumed_eq_suspended {e : Effect}
    (hlast : concludeResumed call id last w = .value (.suspended e r) u) :
    ∃ (e₀ : Effect) (h : Nat), e = e₀.node id h := by
  cases last with
  | none => cases hlast
  | some p =>
    rw [concludeResumed] at hlast
    rcases conclude_cases call id p w with ⟨_, h⟩ | ⟨e₀, _, h⟩ | ⟨_, h⟩ | h
    case inr.inl =>
      rw [h] at hlast
      cases hlast
      exact ⟨e₀, p.2, rfl⟩
    all_goals rw [h] at hlast; cases hlast

end

/-- The chain for the last slice of a body, with capabilities declared.  The slice is told with the
number of the call, and is none if a fresh coroutine returns while it is sent the recorded
answers. -/
def concluded (call : Call) (r : CapabilitySet) (course : Action (Nat × Option (Exit × Nat))) :
    Action Value :=
  course.outward >>= fun last =>
    concludeResumed call last.1 last.2 >>= fun c => pure (.chain (c.declare r))

variable {course : Action (Nat × Option (Exit × Nat))}

theorem concluded_eq_chain {c : Chain} :
    concluded call r course w = .value (.chain c) u ↔
      ∃ id last w' c', course w = .value (id, last) w' ∧
        concludeResumed call id last w' = .value c' u ∧ c'.declare r = c := by
  constructor
  · intro hconcluded
    obtain ⟨⟨id, last⟩, w', hlast, hrest⟩ := Action.bind_eq_value.mp hconcluded
    obtain ⟨c', u', hc', hpure⟩ := Action.bind_eq_value.mp hrest
    obtain ⟨hdeclare, rfl⟩ := Action.pure_eq_value.mp hpure
    exact ⟨id, last, w', c', Action.outward_eq_value.mp hlast, hc', Value.chain.inj hdeclare⟩
  · rintro ⟨id, last, w', c', hlast, hc', rfl⟩
    rw [concluded, Action.bind_of_value (Action.outward_eq_value.mpr hlast),
      Action.bind_of_value hc', Action.pure_apply]

/-- **Only a return finishes.** -/
theorem concluded_eq_done :
    (∃ r', concluded call r course w = .value (.chain (.done v r')) u) ↔
      ∃ id exit h, course w = .value (id, some (exit, h)) u ∧ exit.Returns v := by
  constructor
  · rintro ⟨r', hconcluded⟩
    obtain ⟨id, last, w', c, hlast, hc, hdeclare⟩ := concluded_eq_chain.mp hconcluded
    cases c with
    | done x r₀ =>
      cases hdeclare
      obtain ⟨exit, h, rfl, hreturns, -, rfl⟩ := concludeResumed_eq_done.mp hc
      exact ⟨id, exit, h, hlast, hreturns⟩
    | suspended e r₀ => cases hdeclare
  · rintro ⟨id, exit, h, hcourse, hreturns⟩
    have hdone : concludeResumed call id (some (exit, h)) u = .value (Chain.finished v) u :=
      concludeResumed_eq_done.mpr ⟨exit, h, rfl, hreturns, rfl, rfl⟩
    exact ⟨_, concluded_eq_chain.mpr ⟨id, _, u, _, hcourse, hdone, rfl⟩⟩

/-- **Only a return while recorded answers are sent** ends a replay early. -/
theorem concluded_eq_early : concluded call r course w = .failed .replayEndedEarly u ↔
    (∃ id, course w = .value (id, none) u) ∨ course w = .failed .replayEndedEarly u := by
  constructor
  · intro h
    rcases Action.bind_eq_failed.mp h with hfail | ⟨⟨id, last⟩, w₁, hlast, h⟩
    · exact .inr (Action.outward_eq_early.mp hfail)
    · rcases Action.bind_eq_failed.mp h with hearly | ⟨c, w₂, -, h⟩
      · obtain ⟨rfl, rfl⟩ := concludeResumed_eq_early.mp hearly
        exact .inl ⟨id, Action.outward_eq_value.mp hlast⟩
      · cases h
  · rintro (⟨id, hcourse⟩ | hcourse)
    · rw [concluded, Action.bind_of_value (Action.outward_eq_value.mpr hcourse)]
      rfl
    · exact Action.bind_eq_failed.mpr (.inl (Action.outward_eq_early.mpr hcourse))

/-- A slice that fails fails as it does outside of routines. -/
theorem concluded_of_failed {e : Failure} (h : course w = .failed e u) :
    concluded call r course w = .failed (Coroutine.outward e) u := by
  rw [concluded, Action.bind_apply, Action.outward, h]

/-- What is left pending is a node. -/
theorem concluded_eq_suspended {e : Effect} {r' : CapabilitySet}
    (hconcluded : concluded call r course w = .value (.chain (.suspended e r')) u) :
    ∃ e₀ id h, e = Effect.node e₀ id h := by
  obtain ⟨id, last, w', c, -, hc, hdeclare⟩ := concluded_eq_chain.mp hconcluded
  cases c with
  | done x r₀ => cases hdeclare
  | suspended e' r₀ =>
    cases hdeclare
    obtain ⟨e₀, h, rfl⟩ := concludeResumed_eq_suspended hc
    exact ⟨e₀, id, h, rfl⟩

end Body

/-- What the last slice of a body makes of a call or of a resumption.

* `done`: it is finished with a value exactly if the slice returns that value.
* `early`: it fails as a replay that ends early exactly if there is no slice, since the body has
  returned before, or the slice fails so.
* `failed`: it fails if the slice does, as that does outside of routines.
* `pending`: what it leaves pending is a node. -/
structure Concludes (slice : Outcome (Nat × Option (Exit × Nat))) (o : Outcome Value) : Prop where
  done (v : Value) (u : World) : (∃ r, o = .value (.chain (.done v r)) u) ↔
    ∃ id exit h, slice = .value (id, some (exit, h)) u ∧ exit.Returns v
  early (u : World) : o = .failed .replayEndedEarly u ↔
    (∃ id, slice = .value (id, none) u) ∨ slice = .failed .replayEndedEarly u
  failed (e : Failure) (u : World) : slice = .failed e u → o = .failed (Coroutine.outward e) u
  pending (e : Effect) (r : CapabilitySet) (u : World) :
    o = .value (.chain (.suspended e r)) u → ∃ e₀ id h, e = Effect.node e₀ id h

theorem Body.concludes (call : Call) (r : CapabilitySet)
    (course : Action (Nat × Option (Exit × Nat))) (w : World) :
    Concludes (course w) (Body.concluded call r course w) where
  done _ _ := Body.concluded_eq_done
  early _ := Body.concluded_eq_early
  failed _ _ := Body.concluded_of_failed
  pending _ _ _ := Body.concluded_eq_suspended

/-! ### Calls and nodes in full view -/

namespace Callable

/-- The last slice of the body that is executed when a function is called. -/
noncomputable def course (s : Settings) :
    Callable → List Value → Action (Nat × Option (Exit × Nat))
  | .program _ _ params (.resumable body) env, args => do
    let env ← Action.require .arity (Env.setAll? env params args)
    let (id, last) ← Body.begin s body env
    return (id, some last)
  | .resumption id h, [answer] => do return (id, ← Body.resume s id h answer)
  | _, _ => Action.fail .arity

/-- What a program declares. -/
def declared : Callable → CapabilitySet
  | .program _ requires _ _ _ => requires
  | _ => ∅

/-- **A call in full view**: what it comes to is made of the last slice of the body. -/
theorem meaning_seen (hf : f.Executes) (hw : Kept s w) (args : List Value) :
    meaning s f args w = Body.concluded (meaning s) f.declared (f.course s args) w := by
  rw [meaning_unfold, Body.concluded]
  cases hf with
  | program fid requires params body env =>
    have hparams := Action.Contained.require (f := .arity) rfl (Env.setAll? env params args)
    rw [course, hparams.bind_outward]
    refine Action.bind_congr_of_value fun env' w' henv => ?_
    -- Binding the parameters leaves the world alone.
    have hw' : w' = w := by
      cases hset : Env.setAll? env params args <;> rw [hset] at henv <;> cases henv
      rfl
    subst hw'
    show (Invocation.begin (Evaluation.meaning s) (meaning s) s.maxSteps body env' >>= fun c =>
      pure (Value.chain (c.declare requires))) w' = _
    rw [Action.bind_congr_apply (Body.begin_seen (meaning s) hw body env'), bind_assoc,
      Action.outward_bind, bind_assoc]
    rfl
  | resumption id h =>
    match args with
    | [answer] =>
      show (Invocation.resume (Evaluation.meaning s) (meaning s) s.maxSteps id h answer >>= fun c =>
        pure (Value.chain c)) w = _
      rw [Action.bind_congr_apply (Body.resume_seen (meaning s) hw id h answer), bind_assoc, course,
        Action.outward_bind, bind_assoc]
      simp only [declared, Chain.declare_empty]
      rfl
    | [] | _ :: _ :: _ => rfl

end Callable

/-- A node whose request has finished with an answer goes on with the body. -/
theorem Effect.node_resume_done {e : Effect} {x : Value}
    (he : e.resume (Callable.meaning s) a w = .value (.chain (.done x r)) u) (hu : Kept s u)
    (id h : Nat) :
    (e.node id h).resume (Callable.meaning s) a w
      = Body.concluded (Callable.meaning s) r ((Callable.resumption id h).course s [x]) u := by
  have hcall := Callable.meaning_seen (.resumption id h) hu [x]
  rw [node, Effect.resume_map, Action.bind_of_value he]
  show (((Callable.meaning s (.resumption id h) [x] >>= Chain.ofValue "binder") >>= fun c =>
    pure (c.declare r)) >>= fun c => pure (Value.chain c)) u = _
  simp only [bind_assoc, pure_bind]
  rw [Action.bind_congr_apply hcall, Body.concluded, Body.concluded]
  simp only [bind_assoc, pure_bind, Callable.declared, Chain.declare_empty, Chain.ofValue]

/-- What becomes of a node is told by its request, which is resumed first: unless that finishes, the
body is not reached, and a failure is passed on as it is. -/
def Effect.NodeConcludes (s : Settings) (e : Effect) (id h : Nat) (a : Value) (w : World) : Prop :=
  match e.resume (Callable.meaning s) a w with
  | .value (.chain (.done x _)) u =>
    Concludes ((Callable.resumption id h).course s [x] u)
      ((e.node id h).resume (Callable.meaning s) a w)
  | .value (.chain (.suspended e' r)) u =>
    (e.node id h).resume (Callable.meaning s) a w = .value (.chain (.suspended (e'.node id h) r)) u
  | .value v u =>
    (e.node id h).resume (Callable.meaning s) a w = .failed (.notChain "bind" v.typeName) u
  | .failed g u => (e.node id h).resume (Callable.meaning s) a w = .failed g u
  | .exhausted => (e.node id h).resume (Callable.meaning s) a w = .exhausted

theorem Effect.nodeConcludes (hw : Kept s w) (e : Effect) (id h : Nat) (a : Value) :
    e.NodeConcludes s id h a w := by
  have hresume : (e.node id h).resume (Callable.meaning s) a w = _ :=
    congrFun (Effect.resume_map _ e (.bind (.call (.resumption id h))) a) w
  rw [Action.bind_apply] at hresume
  unfold NodeConcludes
  cases he : e.resume (Callable.meaning s) a w
  all_goals rw [he] at hresume
  case failed | exhausted => exact hresume
  case value v u =>
    cases v
    case chain c =>
      cases c with
      | done x r =>
        have hu := (Reference.keeps_effectResume s e a).of_value hw he
        show Concludes _ ((e.node id h).resume (Callable.meaning s) a w)
        rw [Effect.node_resume_done he hu.1]
        exact Body.concludes _ _ _ u
      | suspended e' r => exact hresume
    all_goals exact hresume

/-! ### Failures and returns -/

/-- **Only a return finishes a program.**

Whatever functions were called, effects resumed and chains run before: when a program is called or
one of its nodes is resumed, what that comes to is told by the last slice of the body.

Whatever is asked for at any depth of the call of a program or of a resumption, if it fails, then so
does the call: as it does, unless it is a stop signal, which comes out as another failure.  Where
calls are made outside of bodies, when an effect is resumed or a chain is run, failures come out as
they are. -/
theorem only_returns_finish (s : Settings) :
    (∀ input, Kept s (.initial input)) ∧
    (∀ w, Kept s w →
      (∀ f args u, (Callable.meaning s f args w).world? = some u → Kept s u) ∧
      (∀ (e : Effect) a u, (e.resume (Callable.meaning s) a w).world? = some u → Kept s u) ∧
      (∀ c h u, (run s (Callable.meaning s) c h w).world? = some u → Kept s u) ∧
      (∀ f args, f.Executes → Concludes (f.course s args w) (Callable.meaning s f args w)) ∧
      ∀ (e : Effect) id h a, e.NodeConcludes s id h a w) ∧
    (∀ (p : Probe) (g : Failure) (z : World), p.query.action s p.world = .failed g z →
      ∀ (f : Callable) (depth : Nat) (args : List Value) (w : World), f.Executes →
        Callable.apply s depth f args w ≠ .exhausted → p.AskedAt s depth f args w →
        ∃ u, Callable.apply s depth f args w = .failed (Coroutine.outward g) u) ∧
    (∀ (call : Call) (f : Callable) (args : List Value) (u z : World) (g : Failure),
      call f args u = .failed g z →
      (∀ (e : Effect) (a : Value) (w : World),
        Probe.AskedBy ⟨.call f args, u⟩ call (e.resume · a) w →
          e.resume call a w = .failed g z) ∧
      ∀ (c : Chain) (h : Handler) (w : World),
        Probe.AskedBy ⟨.call f args, u⟩ call (run s · c h) w → run s call c h w = .failed g z) := by
  refine ⟨kept_initial s, fun w hw => ⟨fun f args u hu => ?_, fun e a u hu => ?_,
      fun c h u hu => ?_, fun f args hf => ?_, fun e id h a => Effect.nodeConcludes hw e id h a⟩,
    fun p g z hfails f depth args w hf hends hasks => hf.failed_of_asks hfails hends hasks,
    fun call f args u z g hfails => ⟨fun e a w hasks => Effect.resume_heeds hfails e a hasks,
      fun c h w hasks => run_heeds hfails s c h hasks⟩⟩
  · exact (Keeps.world (keeping_meaning s f args f.obeys_free fun a _ => a.obeys_free) hw hu).1
  · exact (Keeps.world (Reference.keeps_effectResume s e a) hw hu).1
  · have hrun : Keeps s (Value.Obeys .free) (run s (Callable.meaning s) c h) :=
      Discipline.run (D := keeping s) s (keeping_meaning s) c.obeys_free h.obeys_free
    exact (hrun.world hw hu).1
  · rw [Callable.meaning_seen hf hw]
    exact Body.concludes _ _ _ w

/-- What is exhausted wherever a call is, and is not exhausted itself, asks for the call. -/
theorem Probe.askedBy_of_exhausted {α : Type} {x : Call → Action α}
    (hx : ∀ call' : Call, call' f args u = .exhausted → x call' w = .exhausted)
    (hcall : x call w ≠ .exhausted) : Probe.AskedBy ⟨.call f args, u⟩ call x w :=
  ⟨.exhausted, (hx _ (if_pos ⟨rfl, rfl⟩)).trans_ne hcall.symm⟩

/-- An expression that raises a stop signal. -/
def raisingStop : Expr := .op (.data (.raise .stop)) [.literal (.text "")]

/-- A function that raises a stop signal. -/
def stopping (params : List String) : Callable := .closure 0 params raisingStop []

/-- A program that returns 1. -/
def returningOne : Callable := .program 0 ∅ [] (.resumable [.exit (.literal (.int 1))]) []

/-- A program that calls a program that raises a stop signal. -/
def stoppingInside : Callable :=
  .program 1 ∅ [] (.resumable [.exit (.op (.data .call) [.var "inner"])])
    [("inner", .function (.program 0 ∅ [] (.resumable [.exit raisingStop]) []))]

/-- Where the inner one of the two programs raises the signal. -/
def worldInside : World :=
  let enter (id : Nat) (body : List Stmt) (env : Env) (w : World) : World :=
    ((w.withCall body env).changeCall id (·.withFresh)).setPosition id 0 .running
  enter 1 [.exit raisingStop] [] (enter 0 [.exit (.op (.data .call) [.var "inner"])]
    [("inner", .function (.program 0 ∅ [] (.resumable [.exit raisingStop]) []))] (.initial ""))

/-- The signal that the inner one of the two programs raises. -/
def signalInside : Probe := ⟨.eval [] raisingStop, worldInside⟩

theorem askedAt_stoppingInside :
    signalInside.AskedAt ⟨false, 10⟩ 3 stoppingInside [] (.initial "") := by
  refine ⟨.exhausted, ?_⟩
  have hsignal : ∀ x, signalInside.instead (some .exhausted) (.eval [] raisingStop) x worldInside
      = .exhausted := fun x => if_pos ⟨rfl, rfl⟩
  -- Nothing else is changed on the way there.
  have hcall : ∀ f args x, signalInside.instead (some .exhausted) (.call f args) x = x :=
    fun f args x => funext fun w => if_neg fun h => by cases h.1
  have hop : ∀ env o args x, o ≠ .data (.raise .stop) →
      signalInside.instead (some .exhausted) (.eval env (.op o args)) x = x :=
    fun env o args x ho => funext fun w => if_neg fun h => by cases h.1; exact ho rfl
  have hvar : ∀ env name x, signalInside.instead (some .exhausted) (.eval env (.var name)) x = x :=
    fun env name x => funext fun w => if_neg fun h => by cases h.1
  generalize signalInside.instead (some .exhausted) = look at *
  suffices hexhausted : Probed.apply look ⟨false, 10⟩ 3 stoppingInside [] (.initial "")
      = .exhausted by
    rw [hexhausted]
    cbv
    simp
  show look (.call stoppingInside []) _ _ = _
  rw [hcall]
  cbv
  rw [hop _ _ _ _ (by simp)]
  cbv
  rw [hvar]
  cbv
  rw [hcall]
  cbv
  erw [hsignal]

/-- A node whose request is continued with a function that raises a stop signal. -/
def stoppingNode : Effect :=
  Effect.node ⟨.log .null, [.lift, .bind (.map (stopping ["x"]))]⟩ 0 0

/-- A handler of log entries whose step raises a stop signal. -/
def stoppingHandler : Handler :=
  .custom 0 ⟨"h", .collector, none, ∅, none, some (.function (stopping ["state", "effect"])),
    none, none⟩

/-- A program that returns, a stop signal inside a program, and stop signals of a stage and of a
handler, outside of programs. -/
theorem only_returns_finish_stopping :
    (∃ id exit h u, returningOne.course ⟨false, 10⟩ [] (.initial "")
      = .value (id, some (exit, h)) u ∧ exit.Returns (.int 1)) ∧
    (∃ u, Callable.apply ⟨false, 10⟩ 3 stoppingInside [] (.initial "")
      = .failed .stopInRoutine u) ∧
    (∃ u, stoppingNode.resume (Callable.apply ⟨false, 10⟩ 1) .null (.initial "")
      = .failed (.raised .stop (.text "")) u) ∧
    ∃ u, run ⟨false, 10⟩ (Callable.apply ⟨false, 10⟩ 1) (.suspended ⟨.log .null, []⟩ ∅)
      stoppingHandler (.initial "") = .failed (.raised .stop (.text "")) u := by
  obtain ⟨hinitial, hkept, hinside, houtside⟩ := only_returns_finish ⟨false, 10⟩
  refine ⟨?_, ?_, ?_, ?_⟩
  · have hone : ∃ u r, Callable.apply ⟨false, 10⟩ 2 returningOne [] (.initial "")
        = .value (.chain (.done (.int 1) r)) u := by
      apply Exists.intro
      apply Exists.intro
      cbv
    obtain ⟨u, r, hone⟩ := hone
    have hmeaning : Callable.meaning ⟨false, 10⟩ returningOne [] (.initial "")
        = .value (.chain (.done (.int 1) r)) u := by
      rw [Callable.meaning_of_apply (by rw [hone]; simp), hone]
    obtain ⟨-, -, -, hcalls, -⟩ := hkept (.initial "") (hinitial "")
    have hconcludes := hcalls returningOne [] (.program _ _ _ _ _)
    obtain ⟨id, exit, h, hcourse⟩ := (hconcludes.done (.int 1) u).mp ⟨r, hmeaning⟩
    exact ⟨id, exit, h, u, hcourse⟩
  · exact hinside signalInside (.raised .stop (.text "")) worldInside rfl stoppingInside 3 []
      (.initial "") (.program _ _ _ _ _) (by cbv; simp) askedAt_stoppingInside
  · have hstage := houtside (Callable.apply ⟨false, 10⟩ 1) (stopping ["x"]) [.null] (.initial "")
      (.initial "") _ (by cbv)
    refine ⟨_, hstage.1 _ _ _ (Probe.askedBy_of_exhausted (fun call' h => ?_) (by cbv; simp))⟩
    cbv
    erw [h]
  · have hstep := houtside (Callable.apply ⟨false, 10⟩ 1) (stopping ["state", "effect"])
      [.null, .effect ⟨.log .null, []⟩]
      { World.initial "" with
        events := [.noted .debug ("Run started with " ++ stoppingHandler.written)] } _ _ rfl
    refine ⟨_, hstep.2 _ _ _ (Probe.askedBy_of_exhausted (fun call' h => ?_) (by cbv; simp))⟩
    cbv
    erw [h]

end EffectHandlers
