/-
EffectHandlers/Proofs/Declared.lean

The pending effect is a declared requirement.

A suspended chain declares capabilities next to its effect, and nothing in
its type says that the capability of the effect is one of them.  It is for
the chains that the library makes: performing an effect declares its
capability, a bind stage leaves effect and declaration as they are, and
declaring more takes nothing away.

These are the only nodes of the regime `Regime.made`: a node of a chain is
performed, bound or declared, and no code puts one together by hand.  The
regime is kept by whatever is done (`abiding_meaning`), so it suffices to
look at the nodes.

Chains are explored: every node that was reached may be resumed with any
answer, in any order and more than once, a resumption may fail, and other
functions may be called in between (`Explored`).

Main result: `pending_declared`.  It follows that a run whose handler claims
the effects that it declares is refused before it starts or takes the first
effect.
-/
import EffectHandlers.Proofs.Abiding
import EffectHandlers.Proofs.Constructed
import EffectHandlers.Proofs.DirectProgram
import EffectHandlers.Proofs.Dispatch
import EffectHandlers.Proofs.Interleaving

namespace EffectHandlers

/-! ### Nodes that the library makes -/

/-- A pending effect with its declaration, as performing, binding and declaring make it. -/
inductive Effect.Made : Effect → CapabilitySet → Prop
  | perform (e : Effect) : Made (e.map .lift) (.single e.capability)
  | bind {e : Effect} {r : CapabilitySet} (b : Binder) (node : Made e r) :
      Made (e.map (.bind b)) r
  | declare {e : Effect} {r : CapabilitySet} (s : CapabilitySet) (node : Made e r) :
      Made e (r ∪ s)

namespace Effect.Made

variable {e : Effect} {r : CapabilitySet}

theorem declared (h : e.Made r) : e.capability ∈ r := by
  induction h with
  | perform e => exact CapabilitySet.mem_single.mpr rfl
  | bind b _ ih => exact ih
  | declare s _ ih => exact CapabilitySet.mem_union.mpr (.inl ih)

theorem endsInChain (h : e.Made r) : e.EndsInChain := by
  induction h with
  | perform e => exact .of_perform e
  | bind b _ ih => exact ih.map b
  | declare _ _ ih => exact ih

end Effect.Made

/-- The regime of values in which every pending node was performed, bound or declared. -/
def Regime.made : Regime where
  call _ := True
  node := Effect.Made
  op o := o ≠ .chain .suspended
  perform := .perform
  bind b h := h.bind b
  declare s h := h.declare s
  suspended h := absurd rfl h

theorem Regime.made_call (k : Nat) : Regime.made.call k := trivial

/-! ### Recipes -/

/-- Everything that a constructor is given keeps to a regime. -/
def Making.Obeys (R : Regime) : Making → Prop
  | .finished v => v.Obeys R
  | .perform e => e.Obeys R
  | .bind c f | .fmap c f => c.Obeys R ∧ f.Obeys R
  | .andThen c next => c.Obeys R ∧ next.Obeys R
  | .sequence cs => ∀ c ∈ cs, c.Obeys R
  | .declare c _ => c.Obeys R
  | .program _ _ _ body env args => body.Uses R.op ∧ Env.Obeys R env ∧ ∀ a ∈ args, a.Obeys R

/-- Everything that the constructors of a recipe are given keeps to a regime, if the chains do that
were made before. -/
def Recipe.Obeys (R : Regime) : Recipe → Prop
  | .done c => c.Obeys R
  | .make m next => m.Obeys R ∧ ∀ c, c.Obeys R → (next c).Obeys R

namespace Discipline

variable {ι : Type} {R : Regime} {D : Discipline ι R} {call : ι → Call}

theorem make (hcall : D.Calls call) {m : Making} (hm : m.Obeys R) :
    D.holds (Chain.Obeys R) fun i => m.make (call i) := by
  cases m with
  | finished v => exact D.ret (Chain.obeys_finished hm)
  | perform e => exact D.ret (Chain.obeys_perform hm)
  | bind c f => exact chainBind hcall hm.1 (b := .call f) hm.2 rfl
  | fmap c f => exact chainBind hcall hm.1 (b := .map f) hm.2 rfl
  | andThen c next => exact chainBind hcall hm.1 (b := .always next) hm.2 rfl
  | sequence cs => exact sequence hcall hm
  | declare c caps => exact D.ret (Chain.obeys_declare hm caps)
  | program id caps params body env args =>
    obtain ⟨hbody, henv, hargs⟩ := hm
    have hprogram : (Callable.program id caps params body env).Obeys R :=
      ⟨hbody, bindingsObey_iff.mpr henv⟩
    exact D.bind (hcall _ args hprogram hargs) fun v hv => ofValue "program" hv

/-- A recipe that keeps to a regime builds a chain that does. -/
theorem build (hcall : D.Calls call) {p : Recipe} (hp : p.Obeys R) :
    D.holds (Chain.Obeys R) fun i => p.build (call i) := by
  induction p with
  | done c => exact D.ret hp
  | make m next ih => exact D.bind (make hcall hp.1) fun c hc => ih c (hp.2 c hc)

end Discipline

/-! ### Exploring a chain -/

variable {s : Settings} {R : Regime} {c : Chain} {w w' : World} {vs : List Value}

/-- What was reached from a chain, latest first, and the world to which the exploration has led. -/
inductive Explored (s : Settings) (R : Regime) (c : Chain) (w : World) :
    List Value → World → Prop
  | begin : Explored s R c w [.chain c] w
  | resume {w₁ w₂ : World} {vs : List Value} {e : Effect} {r : CapabilitySet} {a v : Value}
      (before : Explored s R c w vs w₁) (node : .chain (.suspended e r) ∈ vs)
      (answer : a.Obeys R) (resumes : e.resume (Callable.meaning s) a w₁ = .value v w₂) :
      Explored s R c w (v :: vs) w₂
  | fail {w₁ w₂ : World} {vs : List Value} {e : Effect} {r : CapabilitySet} {a : Value}
      {f : Failure} (before : Explored s R c w vs w₁) (node : .chain (.suspended e r) ∈ vs)
      (answer : a.Obeys R) (fails : e.resume (Callable.meaning s) a w₁ = .failed f w₂) :
      Explored s R c w vs w₂
  | call {w₁ w₂ : World} {vs : List Value} {f : Callable} {args : List Value}
      (before : Explored s R c w vs w₁) (function : f.Obeys R) (arguments : ∀ a ∈ args, a.Obeys R)
      (calls : (Callable.meaning s f args w₁).world? = some w₂) : Explored s R c w vs w₂

/-- Everything that is reached keeps to the regime, and so does the world. -/
theorem Explored.obeys (hcall : ∀ k, R.call k) (hc : c.Obeys R) (hw : w.Obeys R)
    (h : Explored s R c w vs w') : (∀ v ∈ vs, v.Obeys R) ∧ w'.Obeys R := by
  have hcalls := abiding_meaning hcall s
  induction h with
  | begin =>
    refine ⟨fun v hv => ?_, hw⟩
    rw [List.mem_singleton.mp hv]
    exact hc
  | resume before node answer resumes ih =>
    obtain ⟨hvs, hw₁⟩ := ih
    have hresume := Discipline.resume hcalls (hvs _ node).2 answer
    obtain ⟨hv, hw₂⟩ := Abiding.of_value hresume hw₁ resumes
    exact ⟨List.forall_mem_cons.mpr ⟨hv, hvs⟩, hw₂⟩
  | fail before node answer fails ih =>
    obtain ⟨hvs, hw₁⟩ := ih
    have hresume := Discipline.resume hcalls (hvs _ node).2 answer
    exact ⟨hvs, hresume.fails _ hw₁ _ _ fails⟩
  | call before function arguments calls ih =>
    obtain ⟨hvs, hw₁⟩ := ih
    exact ⟨hvs, Abiding.of_world (hcalls _ _ function arguments) hw₁ calls⟩

/-! ### The first effect of a run -/

namespace Handler

/-- A handler that takes every effect whose capability it declares, if it does not fail. -/
def ClaimsDeclared (call : Call) (h : Handler) : Prop :=
  ∀ (e : Effect) (state v : Value) (w w' : World), e.capability ∈ h.capabilities →
    h.offer call state e w = .value v w' → v.isHandled = true

/-- The handler is started, is offered the effect that a chain waits for, and does not take it. -/
def DeclinesFirst (call : Call) (h : Handler) (c : Chain) (w : World) : Prop :=
  ∃ e r state w₁ v w₂, c = .suspended e r ∧ openRun call h w = .value state w₁ ∧
    h.offer call state e w₁ = .value v w₂ ∧ v.isHandled = false

end Handler

/-- What a drive does after the answer to the offer of its first effect. -/
def afterFirst (s : Settings) (call : Call) (h : Handler) (fuel : Nat) (e : Effect) :
    Value → Action Drive
  | .handled state next =>
    s.noteStep 1 e >>= fun _ => drive s (h.offer call) fuel 1 state next
  | _ => failUnhandled 0 e

/-- The run of a pending chain that is provided for: the handler is started and offered the effect,
and what it answers decides. -/
theorem run_pending (call : Call) (h : Handler) (e : Effect) {r : CapabilitySet} {fuel : Nat}
    (hfuel : s.maxSteps = fuel + 1) (hprovided : ∀ a, a ∈ r → a ∈ h.capabilities) :
    run s call (.suspended e r) h = openRun call h >>= fun state =>
      h.offer call state e >>= fun v => afterFirst s call h fuel e v >>= closeRun call h := by
  have hcheck : checkProvided (.suspended e r) h = pure () := checkProvided_of_subset hprovided
  rw [run, runBy, hcheck, pure_bind, hfuel]
  refine congrArg (openRun call h >>= ·) (funext fun state => ?_)
  rw [drive_suspended, bind_assoc]
  refine congrArg (h.offer call state e >>= ·) (funext fun v => ?_)
  cases v <;> rfl

/-- A run in which the first effect is not taken fails because of that effect, before any step. -/
theorem run_of_declinesFirst {call : Call} {h : Handler} (hsteps : 0 < s.maxSteps)
    (hprovided : ∀ a, a ∈ c.requires → a ∈ h.capabilities) (hfirst : h.DeclinesFirst call c w) :
    ∃ e r w₂, c = .suspended e r ∧ run s call c h w = (failUnhandled 0 e : Action Value) w₂ := by
  obtain ⟨e, r, state, w₁, v, w₂, rfl, hopen, hoffer, hv⟩ := hfirst
  have hrun := run_pending call h e (r := r) (Nat.succ_pred_eq_of_pos hsteps).symm hprovided
  refine ⟨e, r, w₂, rfl, ?_⟩
  rw [hrun, Action.bind_of_value hopen, Action.bind_of_value hoffer]
  cases v with
  | handled => cases hv
  | _ => exact congrFun (failUnhandled_bind 0 e _) w₂

/-- Nothing of a handler is asked for if it does not provide what the chain declares. -/
theorem run_of_missing {call : Call} {h : Handler} {a : Capability} (ha : a ∈ c.requires)
    (hmissing : ¬ a ∈ h.capabilities) :
    checkProvided c h = Action.fail (.refused (.missingCapability (c.requires \ h.capabilities))) ∧
    run s call c h = Action.fail (.refused (.missingCapability (c.requires \ h.capabilities))) := by
  have hcheck := checkProvided_of_missing ha hmissing
  refine ⟨hcheck, ?_⟩
  rw [run, runBy, hcheck, Action.fail_bind]

/-- **The pending effect is a declared requirement**, in every chain that is built with the
constructors of the library out of what was built so, and in every chain that is reached from it.
So a run of such a chain against a handler that claims what it declares is refused before the
handler is started, or else the first effect is not declined; where it is declined, a run that is
not refused fails because nobody handles it. -/
theorem pending_declared {p : Recipe} {w₀ : World} (hp : p.Obeys .made) (hw : w.Obeys .made)
    (hbuild : p.build (Callable.meaning s) w = .value c w₀)
    (hexplored : Explored s .made c w₀ vs w') :
    (∀ e r, .chain (.suspended e r) ∈ vs → e.capability ∈ r) ∧
    (∀ d, .chain d ∈ vs → ∀ (call : Call) (h : Handler), h.ClaimsDeclared call →
      checkProvided d h
          = Action.fail (.refused (.missingCapability (d.requires \ h.capabilities))) ∧
        run s call d h
          = Action.fail (.refused (.missingCapability (d.requires \ h.capabilities))) ∨
      ∀ w'', ¬ h.DeclinesFirst call d w'') ∧
    ∀ (d : Chain) (call : Call) (h : Handler) (w'' : World), 0 < s.maxSteps →
      (∀ a, a ∈ d.requires → a ∈ h.capabilities) → h.DeclinesFirst call d w'' →
      ∃ e r u, d = .suspended e r ∧ run s call d h w'' = (failUnhandled 0 e : Action Value) u := by
  have hcalls := abiding_meaning Regime.made_call s
  obtain ⟨hc, hw₀⟩ := Abiding.of_value (Discipline.build hcalls hp) hw hbuild
  obtain ⟨hvs, -⟩ := hexplored.obeys Regime.made_call hc hw₀
  have hdeclared (e : Effect) (r : CapabilitySet) (he : .chain (.suspended e r) ∈ vs) :
      e.capability ∈ r := by
    have hobeys : (Chain.suspended e r).Obeys .made := hvs _ he
    exact Effect.Made.declared hobeys.1
  refine ⟨hdeclared, fun d hd call h hclaims => ?_,
    fun d call h w'' hsteps => run_of_declinesFirst hsteps⟩
  by_cases hprovided : ∀ a, a ∈ d.requires → a ∈ h.capabilities
  · refine .inr ?_
    rintro w'' ⟨e, r, state, w₁, v, w₂, rfl, -, hoffer, hv⟩
    have htakes := hclaims e state v w₁ w₂ (hprovided _ (hdeclared e r hd)) hoffer
    rw [hv] at htakes
    cases htakes
  · rw [not_forall] at hprovided
    obtain ⟨a, ha⟩ := hprovided
    obtain ⟨ha, hmissing⟩ := Classical.not_imp.mp ha
    exact .inl (run_of_missing ha hmissing)

/-- A handler of every request that answers with one, and declares some capabilities. -/
def answerOne (caps : CapabilitySet) : Handler := .custom 0
  { name := "AnswerOne", base := .simple, kind := some .any, capabilities := caps
    start := some (.function (.closure 0 [] (.literal .null) []))
    step := some (.function (.closure 0 ["state", "effect"] (.op (.data .tuple)
      [.var "state", .op (.effect .resume) [.var "effect", .literal (.int 1)]]) []))
    offer := none
    finish := some (.function (.closure 0 ["state"] (.var "state") [])) }

theorem answerOne_claimsDeclared (call : Call) (caps : CapabilitySet) :
    (answerOne caps).ClaimsDeclared call := by
  intro e state v w w' _ hv
  have hkind : e.request.isA .any = true := by simp [Request.isA, Kind.isCoveredBy]
  have hoffer : (answerOne caps).offer call state e
      = Handler.whenKind .any e (Handler.customStep call _ state e) := rfl
  rw [hoffer, Handler.whenKind, if_pos hkind] at hv
  obtain ⟨p, w₁, -, hv⟩ := Action.bind_eq_value.mp hv
  obtain ⟨rfl, -⟩ := Action.pure_eq_value.mp hv
  rfl

/-- The recipe keeps to every regime that admits what code may use but suspending by hand. -/
theorem recountRecipe_obeys_of {R : Regime} (hop : ∀ o, o ≠ .chain .suspended → R.op o) :
    recountRecipe.Obeys R := by
  have hbody : (Routine.resumable recount).Uses R.op := by
    simp [recount, tickAfter, hop]
  exact ⟨⟨hbody, by simp [Env.Obeys], by simp⟩, fun c hc => hc⟩

theorem recountRecipe_obeys : recountRecipe.Obeys .made := recountRecipe_obeys_of fun _ h => h

/-- The program of the recipe is called and answered once. -/
theorem explored_recount (R : Regime) : ∃ (c d : Chain) (w₀ w' : World),
    recountRecipe.build (Callable.meaning ⟨false, 10⟩) (.initial "") = .value c w₀ ∧
    Explored ⟨false, 10⟩ R c w₀ [.chain d, .chain c] w' := by
  obtain ⟨e, r, d, w, w', hbuild, hresume⟩ := recountRecipe_answered ⟨false, 10⟩ 7
  exact ⟨_, d, w, w', hbuild, .resume .begin List.mem_cons_self (a := .int 7) trivial hresume⟩

/-- A program that makes two requests is called and answered once, and each of the two chains run
against a handler that claims everything but declares the counter only. -/
theorem pending_declared_recount : ∃ (c d : Chain) (w₀ w' : World),
    recountRecipe.Obeys .made ∧ (World.initial "").Obeys .made ∧
    recountRecipe.build (Callable.meaning ⟨false, 10⟩) (.initial "") = .value c w₀ ∧
    Explored ⟨false, 10⟩ .made c w₀ [.chain d, .chain c] w' ∧
    (answerOne (.single ⟨"counter"⟩)).ClaimsDeclared (Callable.meaning ⟨false, 10⟩) ∧
    (∀ e r, .chain (.suspended e r) ∈ [Value.chain d, .chain c] → e.capability ∈ r) ∧
    ∀ x ∈ [c, d],
      checkProvided x (answerOne (.single ⟨"counter"⟩))
          = Action.fail (.refused (.missingCapability (x.requires \ .single ⟨"counter"⟩))) ∧
        run ⟨false, 10⟩ (Callable.meaning ⟨false, 10⟩) x (answerOne (.single ⟨"counter"⟩))
          = Action.fail (.refused (.missingCapability (x.requires \ .single ⟨"counter"⟩))) ∨
      ¬ (answerOne (.single ⟨"counter"⟩)).DeclinesFirst (Callable.meaning ⟨false, 10⟩) x w' := by
  obtain ⟨c, d, w, w', hbuild, hexplored⟩ := explored_recount .made
  have hinitial := World.obeys_initial .made ""
  have hclaims := answerOne_claimsDeclared (Callable.meaning ⟨false, 10⟩) (.single ⟨"counter"⟩)
  obtain ⟨hdeclared, hruns, -⟩ := pending_declared recountRecipe_obeys hinitial hbuild hexplored
  refine ⟨c, d, w, w', recountRecipe_obeys, hinitial, hbuild, hexplored, hclaims, hdeclared, ?_⟩
  intro x hx
  have hmem : .chain x ∈ [Value.chain d, .chain c] := by
    rcases List.mem_cons.mp hx with rfl | hx
    · simp
    · simp [List.mem_singleton.mp hx]
  exact (hruns x hmem _ _ hclaims).imp id fun h => h _

end EffectHandlers
