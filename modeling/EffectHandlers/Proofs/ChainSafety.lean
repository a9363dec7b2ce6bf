/-
EffectHandlers/Proofs/ChainSafety.lean

Chains never go wrong on their shape.

A program that makes chains with the constructors of the library only, and
extends effects with `map` only, keeps to the regime `Regime.orderly`: every
pending node has a pipeline that lifts the answer and then only continues
it, and the stages of every pipeline fit, also of an effect that was taken
out of a chain and extended or performed a second time.

The regime is an invariant of whatever is done (`abiding_meaning`), as typing
is of reduction.  What it is good for is said without it, of a single
pipeline (`Effect.EndsInChain.resume`, `stagesFit.failed`): resuming a node
gives a chain, or fails because a function of the program failed or gave
something else than a chain to a binder.

Main results: a drive against handlers of the library only ever meets chains
(`Advances.meets_chain`), and `chains_stay_in_shape`, of a chain that is
built, explored and run in any way.
-/
import EffectHandlers.Proofs.Declared
import EffectHandlers.Proofs.Protocol

namespace EffectHandlers

/-! ### The regime -/

theorem Effect.EndsInChain.last {e : Effect} (h : e.EndsInChain) :
    ∃ t ∈ e.pipeline.getLast?, t.givesChain = true := by
  obtain ⟨before, binds, he, hbinds⟩ := h
  rcases List.eq_nil_or_concat binds with rfl | ⟨front, t, rfl⟩
  · exact ⟨.lift, by simp [he], rfl⟩
  · refine ⟨t, by simp [he, List.getLast?_cons], ?_⟩
    have ht : t.isBind = true := hbinds t (by simp)
    cases t with
    | bind b => rfl
    | call | lift => cases ht

/-- The regime of values in which every suspended chain was made by the library, and the stages
of every pipeline fit. -/
def Regime.orderly : Regime :=
  { Regime.constructed fun _ => True with
    ordered := True
    ends := fun _ _ _ h => h.last }

theorem Regime.orderly_call (k : Nat) : Regime.orderly.call k := trivial

/-- A chain that is finished, or waits with a pipeline that lifts the answer to a chain and then
continues that chain. -/
def Chain.WellShaped (c : Chain) : Prop := ∀ e r, c = .suspended e r → e.EndsInChain

theorem Chain.Obeys.wellShaped {c : Chain} (hc : c.Obeys .orderly) : c.WellShaped := by
  rintro e r rfl
  exact hc.1

/-! ### Resuming a node -/

section

variable {s : Settings} {w w' : World} {e : Effect} {r : CapabilitySet} {a : Value}

/-- What resuming a node comes to: a chain of the same shape, or the failure of a function that
its pipeline holds, or of the check that such a function gave a chain. -/
def Effect.Resumes (call : Call) (e : Effect) : Outcome Value → Prop
  | .value v _ => ∃ d, v = .chain d ∧ d.WellShaped
  | .failed f w => CallFails call (e.pipeline.flatMap Stage.functions) f w ∨
      ∃ found, f = .notChainResult "binder" found
  | .exhausted => True

/-- Resuming a node gives a chain that keeps to the regime. -/
theorem resume_gives_chain (hnode : (Chain.suspended e r).Obeys .orderly) (ha : a.Obeys .orderly)
    (hw : w.Obeys .orderly) {v : Value} (h : e.resume (Callable.meaning s) a w = .value v w') :
    ∃ d : Chain, v = .chain d ∧ d.Obeys .orderly ∧ w'.Obeys .orderly := by
  have hresume := Discipline.resume (abiding_meaning Regime.orderly_call s) hnode.2 ha
  obtain ⟨hv, hw'⟩ := Abiding.of_value hresume hw h
  obtain ⟨d, rfl⟩ := Effect.EndsInChain.resume hnode.1 h
  exact ⟨d, rfl, hv, hw'⟩

/-- An effect whose stages fit is resumed without a failure of its own. -/
theorem resume_failed {call : Call} (he : e.Obeys .orderly) {f : Failure}
    (h : e.resume call a w = .failed f w') :
    CallFails call (e.pipeline.flatMap Stage.functions) f w' ∨
      ∃ found, f = .notChainResult "binder" found := by
  rw [Effect.resume, resumeFrom_eq_applyStages] at h
  exact (Effect.fit_pipeline he trivial).failed (by simp) h

theorem resumes_of_obeys (hnode : (Chain.suspended e r).Obeys .orderly) (ha : a.Obeys .orderly)
    (hw : w.Obeys .orderly) :
    e.Resumes (Callable.meaning s) (e.resume (Callable.meaning s) a w) := by
  cases h : e.resume (Callable.meaning s) a w with
  | value v w' =>
    obtain ⟨d, rfl, hd, -⟩ := resume_gives_chain hnode ha hw h
    exact ⟨d, rfl, hd.wellShaped⟩
  | failed f w' => exact resume_failed hnode.2 h
  | exhausted => trivial

end

/-! ### Handlers of the library -/

/-- A handler that the library comes with, or a combination of such handlers. -/
inductive Handler.Assembled : Handler → Prop
  | shipped {h : Handler} (leaf : h.Shipped) : Assembled h
  | pair (id : Nat) {first second : Handler} (left : Assembled first)
    (right : Assembled second) : Assembled (.pair id first second)

theorem Handler.Assembled.tailResumptive {call : Call} {h : Handler} (hh : h.Assembled) :
    TailResumptive call (h.offer call) := by
  induction hh with
  | shipped leaf => exact leaf.tailResumptive
  | pair id _ _ ih ih' => exact tailResumptive_pair id ih ih'

theorem Handler.Assembled.combine {hs : List Handler} (h : ∀ x ∈ hs, x.Assembled) {w w' : World}
    {c : Handler} (hc : Handler.combine hs w = .value c w') : c.Assembled :=
  combine_elim (fun id _ _ hfirst hsecond => .pair id hfirst hsecond) h hc

/-! ### Driving a chain -/

/-- Everything where a drive stands keeps to the regime, and the next value is a chain. -/
structure Standing.Safe (p : Standing) : Prop where
  chain : ∃ d : Chain, p.next = .chain d ∧ d.Obeys .orderly
  state : p.state.Obeys .orderly
  world : p.world.Obeys .orderly

section

variable {s : Settings} {h : Handler} {p q : Standing} {xs : List Exchange} {w : World}

theorem World.Obeys.noted {R : Regime} (hw : w.Obeys R) (severity : Severity) (text : String) :
    (w.noted severity text).Obeys R := { hw with }

theorem World.Obeys.recorded {R : Regime} (hw : w.Obeys R) {step : Nat} {e : Effect} {u : World}
    (h : s.recorded step e w = .ok u) : u.Obeys R := by
  obtain ⟨-, rfl⟩ | ⟨-, text, -, rfl⟩ := Settings.recorded_eq_ok.mp h
  · exact hw
  · exact hw.noted _ _

/-- An effect that is handled is answered, and then it is resumed to a chain. -/
theorem offer_safe (htail : TailResumptive (Callable.meaning s) (h.offer (Callable.meaning s)))
    (hh : h.Obeys .orderly) {state state' next : Value} (hs : state.Obeys .orderly) {e : Effect}
    {r : CapabilitySet} (hnode : (Chain.suspended e r).Obeys .orderly) (hw : w.Obeys .orderly)
    {w' : World}
    (handled : h.offer (Callable.meaning s) state e w = .value (.handled state' next) w') :
    ∃ d : Chain, next = .chain d ∧ d.Obeys .orderly ∧ state'.Obeys .orderly ∧
      w'.Obeys .orderly := by
  have hbare : (Effect.of e.request).Obeys .orderly :=
    Effect.obeys_of (Effect.obeys_request hnode.2)
  rw [htail state e] at handled
  obtain ⟨v, w₁, hv, hgoOn⟩ := Action.bind_eq_value.mp handled
  obtain ⟨hobeys, hw₁⟩ := Abiding.of_value
    (Discipline.offer (abiding_meaning Regime.orderly_call s) h hh hs hbare) hw hv
  cases v with
  | handled state₁ answer =>
    obtain ⟨u, w₂, hu, hpure⟩ := Action.bind_eq_value.mp hgoOn
    obtain ⟨heq, rfl⟩ := Action.pure_eq_value.mp hpure
    cases heq
    obtain ⟨d, rfl, hd, hw₂⟩ := resume_gives_chain hnode hobeys.2 hw₁ hu
    exact ⟨d, rfl, hd, hobeys.1, hw₂⟩
  | _ => cases hgoOn

/-- **A drive only ever meets chains**, if the handler answers and resumes, as those of the library
do. -/
theorem Advances.meets_chain
    (htail : TailResumptive (Callable.meaning s) (h.offer (Callable.meaning s)))
    (hh : h.Obeys .orderly) (hsteps : Advances s (h.offer (Callable.meaning s)) p xs q)
    (hp : p.Safe) : q.Safe ∧
      ∀ x ∈ xs, ∀ c state next, x.carried c = some (state, next) → ∃ d, next = .chain d := by
  induction hsteps with
  | nil p => exact ⟨hp, List.forall_mem_nil _⟩
  | @cons n state state' next e r w w' u xs q within handled recorded rest ih =>
    obtain ⟨_, hc, hnode⟩ := hp.chain
    cases hc
    obtain ⟨d, rfl, hd, hstate, hw⟩ := offer_safe htail hh hp.state hnode hp.world handled
    obtain ⟨hq, hxs⟩ := ih ⟨⟨d, rfl, hd⟩, hstate, hw.recorded recorded⟩
    refine ⟨hq, List.forall_mem_cons.mpr ⟨fun c v u hcarried => ?_, hxs⟩⟩
    cases hcarried
    exact ⟨d, rfl⟩

/-- Where a drive stops, it meets nothing but chains either. -/
theorem Halts.meets_chain
    (htail : TailResumptive (Callable.meaning s) (h.offer (Callable.meaning s)))
    (hh : h.Obeys .orderly) {ys : List Exchange} {o : Outcome Drive}
    (hhalt : Halts s (h.offer (Callable.meaning s)) p ys o) (hp : p.Safe) :
    ∀ y ∈ ys, ∀ c state next, y.carried c = some (state, next) → ∃ d, next = .chain d := by
  have hnothing {y : Exchange} (hy : ∀ c, y.carried c = none) :
      ∀ z ∈ [y], ∀ c state next, z.carried c = some (state, next) → ∃ d, next = .chain d := by
    refine List.forall_mem_singleton.mpr fun c state next hcarried => ?_
    rw [hy c] at hcarried
    cases hcarried
  cases hhalt with
  | finished | notChain | spent => exact List.forall_mem_nil _
  | declined within answer hv | unreported within answer hv =>
    exact hnothing fun c => Exchange.carried_of_declined hv
  | unrecorded within handled recorded =>
    obtain ⟨_, hc, hnode⟩ := hp.chain
    cases hc
    obtain ⟨d, rfl, -⟩ := offer_safe htail hh hp.state hnode hp.world handled
    refine List.forall_mem_singleton.mpr fun c state next hcarried => ?_
    cases hcarried
    exact ⟨d, rfl⟩
  | lost within answer => exact hnothing fun c => Exchange.carried_of_lost answer

/-- Where a handler has started, everything keeps to the regime. -/
theorem safe_of_start (hh : h.Obeys .orderly) {c : Chain} (hc : c.Obeys .orderly)
    (hw : w.Obeys .orderly) {state : Value} {u : World}
    (hstart : h.start (Callable.meaning s) w = .value state u) :
    Standing.Safe ⟨0, state, .chain c, h.opened u⟩ := by
  obtain ⟨hstate, hu⟩ := Abiding.of_value
    (Discipline.start (abiding_meaning Regime.orderly_call s) h hh) hw hstart
  exact ⟨⟨c, rfl, hc⟩, hstate, hu.noted _ _⟩

/-- No answer in a dialogue carries anything but a chain. -/
theorem Dialogue.meets_chain
    (htail : TailResumptive (Callable.meaning s) (h.offer (Callable.meaning s)))
    (hh : h.Obeys .orderly) {c : Chain} (hc : c.Obeys .orderly) (hw : w.Obeys .orderly)
    {t : List Exchange} {o : Outcome Value} (hd : Dialogue s (Callable.meaning s) c h w t o) :
    ∀ x ∈ t, ∀ state next, x.carried c = some (state, next) → ∃ d, next = .chain d := by
  have hnothing {x : Exchange} (hx : x.carried c = none) :
      ∀ state next, x.carried c = some (state, next) → ∃ d, next = .chain d := by
    rw [hx]
    exact nofun
  have hbegun {state : Value} {u : World} :
      ∀ v next, Exchange.carried c ⟨.start, w, .value state u⟩ = some (v, next) →
        ∃ d, next = .chain d := by
    rintro v next ⟨⟩
    exact ⟨c, rfl⟩
  cases hd with
  | refused => exact List.forall_mem_nil _
  | notStarted provided start =>
    exact List.forall_mem_singleton.mpr (hnothing (Exchange.carried_of_lost start))
  | halted provided start steps halt lost =>
    obtain ⟨hp, hxs⟩ := steps.meets_chain htail hh (safe_of_start hh hc hw start)
    exact List.forall_mem_cons.mpr ⟨hbegun, List.forall_mem_append.mpr
      ⟨fun x hx => hxs x hx c, fun y hy => halt.meets_chain htail hh hp y hy c⟩⟩
  | finished provided start steps halt finish =>
    have hxs := (steps.meets_chain htail hh (safe_of_start hh hc hw start)).2
    exact List.forall_mem_cons.mpr ⟨hbegun, List.forall_mem_append.mpr ⟨fun x hx => hxs x hx c,
      List.forall_mem_singleton.mpr (hnothing Exchange.carried_of_finish)⟩⟩

end

/-! ### The theorem -/

/-- **Chains stay in shape.**  Let a chain be built with the constructors of the library out of
what was built so, and explored in any way.  Every pending node that is reached lifts its answer to
a chain and continues that chain; resuming it gives such a node or a finished chain, or fails
because of a function of the program; resuming a routine is calling one.  No bind stage, of any
effect whatever, is applied to something that is not a chain.  And in a run against any combination
of handlers of the library, no answer carries anything but a chain, so the driver never stops
because of one. -/
theorem chains_stay_in_shape {s : Settings} {p : Recipe} {c : Chain} {w w₀ w' : World}
    {vs : List Value} (hp : p.Obeys .orderly) (hw : w.Obeys .orderly)
    (hbuild : p.build (Callable.meaning s) w = .value c w₀)
    (hexplored : Explored s .orderly c w₀ vs w') :
    (∀ v ∈ vs, v.Obeys .orderly) ∧ w'.Obeys .orderly ∧
    (∀ e r, .chain (.suspended e r) ∈ vs → e.EndsInChain ∧
      ∀ a, a.Obeys .orderly → e.Resumes (Callable.meaning s) (e.resume (Callable.meaning s) a w')) ∧
    (∀ e : Effect, e.Obeys .orderly → ∀ (before after : List Stage) (b : Binder),
      e.pipeline = before ++ .bind b :: after → ∀ call a v u u',
        applyStages call a before u = .value v u' → ∃ d, v = .chain d) ∧
    ∀ d, .chain d ∈ vs → ∀ h : Handler, h.Assembled → h.Obeys .orderly →
      ∀ u : World, u.Obeys .orderly → ∀ t o, Dialogue s (Callable.meaning s) d h u t o →
        ∀ x ∈ t, ∀ state next, x.carried d = some (state, next) → ∃ d', next = .chain d' := by
  have hcalls := abiding_meaning Regime.orderly_call s
  obtain ⟨hc, hw₀⟩ := Abiding.of_value (Discipline.build hcalls hp) hw hbuild
  obtain ⟨hvs, hw'⟩ := hexplored.obeys Regime.orderly_call hc hw₀
  refine ⟨hvs, hw', fun e r hnode => ?_, fun e he before after b hsplit call a v u u' hv => ?_,
    fun d hd h hassembled hh u hu t o hdialogue => ?_⟩
  · have hobeys : (Chain.suspended e r).Obeys .orderly := hvs _ hnode
    exact ⟨hobeys.1, fun a ha => resumes_of_obeys hobeys ha hw'⟩
  · have hfit : stagesFit none (before ++ .bind b :: after) :=
      hsplit ▸ Effect.fit_pipeline he trivial
    exact hfit.chain_of_bind hv
  · exact hdialogue.meets_chain hassembled.tailResumptive hh (hvs _ hd) hu

/-- A program that makes two requests is called and answered once, and what it then waits for is run
against a counter. -/
theorem chains_stay_in_shape_recount : ∃ (c d : Chain) (w₀ w' : World),
    recountRecipe.Obeys .orderly ∧ (World.initial "").Obeys .orderly ∧
    recountRecipe.build (Callable.meaning ⟨false, 10⟩) (.initial "") = .value c w₀ ∧
    Explored ⟨false, 10⟩ .orderly c w₀ [.chain d, .chain c] w' ∧
    (∀ e r, .chain (.suspended e r) ∈ [Value.chain d, .chain c] → e.EndsInChain ∧
      ∀ a, a.Obeys .orderly → e.Resumes (Callable.meaning ⟨false, 10⟩)
        (e.resume (Callable.meaning ⟨false, 10⟩) a w')) ∧
    ∀ t o, Dialogue ⟨false, 10⟩ (Callable.meaning ⟨false, 10⟩) d (.counter 0) w' t o →
      ∀ x ∈ t, ∀ state next, x.carried d = some (state, next) → ∃ d', next = .chain d' := by
  obtain ⟨c, d, w, w', hbuild, hexplored⟩ := explored_recount .orderly
  have hobeys : recountRecipe.Obeys .orderly := recountRecipe_obeys_of fun _ h => h
  have hinitial := World.obeys_initial .orderly ""
  obtain ⟨-, hw', hnodes, -, hruns⟩ := chains_stay_in_shape hobeys hinitial hbuild hexplored
  exact ⟨c, d, w, w', hobeys, hinitial, hbuild, hexplored, hnodes,
    hruns d List.mem_cons_self (.counter 0) (.shipped (.counter 0)) trivial w' hw'⟩

end EffectHandlers
