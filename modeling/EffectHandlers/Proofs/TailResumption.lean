/-
EffectHandlers/Proofs/TailResumption.lean

Handlers that answer and go on.

A handler may do anything with the effect that it is offered: resume it
twice, keep it, or drop it.  A tail-resumptive handler does the simplest
thing.  From its own state and the request it computes a new state and one
answer, and it goes on with the effect resumed with that answer.

An effect without stages is resumed to the answer itself.  So what the
handler computes is what it does with the bare request, and nothing else has
to be said: the definition compares the offer of an effect with the offer of
its request.

Main results: the handlers of the library are tail-resumptive, and so are
pairs and combinations of tail-resumptive handlers
(`Handler.Shipped.tailResumptive`, `Handler.tailResumptive_combine`).
-/
import EffectHandlers.Proofs.Resumption
import EffectHandlers.Handler.Nest
import EffectHandlers.Run

namespace EffectHandlers

@[simp] theorem Effect.request_of (r : Request) : (Effect.of r).request = r := rfl

/-- Resume an effect with the answer that its bare request was handled with. -/
def Effect.goOn (call : Call) (e : Effect) : Value → Action Value
  | .handled state answer => do return .handled state (← e.resume call answer)
  | other => pure other

/-- An effect that is offered is handled as its bare request is, and then resumed with the
answer. -/
def TailResumptive (call : Call) (offer : Offer) : Prop :=
  ∀ state e, offer state e = offer state (.of e.request) >>= e.goOn call

/-- A step on an effect is a step on the bare request, followed by the resumption with the
answer. -/
def Effect.StepsAs (call : Call) (e : Effect) (x bare : Action (Value × Value)) : Prop :=
  x = bare >>= fun p => e.resume call p.2 >>= fun next => pure (p.1, next)

namespace Handler

variable {call : Call} {e : Effect}

/-! ### Steps -/

theorem stepsAs_bind {α : Type} (x : Action α) {f g : α → Action (Value × Value)}
    (h : ∀ a, e.StepsAs call (f a) (g a)) : e.StepsAs call (x >>= f) (x >>= g) := by
  unfold Effect.StepsAs
  rw [bind_assoc]
  exact congrArg (x >>= ·) (funext h)

theorem stepsAs_fail (f : Failure) : e.StepsAs call (Action.fail f) (Action.fail f) := rfl

/-- The end of every step of the library. -/
theorem stepsAs_resume (state answer : Value) :
    e.StepsAs call (e.resume call answer >>= fun next => pure (state, next))
      ((Effect.of e.request).resume call answer >>= fun next => pure (state, next)) := by
  unfold Effect.StepsAs
  rw [Effect.resume_of, pure_bind, pure_bind]

theorem stepsAs_collectorStep (log : Value) :
    e.StepsAs call (collectorStep call log e) (collectorStep call log (.of e.request)) :=
  stepsAs_bind _ fun _ => stepsAs_resume _ _

theorem stepsAs_emitterStep (level component count : Value) :
    e.StepsAs call (emitterStep call level component count e)
      (emitterStep call level component count (.of e.request)) :=
  stepsAs_bind _ fun _ => stepsAs_bind _ fun _ => stepsAs_bind _ fun _ =>
    stepsAs_bind _ fun _ => stepsAs_bind _ fun _ => stepsAs_resume _ _

theorem stepsAs_transcriptStep (given : Nat) (console : Value) :
    e.StepsAs call (transcriptStep call given console e)
      (transcriptStep call given console (.of e.request)) := by
  refine stepsAs_bind _ fun p => ?_
  obtain ⟨r, ss⟩ := e
  cases r
  case writeLine line => exact stepsAs_bind _ fun _ => stepsAs_resume (e := ⟨_, ss⟩) _ _
  case readLine =>
    refine stepsAs_bind _ fun next => ?_
    rcases next with _ | ⟨line, rest⟩
    · exact stepsAs_fail _
    · exact stepsAs_resume (e := ⟨_, ss⟩) _ _
  all_goals exact stepsAs_fail _

theorem stepsAs_streamStep (source : Nat) (count : Value) :
    e.StepsAs call (streamStep call source count e)
      (streamStep call source count (.of e.request)) := by
  obtain ⟨r, ss⟩ := e
  cases r
  case writeLine line =>
    exact stepsAs_bind _ fun _ => stepsAs_bind _ fun _ => stepsAs_bind _ fun _ =>
      stepsAs_bind _ fun _ => stepsAs_resume (e := ⟨_, ss⟩) _ _
  case readLine =>
    refine stepsAs_bind _ fun line => ?_
    cases line.isEmpty
    case false => exact stepsAs_resume (e := ⟨_, ss⟩) _ _
    case true => exact stepsAs_fail _
  all_goals exact stepsAs_fail _

theorem stepsAs_storeStep (state : Value) :
    e.StepsAs call (storeStep call state e) (storeStep call state (.of e.request)) := by
  obtain ⟨r, ss⟩ := e
  cases r
  case get | put => exact stepsAs_bind _ fun _ => stepsAs_resume (e := ⟨_, ss⟩) _ _
  case modify =>
    exact stepsAs_bind _ fun _ => stepsAs_bind _ fun _ => stepsAs_bind _ fun _ =>
      stepsAs_resume (e := ⟨_, ss⟩) _ _
  all_goals exact stepsAs_fail _

theorem stepsAs_counterStep (total : Value) :
    e.StepsAs call (counterStep call total e) (counterStep call total (.of e.request)) :=
  stepsAs_bind _ fun _ => stepsAs_bind _ fun _ => stepsAs_resume _ _

/-! ### Offers -/

/-- A handler for one kind of request is tail-resumptive if its steps are. -/
theorem tailResumptive_whenKind {kind : Kind} {step : Value → Effect → Action (Value × Value)}
    (h : ∀ state e, Effect.StepsAs call e (step state e) (step state (.of e.request))) :
    TailResumptive call fun state e => whenKind kind e (step state e) := by
  intro state e
  show whenKind kind e (step state e)
    = whenKind kind (.of e.request) (step state (.of e.request)) >>= e.goOn call
  unfold whenKind
  rw [Effect.request_of]
  split
  · rw [h state e, bind_assoc, bind_assoc]
    refine congrArg (step state (.of e.request) >>= ·) (funext fun p => ?_)
    rw [bind_assoc]
    rfl
  · rfl

/-- A handler that the library comes with. -/
inductive Shipped : Handler → Prop
  | collector (id : Nat) : Shipped (.collector id)
  | emitter (id : Nat) (level component : Value) : Shipped (.emitter id level component)
  | transcript (id : Nat) (lines : List Value) : Shipped (.transcript id lines)
  | stream (id source : Nat) : Shipped (.stream id source)
  | store (id : Nat) (initial : List (Value × Value)) : Shipped (.store id initial)
  | counter (id : Nat) : Shipped (.counter id)

theorem Shipped.tailResumptive {h : Handler} (hs : h.Shipped) :
    TailResumptive call (h.offer call) := by
  cases hs with
  | collector id => exact tailResumptive_whenKind fun _ _ => stepsAs_collectorStep _
  | emitter id level component =>
    exact tailResumptive_whenKind fun _ _ => stepsAs_emitterStep level component _
  | transcript id lines =>
    exact tailResumptive_whenKind fun _ _ => stepsAs_transcriptStep lines.length _
  | stream id source => exact tailResumptive_whenKind fun _ _ => stepsAs_streamStep source _
  | store id initial => exact tailResumptive_whenKind fun _ _ => stepsAs_storeStep _
  | counter id => exact tailResumptive_whenKind fun _ _ => stepsAs_counterStep _

/-- In a pair, whichever side takes the request, the effect goes on with its answer. -/
theorem tailResumptive_pair (id : Nat) {first second : Handler}
    (h₁ : TailResumptive call (first.offer call)) (h₂ : TailResumptive call (second.offer call)) :
    TailResumptive call ((Handler.pair id first second).offer call) := by
  intro state e
  simp only [offer, bind_assoc]
  refine congrArg (Action.ofExcept state.unpackTwo >>= ·) (funext fun p => ?_)
  obtain ⟨s, t⟩ := p
  simp only [h₁ s e, bind_assoc]
  refine congrArg (first.offer call s (.of e.request) >>= ·) (funext fun v => ?_)
  cases v
  case handled => simp only [Effect.goOn, bind_assoc, pure_bind]
  all_goals
    simp only [Effect.goOn, pure_bind, h₂ t e, bind_assoc]
    refine congrArg (second.offer call t (.of e.request) >>= ·) (funext fun u => ?_)
    cases u
    case handled => simp only [Effect.goOn, bind_assoc, pure_bind]
    all_goals rfl

/-! ### Combinations -/

/-- What holds of handlers, and of pairs whose parts it holds of, holds of nested pairs. -/
theorem nest_elim {P : Handler → Prop}
    (hpair : ∀ id first second, P first → P second → P (.pair id first second))
    {hs : List Handler} (h : ∀ x ∈ hs, P x) {w w' : World} {c : Handler}
    (hc : nest hs w = .value c w') : P c := by
  induction hs generalizing c w w' with
  | nil => cases hc
  | cons x hs ih =>
    have hx : P x := h x List.mem_cons_self
    rcases hs with _ | ⟨y, hs⟩
    · obtain ⟨rfl, -⟩ := Action.pure_eq_value.mp hc
      exact hx
    · obtain ⟨rest, w₁, hrest, hpaired⟩ := Action.bind_eq_value.mp hc
      have hP := ih (fun z hz => h z (List.mem_cons_of_mem _ hz)) hrest
      unfold pairOf at hpaired
      split at hpaired
      · obtain ⟨id, w₂, -, hp⟩ := Action.bind_eq_value.mp hpaired
        obtain ⟨rfl, -⟩ := Action.pure_eq_value.mp hp
        exact hpair id x rest hx hP
      · cases hpaired

/-- What holds of handlers, and of pairs whose parts it holds of, holds of combinations. -/
theorem combine_elim {P : Handler → Prop}
    (hpair : ∀ id first second, P first → P second → P (.pair id first second))
    {hs : List Handler} (h : ∀ x ∈ hs, P x) {w w' : World} {c : Handler}
    (hc : combine hs w = .value c w') : P c := by
  obtain ⟨n, w₁, hn, hc⟩ := Action.bind_eq_value.mp hc
  obtain ⟨_, w₂, -, hc⟩ := Action.bind_eq_value.mp hc
  obtain ⟨rfl, -⟩ := Action.pure_eq_value.mp hc
  exact nest_elim hpair h hn

/-- A combination of tail-resumptive handlers is one. -/
theorem tailResumptive_combine {hs : List Handler}
    (h : ∀ x ∈ hs, TailResumptive call (Handler.offer call x)) {w w' : World} {c : Handler}
    (hc : combine hs w = .value c w') : TailResumptive call (c.offer call) :=
  combine_elim (P := fun x => TailResumptive call (x.offer call))
    (fun id _ _ hfirst hsecond => tailResumptive_pair id hfirst hsecond) h hc

end Handler

end EffectHandlers
