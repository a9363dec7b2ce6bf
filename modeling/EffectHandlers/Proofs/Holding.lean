/-
EffectHandlers/Proofs/Holding.lean

Runs against handlers that resume each effect at most once.

A node of a chain is an effect that is continued from the call at one stage
of its pipeline, with only bind stages after it (`Effect.AtNode`).  Resumed
in a tidy world, it leads to the next node, or to the end of the routine and
what follows it; and all that happens is a use of the chain, with one
resumption of the call if the chain that the routine yielded is finished by
then, and none if it is not (`AtNode.resume_uses`).

A handler resumes each effect at most once if it first decides what to do
with it, and then ends the step without the effect, or resumes it once and
passes on the chain that this gives (`ResumesOnce`).  It may look at the
effect to decide, but not use it or put it away.  Tail-resumptive handlers
resume each effect that they handle exactly once.

Main result: a run against such a handler is a use of the chain, and a
complete one if every effect that is handled is resumed and the run gives a
result (`run_uses`).
-/
import EffectHandlers.Proofs.Aloof
import EffectHandlers.Proofs.Correspondence
import EffectHandlers.Proofs.Uses
import EffectHandlers.Proofs.Resumption
import EffectHandlers.Proofs.TailResumption

namespace EffectHandlers

variable {α : Type} {s : Settings} {id h : Nat} {w u : World} {t : Hand} {always : Prop}

/-! ### Nodes -/

/-- An effect that is continued from a history of a call, at one stage of its pipeline. -/
inductive Effect.AtNode (id h : Nat) : Effect → Prop
  | made {e : Effect} (he : e.Obeys (.others id)) :
      AtNode id h (e.map (.bind (.call (.resumption id h))))
  | bound {e : Effect} {b : Binder} (he : AtNode id h e) (hb : b.Obeys (.others id)) :
      AtNode id h (e.map (.bind b))

/-- Where the holder of a chain is: at its node, or past the end of the routine if the chain holds
no node. -/
inductive Value.At (id : Nat) : Value → Hand → Prop
  | node {e : Effect} {r : CapabilitySet} {h : Nat} (he : e.AtNode id h) :
      At id (.chain (.suspended e r)) (.node h)
  | returned {v : Value} (hv : v.Obeys (.others id)) : At id v .returned

/-- In tidy worlds, an action leaves the record of a call alone, also when it fails; what it gives
satisfies `P`, and the world that it leaves is tidy. -/
def Leaves (id : Nat) (P : α → Prop) (x : Action α) : Prop :=
  ∀ w, w.Tidy id → (∀ u, (x w).world? = some u → w.SameCall id u) ∧
    ∀ a u, x w = .value a u → P a ∧ u.Tidy id

/-- An action that holds no node. -/
theorem Aloof.leaves {P : α → Prop} {x : Action α} (hx : Aloof id P fun _ => x) :
    Leaves id P x := by
  refine fun w hw => ⟨(hx.same w · hw.clean), fun a u ha => ?_⟩
  obtain ⟨hP, hu⟩ := (hx.framed w hw.clean).2 a u ha
  exact ⟨hP, hw.after (hx.same w u hw.clean (by show (x w).world? = _; rw [ha]; rfl)) hu⟩

/-- An outcome that a use of a chain leads to from what is at hand. -/
def Outcome.Used (s : Settings) (id : Nat) (w : World) (t : Hand) (Q : α → World → Hand → Prop)
    (o : Outcome α) : Prop :=
  match o with
  | .value a u => ∃ t', Uses s id (resuming s id) (w, t) (u, t') ∧ Q a u t'
  | .failed _ u => ∃ t', Uses s id (resuming s id) (w, t) (u, t')
  | .exhausted => True

namespace Outcome.Used

variable {β : Type} {Q : α → World → Hand → Prop}

theorem after {o : Outcome α} {t' : Hand} (huses : Uses s id (resuming s id) (w, t) (u, t'))
    (ho : o.Used s id u t' Q) : o.Used s id w t Q := by
  cases o with
  | value a v =>
    obtain ⟨t'', hlater, hQ⟩ := ho
    exact ⟨t'', huses.trans hlater, hQ⟩
  | failed f v =>
    obtain ⟨t'', hlater⟩ := ho
    exact ⟨t'', huses.trans hlater⟩
  | exhausted => trivial

theorem bind {x : Action α} {f : α → Action β} {Q' : β → World → Hand → Prop}
    (hx : (x w).Used s id w t Q)
    (hf : ∀ a u t', Q a u t' → (f a u).Used s id u t' Q') : ((x >>= f) w).Used s id w t Q' := by
  rw [Action.bind_apply]
  cases hxw : x w with
  | value a u =>
    rw [hxw] at hx
    obtain ⟨t', huses, hQ⟩ := hx
    exact after huses (hf a u t' hQ)
  | failed f u =>
    rw [hxw] at hx
    exact hx
  | exhausted => trivial

theorem mono {o : Outcome α} {Q' : α → World → Hand → Prop} (ho : o.Used s id w t Q)
    (hQ : ∀ a u t', Q a u t' → Q' a u t') : o.Used s id w t Q' := by
  cases o with
  | value a u =>
    obtain ⟨t', huses, ha⟩ := ho
    exact ⟨t', huses, hQ a u t' ha⟩
  | failed f u => exact ho
  | exhausted => trivial

/-- An action that leaves the record alone. -/
theorem aside {P : α → Prop} {x : Action α} (hx : Leaves id P x) (hw : w.Tidy id)
    (t : Hand) : (x w).Used s id w t fun a u t' => P a ∧ u.Tidy id ∧ t' = t := by
  obtain ⟨hsame, hleft⟩ := hx w hw
  cases hxw : x w with
  | value a u =>
    obtain ⟨ha, hu⟩ := hleft a u hxw
    exact ⟨t, .single (.aside (hsame u (by rw [hxw]; rfl))), ha, hu, rfl⟩
  | failed f u => exact ⟨t, .single (.aside (hsame u (by rw [hxw]; rfl)))⟩
  | exhausted => trivial

end Outcome.Used

/-- The resumption of a call, in a tidy world, as a step of a use. -/
theorem resuming_used (s : Settings) (h : Nat) {answer : Value} (ha : answer.Obeys (.others id))
    (hw : w.Tidy id) :
    (resuming s id (Evaluation.meaning s) h answer w).Used s id w (.node h)
      fun c u t' => c.Ends id ∧ u.Tidy id ∧ t' = c.hand id := by
  obtain ⟨hagree, hleft⟩ := Detached.resume (s := s) (Callable.meaning s) s.maxSteps h ha w hw
  have hstep (u : World)
      (hu : (resuming s id (Evaluation.meaning s) h answer w).world? = some u) :
      Uses s id (resuming s id) (w, .node h)
        (u, (resuming s id (Evaluation.meaning s) h answer w).hand id) :=
    .single (.resume answer hagree hu)
  cases ho : resuming s id (Evaluation.meaning s) h answer w with
  | value c u =>
    obtain ⟨hc, hu⟩ := hleft c u ho
    rw [ho] at hstep
    exact ⟨_, hstep u rfl, hc, hu, rfl⟩
  | failed f u =>
    rw [ho] at hstep
    exact ⟨_, hstep u rfl⟩
  | exhausted => trivial

/-- The holder of a chain that a resumption gives is where the chain says. -/
theorem Chain.Ends.at {c : Chain} (hc : c.Ends id) (r : CapabilitySet) :
    (Value.chain (c.declare r)).At id (c.hand id) := by
  cases hc with
  | finished hv => exact .returned hv
  | node h he =>
    rw [Chain.hand_bind]
    exact .node (.made he)

theorem aloof_stage (s : Settings) (st : Stage) (hst : st.Obeys (.others id)) {v : Value}
    (hv : v.Obeys (.others id)) :
    Aloof id (Value.Obeys (.others id)) fun _ => st.apply (Callable.meaning s) v := by
  have hfits : (Regime.others id).ordered → st.Fits none := nofun
  exact Discipline.mono (D := (aloof id).toDiscipline)
    (Discipline.stageApply (aloof_meaning s id) hst hfits hv nofun) fun _ h => h.1

/-- **Resuming a node** is a use of the chain, which leads to the next node or past the end of the
routine. -/
theorem Effect.AtNode.resume_uses {e : Effect} (he : e.AtNode id h) {answer : Value}
    (ha : answer.Obeys (.others id)) (hw : w.Tidy id) :
    (e.resume (Callable.meaning s) answer w).Used s id w (.node h)
      fun v u t' => v.At id t' ∧ u.Tidy id := by
  induction he with
  | @made e he =>
    rw [Effect.resume_map]
    have hresume : Aloof id (Value.Obeys (.others id)) fun _ =>
        e.resume (Callable.meaning s) answer :=
      Discipline.resume (aloof_meaning s id) he ha
    refine (Outcome.Used.aside hresume.leaves hw (.node h)).bind fun v u t' hv => ?_
    obtain ⟨hv, hu, rfl⟩ := hv
    cases v
    case chain c =>
      cases c with
      | done x r =>
        rw [Stage.apply_resumption]
        have hx : x.Obeys (.others id) := hv
        refine (resuming_used s h hx hu).bind fun c u' t' hc => ?_
        obtain ⟨hends, hu', rfl⟩ := hc
        exact ⟨_, .refl, hends.at r, hu'⟩
      | suspended e' r => exact ⟨_, .refl, .node (.made hv.2), hu⟩
    all_goals exact ⟨.node h, .refl⟩
  | @bound e b _ hb ih =>
    rw [Effect.resume_map]
    refine ih.bind fun v u t' hv => ?_
    obtain ⟨hat, hu⟩ := hv
    cases hat with
    | node he' => exact ⟨_, .refl, .node (.bound he' hb), hu⟩
    | returned hv =>
      have hstage : Aloof id (Value.Obeys (.others id)) fun _ =>
          (Stage.bind b).apply (Callable.meaning s) v := aloof_stage s (.bind b) hb hv
      refine Outcome.Used.mono (Outcome.Used.aside hstage.leaves hu .returned) fun v' u' t' h => ?_
      obtain ⟨hv', hu', rfl⟩ := h
      exact ⟨.returned hv', hu'⟩

/-! ### Handlers that resume once -/

/-- What a handler decides to do with an effect: it ends the step without it, or it resumes the
effect and goes on with what this gives. -/
inductive Verdict
  | leave (result : Value)
  | resume (answer : Value) (after : Value → Action Value)

/-- Do with an effect what was decided. -/
def Verdict.carryOut (call : Call) (e : Effect) : Verdict → Action Value
  | .leave v => pure v
  | .resume answer after => e.resume call answer >>= after

/-- Where the holder of a chain is in a run: where the chain says, or the handler has dropped the
node, unless it always goes on with it. -/
def Value.On (id : Nat) (always : Prop) (v : Value) (t : Hand) : Prop :=
  v.At id t ∨ ¬ always ∧ v.Obeys (.others id)

/-- What a step of a run comes to: the next chain, if there is one, is where the holder is. -/
def Value.Leads (id : Nat) (always : Prop) (t : Hand) (v : Value) : Prop :=
  ∀ state next, v = .handled state next → state.Obeys (.others id) ∧ next.On id always t

/-- A verdict that holds no node: the chain that a resumption gives is passed on as the next one of
the run, perhaps continued.  If the handler always goes on with an effect that it handles, it
handles none without resuming it. -/
def Verdict.Fair (id : Nat) (always : Prop) : Verdict → Prop
  | .leave v => v.Obeys (.others id) ∧ (always → ∀ state next, v ≠ .handled state next)
  | .resume answer after => answer.Obeys (.others id) ∧
      ∀ v t, v.On id always t → Leaves id (Value.Leads id always t) (after v)

/-- Each effect that is offered is resumed at most once in the step: once it is decided what to do
with it, the effect is used only to carry this out. -/
def ResumesOnce (s : Settings) (id : Nat) (always : Prop) (offer : Offer) : Prop :=
  ∀ state e, state.Obeys (.others id) → e.request.Obeys (.others id) →
    ∃ decide : Action Verdict, Leaves id (Verdict.Fair id always) decide ∧
      offer state e = decide >>= Verdict.carryOut (Callable.meaning s) e

theorem Effect.AtNode.request_obeys {e : Effect} (he : e.AtNode id h) :
    e.request.Obeys (.others id) := by
  induction he with
  | @made e he => exact Effect.obeys_request (e := e) he
  | bound _ _ ih => exact ih

/-- Resuming the effect at hand, whether it is at a node or holds none. -/
theorem Value.On.resume_uses {e : Effect} {r : CapabilitySet}
    (hn : (Value.chain (.suspended e r)).On id always t) {answer : Value}
    (ha : answer.Obeys (.others id)) (hw : w.Tidy id) :
    (e.resume (Callable.meaning s) answer w).Used s id w t
      fun v u t' => v.On id always t' ∧ u.Tidy id := by
  have hclear (he : e.Obeys (.others id)) :
      (e.resume (Callable.meaning s) answer w).Used s id w t
        fun v u t' => v.Obeys (.others id) ∧ u.Tidy id ∧ t' = t :=
    Outcome.Used.aside (Aloof.leaves
      (Discipline.resume (D := (aloof id).toDiscipline) (aloof_meaning s id) he ha)) hw t
  rcases hn with hn | ⟨hnot, hn⟩
  · cases hn with
    | node he => exact (he.resume_uses ha hw).mono fun v u t' h => ⟨.inl h.1, h.2⟩
    | returned he =>
      refine (hclear he.2).mono fun v u t' h => ?_
      obtain ⟨hv, hu, rfl⟩ := h
      exact ⟨.inl (.returned hv), hu⟩
  · exact (hclear hn.2).mono fun v u t' h => ⟨.inr ⟨hnot, h.1⟩, h.2.1⟩

/-- One step of a run is a use of the chain. -/
theorem ResumesOnce.offer_uses {offer : Offer} (ho : ResumesOnce s id always offer)
    {state : Value} {e : Effect} {r : CapabilitySet} (hs : state.Obeys (.others id))
    (hn : (Value.chain (.suspended e r)).On id always t) (hw : w.Tidy id) :
    (offer state e w).Used s id w t fun v u t' => v.Leads id always t' ∧ u.Tidy id := by
  have hrequest : e.request.Obeys (.others id) := by
    rcases hn with hn | hn
    · cases hn with
      | node he => exact he.request_obeys
      | returned he => exact Effect.obeys_request he.2
    · exact Effect.obeys_request hn.2.2
  obtain ⟨decide, hdecide, hoffer⟩ := ho state e hs hrequest
  rw [hoffer]
  refine (Outcome.Used.aside hdecide hw t).bind fun verdict u t' hv => ?_
  obtain ⟨hfair, hu, rfl⟩ := hv
  cases verdict with
  | leave v =>
    refine ⟨_, .refl, ?_, hu⟩
    rintro state' next rfl
    exact ⟨hfair.1.1, .inr ⟨fun h => hfair.2 h _ _ rfl, hfair.1.2⟩⟩
  | resume answer after =>
    refine (hn.resume_uses hfair.1 hu).bind fun v u' t' hv => ?_
    refine (Outcome.Used.aside (hfair.2 v t' hv.1) hv.2 t').mono fun v' u'' t'' h => ?_
    obtain ⟨hleads, hu'', rfl⟩ := h
    exact ⟨hleads, hu''⟩

/-! ### Runs -/

theorem Value.On.drive_done {v : Value} {r : CapabilitySet} {offer : Offer} {state : Value}
    (hn : (Value.chain (.done v r)).On id always t) (hs : state.Obeys (.others id))
    (hw : w.Tidy id) (fuel steps : Nat) :
    (drive s offer fuel steps state (.chain (.done v r)) w).Used s id w t fun d u t' =>
      u.Tidy id ∧ d.Obeys (.others id) ∧ (always → t' = .returned) := by
  rw [EffectHandlers.drive_done]
  rcases hn with hn | ⟨hnot, hn⟩
  · cases hn with
    | returned hv => exact ⟨_, .refl, hw, ⟨hv, hs⟩, fun _ => rfl⟩
  · exact ⟨t, .refl, hw, ⟨hn, hs⟩, fun h => absurd h hnot⟩

/-- A drive is a use of the chain, and a complete one if the handler always goes on. -/
theorem ResumesOnce.drive_uses {offer : Offer} (ho : ResumesOnce s id always offer) (fuel : Nat)
    (steps : Nat) {state next : Value} (hs : state.Obeys (.others id)) (hn : next.On id always t)
    (hw : w.Tidy id) :
    (drive s offer fuel steps state next w).Used s id w t fun d u t' =>
      u.Tidy id ∧ d.Obeys (.others id) ∧ (always → t' = .returned) := by
  induction fuel generalizing steps state next w t with
  | zero =>
    cases next
    case chain c =>
      cases c with
      | done v r => exact hn.drive_done hs hw 0 steps
      | suspended e r => trivial
    all_goals exact ⟨t, .refl⟩
  | succ fuel ih =>
    cases next
    case chain c =>
      cases c with
      | done v r => exact hn.drive_done hs hw (fuel + 1) steps
      | suspended e r =>
        rw [drive_suspended]
        refine (ho.offer_uses hs hn hw).bind fun v u t' hv => ?_
        cases v
        case handled state' next' =>
          obtain ⟨hs', hn'⟩ := hv.1 _ _ rfl
          have hnote : Aloof id (fun _ => True) fun _ => s.noteStep (steps + 1) e :=
            Discipline.noteStep (D := (aloof id).toDiscipline) s _ e
          refine (Outcome.Used.aside hnote.leaves hv.2 t').bind fun _ u' t'' h => ?_
          obtain ⟨-, hu', rfl⟩ := h
          exact ih (steps + 1) hs' hn' hu'
        all_goals
          have hfail : Aloof id (fun _ : Drive => False) fun _ => failUnhandled steps e :=
            Discipline.failUnhandled (D := (aloof id).toDiscipline) steps e
          exact (Outcome.Used.aside hfail.leaves hv.2 t').mono fun _ _ _ h => h.1.elim
    all_goals exact ⟨t, .refl⟩

/-- **A run against a handler that resumes each effect at most once is a use of the chain**, also
if it fails; and a complete one if the handler always goes on and the run gives a result. -/
theorem run_uses {A : Handler} (hA : A.Obeys (.others id))
    (ho : ResumesOnce s id always (A.offer (Callable.meaning s))) {c : Chain}
    (hc : (Value.chain c).At id t) (hw : w.Tidy id) :
    (run s (Callable.meaning s) c A w).Used s id w t fun _ u t' =>
      u.Tidy id ∧ (always → t' = .returned) := by
  have hcalls := aloof_meaning s id
  have hprovided : Aloof id (fun _ => True) fun _ => checkProvided c A :=
    Discipline.checkProvided (D := (aloof id).toDiscipline) c A
  have hopen : Aloof id (Value.Obeys (.others id)) fun _ => openRun (Callable.meaning s) A :=
    Discipline.openRun hcalls hA
  refine (Outcome.Used.aside hprovided.leaves hw t).bind fun _ u t' h => ?_
  obtain ⟨-, hu, rfl⟩ := h
  refine (Outcome.Used.aside hopen.leaves hu t').bind fun state u' t'' h => ?_
  obtain ⟨hs, hu', rfl⟩ := h
  refine (ho.drive_uses s.maxSteps 0 hs (.inl hc) hu').bind fun d v t₁ h => ?_
  obtain ⟨hv, hd, hend⟩ := h
  have hclose : Aloof id (Value.Obeys (.others id)) fun _ => closeRun (Callable.meaning s) A d :=
    Discipline.closeRun hcalls hA hd
  refine (Outcome.Used.aside hclose.leaves hv t₁).mono fun _ _ t₂ h => ?_
  exact ⟨h.2.1, h.2.2 ▸ hend⟩

/-! ### Handlers that always go on -/

/-- What a tail-resumptive handler decides, by what it does with the bare request: an answer that
is handled is given to the effect. -/
def Value.verdict : Value → Verdict
  | .handled state answer => .resume answer fun next => pure (.handled state next)
  | v => .leave v

theorem Value.fair_verdict {v : Value} (hv : v.Obeys (.others id)) :
    (Value.verdict v).Fair id True := by
  cases v
  case handled state answer =>
    refine ⟨hv.2, fun next t hn w hw => ⟨?_, ?_⟩⟩
    · rintro _ ⟨⟩
      exact .refl id w
    · rintro _ _ ⟨⟩
      refine ⟨?_, hw⟩
      rintro _ _ ⟨⟩
      exact ⟨hv.1, hn⟩
  all_goals
    refine ⟨hv, ?_⟩
    rintro - _ _ ⟨⟩

/-- A tail-resumptive handler resumes each effect that it handles exactly once. -/
theorem TailResumptive.resumesOnce {A : Handler} (hA : A.Obeys (.others id))
    (ht : TailResumptive (Callable.meaning s) (A.offer (Callable.meaning s))) :
    ResumesOnce s id True (A.offer (Callable.meaning s)) := by
  intro state e hs hr
  have hoffer : Aloof id (Value.Obeys (.others id)) fun _ =>
      A.offer (Callable.meaning s) state (.of e.request) :=
    Discipline.offer (aloof_meaning s id) A hA hs (Effect.obeys_of hr)
  refine ⟨A.offer (Callable.meaning s) state (.of e.request) >>= fun v => pure v.verdict,
    Aloof.leaves (Aloof.bind hoffer fun v hv => (aloof id).ret (Value.fair_verdict hv)), ?_⟩
  rw [ht state e, bind_assoc]
  refine congrArg (A.offer (Callable.meaning s) state (.of e.request) >>= ·) (funext fun v => ?_)
  cases v <;> rfl

end EffectHandlers
