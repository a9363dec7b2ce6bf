/-
EffectHandlers/Proofs/Variation/Handlers.lean

Handlers and runs on counterparts.

A step of a handler of the library looks at the request of an effect, and
then resumes the effect with an answer.  So steps are linked where the
requests are counterparts and the effects go on in computations that are
linked, whatever these come to (`ResumeLinked`).  Other handlers see the
effect itself, and are asked about counterparts only.

Main statements: offers of counterparts are linked (`Action.LinkedBy.offer`),
and so are runs (`Action.LinkedBy.run`) and all operations on handlers
(`Action.LinkedBy.handlerOp`).
-/
import EffectHandlers.Proofs.TailResumption
import EffectHandlers.Proofs.Variation.Library

namespace EffectHandlers

/-- Two effects make requests that are counterparts, and go on with counterparts as answers in
computations that are linked. -/
structure ResumeLinked (W : Comparing) (L : Link) (call call' : Call)
    (R : Link → Value → Value → Prop) (e e' : Effect) : Prop where
  request : Counterpart L e.request e'.request
  resume {M : Link} {a a' : Value} (hLM : L ≤ M) (ha : Counterpart M a a') :
    Action.LinkedBy W M R (e.resume call a) (e'.resume call' a')

/-- What a step comes to: states that are counterparts, and what the program goes on with. -/
abbrev StepLinked (R : Link → Value → Value → Prop) : Link → Value × Value → Value × Value → Prop :=
  fun M p p' => Counterpart M p.1 p'.1 ∧ R M p.2 p'.2

/-- What an offer comes to: the effect is handled on both sides, or declined. -/
inductive OfferLinked (R : Link → Value → Value → Prop) (L : Link) : Value → Value → Prop
  | handled {s s' n n' : Value} (hs : Counterpart L s s') (hn : R L n n') :
    OfferLinked R L (.handled s n) (.handled s' n')
  | declined : OfferLinked R L .declined .declined

namespace Action.LinkedBy

variable {W : Comparing} {L : Link} {call call' : Call} {v v' state state' : Value}
  {vs vs' : List Value} {c c' : Chain} {e e' : Effect} {R : Link → Value → Value → Prop}
  {h h' : Handler}

/-! ### Steps -/

/-- A step that ends with the new state and the resumed effect. -/
theorem answered (he : ResumeLinked W L call call' R e e') {M : Link} (hLM : L ≤ M)
    (hs : Counterpart M state state') {a a' : Value} (ha : Counterpart M a a') :
    Action.LinkedBy W M (StepLinked R) (e.resume call a >>= fun next => Pure.pure (state, next))
      (e'.resume call' a' >>= fun next => Pure.pure (state', next)) :=
  (he.resume hLM ha).map fun _ _ _ hMN hn => ⟨hs.mono hMN, hn⟩

theorem collectorStep (he : ResumeLinked W L call call' R e e')
    (hs : Counterpart L state state') :
    Action.LinkedBy W L (StepLinked R) (Handler.collectorStep call state e)
      (Handler.collectorStep call' state' e') := by
  refine (ofExcept (he.request.requestMember "message")).bind fun M m m' hLM hm => ?_
  exact answered he hLM (.tuple (.cons hm (.cons (hs.mono hLM) .nil))) .null

theorem emitterStep (he : ResumeLinked W L call call' R e e') {level level' comp comp' : Value}
    (hlevel : Counterpart L level level') (hcomp : Counterpart L comp comp')
    (hs : Counterpart L state state') :
    Action.LinkedBy W L (StepLinked R) (Handler.emitterStep call level comp state e)
      (Handler.emitterStep call' level' comp' state' e') := by
  refine (ofExcept (he.request.requestMember "message")).bind fun M m m' hLM hm => ?_
  refine (ofExcept (hlevel.mono hLM).levelName).bind fun N n n' hMN hn => ?_
  obtain rfl := hn.text_eq
  rw [hm.shown]
  refine (text _).bind fun N₁ t t' hNN ht => ?_
  subst ht
  have hLN : L ≤ N₁ := Link.le_trans hLM (Link.le_trans hMN hNN)
  refine (emit (.emitted n t (hcomp.mono hLN))).bind fun N₂ _ _ hNN₂ _ => ?_
  have hLN₂ : L ≤ N₂ := Link.le_trans hLN hNN₂
  refine (ofExcept ((hs.mono hLN₂).plus (.int 1))).bind fun N₃ k k' hNN₃ hk => ?_
  exact answered he (Link.le_trans hLN₂ hNN₃) hk .null

theorem transcriptStep (he : ResumeLinked W L call call' R e e') (count : Nat)
    (hs : Counterpart L state state') :
    Action.LinkedBy W L (StepLinked R) (Handler.transcriptStep call count state e)
      (Handler.transcriptStep call' count state' e') := by
  refine (ofExcept hs.unpackTwo).bind fun M p p' hLM hp => ?_
  obtain ⟨pending, written⟩ := p
  obtain ⟨pending', written'⟩ := p'
  obtain ⟨hpending, hwritten⟩ := counterpart_prod.mp hp
  have hr := he.request
  simp only [] at hpending hwritten ⊢
  generalize e.request = r at hr ⊢
  generalize e'.request = r' at hr ⊢
  cases Request.shape hr with
  | writeLine hline =>
    have hplus := (Counterpart.tuple (.cons (hline.mono hLM) .nil)).plus hwritten
    refine (ofExcept hplus).bind fun N t t' hMN ht => ?_
    exact answered he (Link.le_trans hLM hMN) (.tuple (.cons (hpending.mono hMN) (.cons ht .nil)))
      .null
  | readLine =>
    refine (ofExcept hpending.nextLine).bind fun N x x' hMN hx => ?_
    cases counterpart_option.mp hx with
    | none => exact .fail (.failure fun _ => ⟨trivial, rfl⟩)
    | some hparts =>
      obtain ⟨hline, hrest⟩ := counterpart_prod.mp hparts
      exact answered he (Link.le_trans hLM hMN)
        (.tuple (.cons hrest (.cons (hwritten.mono hMN) .nil))) hline
  | _ => exact .fail (.failure fun _ => ⟨trivial, rfl⟩)

theorem streamStep (he : ResumeLinked W L call call' R e e') (source : Nat)
    (hs : Counterpart L state state') :
    Action.LinkedBy W L (StepLinked R) (Handler.streamStep call source state e)
      (Handler.streamStep call' source state' e') := by
  have hr := he.request
  unfold Handler.streamStep
  generalize e.request = r at hr ⊢
  generalize e'.request = r' at hr ⊢
  cases Request.shape hr with
  | writeLine hline =>
    refine (ofExcept (hline.plus (.text "\n"))).bind fun M t t' hLM ht => ?_
    rw [ht.shown]
    refine (text _).bind fun N u u' hMN hu => ?_
    subst hu
    refine (emit (.wrote u)).bind fun N₁ _ _ hNN _ => ?_
    have hLN : L ≤ N₁ := Link.le_trans hLM (Link.le_trans hMN hNN)
    refine (ofExcept ((hs.mono hLN).plus (.int 1))).bind fun N₂ k k' hNN₂ hk => ?_
    exact answered he (Link.le_trans hLN hNN₂) hk .null
  | readLine =>
    refine (readLine source).bind fun M l l' hLM hl => ?_
    subst hl
    split
    · exact .fail (.failure fun _ => ⟨trivial, rfl⟩)
    · exact answered he hLM (hs.mono hLM) (.text _)
  | _ => exact .fail (.failure fun _ => ⟨trivial, rfl⟩)

theorem storeStep (hcall : CallsLinked W call call') (he : ResumeLinked W L call call' R e e')
    (hs : Counterpart L state state') :
    Action.LinkedBy W L (StepLinked R) (Handler.storeStep call state e)
      (Handler.storeStep call' state' e') := by
  have hr := he.request
  unfold Handler.storeStep
  generalize e.request = r at hr ⊢
  generalize e'.request = r' at hr ⊢
  cases Request.shape hr with
  | get hk =>
    refine (ofExcept (hs.readKey hk)).bind fun M x x' hLM hx => ?_
    exact answered he hLM (hs.mono hLM) hx
  | put hk hv =>
    refine (ofExcept (hs.writeKey hk hv)).bind fun M t t' hLM ht => ?_
    exact answered he hLM ht .null
  | modify hk hf =>
    refine (ofExcept (hs.readKey hk)).bind fun M x x' hLM hx => ?_
    refine (callValue hcall (hf.mono hLM) (.cons hx .nil)).bind fun N n n' hMN hn => ?_
    have hLN : L ≤ N := Link.le_trans hLM hMN
    refine (ofExcept ((hs.mono hLN).writeKey (hk.mono hLN) hn)).bind fun N₁ t t' hNN ht => ?_
    exact answered he (Link.le_trans hLN hNN) ht (hn.mono hNN)
  | _ => exact .fail (.failure fun _ => ⟨trivial, rfl⟩)

theorem counterStep (he : ResumeLinked W L call call' R e e') (hs : Counterpart L state state') :
    Action.LinkedBy W L (StepLinked R) (Handler.counterStep call state e)
      (Handler.counterStep call' state' e') := by
  refine (ofExcept (he.request.requestMember "amount")).bind fun M a a' hLM ha => ?_
  refine (ofExcept ((hs.mono hLM).plus ha)).bind fun N t t' hMN ht => ?_
  exact answered he (Link.le_trans hLM hMN) ht ht

/-- A step is made if the request is of its kind. -/
theorem whenKind (kind : Kind) (hr : Counterpart L e.request e'.request)
    {step step' : Action (Value × Value)} (hstep : Action.LinkedBy W L (StepLinked R) step step') :
    Action.LinkedBy W L (OfferLinked R) (Handler.whenKind kind e step)
      (Handler.whenKind kind e' step') := by
  have hkind : e'.request.isA kind = e.request.isA kind := by
    rw [Request.isA, Request.isA, hr.kind]
  unfold Handler.whenKind
  rw [hkind]
  split
  · exact hstep.map fun _ _ _ _ hp => .handled hp.1 hp.2
  · exact .pure .declined

/-- Offers to the handlers of the library look at requests only. -/
theorem offerShipped (hcall : CallsLinked W call call') (he : ResumeLinked W L call call' R e e')
    (hshipped : h.Shipped) (hh : Counterpart L h h') (hs : Counterpart L state state') :
    Action.LinkedBy W L (OfferLinked R) (h.offer call state e) (h'.offer call' state' e') := by
  cases Handler.shape hh with
  | collector => exact whenKind .log he.request (collectorStep he hs)
  | emitter _ hlevel hcomp => exact whenKind .log he.request (emitterStep he hlevel hcomp hs)
  | transcript _ hlines =>
    simp only [Handler.offer, hlines.length]
    exact whenKind .console he.request (transcriptStep he _ hs)
  | stream source _ => exact whenKind .console he.request (streamStep he source hs)
  | store => exact whenKind .state he.request (storeStep hcall he hs)
  | counter => exact whenKind .tick he.request (counterStep he hs)
  | _ => cases hshipped

/-! ### Offers of counterparts -/

theorem resumeLinked (hcall : CallsLinked W call call') (he : Counterpart L e e') :
    ResumeLinked W L call call' Counterpart e e' :=
  ⟨he.request, fun hLM ha => resume hcall (he.mono hLM) ha⟩

/-- What is offered comes to counterparts if the program goes on with counterparts. -/
theorem offered {x y : Action Value}
    (h : Action.LinkedBy W L (OfferLinked Counterpart) x y) :
    Action.LinkedBy W L Counterpart x y := by
  refine h.mono fun M a b _ hab => ?_
  cases hab with
  | handled hs hn => exact hs.handled hn
  | declined => exact .declined

theorem baseStep (hcall : CallsLinked W call call') (base : HandlerBase)
    (he : Counterpart L e e') (hs : Counterpart L state state') :
    Action.LinkedBy W L (StepLinked Counterpart) (base.step call state e)
      (base.step call' state' e') := by
  have hresume := resumeLinked hcall he
  cases base with
  | plain | simple => exact misuse _
  | collector => exact collectorStep hresume hs
  | transcript => exact transcriptStep hresume 0 hs
  | store => exact storeStep hcall hresume hs

section

variable {m m' : CustomMethods}

theorem customStep (hcall : CallsLinked W call call')
    (hm : CustomMethods.Shape (Counterpart L) m m') (he : Counterpart L e e')
    (hs : Counterpart L state state') :
    Action.LinkedBy W L (StepLinked Counterpart) (Handler.customStep call m state e)
      (Handler.customStep call' m' state' e') := by
  have hstep := hm.step
  unfold Handler.customStep
  rw [hm.base]
  generalize m.step = f at hstep ⊢
  generalize m'.step = f' at hstep ⊢
  cases counterpart_option.mp hstep with
  | none => exact baseStep hcall m.base he hs
  | some hf =>
    refine (callValue hcall hf (.cons hs (.cons he.effect .nil))).bind fun M v v' _ hv => ?_
    exact (ofExcept hv.unpackTwo).mono fun N p p' _ hp => counterpart_prod.mp hp

theorem customOffer (hcall : CallsLinked W call call')
    (hm : CustomMethods.Shape (Counterpart L) m m') (he : Counterpart L e e')
    (hs : Counterpart L state state') :
    Action.LinkedBy W L Counterpart (Handler.customOffer call m state e)
      (Handler.customOffer call' m' state' e') := by
  have hoffer := hm.offer
  unfold Handler.customOffer
  rw [hm.base, hm.kind, hm.name]
  generalize m.offer = f at hoffer ⊢
  generalize m'.offer = f' at hoffer ⊢
  cases counterpart_option.mp hoffer with
  | some hf => exact callValue hcall hf (.cons hs (.cons he.effect .nil))
  | none =>
    dsimp only
    split
    · split
      · exact offered (whenKind _ he.request (customStep hcall hm he hs))
      · exact .fail (.failure fun _ => ⟨trivial, rfl⟩)
    · exact misuse _

theorem customStart (hcall : CallsLinked W call call')
    (hm : CustomMethods.Shape (Counterpart L) m m') (id id' : Nat) :
    Action.LinkedBy W L Counterpart ((Handler.custom id m).start call)
      ((Handler.custom id' m').start call') := by
  have hstart := hm.start
  unfold Handler.start
  rw [hm.base]
  generalize m.start = f at hstart ⊢
  generalize m'.start = f' at hstart ⊢
  cases counterpart_option.mp hstart with
  | some hf => exact callValue hcall hf .nil
  | none =>
    cases m.base with
    | plain | simple => exact misuse _
    | collector => exact .pure .null
    | transcript => exact .pure (.tuple (.cons (.tuple .nil) (.cons (.tuple .nil) .nil)))
    | store => exact .pure (.frozen .nil)

theorem collectorFinish (hs : Counterpart L state state') :
    Action.LinkedBy W L Counterpart (Handler.collectorFinish state)
      (Handler.collectorFinish state') :=
  (ofExcept hs.entries).map fun _ _ _ _ hvs => hvs.reverse.list

theorem transcriptFinish (hs : Counterpart L state state') :
    Action.LinkedBy W L Counterpart (Handler.transcriptFinish state)
      (Handler.transcriptFinish state') := by
  refine (ofExcept hs.unpackTwo).bind fun M p p' _ hp => ?_
  exact (ofExcept (counterpart_prod.mp hp).2.reversed).map fun _ _ _ _ hvs => hvs.list

theorem customFinish (hcall : CallsLinked W call call')
    (hm : CustomMethods.Shape (Counterpart L) m m') (id id' : Nat)
    (hs : Counterpart L state state') :
    Action.LinkedBy W L Counterpart ((Handler.custom id m).finish call state)
      ((Handler.custom id' m').finish call' state') := by
  have hfinish := hm.finish
  unfold Handler.finish
  rw [hm.base]
  generalize m.finish = f at hfinish ⊢
  generalize m'.finish = f' at hfinish ⊢
  cases counterpart_option.mp hfinish with
  | some hf => exact callValue hcall hf (.cons hs .nil)
  | none =>
    cases m.base with
    | plain | simple => exact misuse _
    | collector => exact collectorFinish hs
    | transcript => exact transcriptFinish hs
    | store => exact .pure hs

end

/-! ### The methods of handlers -/

theorem start (hcall : CallsLinked W call call') : ∀ (h : Handler) {h' : Handler} {L : Link},
    Counterpart L h h' → Action.LinkedBy W L Counterpart (h.start call) (h'.start call')
  | .collector _, _, _, hh => by
    cases Handler.shape hh
    exact .pure .null
  | .emitter _ _ _, _, _, hh => by
    cases Handler.shape hh
    exact .pure (.int 0)
  | .transcript _ lines, _, _, hh => by
    cases Handler.shape hh with
    | transcript _ hlines =>
      exact .pure (.tuple (.cons (.tuple hlines) (.cons (.tuple .nil) .nil)))
  | .stream _ _, _, _, hh => by
    cases Handler.shape hh
    exact .pure (.int 0)
  | .store _ initial, _, _, hh => by
    cases Handler.shape hh with
    | store _ hinitial => exact .pure hinitial.frozen
  | .counter _, _, _, hh => by
    cases Handler.shape hh
    exact .pure (.int 0)
  | .recorder _ _ inner, _, _, hh => by
    cases Handler.shape hh with
    | recorder _ _ hinner =>
      exact (record _ "start" .null).bind fun _ _ _ hLM _ =>
        start hcall inner (hinner.mono hLM)
  | .pair _ first second, _, _, hh => by
    cases Handler.shape hh with
    | pair _ hfirst hsecond =>
      refine (start hcall first hfirst).bind fun M a a' hLM ha => ?_
      exact (start hcall second (hsecond.mono hLM)).map fun N b b' hMN hb =>
        .tuple (.cons (ha.mono hMN) (.cons hb .nil))
  | .custom _ m, _, _, hh => by
    cases Handler.shape hh with
    | custom _ hm => exact customStart hcall hm _ _
termination_by structural h => h

/-- The second handler of a pair is asked if the first one declines. -/
theorem offerSecond {s s' : Value} (hs : Counterpart L s s') {x x' : Action Value}
    (hx : Action.LinkedBy W L Counterpart x x') :
    Action.LinkedBy W L Counterpart
      (x >>= fun v => match v with
        | Value.handled t next => Pure.pure (Value.handled (.tuple [s, t]) next)
        | _ => Pure.pure Value.declined)
      (x' >>= fun v => match v with
        | Value.handled t next => Pure.pure (Value.handled (.tuple [s', t]) next)
        | _ => Pure.pure Value.declined) := by
  refine hx.bind fun N v v' hLN hv => ?_
  cases Value.shape hv with
  | handled ht hn =>
    exact .pure ((Counterpart.tuple (.cons (hs.mono hLN) (.cons ht .nil))).handled hn)
  | _ => exact .pure .declined

theorem offer (hcall : CallsLinked W call call') : ∀ (h : Handler) {h' : Handler} {L : Link}
    {state state' : Value} {e e' : Effect}, Counterpart L h h' → Counterpart L state state' →
    Counterpart L e e' →
    Action.LinkedBy W L Counterpart (h.offer call state e) (h'.offer call' state' e')
  | .collector id, _, _, _, _, _, _, hh, hs, he =>
    offered (offerShipped hcall (resumeLinked hcall he) (.collector id) hh hs)
  | .emitter id l c, _, _, _, _, _, _, hh, hs, he =>
    offered (offerShipped hcall (resumeLinked hcall he) (.emitter id l c) hh hs)
  | .transcript id lines, _, _, _, _, _, _, hh, hs, he =>
    offered (offerShipped hcall (resumeLinked hcall he) (.transcript id lines) hh hs)
  | .stream id source, _, _, _, _, _, _, hh, hs, he =>
    offered (offerShipped hcall (resumeLinked hcall he) (.stream id source) hh hs)
  | .store id initial, _, _, _, _, _, _, hh, hs, he =>
    offered (offerShipped hcall (resumeLinked hcall he) (.store id initial) hh hs)
  | .counter id, _, _, _, _, _, _, hh, hs, he =>
    offered (offerShipped hcall (resumeLinked hcall he) (.counter id) hh hs)
  | .recorder _ _ inner, _, _, _, _, _, _, hh, hs, he => by
    cases Handler.shape hh with
    | recorder _ _ hinner =>
      exact (record _ "try_step" he.effect).bind fun _ _ _ hLM _ =>
        offer hcall inner (hinner.mono hLM) (hs.mono hLM) (he.mono hLM)
  | .pair _ first second, _, L, _, _, _, _, hh, hs, he => by
    cases Handler.shape hh with
    | pair _ hfirst hsecond =>
      refine (ofExcept hs.unpackTwo).bind fun M p p' hLM hp => ?_
      obtain ⟨s, t⟩ := p
      obtain ⟨s', t'⟩ := p'
      obtain ⟨hs, ht⟩ := counterpart_prod.mp hp
      refine (offer hcall first (hfirst.mono hLM) hs (he.mono hLM)).bind fun N v v' hMN hv => ?_
      have hLN : L ≤ N := Link.le_trans hLM hMN
      have hrest := offerSecond (hs.mono hMN)
        (offer hcall second (hsecond.mono hLN) (ht.mono hMN) (he.mono hLN))
      cases Value.shape hv with
      | handled hs hn =>
        exact .pure ((Counterpart.tuple (.cons hs (.cons (ht.mono hMN) .nil))).handled hn)
      | _ => exact hrest
  | .custom _ m, _, _, _, _, _, _, hh, hs, he => by
    cases Handler.shape hh with
    | custom _ hm => exact customOffer hcall hm he hs
termination_by structural h => h

theorem finish (hcall : CallsLinked W call call') : ∀ (h : Handler) {h' : Handler} {L : Link}
    {state state' : Value}, Counterpart L h h' → Counterpart L state state' →
    Action.LinkedBy W L Counterpart (h.finish call state) (h'.finish call' state')
  | .collector _, _, _, _, _, hh, hs => by
    cases Handler.shape hh
    exact collectorFinish hs
  | .emitter _ _ _, _, _, _, _, hh, hs => by
    cases Handler.shape hh
    exact .pure hs
  | .transcript _ _, _, _, _, _, hh, hs => by
    cases Handler.shape hh
    exact transcriptFinish hs
  | .stream _ _, _, _, _, _, hh, hs => by
    cases Handler.shape hh
    exact .pure hs
  | .store _ _, _, _, _, _, hh, hs => by
    cases Handler.shape hh
    exact .pure hs
  | .counter _, _, _, _, _, hh, hs => by
    cases Handler.shape hh
    exact .pure hs
  | .recorder _ _ inner, _, _, _, _, hh, hs => by
    cases Handler.shape hh with
    | recorder _ _ hinner =>
      exact (record _ "finish" hs).bind fun _ _ _ hLM _ =>
        finish hcall inner (hinner.mono hLM) (hs.mono hLM)
  | .pair _ first second, _, _, _, _, hh, hs => by
    cases Handler.shape hh with
    | pair _ hfirst hsecond =>
      refine (ofExcept hs.unpackTwo).bind fun M p p' hLM hp => ?_
      obtain ⟨s, t⟩ := p
      obtain ⟨s', t'⟩ := p'
      obtain ⟨hs, ht⟩ := counterpart_prod.mp hp
      refine (finish hcall first (hfirst.mono hLM) hs).bind fun N a a' hMN ha => ?_
      exact (finish hcall second (hsecond.mono (Link.le_trans hLM hMN)) (ht.mono hMN)).map
        fun N' b b' hNN hb => .tuple (.cons (ha.mono hNN) (.cons hb .nil))
  | .custom _ m, _, _, _, _, hh, hs => by
    cases Handler.shape hh with
    | custom _ hm => exact customFinish hcall hm _ _ hs
termination_by structural h => h

/-! ### Runs -/

theorem checkProvided (hc : c'.requires = c.requires) (hh : Counterpart L h h') :
    Action.LinkedBy W L (Equal Unit) (checkProvided c h) (EffectHandlers.checkProvided c' h') := by
  unfold EffectHandlers.checkProvided
  rw [hc, hh.handlerCapabilities]
  dsimp only
  split
  · exact .pure rfl
  · exact .fail (.failure fun _ => ⟨trivial, rfl⟩)

/-- Where two drives ended. -/
structure DriveLinked (L : Link) (d d' : Drive) : Prop where
  value : Counterpart L d.value d'.value
  state : Counterpart L d.state d'.state

theorem recordText_eq (he : Counterpart L e.request e'.request) : e'.recordText = e.recordText := by
  have hbare (d : Effect) : d.recordText = (Effect.of d.request).recordText :=
    Effect.recordText_congr rfl
  rw [hbare e, hbare e']
  exact he.effectOfRequest.recordText

/-- The pipeline of an effect that nobody handled is not compared. -/
theorem failUnhandled {α β : Type} {S : Link → α → β → Prop} (p q : Nat)
    (he : Counterpart L e.request e'.request) :
    Action.LinkedBy W L S (failUnhandled p e) (EffectHandlers.failUnhandled q e') := by
  unfold EffectHandlers.failUnhandled Effect.noted
  rw [recordText_eq he]
  refine (text _).bind fun M t t' hLM _ => (note _ _ _ _).bind fun N _ _ hMN _ => ?_
  intro w w' hw
  have he := (he.mono hLM).mono hMN
  exact .failed (Link.le_refl N) hw he.effectOfRequest.unhandledEffect.refused

/-- No step is recorded. -/
theorem noteStep {s s' : Settings} (hs : W.Fits s s') (p q : Nat) :
    Action.LinkedBy W L (Equal Unit) (s.noteStep p e) (s'.noteStep q e') := by
  rw [Settings.noteStep, Settings.noteStep, hs.left, hs.right]
  exact .pure rfl

theorem drive {s s' : Settings} (hs : W.Fits s s') {offer offer' : Offer} {M : Link}
    (hoffer : ∀ {L state state' e e'}, M ≤ L → Counterpart L state state' → Counterpart L e e' →
      Action.LinkedBy W L Counterpart (offer state e) (offer' state' e'))
    {n m : Nat} (henough : W.Enough n m) (p q : Nat) (hML : M ≤ L)
    (hstate : Counterpart L state state') (hv : Counterpart L v v') :
    Action.LinkedBy W L DriveLinked (drive s offer n p state v)
      (EffectHandlers.drive s' offer' m q state' v') := by
  induction n generalizing m L p q state state' v v' with
  | zero =>
    cases Value.shape hv with
    | chain hc =>
      cases Chain.shape hc with
      | done r hx =>
        rw [drive_done, drive_done]
        exact .pure ⟨hx, hstate⟩
      | suspended r he =>
        obtain ⟨hW, -⟩ | ⟨hW, rfl⟩ | ⟨n, m, hn, -⟩ := henough.cases
        · exact .exhaustLeft hW _
        · exact .exhaustRight hW _
        · cases hn
    | _ => cases m <;> exact failType hv .notChainStep fun _ => .failure fun _ => ⟨trivial, rfl⟩
  | succ n ih =>
    cases Value.shape hv with
    | chain hc =>
      cases Chain.shape hc with
      | done r hx =>
        rw [drive_done, drive_done]
        exact .pure ⟨hx, hstate⟩
      | suspended r he =>
        obtain ⟨-, hn⟩ | ⟨hW, rfl⟩ | ⟨n', m, hn, rfl⟩ := henough.cases
        · cases hn
        · exact .exhaustRight hW _
        · rw [drive_suspended, drive_suspended]
          refine (hoffer hML hstate he).bind fun N a a' hLN ha => ?_
          have hfail {S : Link → Drive → Drive → Prop} := failUnhandled (W := W) (S := S) p q
            (he.mono hLN).request
          cases Value.shape ha with
          | handled hstate hnext =>
            refine (noteStep hs (p + 1) (q + 1)).bind fun N' _ _ hNN _ => ?_
            exact ih henough.step (p + 1) (q + 1) (Link.le_trans hML (Link.le_trans hLN hNN))
              (hstate.mono hNN) (hnext.mono hNN)
          | _ => exact hfail
    | _ => cases m <;> exact failType hv .notChainStep fun _ => .failure fun _ => ⟨trivial, rfl⟩

theorem openRun (hcall : CallsLinked W call call') (hh : Counterpart L h h') :
    Action.LinkedBy W L Counterpart (openRun call h) (EffectHandlers.openRun call' h') :=
  (start hcall h hh).bind fun _ _ _ _ hs => (note _ _ _ _).map fun _ _ _ hMN _ => hs.mono hMN

theorem closeRun (hcall : CallsLinked W call call') (hh : Counterpart L h h') {d d' : Drive}
    (hd : DriveLinked L d d') :
    Action.LinkedBy W L Counterpart (closeRun call h d) (EffectHandlers.closeRun call' h' d') := by
  refine (note _ _ _ _).bind fun M _ _ hLM _ => ?_
  exact (finish hcall h (hh.mono hLM) (hd.state.mono hLM)).map fun N o o' hMN ho =>
    ((hd.value.mono hLM).mono hMN).result ho

theorem run {s s' : Settings} (hs : W.Fits s s') (hcall : CallsLinked W call call')
    (hc : Counterpart L c c') (hh : Counterpart L h h') :
    Action.LinkedBy W L Counterpart (run s call c h) (EffectHandlers.run s' call' c' h') := by
  refine (checkProvided hc.requires hh).bind fun M _ _ hLM _ => ?_
  refine (openRun hcall (hh.mono hLM)).bind fun N state state' hMN hstate => ?_
  have hLN : L ≤ N := Link.le_trans hLM hMN
  have hoffer {N' : Link} {state state' : Value} {e e' : Effect} (hNN : N ≤ N')
      (hs : Counterpart N' state state') (he : Counterpart N' e e') :=
    offer hcall h (hh.mono (Link.le_trans hLN hNN)) hs he
  refine (drive hs hoffer hs.enough 0 0 (Link.le_refl N) hstate (hc.mono hLN).chain).bind
    fun N' d d' hNN hd => ?_
  exact closeRun hcall (hh.mono (Link.le_trans hLN hNN)) hd

/-! ### Operations -/

section

variable {s s' : Settings} {a a' b b' d d' : Value}

theorem newHandler {make make' : Nat → Handler}
    (h : ∀ {M id id'}, L ≤ M → M.ids id = some id' →
      Handler.Shape (Counterpart M) (M.ids · = some ·) (make id) (make' id')) :
    Action.LinkedBy W L Counterpart (newHandler make) (EffectHandlers.newHandler make') :=
  fresh.map fun _ _ _ hLM hid => (Counterpart.ofShape (h hLM hid)).handler

theorem pairOf (hh : Counterpart L h h') {g g' : Handler} (hg : Counterpart L g g') :
    Action.LinkedBy W L Counterpart (Handler.pairOf h g) (Handler.pairOf h' g') := by
  unfold Handler.pairOf
  rw [hh.handlerCapabilities, hg.handlerCapabilities]
  dsimp only
  split
  · exact fresh.map fun M id id' hLM hid => .ofShape (.pair hid (hh.mono hLM) (hg.mono hLM))
  · exact .fail (.failure fun _ => ⟨trivial, rfl⟩)

theorem nest {hs hs' : List Handler} (hhs : Counterpart L hs hs') :
    Action.LinkedBy W L Counterpart (Handler.nest hs) (Handler.nest hs') := by
  induction hs generalizing hs' with
  | nil =>
    obtain rfl := hhs.nil_left
    exact .fail (.failure fun _ => ⟨trivial, rfl⟩)
  | cons h hs ih =>
    obtain ⟨h', hs', rfl, hh, hrest⟩ := hhs.cons_left
    cases hs with
    | nil =>
      obtain rfl := hrest.nil_left
      exact .pure hh
    | cons g hs =>
      have hnest := ih hrest
      obtain ⟨g', hs', rfl, -, -⟩ := hrest.cons_left
      exact hnest.bind fun M x x' hLM hx => pairOf (hh.mono hLM) hx

theorem combine {hs hs' : List Handler} (hhs : Counterpart L hs hs') :
    Action.LinkedBy W L Counterpart (Handler.combine hs) (Handler.combine hs') :=
  (nest hhs).bind fun _ _ _ _ hh => (note _ _ _ _).map fun _ _ _ hMN _ => hh.mono hMN

theorem handlerNone (o : HandlerOp) :
    Action.LinkedBy W L Counterpart (o.apply s call []) (o.apply s' call' []) := by
  cases o
  case collector => exact newHandler fun _ hid => .collector hid
  case emitter =>
    exact newHandler fun _ hid => .emitter hid (Counterpart.text _) (Counterpart.text _)
  case transcript => exact newHandler fun _ hid => .transcript hid Counterpart.nil
  case store => exact newHandler fun _ hid => .store hid Counterpart.nil
  case counter => exact newHandler fun _ hid => .counter hid
  case combine => exact (combine .nil).map fun _ _ _ _ hh => hh.handler
  case declined => exact .pure .declined
  all_goals exact arity

theorem handlerOne (hcall : CallsLinked W call call') (o : HandlerOp) (ha : Counterpart L a a') :
    Action.LinkedBy W L Counterpart (o.apply s call [a]) (o.apply s' call' [a']) := by
  cases o
  case emitter =>
    exact newHandler fun hLM hid => .emitter hid (ha.mono hLM) (Counterpart.text _)
  case transcript =>
    exact (ofExcept ha.items).bind fun M xs xs' _ hxs =>
      newHandler fun hMN hid => .transcript hid (hxs.mono hMN)
  case stream =>
    have htext {M : Link} (t : String) : Action.LinkedBy W M Counterpart
        (EffectHandlers.newSource t >>= fun n => EffectHandlers.newHandler (.stream · n))
        (EffectHandlers.newSource t >>= fun n => EffectHandlers.newHandler (.stream · n)) :=
      (newSource t).bind fun N n n' _ hn => newHandler fun _ hid => hn ▸ .stream n hid
    cases Value.shape ha with
    | null => exact newHandler fun _ hid => .stream _ hid
    | text t => exact htext t
    | _ => exact misuse _
  case store =>
    cases Value.shape ha with
    | dict hm => exact newHandler fun hLM hid => .store hid (hm.mono hLM)
    | frozen hm => exact newHandler fun hLM hid => .store hid (hm.mono hLM)
    | _ =>
      simp only [HandlerOp.apply, ha.isTrue]
      split
      · exact misuse _
      · exact newHandler fun _ hid => .store hid Counterpart.nil
  case recorder =>
    refine (asProvider ha).bind fun M h h' _ hh => ?_
    refine newJournal.bind fun N n n' hMN hn => ?_
    subst hn
    exact newHandler fun hNN hid => .recorder n hid ((hh.mono hMN).mono hNN)
  case combine =>
    refine (handlersOf (.cons ha .nil)).bind fun M hs hs' _ hhs => ?_
    exact (combine hhs).map fun _ _ _ _ hh => hh.handler
  case stateOf =>
    cases Value.shape ha with
    | handled hs hn => exact .pure hs
    | _ => exact misuse _
  case nextOf =>
    cases Value.shape ha with
    | handled hs hn => exact .pure hn
    | _ => exact misuse _
  case first =>
    cases Value.shape ha with
    | handler hh =>
      cases Handler.shape hh with
      | pair _ hfirst hsecond => exact .pure hfirst.handler
      | _ => exact misuse _
    | _ => exact misuse _
  case second =>
    cases Value.shape ha with
    | handler hh =>
      cases Handler.shape hh with
      | pair _ hfirst hsecond => exact .pure hsecond.handler
      | _ => exact misuse _
    | _ => exact misuse _
  case capabilities =>
    refine (asHandler "caps" ha).map fun M h h' _ hh => ?_
    rw [hh.handlerCapabilities]
    exact .capabilities _
  case calls =>
    cases Value.shape ha with
    | handler hh =>
      cases Handler.shape hh with
      | recorder n _ _ => exact (journalEntries n).map fun _ _ _ _ hvs => hvs.list
      | _ => exact failType ha (.noMember · "calls") fun _ => .failure fun _ => ⟨trivial, rfl⟩
    | _ => exact failType ha (.noMember · "calls") fun _ => .failure fun _ => ⟨trivial, rfl⟩
  case start => exact (asHandler "start" ha).bind fun M h h' _ hh => start hcall h hh
  all_goals exact arity

theorem handlerTwo (hs : W.Fits s s') (hcall : CallsLinked W call call') (o : HandlerOp)
    (ha : Counterpart L a a') (hb : Counterpart L b b') :
    Action.LinkedBy W L Counterpart (o.apply s call [a, b]) (o.apply s' call' [a', b']) := by
  cases o
  case emitterFor =>
    exact newHandler fun hLM hid => .emitter hid (ha.mono hLM) (hb.mono hLM)
  case combine =>
    refine (handlersOf (.cons ha (.cons hb .nil))).bind fun M hs hs' _ hhs => ?_
    exact (combine hhs).map fun _ _ _ _ hh => hh.handler
  case pair =>
    refine (asProvider ha).bind fun M h h' hLM hh => ?_
    refine (asProvider (hb.mono hLM)).bind fun N g g' hMN hg => ?_
    exact (pairOf (hh.mono hMN) hg).map fun _ _ _ _ hx => hx.handler
  case runChain =>
    refine (asChain "run" ha).bind fun M c c' hLM hc => ?_
    refine (asProvider (hb.mono hLM)).bind fun N h h' hMN hh => ?_
    exact run hs hcall (hc.mono hMN) hh
  case check =>
    refine (asChain "run" ha).bind fun M c c' hLM hc => ?_
    refine (asProvider (hb.mono hLM)).bind fun N h h' hMN hh => ?_
    exact (checkProvided (hc.mono hMN).requires hh).map fun _ _ _ _ _ => .null
  case runResult => exact .pure (ha.result hb)
  case handled => exact .pure (ha.handled hb)
  case finish =>
    exact (asHandler "finish" ha).bind fun M h h' hLM hh => finish hcall h hh (hb.mono hLM)
  case stream => cases Value.shape ha <;> exact arity
  all_goals exact arity

theorem handlerMore (hcall : CallsLinked W call call') (o : HandlerOp)
    (ha : Counterpart L a a') (hb : Counterpart L b b') (hd : Counterpart L d d')
    (hvs : Counterpart L vs vs') :
    Action.LinkedBy W L Counterpart (o.apply s call (a :: b :: d :: vs))
      (o.apply s' call' (a' :: b' :: d' :: vs')) := by
  cases o
  case combine =>
    refine (handlersOf (.cons ha (.cons hb (.cons hd hvs)))).bind fun M hs hs' _ hhs => ?_
    exact (combine hhs).map fun _ _ _ _ hh => hh.handler
  case offer =>
    cases vs with
    | nil =>
      obtain rfl := hvs.nil_left
      refine (asHandler "try_step" ha).bind fun M h h' hLM hh => ?_
      refine (asEffect "try_step" (hd.mono hLM)).bind fun N e e' hMN he => ?_
      exact offer hcall h (hh.mono hMN) ((hb.mono hLM).mono hMN) he
    | cons x vs =>
      obtain ⟨x', vs', rfl, -, -⟩ := hvs.cons_left
      exact arity
  case stream => cases Value.shape ha <;> exact arity
  all_goals exact arity

theorem handlerOp (hs : W.Fits s s') (hcall : CallsLinked W call call') (o : HandlerOp)
    (hvs : Counterpart L vs vs') :
    Action.LinkedBy W L Counterpart (o.apply s call vs) (o.apply s' call' vs') := by
  match vs with
  | [] =>
    obtain rfl := hvs.nil_left
    exact handlerNone o
  | [a] =>
    obtain ⟨a', vs', rfl, ha, hvs⟩ := hvs.cons_left
    obtain rfl := hvs.nil_left
    exact handlerOne hcall o ha
  | [a, b] =>
    obtain ⟨a', vs', rfl, ha, hvs⟩ := hvs.cons_left
    obtain ⟨b', vs', rfl, hb, hvs⟩ := hvs.cons_left
    obtain rfl := hvs.nil_left
    exact handlerTwo hs hcall o ha hb
  | a :: b :: d :: vs =>
    obtain ⟨a', vs', rfl, ha, hvs⟩ := hvs.cons_left
    obtain ⟨b', vs', rfl, hb, hvs⟩ := hvs.cons_left
    obtain ⟨d', vs', rfl, hd, hvs⟩ := hvs.cons_left
    exact handlerMore hcall o ha hb hd hvs

/-- Every operation of the library does the same on counterparts. -/
theorem op (hs : W.Fits s s') (hcall : CallsLinked W call call') (o : Op)
    (hvs : Counterpart L vs vs') :
    Action.LinkedBy W L Counterpart (o.apply s call vs) (o.apply s' call' vs') := by
  cases o with
  | data o => exact dataOp hcall o hvs
  | effect o => exact effectOp hcall o hvs
  | chain o => exact chainOp hcall o hvs
  | handler o => exact handlerOp hs hcall o hvs

end

end Action.LinkedBy

end EffectHandlers
