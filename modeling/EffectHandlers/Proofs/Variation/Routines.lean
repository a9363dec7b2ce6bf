/-
EffectHandlers/Proofs/Variation/Routines.lean

Calls of programs that vary.

A call that a link mentions has a record in either world: the same
executions, standing in the same places of routines that vary, the same
histories, and the same one live.  Whatever is done for the call on both
sides keeps this.  A routine that is started, sent an answer or made anew
comes to values in the role of the call, and then the call goes on with
chains in that role.

A new call is linked when its records are made.  Of a routine of which
everything is the same, the chains are counterparts; of any other one they
are chains.

Main statements: `Action.LinkedBy.begin` for new calls and
`Action.LinkedBy.resumeCall` for calls that go on.
-/
import EffectHandlers.Proofs.Variation.Statements

namespace EffectHandlers

/-! ### Linked calls -/

/-- Two calls that a link mentions, with the role of what their routines yield. -/
structure Link.Invokes (L : Link) (ρ : Role) (id id' : Nat) : Prop where
  calls : L.calls id = some id'
  role : L.role id = ρ

theorem Link.Invokes.mono {L M : Link} {ρ : Role} {id id' : Nat} (h : L.Invokes ρ id id')
    (hLM : L ≤ M) : M.Invokes ρ id id' where
  calls := hLM.calls _ _ h.calls
  role := by rw [← h.role, Link.role, Link.role, hLM.plain _ _ h.calls]

/-- What a routine yields are counterparts, or chains. -/
theorem Link.Invokes.result {L : Link} {ρ : Role} {id id' : Nat} (h : L.Invokes ρ id id') :
    ρ = .plain ∧ L.plain id = true ∨ ρ = .chain := by
  rw [← h.role, Link.role]
  cases L.plain id with
  | true => exact .inl ⟨rfl, rfl⟩
  | false => exact .inr rfl

theorem Link.Invokes.hasPlain {L : Link} {ρ : Role} {id id' : Nat} (h : L.Invokes ρ id id') :
    ρ.HasPlain := by
  obtain ⟨rfl, -⟩ | rfl := h.result <;> trivial

section

variable {loose : Bool} {L M : Link} {ρ : Role} {w w' : World} {id id' : Nat}

/-- The records of a call. -/
theorem World.LinkedBy.record (hw : w.LinkedBy loose L w') (hid : L.Invokes ρ id id') :
    ∃ i i', w.invocations[id]? = some i ∧ w'.invocations[id']? = some i' ∧
      i.Varies loose L ρ i' := hid.role ▸ hw.records id id' hid.calls

/-- What is done to the records of a call. -/
theorem World.LinkedBy.changeCall (hw : w.LinkedBy loose L w') (hid : L.Invokes ρ id id')
    {f f' : Invocation → Invocation}
    (hf : ∀ i i', i.Varies loose L ρ i' → (f i).Varies loose L ρ (f' i')) :
    (w.changeCall id f).LinkedBy loose L (w'.changeCall id' f') := by
  refine { hw with records := fun n n' hn => ?_ }
  obtain ⟨i, i', hi, hi', hvaries⟩ := hw.records n n' hn
  by_cases hnid : n = id
  · subst hnid
    obtain rfl : n' = id' := Option.some.inj (hn.symm.trans hid.calls)
    rw [hid.role] at hvaries ⊢
    exact ⟨f i, f' i', record_changeCall hi f, record_changeCall hi' f', hf i i' hvaries⟩
  · have hnid' : n' ≠ id' := fun h => hnid (L.calls.inj (h ▸ hn) hid.calls)
    exact ⟨i, i', (record_changeCall_ne w hnid f).trans hi,
      (record_changeCall_ne w' hnid' f').trans hi', hvaries⟩

/-! ### Changes of a record -/

theorem Invocation.Varies.withLive {i i' : Invocation} (h : i.Varies loose L ρ i')
    (l : Option (Nat × Nat)) : (i.withLive l).Varies loose L ρ (i'.withLive l) :=
  { h with live := rfl }

theorem Invocation.Varies.setPosition {i i' : Invocation} (h : i.Varies loose L ρ i') (gen : Nat)
    {p p' : Position} (hp : p.Varies loose L ρ p') :
    (i.setPosition gen p).Varies loose L ρ (i'.setPosition gen p') := by
  refine { h with coroutines := ?_ }
  simp only [Invocation.setPosition, Array.toList_modify]
  exact forall₂_modify h.coroutines gen fun _ _ _ => hp

theorem Invocation.Varies.withReceived {i i' : Invocation} (h : i.Varies loose L ρ i') (gen : Nat)
    (a a' : Value) : (i.withReceived gen a).Varies loose L ρ (i'.withReceived gen a') := by
  refine { h with coroutines := ?_ }
  simp only [Invocation.withReceived, Array.toList_modify]
  exact forall₂_modify h.coroutines gen fun _ _ hc => hc

theorem Invocation.Varies.withHistory {i i' : Invocation} (h : i.Varies loose L ρ i')
    {as as' : List Value} (has : Counterpart L as as') :
    (i.withHistory as).Varies loose L ρ (i'.withHistory as') := by
  refine { h with histories := ?_ }
  simp only [Invocation.withHistory, Array.toList_push]
  exact h.histories.append (.cons has .nil)

theorem Invocation.Varies.withFresh {i i' : Invocation} (h : i.Varies loose L ρ i') :
    i.withFresh.Varies loose L ρ i'.withFresh := by
  obtain ⟨Γ, hbody, henv⟩ := h.routine
  refine { h with coroutines := ?_ }
  simp only [Invocation.withFresh, Array.toList_push]
  exact List.rel_append h.coroutines (.cons (.entry hbody henv) .nil)

theorem Invocation.Varies.coroutineCount {i i' : Invocation} (h : i.Varies loose L ρ i') :
    i'.coroutines.size = i.coroutines.size := h.coroutines.length_eq.symm

theorem Invocation.Varies.historyCount {i i' : Invocation} (h : i.Varies loose L ρ i') :
    i'.histories.size = i.histories.size := h.histories.length

end

/-! ### What a routine comes to -/

/-- What two routines come to, which vary. -/
inductive Advance.Varied (loose : Bool) (ρ : Role) (L : Link) : Advance → Advance → Prop
  | yielded {v v' : Value} (hv : EffectHandlers.Varied loose L ρ v v') :
    Advance.Varied loose ρ L (.yielded v) (.yielded v')
  | returned {v v' : Value} (hv : Counterpart L v v') :
    Advance.Varied loose ρ L (.returned v) (.returned v')

/-- What a routine comes to, and the history that it stands at. -/
def Advance.VariedAt (loose : Bool) (ρ : Role) (L : Link) (p p' : Advance × Nat) : Prop :=
  p.1.Varied loose ρ L p'.1 ∧ p.2 = p'.2

theorem Exit.Varied.advance {loose : Bool} {Γ : Scope} {ρ : Role} {L : Link} {x x' : Exit}
    (h : x.Varied loose Γ ρ L x') : x.advance.Varied loose ρ L x'.advance := by
  cases h with
  | through henv => exact .returned .null
  | yielded hv htarget hrest henv => exact .yielded hv
  | returned hv => exact .returned hv

theorem Exit.Varied.position {loose : Bool} {Γ : Scope} {ρ : Role} {L : Link} {x x' : Exit}
    (h : x.Varied loose Γ ρ L x') : x.position.Varies loose L ρ x'.position := by
  cases h with
  | through henv => exact .finished
  | yielded hv htarget hrest henv => exact .parked htarget hrest henv
  | returned hv => exact .finished

/-- Failures stay the same in outline when they leave a routine. -/
theorem Counterpart.outward {L : Link} {f f' : Failure}
    (h : Counterpart L f.outline f'.outline) :
    Counterpart L (Coroutine.outward f).outline (Coroutine.outward f').outline := by
  have hcomm (f : Failure) : (Coroutine.outward f).outline = Coroutine.outward f.outline := by
    cases f with
    | raised kind v => cases kind <;> rfl
    | refused r => cases r <;> rfl
    | _ => rfl
  rw [hcomm, hcomm]
  refine map Coroutine.outward (fun {N f m} hf => ?_) h
  obtain ⟨hnamed, rfl⟩ := hf
  cases f with
  | raised kind v => cases kind <;> first | exact ⟨hnamed, rfl⟩ | exact ⟨trivial, rfl⟩
  | _ => exact ⟨hnamed, rfl⟩

namespace Action.LinkedBy

open Coroutine Invocation

variable {W : Comparing} {L : Link} {ρ : Role} {id id' : Nat} {eval eval' : Evaluation}
  {call call' : Call}

/-! ### Accesses to the record -/

theorem changeCall (hid : L.Invokes ρ id id') {f f' : Invocation → Invocation}
    (hf : ∀ i i', i.Varies W.loose L ρ i' → (f i).Varies W.loose L ρ (f' i')) :
    Action.LinkedBy W L (Equal Unit) (Action.change fun w => w.changeCall id f)
      (Action.change fun w => w.changeCall id' f') :=
  change fun _ _ hw => hw.changeCall hid hf

theorem recordOf (hid : L.Invokes ρ id id') :
    Action.LinkedBy W L (fun M i i' => i.Varies W.loose M ρ i') (Invocation.recordOf id)
      (Invocation.recordOf id') := by
  intro w w' hw
  obtain ⟨i, i', hi, hi', hvaries⟩ := hw.record hid
  rw [recordOf_apply hi, recordOf_apply hi']
  exact .value (Link.le_refl L) hw hvaries

theorem spawn (hid : L.Invokes ρ id id') :
    Action.LinkedBy W L (Equal Nat) (Invocation.spawn id) (Invocation.spawn id') := by
  intro w w' hw
  obtain ⟨i, i', hi, hi', hvaries⟩ := hw.record hid
  rw [spawn_apply hi, spawn_apply hi']
  exact .value (Link.le_refl L) (hw.changeCall hid fun _ _ h => h.withFresh)
    hvaries.coroutineCount.symm

theorem liveOf (hid : L.Invokes ρ id id') :
    Action.LinkedBy W L (Equal (Option (Nat × Nat))) (Invocation.liveOf id)
      (Invocation.liveOf id') := by
  intro w w' hw
  obtain ⟨i, i', hi, hi', hvaries⟩ := hw.record hid
  rw [liveOf_apply hi, liveOf_apply hi']
  exact .value (Link.le_refl L) hw hvaries.live.symm

theorem setLive (hid : L.Invokes ρ id id') (l : Option (Nat × Nat)) :
    Action.LinkedBy W L (Equal Unit) (Invocation.setLive id l) (Invocation.setLive id' l) :=
  changeCall hid fun _ _ h => h.withLive l

/-- A failure that names nothing. -/
theorem noLiveRoutine {α β : Type} {R : Link → α → β → Prop} :
    Action.LinkedBy W L R (Action.fail .noLiveRoutine) (Action.fail .noLiveRoutine) :=
  .fail (.failure fun _ => ⟨trivial, rfl⟩)

theorem takeLive (hid : L.Invokes ρ id id') :
    Action.LinkedBy W L (Equal Nat) (Invocation.takeLive id) (Invocation.takeLive id') := by
  refine (liveOf hid).bind fun M l l' hLM hl => ?_
  subst hl
  match l with
  | some (gen, _) => exact (setLive (hid.mono hLM) none).map fun _ _ _ _ _ => rfl
  | none => exact noLiveRoutine

theorem answersOf (hid : L.Invokes ρ id id') (h : Nat) :
    Action.LinkedBy W L Counterpart (Invocation.answersOf id h) (Invocation.answersOf id' h) := by
  refine (recordOf hid).bind fun M i i' _ hi => ?_
  rw [← Array.getElem?_toList, ← Array.getElem?_toList]
  exact require (hi.histories.getElem? h) (.failure fun _ => ⟨trivial, rfl⟩)

theorem extendHistory (hid : L.Invokes ρ id id') (h : Nat) {a a' : Value}
    (ha : Counterpart L a a') :
    Action.LinkedBy W L (Equal Nat) (Invocation.extendHistory id h a)
      (Invocation.extendHistory id' h a') := by
  intro w w' hw
  obtain ⟨i, i', hi, hi', hvaries⟩ := hw.record hid
  have hhistory := hvaries.histories.getElem? h
  rw [Array.getElem?_toList, Array.getElem?_toList] at hhistory
  cases has : i.histories[h]? with
  | none =>
    rw [has] at hhistory
    have hnone : i'.histories[h]? = none := by
      generalize i'.histories[h]? = o at hhistory ⊢
      cases counterpart_option.mp hhistory
      rfl
    rw [Invocation.extendHistory, Invocation.extendHistory,
      Action.bind_of_value (recordOf_apply hi), Action.bind_of_value (recordOf_apply hi'), has,
      hnone]
    exact noLiveRoutine w w' hw
  | some as =>
    rw [has] at hhistory
    obtain ⟨as', has', hcounterpart⟩ : ∃ as', i'.histories[h]? = some as' ∧
        Counterpart L as as' := by
      generalize i'.histories[h]? = o at hhistory ⊢
      cases counterpart_option.mp hhistory with
      | some h => exact ⟨_, rfl, h⟩
    rw [extendHistory_apply hi a has, extendHistory_apply hi' a' has']
    exact .value (Link.le_refl L)
      (hw.changeCall hid fun _ _ h => h.withHistory (.cons ha hcounterpart))
      hvaries.historyCount.symm

/-! ### Coroutines -/

theorem receive (hid : L.Invokes ρ id id') (gen : Nat) (a a' : Value) :
    Action.LinkedBy W L (Equal Unit) (Coroutine.receive id gen a)
      (Coroutine.receive id' gen a') :=
  changeCall hid fun _ _ h => h.withReceived gen a a'

theorem standing (hid : L.Invokes ρ id id') (gen : Nat) :
    Action.LinkedBy W L (fun M p p' => p.Varies W.loose M ρ p') (Coroutine.standing id gen)
      (Coroutine.standing id' gen) := by
  refine ask fun w w' hw => ?_
  obtain ⟨i, i', hi, hi', hvaries⟩ := hw.record hid
  rw [hi, hi', Option.bind_some, Option.bind_some, ← Array.getElem?_toList,
    ← Array.getElem?_toList]
  have hfound := forall₂_getElem? hvaries.coroutines gen
  generalize i.coroutines.toList[gen]? = o at hfound ⊢
  generalize i'.coroutines.toList[gen]? = o' at hfound ⊢
  cases hfound with
  | none => exact .finished
  | some hposition => exact hposition

theorem execute (hid : L.Invokes ρ id id') (gen : Nat) {Γ : Scope} {part part' : Action Exit}
    (h : Action.LinkedBy W L (Exit.Varied W.loose Γ ρ) part part') :
    Action.LinkedBy W L (Advance.Varied W.loose ρ) (Coroutine.execute id gen part)
      (Coroutine.execute id' gen part') := by
  have hplace {M : Link} (hM : M.Invokes ρ id id') {w w' : World} {p p' : Position}
      (hp : p.Varies W.loose M ρ p') (hw : w.LinkedBy W.loose M w') :
      (w.setPosition id gen p).LinkedBy W.loose M (w'.setPosition id' gen p') :=
    hw.changeCall hM fun _ _ h => h.setPosition gen hp
  intro w w' hw
  have hpart := h _ _ (hplace hid .running hw)
  unfold Coroutine.execute
  generalize part (w.setPosition id gen .running) = o at hpart ⊢
  generalize part' (w'.setPosition id' gen .running) = o' at hpart ⊢
  cases hpart with
  | value hLM hw hexit =>
    exact .value hLM (hplace (hid.mono hLM) hexit.position hw) hexit.advance
  | failed hLM hw hf => exact .failed hLM (hplace (hid.mono hLM) .finished hw) hf.outward
  | left hb o => exact .left hb _
  | right hb o =>
    cases o <;> exact .right hb _

/-- Failures of a routine that is not there to be sent anything. -/
theorem send (heval : EvaluationLinked W eval eval') (hid : L.Invokes ρ id id') (gen : Nat)
    {a a' : Value} (ha : Counterpart L a a') :
    Action.LinkedBy W L (Advance.Varied W.loose ρ) (Coroutine.send eval id gen a)
      (Coroutine.send eval' id' gen a') := by
  refine (standing hid gen).bind fun M p p' hLM hp => ?_
  cases hp with
  | entry h henv => exact .fail (.failure fun _ => ⟨trivial, rfl⟩)
  | running => exact .fail (.failure fun _ => ⟨trivial, rfl⟩)
  | finished => exact .pure (.returned .null)
  | parked htarget hrest henv =>
    refine (receive (hid.mono hLM) gen a a').bind fun N _ _ hMN _ => ?_
    refine execute ((hid.mono hLM).mono hMN) gen (execFrames_linked heval
      (hrest.imp fun _ _ hf => hf.mono hMN) ?_)
    exact (henv.mono hMN).bindAnswer htarget ((ha.mono hLM).mono hMN)

theorem startRoutine (heval : EvaluationLinked W eval eval') (hid : L.Invokes ρ id id')
    (gen : Nat) :
    Action.LinkedBy W L (Advance.Varied W.loose ρ) (Coroutine.start eval id gen)
      (Coroutine.start eval' id' gen) := by
  refine (standing hid gen).bind fun M p p' hLM hp => ?_
  have hid := hid.mono hLM
  cases hp with
  | entry h henv => exact execute hid gen (h.linked heval henv)
  | running => exact send heval hid gen .null
  | finished => exact send heval hid gen .null
  | parked htarget hrest henv => exact send heval hid gen .null

/-! ### Replay -/

theorem mustYield {x x' : Advance} (h : x.Varied W.loose ρ L x') :
    Action.LinkedBy W L (Equal Unit) (Invocation.mustYield x) (Invocation.mustYield x') := by
  cases h with
  | yielded hv => exact .pure rfl
  | returned hv => exact .fail (.failure fun _ => ⟨trivial, rfl⟩)

theorem replay (heval : EvaluationLinked W eval eval') (hid : L.Invokes ρ id id') (gen : Nat)
    {as as' : List Value} (has : Counterpart L as as') :
    Action.LinkedBy W L (Equal Unit) (Invocation.replay eval id gen as)
      (Invocation.replay eval' id' gen as') := by
  induction as generalizing L as' with
  | nil =>
    obtain rfl := has.nil_left
    exact .pure rfl
  | cons a as ih =>
    obtain ⟨a', as', rfl, ha, has⟩ := has.cons_left
    refine (send heval hid gen ha).bind fun M x x' hLM hx => ?_
    refine (mustYield hx).bind fun N _ _ hMN _ => ?_
    exact ih ((hid.mono hLM).mono hMN) ((has.mono hLM).mono hMN)

theorem rebuild (heval : EvaluationLinked W eval eval') (hid : L.Invokes ρ id id') (h : Nat) :
    Action.LinkedBy W L (Equal Unit) (Invocation.rebuild eval id h)
      (Invocation.rebuild eval' id' h) := by
  refine (answersOf hid h).bind fun M as as' hLM has => ?_
  replace hid := hid.mono hLM
  refine (spawn hid).bind fun N gen gen' hMN hgen => ?_
  subst hgen
  replace hid := hid.mono hMN
  refine (startRoutine heval hid gen).bind fun P x x' hNP hx => ?_
  replace hid := hid.mono hNP
  refine (mustYield hx).bind fun Q _ _ hPQ _ => ?_
  replace hid := hid.mono hPQ
  replace has := ((has.mono hMN).mono hNP).mono hPQ
  refine (replay heval hid gen has.reverse).bind fun R _ _ hQR _ => ?_
  exact setLive (hid.mono hQR) (some (gen, h))

/-! ### Yielding and going on -/

/-- What a routine yields is a chain in the role of what it yields. -/
theorem yieldedChain (hid : L.Invokes ρ id id') {v v' : Value}
    (hv : Varied W.loose L ρ v v') :
    Action.LinkedBy W L (fun M c c' => Varied W.loose M ρ (.chain c) (.chain c'))
      (Invocation.yieldedChain v) (Invocation.yieldedChain v') := by
  have hsame (h : Counterpart L v v') :
      Action.LinkedBy W L (fun M c c' => Varied W.loose M ρ (.chain c) (.chain c'))
        (Invocation.yieldedChain v) (Invocation.yieldedChain v') := by
    cases Value.shape h with
    | effect he => exact .pure (.plain he.perform.chain hid.hasPlain)
    | chain hc => exact .pure (.plain hc.chain hid.hasPlain)
    | _ => exact failType h .notYieldable fun _ => .failure fun _ => ⟨trivial, rfl⟩
  obtain ⟨rfl, -⟩ | rfl := hid.result
  · exact hsame (Varied.plain_iff.mp hv)
  · obtain h | hwaiting := hv.chain_cases
    · exact hsame h
    · obtain ⟨e, e', r, rfl, rfl⟩ := hwaiting.waiting_cases
      exact .pure hv

theorem settle (hid : L.Invokes ρ id id') (h gen : Nat) {a a' : Value} (ha : Counterpart L a a')
    {x x' : Advance} (hx : x.Varied W.loose ρ L x') :
    Action.LinkedBy W L (Advance.VariedAt W.loose ρ) (Invocation.settle id h gen a x)
      (Invocation.settle id' h gen a' x') := by
  cases hx with
  | returned hv => exact .pure ⟨.returned hv, rfl⟩
  | yielded hv =>
    refine (extendHistory hid h ha).bind fun M n n' hLM hn => ?_
    subst hn
    exact (setLive (hid.mono hLM) (some (gen, n))).map fun N _ _ hMN _ =>
      ⟨.yielded ((hv.mono hLM).mono hMN), rfl⟩

theorem feed (heval : EvaluationLinked W eval eval') (hid : L.Invokes ρ id id') (h : Nat)
    {a a' : Value} (ha : Counterpart L a a') :
    Action.LinkedBy W L (Advance.VariedAt W.loose ρ) (Invocation.feed eval id h a)
      (Invocation.feed eval' id' h a') := by
  refine (takeLive hid).bind fun M gen gen' hLM hgen => ?_
  subst hgen
  refine (send heval (hid.mono hLM) gen (ha.mono hLM)).bind fun N x x' hMN hx => ?_
  exact settle ((hid.mono hLM).mono hMN) h gen ((ha.mono hLM).mono hMN) hx

/-- What a routine yields waits for an answer on both sides, or it is finished on both. -/
theorem yielded_cases (hid : L.Invokes ρ id id') {c c' : Chain}
    (hc : Varied W.loose L ρ (.chain c) (.chain c')) :
    (∃ e e' r, c = .suspended e r ∧ c' = .suspended e' r) ∨
      ∃ a a' r, c = .done a r ∧ c' = .done a' r ∧ Counterpart L a a' := by
  have hsame (h : Counterpart L (Value.chain c) (.chain c')) :
      (∃ e e' r, c = .suspended e r ∧ c' = .suspended e' r) ∨
        ∃ a a' r, c = .done a r ∧ c' = .done a' r ∧ Counterpart L a a' := by
    cases Value.shape h with
    | chain hc =>
      cases Chain.shape hc with
      | done r ha => exact .inr ⟨_, _, r, rfl, rfl, ha⟩
      | suspended r he => exact .inl ⟨_, _, r, rfl, rfl⟩
  obtain ⟨rfl, -⟩ | rfl := hid.result
  · exact hsame (Varied.plain_iff.mp hc)
  · obtain h | hwaiting := hc.chain_cases
    · exact hsame h
    · obtain ⟨e, e', r, he, he'⟩ := hwaiting.waiting_cases
      cases he
      cases he'
      exact .inl ⟨e, e', r, rfl, rfl⟩

/-- A chain that a routine yields is continued with the rest of the routine. -/
theorem continued (hid : L.Invokes ρ id id') (h : Nat) {e e' : Effect} {r r' : CapabilitySet}
    (hv : Varied W.loose L ρ (.chain (.suspended e r)) (.chain (.suspended e' r'))) :
    Varied W.loose L ρ (.chain (.suspended (e.map (.bind (.call (.resumption id h)))) r))
      (.chain (.suspended (e'.map (.bind (.call (.resumption id' h)))) r')) := by
  have hresumption : Binder.Varied W.loose L (.call (.resumption id h))
      (.call (.resumption id' h)) := .call (.callable (.resumption h hid.calls))
  obtain ⟨rfl, hplain⟩ | rfl := hid.result
  · cases Value.shape (Varied.plain_iff.mp hv) with
    | chain hc =>
      cases Chain.shape hc with
      | suspended r he =>
        exact .plain (Counterpart.suspended (he.mapStage (.stageBind (.binderCall
          (.resumption ⟨hid.calls, hplain⟩ h)))) r).chain trivial
  · obtain ⟨d, d', hd, hd', hsame⟩ | hwaiting := hv.of_chain.made_cases
    · cases hd
      cases hd'
      cases Chain.shape hsame with
      | suspended r he => exact .chain (.made ((Varied.effect he r).mapBinder hresumption))
    · obtain ⟨e₁, e₁', r₁, h₁, h₁'⟩ := hwaiting.waiting_cases
      cases h₁
      cases h₁'
      exact .chain (.made (hwaiting.mapBinder hresumption))

/-- The call goes on with what its routine comes to. -/
theorem suspend (heval : EvaluationLinked W eval eval') (hid : L.Invokes ρ id id')
    {n m : Nat} (henough : W.Enough n m) {x x' : Advance} (hx : x.Varied W.loose ρ L x') (h : Nat) :
    Action.LinkedBy W L (fun M c c' => Varied W.loose M ρ (.chain c) (.chain c'))
      (Invocation.suspend eval call id n x h) (Invocation.suspend eval' call' id' m x' h) := by
  induction n generalizing L m x x' h with
  | zero =>
    cases hx with
    | returned hv =>
      rw [suspend_returned, suspend_returned]
      exact .pure (.plain hv.finished.chain hid.hasPlain)
    | yielded hv =>
      rw [suspend_yielded, suspend_yielded]
      refine (yieldedChain hid hv).bind fun M c c' hLM hc => ?_
      obtain ⟨e, e', r, rfl, rfl⟩ | ⟨a, a', r, rfl, rfl, -⟩ := yielded_cases (hid.mono hLM) hc
      · exact .pure (continued (hid.mono hLM) h hc)
      · obtain ⟨hW, -⟩ | ⟨hW, rfl⟩ | ⟨_, _, hn, -⟩ := henough.cases
        · exact .exhaustLeft hW _
        · exact .exhaustRight hW _
        · cases hn
  | succ n ih =>
    cases hx with
    | returned hv =>
      rw [suspend_returned, suspend_returned]
      exact .pure (.plain hv.finished.chain hid.hasPlain)
    | yielded hv =>
      rw [suspend_yielded, suspend_yielded]
      refine (yieldedChain hid hv).bind fun M c c' hLM hc => ?_
      obtain ⟨e, e', r, rfl, rfl⟩ | ⟨a, a', r, rfl, rfl, ha⟩ := yielded_cases (hid.mono hLM) hc
      · exact .pure (continued (hid.mono hLM) h hc)
      · obtain ⟨-, hn⟩ | ⟨hW, rfl⟩ | ⟨n', m, hn, rfl⟩ := henough.cases
        · cases hn
        · exact .exhaustRight hW _
        · refine (feed heval (hid.mono hLM) h ha).bind fun N p p' hMN hp => ?_
          obtain ⟨hnext, hh⟩ := hp
          rw [← hh]
          exact ih ((hid.mono hLM).mono hMN) henough.step hnext p.2

/-- **A call that varies goes on from a history**, with a chain in its role. -/
theorem resumeCall (heval : EvaluationLinked W eval eval') (hid : L.Invokes ρ id id')
    {n m : Nat} (henough : W.Enough n m) (h : Nat) {a a' : Value} (ha : Counterpart L a a') :
    Action.LinkedBy W L (fun M c c' => Varied W.loose M ρ (.chain c) (.chain c'))
      (Invocation.resume eval call n id h a) (Invocation.resume eval' call' m id' h a') := by
  have hfed {M : Link} (hLM : L ≤ M) :
      Action.LinkedBy W M (fun M c c' => Varied W.loose M ρ (.chain c) (.chain c'))
        (Invocation.feed eval id h a >>= fun p => Invocation.suspend eval call id n p.1 p.2)
        (Invocation.feed eval' id' h a' >>= fun p =>
          Invocation.suspend eval' call' id' m p.1 p.2) := by
    refine (feed heval (hid.mono hLM) h (ha.mono hLM)).bind fun N p p' hMN hp => ?_
    obtain ⟨hnext, hh⟩ := hp
    rw [← hh]
    exact suspend heval ((hid.mono hLM).mono hMN) henough hnext p.2
  refine (liveOf hid).bind fun M l l' hLM hl => ?_
  subst hl
  cases hstands : standsAt h l with
  | true =>
    rw [if_pos rfl, if_pos rfl]
    exact hfed hLM
  | false =>
    rw [if_neg (by simp), if_neg (by simp)]
    exact (rebuild heval (hid.mono hLM) h).bind fun N _ _ hMN _ => hfed (Link.le_trans hLM hMN)

/-! ### New calls -/

theorem getElem?_push_of_some {α : Type} {as : Array α} {a b : α} {n : Nat} (h : as[n]? = some a) :
    (as.push b)[n]? = some a := by
  rw [Array.getElem?_push, if_neg, h]
  rintro rfl
  simp at h

/-- The records of a new call are linked when they are made. -/
theorem create {Γ : Scope} {body body' : List Stmt} {env env' : Env} (plain : Bool)
    (hρ : ρ = if plain then .plain else .chain) (hbody : stmtsVary W.loose Γ ρ body body')
    (henv : EnvVaried W.loose L Γ env env') :
    Action.LinkedBy W L (fun M n n' => M.Invokes ρ n n') (Invocation.create body env)
      (Invocation.create body' env') := by
  intro w w' hw
  have hnew : L.calls w.invocations.size = none := by
    refine Option.eq_none_iff_forall_ne_some.mpr fun n' h => ?_
    obtain ⟨i, -, hi, -, -⟩ := hw.records _ n' h
    simp at hi
  have hnew' : L.calls.symm w'.invocations.size = none := by
    refine Option.eq_none_iff_forall_ne_some.mpr fun n h => ?_
    obtain ⟨-, i', -, hi', -⟩ := hw.records n _ ((PEquiv.eq_some_iff _).mp h)
    simp at hi'
  let M : Link :=
    { L with
      calls := Link.join L.calls w.invocations.size w'.invocations.size hnew hnew'
      plain := Function.update L.plain w.invocations.size plain }
  have hne {n k : Nat} (hn : L.calls n = some k) : n ≠ w.invocations.size := by
    rintro rfl
    rw [hnew] at hn
    cases hn
  have hLM : L ≤ M := ⟨fun _ _ h => h, fun _ _ h => Link.join_of_some hnew hnew' h,
    fun n k hn => Function.update_of_ne (hne hn) _ _⟩
  have hid : M.Invokes ρ w.invocations.size w'.invocations.size := by
    refine ⟨Link.join_self hnew hnew', ?_⟩
    show (if Function.update L.plain _ _ _ then Role.plain else .chain) = ρ
    rw [Function.update_self, hρ]
  refine .value hLM ⟨hw.ids, hw.cells.mono hLM, hw.sources, hw.journals.mono hLM,
    hw.events.imp fun _ _ he => he.mono hLM, fun n n' hn => ?_⟩ hid
  obtain ⟨rfl, rfl⟩ | hn := Link.join_cases hnew hnew' hn
  · rw [hid.role]
    exact ⟨_, _, Array.getElem?_push_size, Array.getElem?_push_size,
      ⟨Γ, hbody, henv.mono hLM⟩, .nil, .cons .nil .nil, rfl⟩
  · obtain ⟨i, i', hi, hi', hvaries⟩ := hw.records n n' hn
    have hrole : M.role n = L.role n := by
      rw [Link.role, Link.role, hLM.plain n n' hn]
    rw [hrole]
    exact ⟨i, i', getElem?_push_of_some hi, getElem?_push_of_some hi', hvaries.mono hLM⟩

theorem enter (heval : EvaluationLinked W eval eval') {Γ : Scope} {body body' : List Stmt}
    {env env' : Env} (plain : Bool) (hρ : ρ = if plain then .plain else .chain)
    (hbody : stmtsVary W.loose Γ ρ body body') (henv : EnvVaried W.loose L Γ env env') :
    Action.LinkedBy W L (fun M p p' => M.Invokes ρ p.1 p'.1 ∧ p.2.Varied W.loose ρ M p'.2)
      (Invocation.enter eval body env) (Invocation.enter eval' body' env') := by
  refine (create plain hρ hbody henv).bind fun M id id' _ hid => ?_
  refine (spawn hid).bind fun N gen gen' hMN hgen => ?_
  subst hgen
  replace hid := hid.mono hMN
  refine (startRoutine heval hid gen).bind fun P x x' hNP hx => ?_
  replace hid := hid.mono hNP
  cases hx with
  | returned hv => exact .pure ⟨hid, .returned hv⟩
  | yielded hv =>
    exact (setLive hid (some (gen, emptyHistory))).map fun Q _ _ hPQ _ =>
      ⟨hid.mono hPQ, .yielded (hv.mono hPQ)⟩

/-- **A new call of routines that vary** comes to chains in its role. -/
theorem begin (heval : EvaluationLinked W eval eval') {n m : Nat} (henough : W.Enough n m)
    {Γ : Scope} {body body' : List Stmt} {env env' : Env} (plain : Bool)
    (hρ : ρ = if plain then .plain else .chain) (hbody : stmtsVary W.loose Γ ρ body body')
    (henv : EnvVaried W.loose L Γ env env') :
    Action.LinkedBy W L (fun M c c' => Varied W.loose M ρ (.chain c) (.chain c'))
      (Invocation.begin eval call n body env) (Invocation.begin eval' call' m body' env') :=
  (enter heval plain hρ hbody henv).bind fun _ _ _ _ hp =>
    suspend heval hp.1 henough hp.2 emptyHistory

end Action.LinkedBy

end EffectHandlers
