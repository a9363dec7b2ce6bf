/-
EffectHandlers/Proofs/Isolation.lean

Combined handlers do not see each other.

Simple handlers are combined in any shape.  An effect belongs to the
leftmost of them that interprets requests of its kind (`Shape.owner`), also
if others would accept it.  Each step of a drive is a step of the owner of
the effect in its own state, and no other state changes.  By induction on
the drive, the state of every handler is the one that it comes to alone,
through the effects that belong to it (`drive_stepsThrough`).

A handler is started, makes steps and finishes somewhere in the run, in
worlds that others have changed.  If its next state depends on nothing but
its state and the request (`Handler.StateDetermined`), as it does for the
handlers of the library, it does not matter in which worlds that happens
(`Handler.StepsThrough.unique`).

Main result: `run_isolated`.
-/
import EffectHandlers.Proofs.Arrangement
import EffectHandlers.Proofs.Meaning

namespace EffectHandlers

variable {ι : Type}

/-! ### Owners -/

/-- The handler that an effect belongs to: the leftmost one that interprets requests of its kind. -/
def Shape.owner (kinds : ι → Kind) (t : Shape ι) (e : Effect) : Option ι :=
  t.leaves.find? fun i => e.request.isA (kinds i)

/-- The effects that belong to one handler, in order. -/
def Shape.owned [DecidableEq ι] (kinds : ι → Kind) (t : Shape ι) (i : ι) (es : List Effect) :
    List Effect :=
  es.filter fun e => t.owner kinds e = some i

/-- The handler that takes an effect is the one that it belongs to. -/
theorem find_of_offerEach {call : Call} {hs : ι → Handler} {kinds : ι → Kind} {σ : ι → Value}
    {e : Effect} {is : List ι} (hsimple : ∀ i ∈ is, (hs i).Simple (kinds i)) {i : ι}
    {state next : Value} {w w' : World}
    (h : offerEach call hs σ e is w = .value (some (i, state, next)) w') :
    is.find? (fun i => e.request.isA (kinds i)) = some i ∧
      (hs i).offer call (σ i) e w = .value (.handled state next) w' := by
  induction is with
  | nil => cases h
  | cons j is ih =>
    have hj := hsimple j List.mem_cons_self
    rw [offerEach_cons] at h
    cases hk : e.request.isA (kinds j) with
    | true =>
      obtain ⟨v, w₁, hv, h⟩ := Action.bind_eq_value.mp h
      obtain ⟨state', next', rfl⟩ := hj.offer_of_kind hk hv
      cases h
      exact ⟨List.find?_cons_of_pos hk, hv⟩
    | false =>
      rw [hj.offer_of_other hk] at h
      obtain ⟨hfind, htaken⟩ := ih (fun k hk => hsimple k (List.mem_cons_of_mem _ hk)) h
      exact ⟨(List.find?_cons_of_neg (by simp [hk])).trans hfind, htaken⟩

/-! ### One handler alone -/

namespace Handler

/-- A handler is offered effects one after the other and takes them all; what comes of the state. -/
inductive StepsThrough (call : Call) (h : Handler) : List Effect → Value → Value → Prop
  | nil (state : Value) : StepsThrough call h [] state state
  | cons {e : Effect} {es : List Effect} {state state' state'' next : Value} {w w' : World}
      (takes : h.offer call state e w = .value (.handled state' next) w')
      (others : StepsThrough call h es state' state'') :
      StepsThrough call h (e :: es) state state''

/-- The next state of a handler depends on nothing but its state and the request, for requests with
a property. -/
def StateDetermined (call : Call) (h : Handler) (P : Request → Prop) : Prop :=
  ∀ {state s s' n n' : Value} {e e' : Effect} {w w' v v' : World}, e'.request = e.request →
    P e.request → h.offer call state e w = .value (.handled s n) w' →
    h.offer call state e' v = .value (.handled s' n') v' → s = s'

/-- What a handler gives alone: it is started, takes some effects and finishes. -/
def GivesAlone (call : Call) (h : Handler) (es : List Effect) (o : Value) : Prop :=
  ∃ first last u u' v v', h.start call u = .value first u' ∧ StepsThrough call h es first last ∧
    h.finish call last v = .value o v'

variable {call : Call} {h : Handler} {P : Request → Prop}

/-- **The state that a handler comes to alone is determined by the requests.** -/
theorem StepsThrough.unique (hdetermined : h.StateDetermined call P) {es es' : List Effect}
    {state s s' : Value} (hP : ∀ e ∈ es, P e.request)
    (hsame : es'.map Effect.request = es.map Effect.request)
    (first : StepsThrough call h es state s) (second : StepsThrough call h es' state s') :
    s = s' := by
  induction first generalizing es' with
  | nil state =>
    cases second with
    | nil => rfl
    | cons => cases hsame
  | cons takes _ ih =>
    cases second with
    | nil => cases hsame
    | cons takes' others' =>
      obtain ⟨hrequest, hsame⟩ := List.cons_eq_cons.mp hsame
      have hstate := hdetermined hrequest (hP _ List.mem_cons_self) takes takes'
      subst hstate
      apply ih ?_ hsame others'
      intro e he
      exact hP e (List.mem_cons_of_mem _ he)

/-- A handler that took no effects gives what it makes of its fresh state. -/
theorem GivesAlone.of_nil {o : Value} (hgives : h.GivesAlone call [] o) :
    ∃ state u u' v v', h.start call u = .value state u' ∧ h.finish call state v = .value o v' := by
  obtain ⟨first, last, u, u', v, v', hstart, hsteps, hfinish⟩ := hgives
  cases hsteps
  exact ⟨first, u, u', v, v', hstart, hfinish⟩

end Handler

/-! ### The handlers of the library -/

/-- A request says all that a step needs: if it is to modify, then by a function that gives one
value for one argument. -/
def Request.Determined (call : Call) : Request → Prop
  | .modify _ f => ∀ old a b w w' v v', call.value f [old] w = .value a w' →
    call.value f [old] v = .value b v' → a = b
  | _ => True

/-- What does not depend on the world is the same in every world. -/
theorem Action.ofExcept_unique {α : Type} {x : Except Failure α} {a b : α} {w w' v v' : World}
    (first : Action.ofExcept x w = .value a w') (second : Action.ofExcept x v = .value b v') :
    a = b := by
  cases x with
  | error f => cases first
  | ok c =>
    cases first
    cases second
    rfl

/-- What is made of it is the same, too. -/
theorem Action.ofExcept_pure_unique {α β : Type} {x : Except Failure α} {g : α → β} {a b : β}
    {w w' v v' : World}
    (first : (do return g (← Action.ofExcept x) : Action β) w = .value a w')
    (second : (do return g (← Action.ofExcept x) : Action β) v = .value b v') : a = b := by
  obtain ⟨c, _, hc, first⟩ := Action.bind_eq_value.mp first
  obtain ⟨d, _, hd, second⟩ := Action.bind_eq_value.mp second
  have hsame := Action.ofExcept_unique hc hd
  cases first
  cases second
  rw [hsame]

/-- Two steps lead to the same state if both are made. -/
def SameState (x y : Action (Value × Value)) : Prop :=
  ∀ (p q : Value × Value) (w w' v v' : World), x w = .value p w' → y v = .value q v' → p.1 = q.1

namespace SameState

/-- What is done before two steps may tell them apart, but not by what they depend on. -/
theorem bind {α β : Type} {Q : α → β → Prop} {x : Action α} {y : Action β}
    {f : α → Action (Value × Value)} {g : β → Action (Value × Value)}
    (h : ∀ a b w w' v v', x w = .value a w' → y v = .value b v' → Q a b)
    (hnext : ∀ a b, Q a b → SameState (f a) (g b)) : SameState (x >>= f) (y >>= g) := by
  intro p q w w' v v' hx hy
  obtain ⟨a, w₁, ha, hx⟩ := Action.bind_eq_value.mp hx
  obtain ⟨b, v₁, hb, hy⟩ := Action.bind_eq_value.mp hy
  exact hnext a b (h a b w w₁ v v₁ ha hb) p q w₁ w' v₁ v' hx hy

theorem ofExcept {α : Type} (x : Except Failure α) {f g : α → Action (Value × Value)}
    (hnext : ∀ a, SameState (f a) (g a)) :
    SameState (Action.ofExcept x >>= f) (Action.ofExcept x >>= g) :=
  bind (fun _ _ _ _ _ _ => Action.ofExcept_unique) fun a _ hab => hab ▸ hnext a

theorem fail_left (f : Failure) (y : Action (Value × Value)) : SameState (Action.fail f) y := by
  intro p q w w' v v' hx
  cases hx

theorem fail_right (x : Action (Value × Value)) (f : Failure) : SameState x (Action.fail f) := by
  intro p q w w' v v' _ hy
  cases hy

/-- What is done before may differ if nothing of it gets into the state. -/
theorem after {α β : Type} (x : Action α) (y : Action β) {f : α → Action (Value × Value)}
    {g : β → Action (Value × Value)} (hnext : ∀ a b, SameState (f a) (g b)) :
    SameState (x >>= f) (y >>= g) :=
  bind (Q := fun _ _ => True) (fun _ _ _ _ _ _ _ _ => trivial) fun a b _ => hnext a b

/-- The state is given before the program goes on. -/
theorem answered (state : Value) (x y : Action Value) :
    SameState (x >>= fun n => pure (state, n)) (y >>= fun n => pure (state, n)) :=
  after x y fun a b p q w w' v v' hp hq => by
    cases hp
    cases hq
    rfl

end SameState

namespace Handler

variable {call : Call} (r : Request) (ss ss' : List Stage)

theorem sameState_collectorStep (log : Value) :
    SameState (collectorStep call log ⟨r, ss⟩) (collectorStep call log ⟨r, ss'⟩) :=
  .ofExcept _ fun _ => .answered _ _ _

theorem sameState_emitterStep (level component count : Value) :
    SameState (emitterStep call level component count ⟨r, ss⟩)
      (emitterStep call level component count ⟨r, ss'⟩) :=
  .ofExcept _ fun _ => .ofExcept _ fun _ => .after _ _ fun _ _ => .after _ _ fun _ _ =>
    .ofExcept _ fun _ => .answered _ _ _

theorem sameState_transcriptStep (given : Nat) (console : Value) :
    SameState (transcriptStep call given console ⟨r, ss⟩)
      (transcriptStep call given console ⟨r, ss'⟩) := by
  refine .ofExcept _ fun _ => ?_
  cases r with
  | writeLine line => exact .ofExcept _ fun _ => .answered _ _ _
  | readLine =>
    refine .ofExcept _ fun line => ?_
    cases line with
    | none => exact .fail_left _ _
    | some line => exact .answered _ _ _
  | _ => exact .fail_left _ _

theorem sameState_streamStep (source : Nat) (count : Value) :
    SameState (streamStep call source count ⟨r, ss⟩) (streamStep call source count ⟨r, ss'⟩) := by
  cases r with
  | writeLine line =>
    exact .ofExcept _ fun _ => .after _ _ fun _ _ => .after _ _ fun _ _ => .ofExcept _ fun _ =>
      .answered _ _ _
  | readLine =>
    -- The lines that are read may differ; the state is the number of lines written.
    refine .after _ _ fun line line' => ?_
    split
    · exact .fail_left _ _
    · split
      · exact .fail_right _ _
      · exact .answered _ _ _
  | _ => exact .fail_left _ _

theorem sameState_storeStep (state : Value) (hr : r.Determined call) :
    SameState (storeStep call state ⟨r, ss⟩) (storeStep call state ⟨r, ss'⟩) := by
  cases r with
  | get k => exact .ofExcept _ fun _ => .answered _ _ _
  | put k v => exact .ofExcept _ fun _ => .answered _ _ _
  | modify k f =>
    refine .ofExcept _ fun old =>
      .bind (fun a b w w' v v' => hr old a b w w' v v') fun a b hab => ?_
    subst hab
    exact .ofExcept _ fun _ => .answered _ _ _
  | _ => exact .fail_left _ _

theorem sameState_counterStep (total : Value) :
    SameState (counterStep call total ⟨r, ss⟩) (counterStep call total ⟨r, ss'⟩) :=
  .ofExcept _ fun _ => .ofExcept _ fun _ => .answered _ _ _

/-- The results of a collector and of a transcript are functions of their states. -/
theorem collectorFinish_unique {log o o' : Value} {w w' v v' : World}
    (first : collectorFinish log w = .value o w') (second : collectorFinish log v = .value o' v') :
    o = o' :=
  Action.ofExcept_pure_unique first second

theorem transcriptFinish_unique {console o o' : Value} {w w' v v' : World}
    (first : transcriptFinish console w = .value o w')
    (second : transcriptFinish console v = .value o' v') : o = o' := by
  obtain ⟨lines, _, hlines, first⟩ := Action.bind_eq_value.mp first
  obtain ⟨lines', _, hlines', second⟩ := Action.bind_eq_value.mp second
  have hsame := Action.ofExcept_unique hlines hlines'
  subst hsame
  exact Action.ofExcept_pure_unique first second

/-- **The state of a handler of the library depends on nothing but the requests.** -/
theorem Shipped.stateDetermined {h : Handler} (hs : h.Shipped) (call : Call) :
    h.StateDetermined call (Request.Determined call) := by
  intro state _ _ _ _ e e' _ _ _ _ same hr first second
  -- The two effects differ in what comes after the answer only.
  obtain ⟨r, ss⟩ := e
  obtain ⟨r', ss'⟩ := e'
  cases same
  cases hs with
  | collector id =>
    exact sameState_collectorStep r ss ss' state _ _ _ _ _ _ (whenKind_handled first)
      (whenKind_handled second)
  | emitter id level component =>
    exact sameState_emitterStep r ss ss' level component state _ _ _ _ _ _ (whenKind_handled first)
      (whenKind_handled second)
  | transcript id lines =>
    exact sameState_transcriptStep r ss ss' lines.length state _ _ _ _ _ _ (whenKind_handled first)
      (whenKind_handled second)
  | stream id source =>
    exact sameState_streamStep r ss ss' source state _ _ _ _ _ _ (whenKind_handled first)
      (whenKind_handled second)
  | store id initial =>
    exact sameState_storeStep r ss ss' state hr _ _ _ _ _ _ (whenKind_handled first)
      (whenKind_handled second)
  | counter id =>
    exact sameState_counterStep r ss ss' state _ _ _ _ _ _ (whenKind_handled first)
      (whenKind_handled second)

/-- What a handler of the library gives alone depends on nothing but the requests. -/
theorem Shipped.givesAlone_unique {h : Handler} (hs : h.Shipped) {call : Call}
    {es es' : List Effect} {o o' : Value} (hes : ∀ e ∈ es, e.request.Determined call)
    (hsame : es'.map Effect.request = es.map Effect.request)
    (first : h.GivesAlone call es o) (second : h.GivesAlone call es' o') : o = o' := by
  obtain ⟨s, l, _, _, _, _, hstart, hsteps, hfinish⟩ := first
  obtain ⟨s', l', _, _, _, _, hstart', hsteps', hfinish'⟩ := second
  have hstarts : s = s' := by
    cases hs <;> (cases hstart; cases hstart'; rfl)
  subst hstarts
  have hlasts := StepsThrough.unique (hs.stateDetermined call) hes hsame hsteps hsteps'
  subst hlasts
  cases hs with
  | collector id => exact collectorFinish_unique hfinish hfinish'
  | transcript id lines => exact transcriptFinish_unique hfinish hfinish'
  | _ =>
    cases hfinish
    cases hfinish'
    rfl

end Handler

/-! ### Drives -/

section

variable [DecidableEq ι] {s : Settings} {call : Call} {hs : ι → Handler} {kinds : ι → Kind}
  {t : Shape ι} {A : Handler}

/-- One more effect is one more step of its owner, and of nobody else. -/
theorem stepsThrough_owned {i j : ι} {e : Effect} {es : List Effect} {σ σ' : ι → Value}
    {state next : Value} {w w' : World} (howner : t.owner kinds e = some i)
    (htakes : (hs i).offer call (σ i) e w = .value (.handled state next) w')
    (hrest : (hs j).StepsThrough call (t.owned kinds j es) (Function.update σ i state j) (σ' j)) :
    (hs j).StepsThrough call (t.owned kinds j (e :: es)) (σ j) (σ' j) := by
  by_cases hij : j = i
  · subst hij
    rw [Function.update_self] at hrest
    rw [Shape.owned, List.filter_cons_of_pos (by simp [howner])]
    exact .cons htakes hrest
  · rw [Function.update_of_ne hij] at hrest
    rw [Shape.owned, List.filter_cons_of_neg (by simp [howner, Ne.symm hij])]
    exact hrest

/-- **A drive against a combination takes every handler through the effects that belong to it**, and
every effect that it handles belongs to one of them. -/
theorem drive_stepsThrough (hA : Arranged hs t A) (hn : t.leaves.Nodup)
    (hsimple : ∀ i ∈ t.leaves, (hs i).Simple (kinds i)) (fuel steps : Nat) {σ : ι → Value}
    {next : Value} {w w' : World} {d : Drive}
    (h : drive s (A.offer call) fuel steps (t.nest σ) next w = .value d w') :
    (∀ e ∈ handledBy s (A.offer call) fuel steps (t.nest σ) next w,
      ∃ i ∈ t.leaves, t.owner kinds e = some i) ∧
    ∃ σ', d.state = t.nest σ' ∧ ∀ i, (hs i).StepsThrough call
      (t.owned kinds i (handledBy s (A.offer call) fuel steps (t.nest σ) next w)) (σ i) (σ' i) := by
  induction fuel generalizing steps σ next w with
  | zero =>
    cases next with
    | chain c =>
      cases c with
      | done x r =>
        cases h
        exact ⟨nofun, σ, rfl, fun i => .nil _⟩
      | suspended e r => cases h
    | _ => cases h
  | succ fuel ih =>
    cases next with
    | chain c =>
      cases c with
      | done x r =>
        cases h
        exact ⟨nofun, σ, rfl, fun i => .nil _⟩
      | suspended e r =>
        rw [hA.drive_suspended hn] at h
        obtain ⟨taken, w₁, htaken, h⟩ := Action.bind_eq_value.mp h
        rcases taken with _ | ⟨i, state, next⟩
        · exact (failUnhandled_ne_value _ _ _ _ _ h).elim
        · obtain ⟨_, w₂, hnote, h⟩ := Action.bind_eq_value.mp h
          obtain ⟨howner, htakes⟩ := find_of_offerEach hsimple htaken
          obtain ⟨howned, σ', hσ', hsteps⟩ := ih (steps + 1) h
          rw [hA.handledBy_taken hn htaken hnote]
          -- The owner makes the first step, and the rest is the drive from there.
          refine ⟨?_, σ', hσ', ?_⟩
          · intro e' he'
            rcases List.mem_cons.mp he' with rfl | he'
            · exact ⟨i, List.mem_of_find?_eq_some howner, howner⟩
            · exact howned e' he'
          · intro j
            exact stepsThrough_owned howner htakes (hsteps j)
    | _ => cases h

/-! ### Runs -/

omit [DecidableEq ι] in
/-- The parts of a run that succeeds. -/
theorem run_eq_value {c : Chain} {v : Value} {w w' : World} (h : run s call c A w = .value v w') :
    ∃ state d o w₁ w₂ w₃ w₄ w₅,
      (checkProvided c A >>= fun _ => openRun call A) w = .value state w₁ ∧
      A.start call w₂ = .value state w₃ ∧
      drive s (A.offer call) s.maxSteps 0 state (.chain c) w₁ = .value d w₄ ∧
      A.finish call d.state w₅ = .value o w' ∧ v = .result d.value o := by
  rw [run, runBy] at h
  obtain ⟨_, w₂, hcheck, h⟩ := Action.bind_eq_value.mp h
  obtain ⟨state, w₁, hopen, h⟩ := Action.bind_eq_value.mp h
  obtain ⟨d, w₄, hdrive, h⟩ := Action.bind_eq_value.mp h
  obtain ⟨_, w₅, -, h⟩ := Action.bind_eq_value.mp h
  obtain ⟨o, w₆, hfinish, h⟩ := Action.bind_eq_value.mp h
  obtain ⟨rfl, rfl⟩ := Action.pure_eq_value.mp h
  obtain ⟨state', w₃, hstart, hopened⟩ := Action.bind_eq_value.mp hopen
  obtain ⟨_, _, -, hopened⟩ := Action.bind_eq_value.mp hopened
  obtain ⟨rfl, -⟩ := Action.pure_eq_value.mp hopened
  exact ⟨_, d, o, w₁, w₂, w₃, w₄, w₅, by rw [Action.bind_of_value hcheck, hopen], hstart, hdrive,
    hfinish, rfl⟩

end

/-- **Combined handlers do not see each other.**

If the next state of a handler depends on nothing but its state and the request, it does not matter
in which worlds the handler takes effects.  This is so for the handlers of the library; what one of
them gives alone depends on nothing but the requests.

When a run against a combination of simple handlers, in any shape, succeeds, every effect that it
handles belongs to one of them: the leftmost one that interprets requests of its kind.  The result
of each handler is the one that it gives alone when it takes exactly the effects that belong to it,
in order; so a handler that no effect belongs to makes its result of its fresh state. -/
theorem run_isolated [DecidableEq ι] (call : Call) :
    (∀ (h : Handler) P, h.StateDetermined call P → ∀ es es' first last last',
      (∀ e ∈ es, P e.request) → es'.map Effect.request = es.map Effect.request →
      h.StepsThrough call es first last → h.StepsThrough call es' first last' → last = last') ∧
    (∀ h : Handler, h.Shipped → (∃ k, h.Simple k) ∧
      h.StateDetermined call (Request.Determined call) ∧
      ∀ es es' o o', (∀ e ∈ es, e.request.Determined call) →
        es'.map Effect.request = es.map Effect.request → h.GivesAlone call es o →
        h.GivesAlone call es' o' → o = o') ∧
    ∀ (s : Settings) (hs : ι → Handler) (kinds : ι → Kind) (t : Shape ι) (A : Handler),
      Arranged hs t A → t.leaves.Nodup → (∀ i ∈ t.leaves, (hs i).Simple (kinds i)) →
      ∀ c v w w', run s call c A w = .value v w' →
      (∀ e ∈ handledInRun s call c A w, ∃ i ∈ t.leaves, t.owner kinds e = some i) ∧
      ∃ (x : Value) (o : ι → Value), v = .result x (t.nest o) ∧ ∀ i ∈ t.leaves,
        (hs i).GivesAlone call (t.owned kinds i (handledInRun s call c A w)) (o i) ∧
        (t.owned kinds i (handledInRun s call c A w) = [] → ∃ state u u' z z',
          (hs i).start call u = .value state u' ∧
          (hs i).finish call state z = .value (o i) z') := by
  refine ⟨?_, ?_, ?_⟩
  · intro h P hdetermined es es' first last last' hP hsame
    exact Handler.StepsThrough.unique hdetermined hP hsame
  · intro h hshipped
    refine ⟨hshipped.simple, hshipped.stateDetermined call, ?_⟩
    intro es es' o o' hes hsame
    exact hshipped.givesAlone_unique hes hsame
  · intro s hs kinds t A hA hn hsimple c v w w' h
    obtain ⟨state, d, result, w₁, w₂, w₃, w₄, w₅, hopen, hstart, hdrive, hfinish, rfl⟩ :=
      run_eq_value h
    -- The handlers are started one by one, driven together and finished one by one.
    rw [hA.start_eq] at hstart
    obtain ⟨first, rfl, hfirst⟩ := Shape.visit_value hn hstart
    obtain ⟨howned, last, hlast, hsteps⟩ := drive_stepsThrough hA hn hsimple _ _ hdrive
    rw [hlast, hA.finish_eq] at hfinish
    obtain ⟨o, rfl, ho⟩ := Shape.visit_value hn hfinish
    have hhandled : handledInRun s call c A w
        = handledBy s (A.offer call) s.maxSteps 0 (t.nest first) (.chain c) w₁ := by
      rw [handledInRun, hopen]
    rw [← hhandled] at howned hsteps
    refine ⟨howned, d.value, o, rfl, ?_⟩
    intro i hi
    obtain ⟨u, u', hstarts⟩ := hfirst i hi
    obtain ⟨z, z', hfinishes⟩ := ho i hi
    have hgives : (hs i).GivesAlone call (t.owned kinds i (handledInRun s call c A w)) (o i) :=
      ⟨first i, last i, u, u', z, z', hstarts, hsteps i, hfinishes⟩
    refine ⟨hgives, ?_⟩
    intro hnone
    rw [hnone] at hgives
    exact hgives.of_nil

/-- A handler that keeps loud entries only. -/
def alarm : Handler := .custom 1
  ⟨"Alarm", .collector, some .loudLog, .single ⟨"alarm"⟩, none, none, none, none⟩

/-- The alarm, and a collector that would accept loud entries too. -/
def alarmed : Fin 2 → Handler
  | 0 => alarm
  | 1 => .collector 2

/-- The kinds of request that they interpret. -/
def alarmedKinds : Fin 2 → Kind
  | 0 => .loudLog
  | 1 => .log

/-- A loud entry. -/
def loudEntry : Effect :=
  ((Effect.of (.loudLog (.text "fire") (.int 9))).map .lift).map
    (.bind (.always (.perform (.of (.log (.text "a"))))))

/-- The entry that follows. -/
def nextEntry : Effect := (Effect.of (.log (.text "a"))).map .lift

theorem loudEntry_offer (call : Call) (w : World) :
    (Handler.pair 0 alarm (.collector 2)).offer call (.tuple [.null, .null]) loudEntry w
      = .value (.handled (.tuple [.tuple [.text "fire", .null], .null])
          (.chain (.suspended nextEntry (.single ⟨"log"⟩)))) w := by
  have hresume : loudEntry.resume call .null
      = pure (.chain (.suspended nextEntry (.single ⟨"log"⟩))) := by
    rw [loudEntry, Effect.resume_map, Effect.resume_map, Effect.resume_of]
    rfl
  show (((loudEntry.resume call .null >>= _) >>= _) >>= _) w = _
  rw [hresume]
  rfl

theorem nextEntry_offer (call : Call) (w : World) :
    (Handler.pair 0 alarm (.collector 2)).offer call
        (.tuple [.tuple [.text "fire", .null], .null]) nextEntry w
      = .value (.handled (.tuple [.tuple [.text "fire", .null], .tuple [.text "a", .null]])
          (.chain (.done .null ∅))) w := by
  have hresume : nextEntry.resume call .null
      = pure (.chain (.done .null ∅)) := by
    rw [nextEntry, Effect.resume_map, Effect.resume_of]
    rfl
  show (((nextEntry.resume call .null >>= _) >>= _) >>= _) w = _
  rw [hresume]
  rfl

/-- A run in which the alarm takes the loud entry and the collector the other one. -/
theorem run_loudEntry (call : Call) (w : World) :
    (∃ w', run ⟨false, 5⟩ call (.suspended loudEntry (.single ⟨"log"⟩))
        (.pair 0 alarm (.collector 2)) w
      = .value (.result .null (.tuple [.list [.text "fire"], .list [.text "a"]])) w') ∧
    handledInRun ⟨false, 5⟩ call (.suspended loudEntry (.single ⟨"log"⟩))
        (.pair 0 alarm (.collector 2)) w = [loudEntry, nextEntry] := by
  have hdrive (w : World) : drive ⟨false, 5⟩ ((Handler.pair 0 alarm (.collector 2)).offer call) 5 0
      (.tuple [.null, .null]) (.chain (.suspended loudEntry (.single ⟨"log"⟩))) w
      = .value ⟨.null, .tuple [.tuple [.text "fire", .null], .tuple [.text "a", .null]], 2⟩ w := by
    rw [drive_suspended, Action.bind_of_value (loudEntry_offer call w)]
    show drive ⟨false, 5⟩ _ 4 1 _ (.chain (.suspended nextEntry (.single ⟨"log"⟩))) w = _
    rw [drive_suspended, Action.bind_of_value (nextEntry_offer call w)]
    rfl
  have hcheck : checkProvided (.suspended loudEntry (.single ⟨"log"⟩))
      (.pair 0 alarm (.collector 2)) w = .value () w := rfl
  obtain ⟨w₁, hopen⟩ : ∃ w₁, openRun call (.pair 0 alarm (.collector 2)) w
      = .value (.tuple [.null, .null]) w₁ := ⟨_, rfl⟩
  constructor
  · rw [run, runBy, Action.bind_of_value hcheck, Action.bind_of_value hopen,
      Action.bind_of_value (hdrive w₁)]
    exact ⟨_, rfl⟩
  · rw [handledInRun, Action.bind_of_value hcheck, hopen]
    show handledBy _ _ 5 0 _ _ w₁ = _
    rw [handledBy_handled (loudEntry_offer call w₁) rfl,
      handledBy_handled (nextEntry_offer call w₁) rfl, handledBy_done]

/-- The collector would accept the loud entry, but the alarm comes first. -/
theorem run_isolated_alarm :
    ∃ w w', Handler.pairOf alarm (.collector 2) (.initial "")
        = .value (.pair 0 alarm (.collector 2)) w ∧
      run ⟨false, 5⟩ (Callable.meaning ⟨false, 5⟩) (.suspended loudEntry (.single ⟨"log"⟩))
        (.pair 0 alarm (.collector 2)) w
        = .value (.result .null (.tuple [.list [.text "fire"], .list [.text "a"]])) w' ∧
      alarm.GivesAlone (Callable.meaning ⟨false, 5⟩) [loudEntry] (.list [.text "fire"]) ∧
      (Handler.collector 2).GivesAlone (Callable.meaning ⟨false, 5⟩) [nextEntry]
        (.list [.text "a"]) ∧
      (∀ es o, es.map Effect.request = [.log (.text "a")] →
        (Handler.collector 2).GivesAlone (Callable.meaning ⟨false, 5⟩) es o →
        o = .list [.text "a"]) ∧
      ∀ es first last last', es.map Effect.request = [.log (.text "a")] →
        (Handler.collector 2).StepsThrough (Callable.meaning ⟨false, 5⟩) [nextEntry] first last →
        (Handler.collector 2).StepsThrough (Callable.meaning ⟨false, 5⟩) es first last' →
        last = last' := by
  obtain ⟨hstate, hshipped, hruns⟩ := @run_isolated (Fin 2) _ (Callable.meaning ⟨false, 5⟩)
  obtain ⟨w, hw⟩ : ∃ w, Handler.pairOf alarm (.collector 2) (.initial "")
      = .value (.pair 0 alarm (.collector 2)) w := ⟨_, rfl⟩
  obtain ⟨⟨w', hrun⟩, hhandled⟩ := run_loudEntry (Callable.meaning ⟨false, 5⟩) w
  have hA : Arranged alarmed (.pair (.leaf 0) (.leaf 1)) (.pair 0 alarm (.collector 2)) :=
    .pair 0 (.leaf 0) (.leaf 1)
  have hsimple (i : Fin 2) : (alarmed i).Simple (alarmedKinds i) := by
    match i with
    | 0 => exact .custom 1 rfl rfl rfl
    | 1 => exact .collector 2
  obtain ⟨-, x, o, ho, hgives⟩ := hruns ⟨false, 5⟩ alarmed alarmedKinds
    (.pair (.leaf 0) (.leaf 1)) _ hA (by decide) (fun i _ => hsimple i) _ _ w w' hrun
  obtain ⟨-, ho⟩ := Value.result.inj ho
  obtain ⟨ho₀, ho⟩ := List.cons.inj (Value.tuple.inj ho)
  obtain ⟨ho₁, -⟩ := List.cons.inj ho
  rw [hhandled] at hgives
  have halarm := (hgives 0 (by decide)).1
  have hcollector := (hgives 1 (by decide)).1
  rw [Shape.nest] at ho₀ ho₁
  rw [← ho₀] at halarm
  rw [← ho₁] at hcollector
  obtain ⟨-, hdetermined, hunique⟩ := hshipped (.collector 2) (.collector 2)
  have hlog : ∀ e ∈ [nextEntry], e.request.Determined (Callable.meaning ⟨false, 5⟩) := by
    intro e he
    rw [List.mem_singleton.mp he]
    trivial
  refine ⟨w, w', hw, hrun, halarm, hcollector, ?_, ?_⟩
  · intro es o hes ho
    exact (hunique _ _ _ _ hlog hes hcollector ho).symm
  · intro es first last last' hes
    exact hstate _ _ hdetermined _ _ first last last' hlog hes

end EffectHandlers
