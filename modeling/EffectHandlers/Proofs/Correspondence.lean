/-
EffectHandlers/Proofs/Correspondence.lean

Chains of a call beside nodes of the reference.

On one side is the call of a determinate routine, made from a world `b`; on
the other side the reference of the same routine.  A history of the call
corresponds to one of the reference if their answers are alike and the
reference came to a yield after them (`Corresponds`).  Then the call can be
resumed from it, now and whenever later: if the live coroutine stands
elsewhere, it can be rebuilt.

A chain of the call agrees with what the reference came to (`Agrees`) if
both are finished with values that are alike, or both wait for effects that
are alike, at histories that correspond.

Main results: resumed with answers that are alike, chain and node come to
outcomes that agree (`resume_alike`, `node_alike`), and they agree from the
start (`begin_alike`).
-/
import EffectHandlers.Proofs.Mirror
import EffectHandlers.Proofs.Resumption

namespace EffectHandlers

open Reference

variable {s : Settings} {L : Likeness s} {births : Births} {b w w' u u' : World}
  {body : List Stmt} {env : Env} {id gen h : Nat} {i : Invocation} {history : List Value}
  {a a' : Value}

/-! ### Correspondence -/

/-- A history of a call corresponds to one of the reference. -/
def Corresponds (L : Likeness s) (b : World) (body : List Stmt) (env : Env) (id : Nat) (w : World)
    (h : Nat) (u : World) (history : List Value) : Prop :=
  ∃ i answers, w.invocations[id]? = some i ∧ i.body = body ∧ i.env = env ∧
    i.histories[h]? = some answers ∧
    ∃ w₀ u₀ target rest env', w₀.Grows w ∧ u₀.Grows u ∧ b.Grows u₀ ∧
      L.All w₀ answers u₀ history ∧ Reached s u₀ body env history target rest env'

/-- Two effects that are alike, or that are performed alike. -/
def Likeness.Waits (L : Likeness s) (w : World) (e : Effect) (u : World) (e' : Effect) : Prop :=
  L.same w (.effect e) u (.effect e') ∨
    ∃ f f', e = f.map .lift ∧ e' = f'.map .lift ∧ L.same w (.effect f) u (.effect f')

/-- A chain of a call agrees with what the reference came to. -/
def Agrees (L : Likeness s) (b : World) (body : List Stmt) (env : Env) (id : Nat) (w : World)
    (c : Chain) (u : World) (r : Result) : Prop :=
  match c, r with
  | .done x _, .finished y => L.same w x u y
  | .suspended e _, .pending n =>
    n.body = body ∧ n.env = env ∧ ∃ f h, e = f.map (.bind (.call (.resumption id h))) ∧
      L.Waits w f u n.effect ∧ Corresponds L b body env id w h u n.history
  | _, _ => False

theorem Corresponds.grow (hc : Corresponds L b body env id w h u history) (hw : w.Grows w')
    (hu : u.Grows u') : Corresponds L b body env id w' h u' history := by
  obtain ⟨i, answers, hi, hbody, henv, hh, w₀, u₀, target, rest, env', hw₀, hu₀, hb, hall, hr⟩ := hc
  obtain ⟨j, hj, hij⟩ := hw.records id i hi
  exact ⟨j, answers, hj, hij.body.trans hbody, hij.env.trans henv, hij.histories h answers hh,
    w₀, u₀, target, rest, env', hw₀.trans hw, hu₀.trans hu, hb, hall, hr⟩

theorem Likeness.Waits.grow {e e' : Effect} (h : L.Waits w e u e') (hw : w.Grows w')
    (hu : u.Grows u') : L.Waits w' e u' e' := by
  rcases h with h | ⟨f, f', rfl, rfl, h⟩
  · exact .inl (L.grow h hw hu)
  · exact .inr ⟨f, f', rfl, rfl, L.grow h hw hu⟩

theorem Agrees.grow {c : Chain} {r : Result} (h : Agrees L b body env id w c u r)
    (hw : w.Grows w') (hu : u.Grows u') : Agrees L b body env id w' c u' r := by
  match c, r, h with
  | .done x _, .finished y, h => exact L.grow h hw hu
  | .suspended e _, .pending n, ⟨hbody, henv, f, h, he, hwaits, hc⟩ =>
    exact ⟨hbody, henv, f, h, he, hwaits.grow hw hu, hc.grow hw hu⟩

/-- What a chain declares does not matter. -/
theorem Agrees.declare {c : Chain} {r : Result} (h : Agrees L b body env id w c u r)
    (caps : CapabilitySet) : Agrees L b body env id w (c.declare caps) u r := by
  match c, r, h with
  | .done x _, .finished y, h => exact h
  | .suspended e _, .pending n, h => exact h

/-- Values of one kind that are alike. -/
theorem Advance.Relates.grow {next next' : Advance}
    (h : next.Relates (fun a b => L.same w a u b) next') (hw : w.Grows w') (hu : u.Grows u') :
    next.Relates (fun a b => L.same w' a u' b) next' := by
  match next, next', h with
  | .yielded v, .yielded v', h => exact L.grow h hw hu
  | .returned v, .returned v', h => exact L.grow h hw hu

/-- What relates to a yield is a yield. -/
theorem Exit.yielded_of_relates {R : Value → Value → Prop} {v : Value} {exit : Exit}
    (h : (Advance.yielded v).Relates R exit.advance) :
    ∃ v' target rest env, exit = .yielded v' target rest env := by
  cases exit with
  | yielded v' target rest env => exact ⟨v', target, rest, env, rfl⟩
  | through env => cases h
  | returned v' => cases h

/-! ### Yields -/

/-- Chains that routines yield alike: finished alike, or waiting alike. -/
def Likeness.Chains (L : Likeness s) (w : World) (c : Chain) (u : World) (c' : Chain) : Prop :=
  match c, c' with
  | .done x _, .done y _ => L.same w x u y
  | .suspended e _, .suspended e' _ => L.Waits w e u e'
  | _, _ => False

theorem Likeness.chains_of_same {c : Chain} {v : Value} (h : L.same w (.chain c) u v) :
    ∃ c', v = .chain c' ∧ L.Chains w c u c' := by
  obtain ⟨c', rfl, hc⟩ := L.chain h
  refine ⟨c', rfl, ?_⟩
  match c, c', hc with
  | .done x _, .done y _, hc => exact hc
  | .suspended e _, .suspended e' _, hc => exact .inl hc

/-- What routines yield alike is refused alike or is chains that are alike. -/
theorem yieldedChain_alike {v v' : Value} (h : L.same w v u v') :
    (Invocation.yieldedChain v w).Alike (fun w' c u' c' => w' = w ∧ u' = u ∧ L.Chains w c u c')
      (Invocation.yieldedChain v' u) := by
  have hrefused : (∀ e, v ≠ .effect e) → (∀ c, v ≠ .chain c) →
      (Action.fail (.notYieldable v.typeName) w : Outcome Chain).Alike
        (fun w' c u' c' => w' = w ∧ u' = u ∧ L.Chains w c u c')
        (Invocation.yieldedChain v' u) := by
    intro he hc
    cases v'
    case effect e' =>
      obtain ⟨e, hv, -⟩ := L.effect (L.symm h)
      exact absurd hv (he e)
    case chain c' =>
      obtain ⟨c, hv, -⟩ := L.chain (L.symm h)
      exact absurd hv (hc c)
    all_goals
      rw [L.typeName h]
      exact .failed (.refl _)
  cases v
  case effect e =>
    obtain ⟨e', rfl, -⟩ := L.effect h
    exact .value ⟨rfl, rfl, .inr ⟨e, e', rfl, rfl, h⟩⟩
  case chain c =>
    obtain ⟨c', rfl, hc⟩ := L.chains_of_same h
    exact .value ⟨rfl, rfl, hc⟩
  all_goals exact hrefused (fun _ he => by cases he) (fun _ hc => by cases hc)

/-! ### Suspending -/

/-- A call and its reference that have come to something alike are suspended alike. -/
def Continues (L : Likeness s) (b : World) (body : List Stmt) (env : Env) (id : Nat) (call : Call)
    (fuel : Nat) : Prop :=
  ∀ {births : Births} {next next' : Advance} {w u : World} {h : Nat} {history : List Value},
    KeptFrom s births w → births id = b → Kept s u → b.Grows u →
    next.Relates (fun a b => L.same w a u b) next' →
    (∀ v, next = .yielded v → Corresponds L b body env id w h u history ∧
      ∃ gen i, w.invocations[id]? = some i ∧ i.live = some (gen, h)) →
    (Invocation.suspend (Evaluation.meaning s) call id fuel next h w).Alike
      (Agrees L b body env id) (turn s body env fuel next' history u)

/-- An answer to the live coroutine, and the same answer to the reference. -/
theorem goOn_alike {call : Call} {fuel : Nat} (hd : Determinate L b body env)
    (hcont : Continues L b body env id call fuel) (hw : KeptFrom s births w)
    (hbirth : births id = b) (hu : Kept s u) (hbu : b.Grows u)
    (hi : w.invocations[id]? = some i) (hl : i.live = some (gen, h))
    (hcorr : Corresponds L b body env id w h u history) (hsame : L.same w a u a') :
    ((Invocation.feed (Evaluation.meaning s) id h a >>= fun p =>
        Invocation.suspend (Evaluation.meaning s) call id fuel p.1 p.2) w).Alike
      (Agrees L b body env id)
      ((send s body env (a' :: history) >>= fun exit =>
        turn s body env fuel exit.advance (a' :: history)) u) := by
  obtain ⟨i', answers, hi', hbody, henv, hh, w₀, u₀, _, _, _, hw₀, hu₀, hbu₀, hall, hpast⟩ := hcorr
  rw [hi] at hi'
  cases hi'
  have hid := (Array.getElem?_eq_some_iff.mp hi).1
  have hbw : b.Grows w := by
    obtain ⟨-, hg, -⟩ := hw id i hi
    rwa [hbirth] at hg
  -- On one side the slice is executed in the live coroutine.
  obtain ⟨v, target, rest, env₁, hv, hwv, hr, hmirrors⟩ := Invocation.feed_mirrors hw hi hl hh a
  rw [hbirth, hbody, henv] at hr
  -- On the other side the reference comes to the yield again.
  obtain ⟨_, target', rest', env₁', u₁, hsend, hr', hu₁, huu₁⟩ := send_yields hd hpast hbu₀ hbu hu
    (hall.symm.trans (hall.grow (.refl w₀) hu₀))
  have hslice : send s body env (a' :: history) u = nextSlice s target' rest' env₁' a' u₁ := by
    rw [send, Action.bind_of_value hsend]
  have hlike := hd.next hv.kept hu₁ (hbw.trans hwv) (hbu.trans huu₁) hr (hr'.of_grows hbu)
    (.cons (L.grow hsame hwv huu₁) ((hall.grow hw₀ hu₀).grow hwv huu₁))
  have hfeed := hmirrors.symm.comp hlike
  rw [← hslice] at hfeed
  refine hfeed.bind fun p w' exit u' hp hexit hrel => ?_
  obtain ⟨v', x, ⟨hv', hpx⟩, hexits⟩ := hrel
  -- What both came to is alike, and both worlds are kept.
  have hnext : p.1.Relates (fun a b => L.same w' a u' b) exit.advance := by
    rw [hpx]
    exact Advance.Relates.grow hexits hv'.grows (.refl u')
  obtain ⟨hu', huu', -⟩ := (keeps_send s body env (a' :: history)).of_value hu hexit
  obtain ⟨⟨hf, births', hagree, hw'⟩, hlive⟩ :=
    (Outcome.Leads.feed (sound_meaning s) hw hi hl hh a).of_value hp
  refine hcont hw' ((hagree id hid).trans hbirth) hu' (hbu.trans huu') hnext fun y hy => ?_
  obtain ⟨gen', j, hj, hjl, hjh⟩ := hlive y hy
  refine ⟨?_, gen', j, hj, hjl⟩
  have hij := hf.grows.record hi hj
  -- There is one more answer on either side, and the reference has yielded again.
  obtain ⟨y', target'', rest'', env'', rfl⟩ := Exit.yielded_of_relates (hy ▸ hnext)
  rw [hslice] at hexit
  exact ⟨j, a :: answers, hj, hij.body.trans hbody, hij.env.trans henv, hjh, w, u, target'',
    rest'', env'', hf.grows, huu', hbu, .cons hsame (hall.grow hw₀ hu₀),
    .answer hr' hu₁ huu₁ (nextSlice_eq_value.mp hexit)⟩

theorem suspend_alike (hd : Determinate L b body env) (id : Nat) (call : Call) (fuel : Nat) :
    Continues L b body env id call fuel := by
  induction fuel using Nat.strongRecOn with
  | ind fuel ih =>
    intro births next next' w u h history hw hbirth hu hbu hnext hcorr
    match next, next', hnext with
    | .returned x, .returned y, hxy =>
      rw [Invocation.suspend_returned, turn_returned]
      exact .value hxy
    | .yielded v, .yielded v', hvv' =>
      rw [Invocation.suspend_yielded, turn_yielded]
      refine (yieldedChain_alike hvv').bind fun c w' c' u' _ _ hcc' => ?_
      obtain ⟨rfl, rfl, hchains⟩ := hcc'
      obtain ⟨hcorr, gen, i, hi, hl⟩ := hcorr v rfl
      match c, c', hchains with
      | .done x _, .done y _, hxy =>
        match fuel with
        | 0 => exact .exhausted
        | fuel + 1 =>
          exact goOn_alike hd (ih fuel (Nat.lt_succ_self fuel)) hw hbirth hu hbu hi hl hcorr hxy
      | .suspended e r, .suspended e' r', hwaits =>
        exact .value ⟨rfl, rfl, e, h, rfl, hwaits, hcorr⟩

/-! ### Resuming -/

/-- The resumption of a call and of its reference, from histories that correspond and with answers
that are alike, come to outcomes that agree. -/
theorem resume_alike (hd : Determinate L b body env) (hw : KeptFrom s births w)
    (hbirth : births id = b) (hu : Kept s u) (hbu : b.Grows u)
    (hcorr : Corresponds L b body env id w h u history) (hsame : L.same w a u a') (call : Call) :
    (Invocation.resume (Evaluation.meaning s) call s.maxSteps id h a w).Alike
      (Agrees L b body env id) (translate s body env (a' :: history) u) := by
  have hcont : Continues L b body env id call s.maxSteps := suspend_alike hd id call s.maxSteps
  rcases Invocation.resume_cases (Evaluation.meaning s) call s.maxSteps id h a w with
    ⟨i, gen, hi, hl, hresume⟩ | hresume
  · rw [hresume]
    exact goOn_alike hd hcont hw hbirth hu hbu hi hl hcorr hsame
  · obtain ⟨i, answers, hi, rfl, rfl, hh, w₀, u₀, _, _, _, hw₀, hu₀, hbu₀, hall, hpast⟩ := hcorr
    have hid := (Array.getElem?_eq_some_iff.mp hi).1
    -- What was thrown away is made again.
    obtain ⟨w₁, hw₁⟩ := Invocation.rebuild_value (hbirth ▸ hd.abreast) hw hi hh
      (hpast.came (hbirth ▸ hbu₀) (hall.symm.grow (.refl u₀) hw₀))
    obtain ⟨⟨hf, births₁, hagree, hkept₁⟩, gen, j, hj, hjl⟩ :=
      (Outcome.Leads.rebuild (sound_meaning s) hw id h).of_value hw₁
    rw [hresume, Action.bind_of_value hw₁]
    refine goOn_alike hd hcont hkept₁ ((hagree id hid).trans hbirth) hu hbu hj hjl ?_
      (L.grow hsame hf.grows (.refl u))
    have hcorr : Corresponds L b i.body i.env id w h u history :=
      ⟨i, answers, hi, rfl, rfl, hh, w₀, u₀, _, _, _, hw₀, hu₀, hbu₀, hall, hpast⟩
    exact hcorr.grow hf.grows (.refl u)

/-- The call of a routine and its reference agree. -/
theorem begin_alike (hd : Determinate L b body env) (hw : KeptFrom s births b)
    (hbirth : births b.invocations.size = b) (call : Call) :
    (Invocation.begin (Evaluation.meaning s) call s.maxSteps body env b).Alike
      (Agrees L b body env b.invocations.size) (translate s body env [] b) := by
  obtain ⟨v, hv, hbv, hmirrors⟩ := Invocation.enter_mirrors body env hw hbirth
  have hbv := (World.follows_push b _).grows.trans hbv
  have hlike := hmirrors.symm.comp (hd.first hv.kept hw.kept hbv (.refl b))
  refine hlike.bind fun p w' exit u' hp hexit hrel => ?_
  obtain ⟨id, next⟩ := p
  obtain ⟨v', x, ⟨rfl, hv', rfl⟩, hexits⟩ := hrel
  have hnext := Advance.Relates.grow hexits hv'.grows (.refl u')
  obtain ⟨hu', hbu', -⟩ := (keeps_firstSlice s body env).of_value hw.kept hexit
  obtain ⟨⟨hf, births', hagree, hw'⟩, -, hlive⟩ :=
    (Outcome.Leads.enter (sound_meaning s) body env hw hbirth).of_value hp
  have hbirth' : births' b.invocations.size = b :=
    (hagree _ (by simp [World.withCall])).trans hbirth
  refine suspend_alike hd _ call s.maxSteps hw' hbirth' hu' hbu' hnext fun y hy => ?_
  obtain ⟨gen, j, hj, hjl, hjh⟩ := hlive y hy
  refine ⟨?_, gen, j, hj, hjl⟩
  have hij := hf.grows.record (b.record_withCall body env) hj
  have hbw' : b.Grows w' := (World.follows_push b _).grows.trans hf.grows
  obtain ⟨y', target, rest, env', rfl⟩ := Exit.yielded_of_relates (hy ▸ hnext)
  exact ⟨j, [], hj, hij.body, hij.env, hjh, b, b, target, rest, env', hbw', hbu', .refl b, .nil,
    .start hw.kept (.refl b) (firstSlice_eq_value.mp hexit)⟩

/-! ### Nodes -/

/-- What an effect that a routine waits for comes to. -/
def Likeness.Comes (L : Likeness s) (w : World) (v : Value) (u : World) (v' : Value) : Prop :=
  L.same w v u v' ∨ ∃ x y r r', v = .chain (.done x r) ∧ v' = .chain (.done y r') ∧ L.same w x u y

theorem Likeness.Waits.resume {e e' : Effect} (h : L.Waits w e u e') (hw : Kept s w)
    (hu : Kept s u) (hsame : L.same w a u a') :
    (e.resume (Callable.meaning s) a w).Alike L.Comes (e'.resume (Callable.meaning s) a' u) := by
  rcases h with h | ⟨f, f', rfl, rfl, h⟩
  · exact (L.resume h (.refl w) (.refl u) hw hu hsame).mono fun _ _ _ _ => .inl
  · rw [Effect.resume_map, Effect.resume_map]
    refine (L.resume h (.refl w) (.refl u) hw hu hsame).bind fun x w' y u' _ _ hxy => ?_
    exact .value (.inr ⟨x, y, _, _, rfl, rfl, hxy⟩)

/-- Both come to finished chains, or both to pending ones, or neither to a chain. -/
theorem Likeness.Comes.cases {v v' : Value} (h : L.Comes w v u v') :
    (∃ x y r r', v = .chain (.done x r) ∧ v' = .chain (.done y r') ∧ L.same w x u y) ∨
    (∃ e e' r r', v = .chain (.suspended e r) ∧ v' = .chain (.suspended e' r') ∧
      L.same w (.effect e) u (.effect e')) ∨
    ((∀ c, v ≠ .chain c) ∧ (∀ c, v' ≠ .chain c) ∧ v.typeName = v'.typeName) := by
  rcases h with h | h
  · by_cases hv : ∃ c, v = .chain c
    · obtain ⟨c, rfl⟩ := hv
      obtain ⟨c', rfl, hc⟩ := L.chain h
      match c, c', hc with
      | .done x r, .done y r', hxy => exact .inl ⟨x, y, r, r', rfl, rfl, hxy⟩
      | .suspended e r, .suspended e' r', he => exact .inr (.inl ⟨e, e', r, r', rfl, rfl, he⟩)
    · refine .inr (.inr ⟨fun c hc => hv ⟨c, hc⟩, fun c hc => ?_, L.typeName h⟩)
      subst hc
      obtain ⟨c', rfl, -⟩ := L.chain (L.symm h)
      exact hv ⟨c', rfl⟩
  · exact .inl h

/-- The stage in which a finished chain goes on with a resumption. -/
theorem Stage.apply_resumption (s : Settings) (id h : Nat) (x : Value) (r : CapabilitySet) :
    (Stage.bind (.call (.resumption id h))).apply (Callable.meaning s) (.chain (.done x r))
      = Invocation.resume (Evaluation.meaning s) (Callable.meaning s) s.maxSteps id h x >>=
        fun c => pure (.chain (c.declare r)) := by
  simp only [Stage.apply, Chain.bind, Binder.apply, Callable.meaning_unfold s (.resumption id h),
    Callable.applyWith, bind_assoc, pure_bind, Chain.ofValue]
  rfl

/-- What a chain and a node come to if they are resumed. -/
def AgreesValue (L : Likeness s) (b : World) (body : List Stmt) (env : Env) (id : Nat) (w : World)
    (v : Value) (u : World) (r : Result) : Prop :=
  ∃ c, v = .chain c ∧ Agrees L b body env id w c u r

/-- Resuming a pending chain of a call, and the node of the reference. -/
theorem node_alike (hd : Determinate L b body env) (hw : KeptFrom s births w)
    (hbirth : births id = b) (hu : Kept s u) (hbu : b.Grows u) {e : Effect} {r : CapabilitySet}
    {n : Node} (hagree : Agrees L b body env id w (.suspended e r) u (.pending n))
    (hsame : L.same w a u a') :
    (e.resume (Callable.meaning s) a w).Alike (AgreesValue L b body env id)
      (n.resume s a' u) := by
  obtain ⟨rfl, rfl, f, h, rfl, hwaits, hcorr⟩ := hagree
  have hid : id < w.invocations.size := by
    obtain ⟨i, answers, hi, -⟩ := hcorr
    exact (Array.getElem?_eq_some_iff.mp hi).1
  rw [Effect.resume_map, Node.resume]
  refine (hwaits.resume hw.kept hu hsame).bind fun v w' v' u' hv hv' hcomes => ?_
  obtain ⟨⟨hf, births', hagree', hw'⟩, -⟩ :=
    (keeps_effectResume s f a births w hw).of_value hv
  obtain ⟨hu', huu', -⟩ := (keeps_effectResume s n.effect a').of_value hu hv'
  have hcorr' := hcorr.grow hf.grows huu'
  rcases hcomes.cases with ⟨x, y, r₁, r₁', rfl, rfl, hxy⟩ | ⟨e, e', r₁, r₁', rfl, rfl, he⟩ |
    ⟨hchain, hchain', htype⟩
  · rw [Stage.apply_resumption]
    have hresume := resume_alike hd hw' ((hagree' id hid).trans hbirth) hu' (hbu.trans huu') hcorr'
      hxy (Callable.meaning s)
    refine Eq.mp (congrArg _ (congrFun (bind_pure (translate s n.body n.env _)) u')) ?_
    exact hresume.bind fun c w'' c' u'' _ _ hc => .value ⟨_, rfl, hc.declare r₁⟩
  · exact .value ⟨_, rfl, rfl, rfl, e, h, rfl, .inl he, hcorr'⟩
  · have hleft : (Stage.bind (.call (.resumption id h))).apply (Callable.meaning s) v
        = Action.fail (.notChain "bind" v.typeName) := by
      cases v
      case chain c => exact absurd rfl (hchain c)
      all_goals rfl
    rw [hleft, htype]
    cases v'
    case chain c => exact absurd rfl (hchain' c)
    all_goals exact .failed (.refl _)

end EffectHandlers
