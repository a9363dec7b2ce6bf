/-
EffectHandlers/Proofs/Aloof.lean

Who holds no node of a chain does not use it.

A computation over values that hold no resumption of a call leaves the record
of the call alone, also when it fails, and it does the same whether its
expressions are evaluated or evaluated sparingly.  With the frame this is one
discipline (`aloof`), so it holds of everything that the interpreter does
(`aloof_meaning`).

The routine itself is executed by resumptions of its own call.  If neither the
world nor the record of the call holds a node of the chain (`World.Tidy`),
then going on from a history is the same with sparing evaluation, and the
chain that it gives is continued from the call at one place only, the last
stage (`Chain.Ends`).

Main result: `Detached.resume`.
-/
import EffectHandlers.Proofs.Sparing
import EffectHandlers.Proofs.Abiding

namespace EffectHandlers

variable {α β : Type} {s : Settings} {id : Nat} {w u : World}

/-- The regime of values that hold no resumption of a call. -/
abbrev Regime.others (id : Nat) : Regime := .ofCalls (· ≠ id)

/-! ### The discipline -/

/-- Both actions of a pair do the same and leave the record of a call alone, which they do not
read; the worlds of concern hold no resumption of the call outside its record. -/
structure Aloof (id : Nat) (P : α → Prop) (x : Bool → Action α) : Prop where
  framed : Framed (.others id) (some id) P (x true)
  agree (w : World) : w.Clean (.others id) (some id) → x false w = x true w
  same (w u : World) : w.Clean (.others id) (some id) → (x true w).world? = some u →
    w.SameCall id u

namespace Aloof

/-- A single action. -/
theorem single {P : α → Prop} {x : Action α} (hframed : Framed (.others id) (some id) P x)
    (hsame : ∀ w u, w.Clean (.others id) (some id) → (x w).world? = some u → w.SameCall id u) :
    Aloof id P fun _ => x :=
  ⟨hframed, fun _ _ => rfl, hsame⟩

/-- An action that leaves the records of all calls alone. -/
theorem still {P : α → Prop} {x : Action α} (hframed : Framed (.others id) (some id) P x)
    (hrecords : ∀ w u, (x w).world? = some u → u.invocations = w.invocations) :
    Aloof id P fun _ => x :=
  single hframed fun w u _ hu => congrArg (·[id]?) (hrecords w u hu)

theorem bind {P : α → Prop} {Q : β → Prop} {x : Bool → Action α} {f : Bool → α → Action β}
    (hx : Aloof id P x) (hf : ∀ a, P a → Aloof id Q fun b => f b a) :
    Aloof id Q fun b => x b >>= f b where
  framed := hx.framed.bind fun a ha => (hf a ha).framed
  agree w hw := by
    rw [Action.bind_apply, Action.bind_apply, hx.agree w hw]
    cases hxw : x true w with
    | value a w' =>
      obtain ⟨ha, hw'⟩ := (hx.framed w hw).2 a w' hxw
      exact (hf a ha).agree w' hw'
    | failed | exhausted => rfl
  same w u hw hu := by
    rw [Action.bind_apply] at hu
    cases hxw : x true w with
    | value a w' =>
      obtain ⟨ha, hw'⟩ := (hx.framed w hw).2 a w' hxw
      rw [hxw] at hu
      exact (hx.same w w' hw (by rw [hxw]; rfl)).trans ((hf a ha).same w' u hw' hu)
    | failed f w' =>
      rw [hxw] at hu
      exact hx.same w u hw (by rw [hxw]; exact hu)
    | exhausted =>
      rw [hxw] at hu
      cases hu

/-- A look at the record of a call. -/
theorem recordOf {k : Nat} {P : α → Prop} {f : Invocation → Action α}
    (hframed : Framed (.others id) (some id) P (Invocation.recordOf k >>= f))
    (hsame : ∀ i w u, (f i w).world? = some u → w.SameCall id u) :
    Aloof id P fun _ => Invocation.recordOf k >>= f := by
  refine single hframed fun w u _ hu => ?_
  cases hi : w.invocations[k]? with
  | some i =>
    rw [Action.bind_of_value (Invocation.recordOf_apply hi)] at hu
    exact hsame i w u hu
  | none =>
    have hfail : Invocation.recordOf k w = .failed .noLiveRoutine w := by
      show Action.require .noLiveRoutine w.invocations[k]? w = _
      rw [hi]
      rfl
    rw [Action.bind_apply, hfail] at hu
    cases hu
    exact .refl id w

theorem sameCall_changeCall {k : Nat} (h : k ≠ id) (w : World) (f : Invocation → Invocation) :
    w.SameCall id (w.changeCall k f) := World.record_changeCall_ne w (Ne.symm h) f

theorem execute {k : Nat} (h : k ≠ id) (gen : Nat) {part : Bool → Action Exit}
    (hpart : Aloof id (Exit.Obeys (.others id)) part) :
    Aloof id (Advance.Obeys (.others id)) fun b => Coroutine.execute k gen (part b) where
  framed := .execute (fun hk => h (Option.some.inj hk)) gen hpart.framed
  agree w hw := by
    have hrunning : (w.setPosition k gen .running).Clean (.others id) (some id) :=
      hw.changeCall fun i hi => hi.setPosition gen trivial
    rw [Coroutine.execute_apply, Coroutine.execute_apply, hpart.agree _ hrunning]
  same w u hw hu := by
    have hrunning : (w.setPosition k gen .running).Clean (.others id) (some id) :=
      hw.changeCall fun i hi => hi.setPosition gen trivial
    rw [Coroutine.execute_apply] at hu
    have hbegun : w.SameCall id (w.setPosition k gen .running) := sameCall_changeCall h w _
    cases hend : part true (w.setPosition k gen .running) with
    | value exit u' =>
      rw [hend] at hu
      cases hu
      exact (hbegun.trans (hpart.same _ u' hrunning (by rw [hend]; rfl))).trans
        (sameCall_changeCall h u' _)
    | failed f u' =>
      rw [hend] at hu
      cases hu
      exact (hbegun.trans (hpart.same _ u' hrunning (by rw [hend]; rfl))).trans
        (sameCall_changeCall h u' _)
    | exhausted =>
      rw [hend] at hu
      cases hu

end Aloof

theorem Regime.call_others (id k : Nat) : (Regime.others id).call k ↔ some k ≠ some id :=
  not_congr Option.some_inj.symm

/-- Staying aloof from a call is a discipline. -/
def aloof (id : Nat) : CallDiscipline Bool (.others id) :=
  let D := frame (.others id) (some id) (Regime.call_others id)
  { holds := Aloof id
    ret := fun ha => .still (D.ret ha) fun _ _ hu => by cases hu; rfl
    fail := fun P f => .still (D.fail P f) fun _ _ hu => by cases hu; rfl
    exhaust := fun P => .still (D.exhaust P) nofun
    bind := .bind
    fresh := .still D.fresh fun _ _ hu => by cases hu; rfl
    emit := fun e => .still (D.emit e) fun _ _ hu => by cases hu; rfl
    showValue := fun hv => .still (D.showValue hv) fun _ _ hu => by cases hu; rfl
    newCell := fun hv => .still (D.newCell hv) fun _ _ hu => by cases hu; rfl
    readCell := fun a => .still (D.readCell a) fun _ _ hu => by cases hu; rfl
    writeCell := fun a _ hv => .still (D.writeCell a hv) fun _ _ hu => by cases hu; rfl
    newSource := fun text => .still (D.newSource text) fun _ _ hu => by cases hu; rfl
    readLine := fun source => .still (D.readLine source) fun _ _ hu => by cases hu; rfl
    newJournal := .still D.newJournal fun _ _ hu => by cases hu; rfl
    journalEntries := fun j => .still (D.journalEntries j) fun _ _ hu => by cases hu; rfl
    record := fun j name _ hv => .still (D.record j name hv) fun _ _ hu => by cases hu; rfl
    create := fun hbody henv => .single (D.create hbody henv) fun w u hw hu => by
      cases hu
      show (w.invocations.push _)[id]? = _
      rw [Array.getElem?_push, if_neg (Nat.ne_of_lt (hw.made id rfl))]
    spawn := fun hk => .recordOf (D.spawn hk) fun _ w u hu => by
      cases hu
      exact Aloof.sameCall_changeCall hk w _
    liveOf := fun hk => .still (D.liveOf hk) fun _ _ hu => by cases hu; rfl
    setLive := fun hk l => .single (D.setLive hk l) fun w u _ hu => by
      cases hu
      exact Aloof.sameCall_changeCall hk w _
    answersOf := fun hk h => .recordOf (D.answersOf hk h) fun i w u hu => by
      cases hh : i.histories[h]? with
      | none | some =>
        rw [hh] at hu
        cases hu
        exact .refl id w
    extendHistory := fun hk h _ ha => .recordOf (D.extendHistory hk h ha) fun i w u hu => by
      cases hh : i.histories[h]? with
      | none =>
        rw [hh] at hu
        cases hu
        exact .refl id w
      | some =>
        rw [hh] at hu
        cases hu
        exact Aloof.sameCall_changeCall hk w _
    standing := fun hk gen => .still (D.standing hk gen) fun _ _ hu => by cases hu; rfl
    receive := fun hk gen _ ha => .single (D.receive hk gen ha) fun w u _ hu => by
      cases hu
      exact Aloof.sameCall_changeCall hk w _
    execute := fun hk gen _ hpart => .execute hk gen hpart }

/-- Calls over values that hold no resumption of a call leave its record alone. -/
theorem aloof_meaning (s : Settings) (id : Nat) :
    (aloof id).Calls fun _ => Callable.meaning s := by
  have hcalls := CallDiscipline.calls (aloof id) (Callable.runsAlike_const _ s) fun _ => rfl
  refine fun f args hf hargs =>
    .single (frame_meaning (Regime.call_others id) s f args hf hargs) fun w u hw hu => ?_
  obtain ⟨depth, hdepth⟩ := Callable.apply_of_meaning s f args w
  rw [← hdepth] at hu
  exact (hcalls depth f args hf hargs).same w u hw hu

/-- Evaluation and sparing evaluation agree on expressions that hold no resumption of the call. -/
theorem aloof_evaluates (s : Settings) (id : Nat) : (aloof id).Evaluates fun b =>
    bif b then Evaluation.meaning s else (Evaluation.meaning s).sparing id := by
  intro e env he henv
  have heval : Aloof id _ fun _ => Evaluation.meaning s env e :=
    Discipline.eval (aloof_meaning s id) (Callable.runsAlike_const _ s) e he henv
  exact ⟨heval.framed, fun w hw => Action.sparing_eq (heval.same w · hw), heval.same⟩

/-! ### Tidy worlds -/

/-- A call was made, and nothing in the world holds a resumption of it. -/
structure World.Tidy (id : Nat) (w : World) : Prop where
  obeys : w.Obeys (.others id)
  made : id < w.invocations.size

namespace World.Tidy

theorem clean (hw : w.Tidy id) : w.Clean (.others id) (some id) where
  made _ hk := Option.some.inj hk ▸ hw.made
  cells := hw.obeys.cells
  journals := hw.obeys.journals
  records _ i _ hi := hw.obeys.records _ i hi

/-- A world is tidy that is clean, with the record of the call from a tidy one. -/
theorem after (hw : w.Tidy id) (hsame : w.SameCall id u) (hu : u.Clean (.others id) (some id)) :
    u.Tidy id where
  obeys :=
    { cells := hu.cells
      journals := hu.journals
      records := fun k i hi => by
        by_cases hk : k = id
        · subst hk
          exact hw.obeys.records k i (hsame.symm.trans hi)
        · exact hu.records k i (fun h => hk (Option.some.inj h)) hi }
  made := hu.made id rfl

theorem changeCall (hw : w.Tidy id) {f : Invocation → Invocation}
    (hf : ∀ i, i.Obeys (.others id) → (f i).Obeys (.others id)) : (w.changeCall id f).Tidy id where
  obeys := (hw.obeys.clean.changeCall hf).obeys
  made := by simpa [World.changeCall] using hw.made

end World.Tidy

/-- In tidy worlds, an action does the same with sparing evaluation; what it gives satisfies `P`,
and the world that it leaves is tidy. -/
def Detached (s : Settings) (id : Nat) (P : α → Prop) (x : Evaluation → Action α) : Prop :=
  ∀ w, w.Tidy id →
    x ((Evaluation.meaning s).sparing id) w = x (Evaluation.meaning s) w ∧
    ∀ a u, x (Evaluation.meaning s) w = .value a u → P a ∧ u.Tidy id

namespace Detached

/-- An action that evaluates nothing and is framed. -/
theorem of_framed {P : α → Prop} {x : Action α} (hx : Framed (.others id) none P x)
    (hsize : ∀ w i a u, w.invocations[id]? = some i → x w = .value a u →
      u.invocations.size = w.invocations.size) : Detached s id P fun _ => x := by
  refine fun w hw => ⟨rfl, fun a u h => ?_⟩
  obtain ⟨ha, hu⟩ := (hx w hw.obeys.clean).2 a u h
  exact ⟨ha, hu.obeys, hsize w _ a u (Array.getElem?_eq_getElem hw.made) h ▸ hw.made⟩

theorem ret {P : α → Prop} {a : α} (ha : P a) : Detached s id P fun _ => pure a :=
  of_framed (.ret ha) fun _ _ _ _ _ h => by cases h; rfl

theorem fail (P : α → Prop) (f : Failure) : Detached s id P fun _ => Action.fail f :=
  of_framed (.fail P f) nofun

theorem exhaust (P : α → Prop) : Detached s id P fun _ => Action.exhaust :=
  of_framed (.exhaust P) nofun

theorem bind {P : α → Prop} {Q : β → Prop} {x : Evaluation → Action α}
    {f : Evaluation → α → Action β} (hx : Detached s id P x)
    (hf : ∀ a, P a → Detached s id Q fun eval => f eval a) :
    Detached s id Q fun eval => x eval >>= f eval := by
  intro w hw
  obtain ⟨hagree, hleft⟩ := hx w hw
  simp only [Action.bind_apply, hagree]
  cases hxw : x (Evaluation.meaning s) w with
  | value a w' =>
    obtain ⟨ha, hw'⟩ := hleft a w' hxw
    exact hf a ha w' hw'
  | failed | exhausted => exact ⟨rfl, nofun⟩

theorem map {P : α → Prop} {Q : β → Prop} {x : Evaluation → Action α} {g : α → β}
    (hx : Detached s id P x) (h : ∀ a, P a → Q (g a)) :
    Detached s id Q fun eval => x eval >>= fun a => pure (g a) :=
  hx.bind fun a ha => ret (h a ha)

theorem ite {P : α → Prop} {c : Prop} [Decidable c] {x y : Evaluation → Action α}
    (hx : Detached s id P x) (hy : Detached s id P y) :
    Detached s id P fun eval => if c then x eval else y eval := by
  by_cases hc : c
  · simpa only [if_pos hc] using hx
  · simpa only [if_neg hc] using hy

/-! ### The record -/

theorem answersOf (h : Nat) :
    Detached s id (fun vs => ∀ v ∈ vs, v.Obeys (.others id)) fun _ =>
      Invocation.answersOf id h := by
  have hframed : Framed (.others id) none (fun vs => ∀ v ∈ vs, v.Obeys (.others id))
      (Invocation.answersOf id h) :=
    (Framed.recordOf (Option.some_ne_none id)).bind fun i hi =>
      .require _ fun vs hvs => hi.answers h vs hvs
  refine of_framed hframed fun w i vs u hi hu => ?_
  rw [Invocation.answersOf, Action.bind_of_value (Invocation.recordOf_apply hi)] at hu
  cases hh : i.histories[h]? with
  | none | some =>
    rw [hh] at hu
    cases hu <;> rfl

theorem extendHistory (h : Nat) {answer : Value} (ha : answer.Obeys (.others id)) :
    Detached s id (fun _ => True) fun _ => Invocation.extendHistory id h answer := by
  refine of_framed (.extendHistory (Option.some_ne_none id) h ha) fun w i _ u hi hu => ?_
  rw [Invocation.extendHistory, Action.bind_of_value (Invocation.recordOf_apply hi)] at hu
  cases hh : i.histories[h]? with
  | none =>
    rw [hh] at hu
    cases hu
  | some =>
    rw [hh] at hu
    cases hu
    exact Array.size_modify

theorem spawn : Detached s id (fun _ => True) fun _ => Invocation.spawn id := by
  refine of_framed (.spawn (Option.some_ne_none id)) fun w i _ u hi hu => ?_
  rw [Invocation.spawn_apply hi] at hu
  cases hu
  exact Array.size_modify

theorem setLive (l : Option (Nat × Nat)) :
    Detached s id (fun _ => True) fun _ => Invocation.setLive id l :=
  of_framed (.changeCall (Option.some_ne_none id) fun _ hi => { hi with }) fun _ _ _ _ _ h => by
    cases h
    exact Array.size_modify

theorem liveOf : Detached s id (fun _ => True) fun _ => Invocation.liveOf id :=
  of_framed (.askCall (g := fun o => o.bind (·.live)) (Option.some_ne_none id)
    fun _ _ => trivial) fun _ _ _ _ _ h => by
      cases h
      rfl

/-! ### Coroutines -/

/-- A slice that holds no resumption of the call. -/
theorem execute (gen : Nat) {part : Evaluation → Action Exit}
    (hpart : Aloof id (Exit.Obeys (.others id)) fun b =>
      part (bif b then Evaluation.meaning s else (Evaluation.meaning s).sparing id)) :
    Detached s id (Advance.Obeys (.others id)) fun eval =>
      Coroutine.execute id gen (part eval) := by
  intro w hw
  have hrunning : (w.setPosition id gen .running).Tidy id :=
    hw.changeCall fun i hi => hi.setPosition gen trivial
  have hagree : part ((Evaluation.meaning s).sparing id) (w.setPosition id gen .running)
      = part (Evaluation.meaning s) (w.setPosition id gen .running) :=
    hpart.agree _ hrunning.clean
  have hsame (u : World)
      (hu : (part (Evaluation.meaning s) (w.setPosition id gen .running)).world? = some u) :
      (w.setPosition id gen .running).SameCall id u := hpart.same _ u hrunning.clean hu
  refine ⟨by simp only [Coroutine.execute_apply, hagree], fun next u hnext => ?_⟩
  simp only [Coroutine.execute_apply] at hnext
  cases hend : part (Evaluation.meaning s) (w.setPosition id gen .running) with
  | value exit u' =>
    obtain ⟨hexit, hclean⟩ := (hpart.framed _ hrunning.clean).2 exit u' hend
    have htidy : u'.Tidy id := hrunning.after (hsame u' (by rw [hend]; rfl)) hclean
    rw [hend] at hnext
    cases hnext
    exact ⟨hexit.advance, htidy.changeCall fun i hi => hi.setPosition gen hexit.position⟩
  | failed | exhausted =>
    rw [hend] at hnext
    cases hnext

theorem standing (gen : Nat) :
    Detached s id (Position.Obeys (.others id)) fun _ => Coroutine.standing id gen := by
  refine fun w hw => ⟨rfl, fun p u h => ?_⟩
  obtain ⟨i, hi⟩ : ∃ i, w.invocations[id]? = some i := ⟨_, Array.getElem?_eq_getElem hw.made⟩
  cases (Coroutine.standing_of_record gen hi).symm.trans h
  refine ⟨?_, hw⟩
  cases hc : i.coroutines[gen]? with
  | none => trivial
  | some c => exact (hw.obeys.records id i hi).positions gen c hc

theorem receive (gen : Nat) (answer : Value) :
    Detached s id (fun _ => True) fun _ => Coroutine.receive id gen answer :=
  of_framed (.changeCall (Option.some_ne_none id) fun _ hi => hi.receive gen answer)
    fun _ _ _ _ _ h => by
      cases h
      exact Array.size_modify

theorem send (gen : Nat) {answer : Value} (ha : answer.Obeys (.others id)) :
    Detached s id (Advance.Obeys (.others id)) fun eval => Coroutine.send eval id gen answer := by
  refine (standing gen).bind fun p hp => ?_
  cases p
  case parked target rest env =>
    refine (receive gen answer).bind fun _ _ => execute gen ?_
    exact Discipline.execFrames (aloof_evaluates s id) hp.1
      (Coroutine.obeys_bindAnswer hp.2 target ha)
  case entry => exact fail _ _
  case running => exact fail _ _
  case finished => exact ret trivial

theorem start (gen : Nat) :
    Detached s id (Advance.Obeys (.others id)) fun eval => Coroutine.start eval id gen := by
  refine (standing gen).bind fun p hp => ?_
  cases p
  case entry body env =>
    exact execute gen (Discipline.execBlock (aloof_evaluates s id) body hp.1 hp.2)
  all_goals exact send gen trivial

/-! ### Going on -/

theorem mustYield (next : Advance) :
    Detached s id (fun _ => True) fun _ => Invocation.mustYield next := by
  cases next
  case yielded => exact ret trivial
  case returned => exact fail _ _

theorem replay (gen : Nat) {answers : List Value} (h : ∀ a ∈ answers, a.Obeys (.others id)) :
    Detached s id (fun _ => True) fun eval => Invocation.replay eval id gen answers := by
  induction answers with
  | nil => exact ret trivial
  | cons a rest ih =>
    refine (send gen (h a List.mem_cons_self)).bind fun next _ => ?_
    exact (mustYield next).bind fun _ _ => ih fun a ha => h a (List.mem_cons_of_mem _ ha)

theorem rebuild (h : Nat) :
    Detached s id (fun _ => True) fun eval => Invocation.rebuild eval id h := by
  refine (answersOf h).bind fun answers hanswers => spawn.bind fun gen _ => ?_
  refine (start gen).bind fun next _ => (mustYield next).bind fun _ _ => ?_
  exact (replay gen fun a ha => hanswers a (List.mem_reverse.mp ha)).bind fun _ _ => setLive _

theorem takeLive : Detached s id (fun _ => True) fun _ => Invocation.takeLive id := by
  refine liveOf.bind fun l _ => ?_
  rcases l with _ | ⟨gen, h⟩
  · exact fail _ _
  · exact (setLive none).map fun _ _ => trivial

theorem yieldedChain {v : Value} (hv : v.Obeys (.others id)) :
    Detached s id (Chain.Obeys (.others id)) fun _ => Invocation.yieldedChain v := by
  cases v
  case effect => exact ret (Chain.obeys_perform hv)
  case chain => exact ret hv
  all_goals exact fail _ _

theorem feed (h : Nat) {answer : Value} (ha : answer.Obeys (.others id)) :
    Detached s id (fun p => p.1.Obeys (.others id)) fun eval =>
      Invocation.feed eval id h answer := by
  refine takeLive.bind fun gen _ => (send gen ha).bind fun next hnext => ?_
  cases next
  case returned => exact ret hnext
  case yielded =>
    exact (extendHistory h ha).bind fun h' _ => (setLive _).map fun _ _ => hnext

end Detached

/-- The chain of a resumption: finished, or continued from the call at the last stage only. -/
inductive Chain.Ends (id : Nat) : Chain → Prop
  | finished {v : Value} (hv : v.Obeys (.others id)) : Ends id (.finished v)
  | node {e : Effect} {r : CapabilitySet} (h : Nat) (he : e.Obeys (.others id)) :
      Ends id (.suspended (e.map (.bind (.call (.resumption id h)))) r)

namespace Detached

theorem suspend (call : Call) (fuel : Nat) {next : Advance} (hnext : next.Obeys (.others id))
    (h : Nat) : Detached s id (Chain.Ends id) fun eval =>
      Invocation.suspend eval call id fuel next h := by
  induction fuel using Nat.strongRecOn generalizing next h with
  | ind fuel ih =>
    cases next with
    | returned v =>
      simp only [Invocation.suspend_returned]
      exact ret (.finished hnext)
    | yielded v =>
      simp only [Invocation.suspend_yielded]
      refine (yieldedChain hnext).bind fun c hc => ?_
      cases c with
      | suspended e r => exact ret (.node h hc.2)
      | done answer r =>
        cases fuel with
        | zero => exact exhaust _
        | succ fuel =>
          exact (feed h hc).bind fun p hp => ih fuel (Nat.lt_succ_self fuel) hp p.2

/-- **Resumptions of a call** in tidy worlds: the routine does not use its own chain. -/
theorem resume (call : Call) (maxSteps h : Nat) {answer : Value} (ha : answer.Obeys (.others id)) :
    Detached s id (Chain.Ends id) fun eval =>
      Invocation.resume eval call maxSteps id h answer := by
  refine liveOf.bind fun l _ => ?_
  have hgo : Detached s id (Chain.Ends id) fun eval => Invocation.feed eval id h answer >>= fun p =>
      Invocation.suspend eval call id maxSteps p.1 p.2 :=
    (feed h ha).bind fun p hp => suspend call maxSteps hp p.2
  exact ite hgo ((rebuild h).bind fun _ _ => hgo)

end Detached

end EffectHandlers
