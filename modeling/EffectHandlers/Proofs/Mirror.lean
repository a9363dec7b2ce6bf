/-
EffectHandlers/Proofs/Mirror.lean

What is done to a coroutine is to execute a slice of its routine.

Starting a coroutine, sending it an answer, feeding an answer to the live
one and entering a routine each come to what a slice of the routine comes
to, executed in some kept world (`Mirrors`).  Only the books are kept beside
it.

A live coroutine that was thrown away can be made again: a rebuild never
fails if the same routine, or one that is abreast of it, came as far before
(`rebuild_value`).
-/
import EffectHandlers.Proofs.Reference

namespace EffectHandlers

variable {s : Settings} {births : Births} {w : World} {id gen h : Nat} {i : Invocation}
  {answers : List Value}

/-! ### Slices under books -/

/-- One world grows to another one, in which the record of at most one call is another one. -/
structure World.Touches (u : World) (id : Nat) (w : World) : Prop where
  grows : u.Grows w
  others (k : Nat) : k ≠ id → w.invocations[k]? = u.invocations[k]?

theorem World.Touches.trans {u v : World} (h : u.Touches id v) (h' : v.Touches id w) :
    u.Touches id w :=
  ⟨h.grows.trans h'.grows, fun k hk => (h'.others k hk).trans (h.others k hk)⟩

theorem World.touches_changeCall (u : World) (id : Nat) {f : Invocation → Invocation}
    (hf : ∀ i : Invocation, i.Grows (f i)) : u.Touches id (u.changeCall id f) :=
  ⟨u.grows_change id hf, fun _ hk => u.record_changeCall_ne hk f⟩

/-- What is known of the births of the other calls stays. -/
theorem World.Touches.keptFrom {u : World} {births' : Births} (h : u.Touches id w)
    (hu : KeptFrom s births u) (hw : KeptFrom s births' w) (hid : births' id = births id) :
    KeptFrom s births w := by
  intro k i hi
  by_cases hk : k = id
  · subst hk
    rw [← hid]
    exact hw k i hi
  · rw [h.others k hk] at hi
    obtain ⟨hsize, hgrows, hlive⟩ := hu k i hi
    exact ⟨hsize, hgrows.trans h.grows, hlive⟩

/-- What a slice comes to, kept in the books of a call. -/
def Mirrors (id : Nat) (u : World) (exit : Exit) (w : World) (next : Advance) : Prop :=
  u.Touches id w ∧ next = exit.advance

theorem Coroutine.execute_mirrors (id gen : Nat) (part : Action Exit) (w : World) :
    (part.outward (w.setPosition id gen .running)).Alike (Mirrors id) (execute id gen part w) := by
  rw [Coroutine.execute_apply]
  unfold Action.outward
  cases part (w.setPosition id gen .running) with
  | value exit u =>
    exact .value ⟨u.touches_changeCall id fun i => i.grows_setPosition gen exit.position, rfl⟩
  | failed f u => exact .failed (.refl _)
  | exhausted => exact .exhausted

/-- A slice does the same and something known follows. -/
theorem Outcome.Alike.bind_right {α β γ : Type} {R : World → α → World → β → Prop}
    {Q : World → α → World → γ → Prop} {o : Outcome α} {y : Action β} {g : β → Action γ}
    (ho : o.Alike R (y w))
    (hnext : ∀ u a w' b, y w = .value b w' → R u a w' b →
      ∃ w'' c, g b w' = .value c w'' ∧ Q u a w'' c) :
    o.Alike Q ((y >>= g) w) := by
  rw [Action.bind_apply]
  generalize hy : y w = o' at ho ⊢
  cases ho with
  | value hR =>
    obtain ⟨w'', c, hg, hQ⟩ := hnext _ _ _ _ hy hR
    show Outcome.Alike Q _ (g _ _)
    rw [hg]
    exact .value hQ
  | failed hf => exact .failed hf
  | exhausted => exact .exhausted

/-- A value that an outcome leads to. -/
theorem Outcome.Leads.of_value {α : Type} {P : α → World → Prop} {o : Outcome α} {a : α}
    {w' : World} (ho : o.Leads s births w P) (h : o = .value a w') :
    After s births w w' ∧ P a w' := by
  subst h
  exact ho

/-- Starting a coroutine is executing the first slice. -/
theorem Coroutine.start_mirrors (hw : KeptFrom s births w) (hi : w.invocations[id]? = some i)
    (haway : i.Away gen) (hc : i.coroutines[gen]? = some ⟨.entry i.body i.env, []⟩) :
    ∃ v, KeptFrom s births v ∧ w.Grows v ∧ (firstSlice s i.body i.env v).Alike (Mirrors id)
      (start (Evaluation.meaning s) id gen w) := by
  refine ⟨w.setPosition id gen .running, hw.setPosition hi haway .running,
    w.grows_setPosition id gen .running, ?_⟩
  rw [Coroutine.start_apply hi hc]
  exact execute_mirrors id gen _ w

/-- Sending an answer to a coroutine is executing the next slice. -/
theorem Coroutine.send_mirrors (hw : KeptFrom s births w) (hi : w.invocations[id]? = some i)
    (haway : i.Away gen) (hawaits : i.Awaits s (births id) gen answers) (answer : Value) :
    ∃ v target rest env, KeptFrom s births v ∧ w.Grows v ∧
      Reached s (births id) i.body i.env answers target rest env ∧
      (nextSlice s target rest env answer v).Alike (Mirrors id)
        (send (Evaluation.meaning s) id gen answer w) := by
  obtain ⟨target, rest, env, hposition, hreached⟩ := hawaits
  obtain ⟨⟨_, received⟩, hc, rfl⟩ := Option.map_eq_some_iff.mp hposition
  obtain ⟨hw₁, hf₁, hi₁⟩ := hw.withReceived hi haway answer
  refine ⟨_, target, rest, env, hw₁.setPosition hi₁ haway .running,
    hf₁.grows.trans (World.grows_setPosition _ id gen .running), hreached, ?_⟩
  rw [Coroutine.send_apply hi hc]
  exact execute_mirrors id gen _ _

/-- Feeding an answer to the live coroutine is executing the next slice. -/
theorem Invocation.feed_mirrors (hw : KeptFrom s births w) (hi : w.invocations[id]? = some i)
    (hl : i.live = some (gen, h)) (hh : i.histories[h]? = some answers) (answer : Value) :
    ∃ v target rest env, KeptFrom s births v ∧ w.Grows v ∧
      Reached s (births id) i.body i.env answers target rest env ∧
      (nextSlice s target rest env answer v).Alike (fun u exit w' p => Mirrors id u exit w' p.1)
        (feed (Evaluation.meaning s) id h answer w) := by
  obtain ⟨hw₀, hf₀, hi₀, haway₀, hawaits⟩ := hw.takeLive hi hl hh
  have hsend := Outcome.Leads.send (sound_meaning s) hw₀ hi₀ haway₀ hawaits answer
  obtain ⟨v, target, rest, env, hv, hwv, hr, hslice⟩ :=
    Coroutine.send_mirrors hw₀ hi₀ haway₀ hawaits answer
  refine ⟨v, target, rest, env, hv, hf₀.grows.trans hwv, hr, ?_⟩
  rw [feed, Action.bind_of_value (takeLive_apply hi hl)]
  refine hslice.bind_right fun u exit w' next hnext hmirrors => ?_
  cases next with
  | returned x => exact ⟨w', _, rfl, hmirrors⟩
  | yielded x =>
    obtain ⟨hafter, -⟩ := hsend.of_value hnext
    obtain ⟨j, hj, hij⟩ := hafter.1.grows.records id _ hi₀
    have hjh := hij.histories h answers hh
    refine ⟨_, _, settle_yielded hj answer x hjh, ?_, hmirrors.2⟩
    exact (hmirrors.1.trans (World.touches_changeCall _ id fun j => j.grows_withHistory _)).trans
      (World.touches_changeCall _ id fun j => j.grows_withLive _)

/-- Entering a routine is executing the first slice. -/
theorem Invocation.enter_mirrors (body : List Stmt) (env : Env) (hw : KeptFrom s births w)
    (hbirth : births w.invocations.size = w) :
    ∃ v, KeptFrom s births v ∧ (w.withCall body env).Grows v ∧ (firstSlice s body env v).Alike
      (fun u exit w' p => p.1 = w.invocations.size ∧ Mirrors p.1 u exit w' p.2)
      (enter (Evaluation.meaning s) body env w) := by
  have hw₀ : KeptFrom s births (w.withCall body env) := hw.push hbirth rfl
  have hi₀ := w.record_withCall body env
  obtain ⟨hw₁, hf₁, haway₁⟩ := hw₀.withFresh hi₀
  obtain ⟨v, hv, hwv, hslice⟩ := Coroutine.start_mirrors hw₁
    (World.record_changeCall hi₀ (·.withFresh)) haway₁ rfl
  refine ⟨v, hv, hf₁.grows.trans hwv, ?_⟩
  show Outcome.Alike _ _ ((spawn w.invocations.size >>= _) (w.withCall body env))
  rw [Action.bind_of_value (spawn_apply hi₀)]
  refine hslice.bind_right fun u exit w' next _ hmirrors => ?_
  cases next with
  | returned x => exact ⟨w', _, rfl, rfl, hmirrors⟩
  | yielded x =>
    refine ⟨_, _, rfl, rfl, ?_, hmirrors.2⟩
    exact hmirrors.1.trans (World.touches_changeCall _ _ fun j => j.grows_withLive _)

/-! ### Rebuilding -/

section

variable {L : Likeness s} {b u : World}
  {history : List Value} {body : List Stmt} {target : Option String} {rest : List Frame}
  {env env' : Env}

theorem Invocation.replay_append (eval : Evaluation) (id gen : Nat) (xs ys : List Value) :
    replay eval id gen (xs ++ ys) = replay eval id gen xs >>= fun _ => replay eval id gen ys := by
  induction xs with
  | nil => rfl
  | cons x xs ih =>
    rw [List.cons_append, replay, replay]
    simp only [bind_assoc, ih]

/-- A routine parked at a yield when it was sent the answers of a history.  They are like
`answers` in the world `w`; the slices were executed in kept worlds not earlier than `b`. -/
inductive Came (L : Likeness s) (b : World) (body : List Stmt) (env : Env) (w : World) :
    List Value → List Value → Option String → List Frame → Env → Prop
  | start {u u' : World} {v : Value} {target : Option String} {rest : List Frame} {env' : Env}
      (kept : Kept s u) (grows : b.Grows u)
      (slice : firstSlice s body env u = .value (.yielded v target rest env') u') :
      Came L b body env w [] [] target rest env'
  | answer {u u' : World} {a c v : Value} {history answers : List Value}
      {target target' : Option String} {rest rest' : List Frame} {env' env'' : Env}
      (before : Came L b body env w history answers target rest env') (kept : Kept s u)
      (grows : b.Grows u) (alike : L.All u (a :: history) w (c :: answers))
      (slice : nextSlice s target rest env' a u = .value (.yielded v target' rest' env'') u') :
      Came L b body env w (a :: history) (c :: answers) target' rest' env''

theorem Came.reached {w : World} {answers : List Value}
    (h : Came L b body env w history answers target rest env') :
    Reached s b body env history target rest env' := by
  induction h with
  | start kept grows slice => exact .start kept grows (firstSlice_eq_value.mp slice)
  | answer before kept grows alike slice ih =>
    exact .answer ih kept grows (nextSlice_eq_value.mp slice)

theorem Came.grow {w w' : World} {answers : List Value}
    (h : Came L b body env w history answers target rest env') (hw : w.Grows w') :
    Came L b body env w' history answers target rest env' := by
  induction h with
  | start kept grows slice => exact .start kept grows slice
  | answer before kept grows alike slice ih =>
    exact .answer ih kept grows (alike.grow (.refl _) hw) slice

/-- What is reached after answers were there has come to them. -/
theorem Reached.came {w : World} {answers : List Value}
    (hr : Reached s u body env history target rest env') (hbu : b.Grows u)
    (hall : L.All u history w answers) :
    Came L b body env w history answers target rest env' := by
  induction history generalizing answers target rest env' with
  | nil =>
    cases hall
    cases hr with
    | start hk huk hslice => exact .start hk (hbu.trans huk) (firstSlice_eq_value.mpr hslice)
  | cons a history ih =>
    cases hall with
    | cons hac hall =>
      cases hr with
      | answer hr hk huk hslice =>
        exact .answer (ih hr hall) hk (hbu.trans huk)
          (Likeness.All.grow (.cons hac hall) huk (.refl w)) (nextSlice_eq_value.mpr hslice)

/-- What mirrors a yield is a yield. -/
theorem Outcome.Alike.mirrors_yielded {v : World} {x : Value} {o : Outcome Advance}
    (h : (Outcome.value (.yielded x target rest env) v).Alike (Mirrors id) o) :
    ∃ w', o = .value (.yielded x) w' := by
  cases h with
  | @value _ _ _ w' h => exact ⟨w', by rw [h.2]; rfl⟩

/-- A coroutine that is started afresh comes as far as the routine came before, or another one
that is abreast of it, with answers that are alike. -/
theorem Invocation.rerun_value (hd : Abreast L b body env (births id) i.body i.env)
    (hw : KeptFrom s births w) (hi : w.invocations[id]? = some i) (haway : i.Away gen)
    (hc : i.coroutines[gen]? = some ⟨.entry i.body i.env, []⟩)
    (hcame : Came L b body env w history answers target rest env') :
    ∃ w', (Coroutine.start (Evaluation.meaning s) id gen >>= mustYield >>= fun _ =>
        replay (Evaluation.meaning s) id gen answers.reverse) w = .value () w' ∧
      After s births w w' ∧ Rests s (births id) id gen i answers w' := by
  obtain ⟨-, hb, -⟩ := hw id i hi
  have hid := (Array.getElem?_eq_some_iff.mp hi).1
  have heval := sound_meaning s
  induction hcame with
  | start hk hbk hslice =>
    obtain ⟨v, hv, hwv, hmirrors⟩ := Coroutine.start_mirrors hw hi haway hc
    have hlike := hd.first hk hv.kept hbk (hb.trans hwv)
    rw [hslice] at hlike
    obtain ⟨x, _, _, _, v', hv'⟩ := hlike.yields
    rw [hv'] at hmirrors
    obtain ⟨w', hw'⟩ := hmirrors.mirrors_yielded
    obtain ⟨hafter, hrests⟩ := (Outcome.Leads.start heval hw hi haway hc).of_value hw'
    refine ⟨w', ?_, hafter, hrests x rfl⟩
    rw [bind_assoc, Action.bind_of_value hw']
    rfl
  | @answer uk _ a c _ history answers _ _ _ _ _ _ hbefore hk hbk hall hslice ih =>
    obtain ⟨w₁, hw₁, hafter, j, hj, hij, hjaway, hjawaits⟩ := ih
    obtain ⟨hfollows, births₁, hagree, hkept₁⟩ := hafter
    rw [← hagree id hid] at hjawaits
    obtain ⟨v, _, _, _, hv, hw₁v, hjr, hmirrors⟩ :=
      Coroutine.send_mirrors hkept₁ hj hjaway hjawaits c
    rw [hij.body, hij.env, hagree id hid] at hjr
    have hwv := hfollows.grows.trans hw₁v
    have hlike := hd.next hk hv.kept hbk (hb.trans hwv) hbefore.reached hjr
      (hall.grow (.refl uk) hwv)
    rw [hslice] at hlike
    obtain ⟨x, _, _, _, v', hv'⟩ := hlike.yields
    rw [hv'] at hmirrors
    obtain ⟨w', hw'⟩ := hmirrors.mirrors_yielded
    obtain ⟨hafter', hrests⟩ :=
      (Outcome.Leads.send heval hkept₁ hj hjaway hjawaits c).of_value hw'
    have hrests' := (hrests x rfl).of_grows hij
    rw [hagree id hid] at hrests'
    refine ⟨w', ?_, hafter'.trans hfollows hagree, hrests'⟩
    -- The answers before the last one are replayed as before.
    have hlast : replay (Evaluation.meaning s) id gen [c] w₁ = .value () w' := by
      rw [replay, Action.bind_of_value hw']
      rfl
    simp only [List.reverse_cons, replay_append]
    refine Eq.trans (congrFun (bind_assoc _ _ _).symm w) ?_
    rw [Action.bind_of_value hw₁]
    exact hlast

/-- A rebuild does not fail if the routine came to the history before, or another one that
concurs with it, with answers that are alike. -/
theorem Invocation.rebuild_value (hd : Abreast L b body env (births id) i.body i.env)
    (hw : KeptFrom s births w) (hi : w.invocations[id]? = some i)
    (hh : i.histories[h]? = some answers)
    (hcame : Came L b body env w history answers target rest env') :
    ∃ w', rebuild (Evaluation.meaning s) id h w = .value () w' := by
  obtain ⟨hw₀, hf₀, haway₀⟩ := hw.withFresh hi
  have hi₀ := World.record_changeCall hi (·.withFresh)
  have hentry : i.withFresh.coroutines[i.coroutines.size]? = some ⟨.entry i.body i.env, []⟩ := by
    simp [withFresh]
  obtain ⟨w', hw', -⟩ := rerun_value (i := i.withFresh) hd hw₀ hi₀ haway₀ hentry
    (hcame.grow hf₀.grows)
  rw [rebuild, Action.bind_of_value (answersOf_apply hi hh),
    Action.bind_of_value (spawn_apply hi)]
  refine ⟨_, Eq.trans (congrFun ?_ _) (Action.bind_of_value (f := fun _ =>
    setLive id (some (i.coroutines.size, h))) hw')⟩
  simp only [bind_assoc]
  rfl

end

end EffectHandlers
