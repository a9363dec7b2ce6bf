/-
EffectHandlers/Proofs/Concurrence.lean

Two calls of programs that behave alike.

Two routines that come to the same, up to a sameness, whenever they have
received answers that are alike (`Sameness.Alongside`) are called, each in a
world of its own.  Between their resumptions anything may happen in either
world: one call may be resumed where its live coroutine stands, while the
other one has to be rebuilt first.

What is kept is that both calls stay level (`Level`): they hold histories
with answers that are alike, and each routine came as far before with the
answers of its own.  So the histories of one call vouch for the rebuilds of
the other one, and nothing has to be known of a routine beside itself.

Main result: calls of such programs give chains that behave alike
(`Sameness.program_concurs`).
-/
import EffectHandlers.Proofs.Behaviour
import EffectHandlers.Proofs.Transparency

namespace EffectHandlers

variable {s : Settings}

/-! ### Routines side by side -/

/-- What routines come to is related: they yield values that are alike or chains that behave
alike, or return values that are alike. -/
inductive Sameness.Moves (L : Sameness s) (w : Known s) : Advance → Known s → Advance → Prop
  | yielded {v v' : Value} {u : Known s} (h : L.Gives w v u v') :
      Moves L w (.yielded v) u (.yielded v')
  | returned {v v' : Value} {u : Known s} (h : L.same w v u v') :
      Moves L w (.returned v) u (.returned v')

/-- Two routines whose slices come to what is related whenever they have received answers that
are alike; one is executed in known worlds not earlier than `b`, the other one in known worlds
not earlier than `b'`. -/
structure Sameness.Alongside (L : Sameness s) (b : World) (body : List Stmt) (env : Env)
    (b' : World) (body' : List Stmt) (env' : Env) : Prop where
  first {w u : Known s} : b.Grows w → b'.Grows u →
    Concurs (fun w x u y => L.Moves w x.advance u y.advance) w (firstSlice s body env) u
      (firstSlice s body' env')
  next {w u : Known s} {as as' : List Value} {a a' : Value} {target target' : Option String}
    {rest rest' : List Frame} {env₁ env₁' : Env} : b.Grows w → b'.Grows u →
    Reached s b body env as target rest env₁ → Reached s b' body' env' as' target' rest' env₁' →
    L.All w (a :: as) u (a' :: as') →
    Concurs (fun w x u y => L.Moves w x.advance u y.advance) w (nextSlice s target rest env₁ a) u
      (nextSlice s target' rest' env₁' a')

namespace Sameness

variable {L : Sameness s} {w w' u u' : Known s} {next next' : Advance}

theorem Moves.later (h : L.Moves w next u next') (hw : w.Later w') (hu : u.Later u') :
    L.Moves w' next u' next' := by
  cases h with
  | yielded h => exact .yielded (h.later hw hu)
  | returned h => exact .returned (L.grow h hw.grows hu.grows)

theorem Moves.yields_iff (h : L.Moves w next u next') :
    (∃ v, next = .yielded v) ↔ ∃ v, next' = .yielded v := by
  cases h <;> simp

theorem Moves.yields {x y : Exit} (h : L.Moves w x.advance u y.advance) : x.yields = y.yields := by
  have hiff := h.yields_iff
  cases x <;> cases y <;> first | rfl | simp [Exit.advance] at hiff

/-- What is yielded alike is chains that behave alike, or is refused alike. -/
theorem Gives.yieldedChain {v v' : Value} (h : L.Gives w v u v') :
    (∃ c c', Invocation.yieldedChain v = pure c ∧ Invocation.yieldedChain v' = pure c' ∧
      L.Behaves w c u c') ∨
    ∃ f, Invocation.yieldedChain v = Action.fail f ∧
      Invocation.yieldedChain v' = Action.fail f := by
  cases h with
  | chain h => exact .inl ⟨_, _, rfl, rfl, h⟩
  | same h =>
    by_cases hc : ∃ c, v = .chain c
    · obtain ⟨c, rfl⟩ := hc
      obtain ⟨c', rfl, -⟩ := L.chain h
      exact .inl ⟨_, _, rfl, rfl, behaves_of_same h⟩
    by_cases he : ∃ e, v = .effect e
    · obtain ⟨e, rfl⟩ := he
      obtain ⟨e', rfl, -⟩ := L.effect h
      exact .inl ⟨_, _, rfl, rfl, behaves_perform h⟩
    -- Anything else is refused, and so is what is like it.
    have hc' : ¬ ∃ c, v' = .chain c := by
      rintro ⟨c', rfl⟩
      obtain ⟨c, rfl, -⟩ := L.chain (L.symm h)
      exact hc ⟨c, rfl⟩
    have he' : ¬ ∃ e, v' = .effect e := by
      rintro ⟨e', rfl⟩
      obtain ⟨e, rfl, -⟩ := L.effect (L.symm h)
      exact he ⟨e, rfl⟩
    have hrefused (v : Value) (hc : ¬ ∃ c, v = .chain c) (he : ¬ ∃ e, v = .effect e) :
        Invocation.yieldedChain v = Action.fail (.notYieldable v.typeName) := by
      cases v with
      | chain c => exact absurd ⟨c, rfl⟩ hc
      | effect e => exact absurd ⟨e, rfl⟩ he
      | _ => rfl
    refine .inr ⟨_, hrefused v hc he, ?_⟩
    rw [hrefused v' hc' he', L.typeName h]

variable {b b' : World} {body body' : List Stmt} {env env' : Env}

theorem Concurs.yields {x y : Action Exit}
    (h : Concurs (fun w x u y => L.Moves w x.advance u y.advance) w x u y) :
    (x w).Alike (fun _ x _ y => x.yields = y.yields) (y u) := by
  refine Outcome.Alike.mono h ?_
  rintro _ x _ y ⟨v, v', -, -, -, -, hmoves⟩
  exact hmoves.yields

/-- Routines that come to what is related yield together. -/
theorem Alongside.abreast (h : L.Alongside b body env b' body' env') :
    Abreast L.toLikeness b body env b' body' env' where
  first {w u} hw hu hbw hbu := by
    obtain ⟨w, rfl⟩ := Known.exists_of_kept hw
    obtain ⟨u, rfl⟩ := Known.exists_of_kept hu
    exact Concurs.yields (h.first hbw hbu)
  next {w u _ _ _ _ _ _ _ _ _ _} hw hu hbw hbu hr hr' hall := by
    obtain ⟨w, rfl⟩ := Known.exists_of_kept hw
    obtain ⟨u, rfl⟩ := Known.exists_of_kept hu
    exact Concurs.yields (h.next hbw hbu hr hr' hall)

theorem moves_of_relates (h : next.Relates (fun a b => L.same w a u b) next') :
    L.Moves w next u next' := by
  match next, next', h with
  | .yielded v, .yielded v', h => exact .yielded (.same h)
  | .returned v, .returned v', h => exact .returned h

/-- A routine that depends on its answers only runs alongside itself. -/
theorem alongside_of_determinate {b₀ : World} (hd : Determinate L.toLikeness b₀ body env)
    (hb : b₀.Grows b) (hb' : b₀.Grows b') : L.Alongside b body env b' body env where
  first {w u} hw hu :=
    (Concurs.of_alike (hd.first w.kept u.kept (hb.trans hw) (hb'.trans hu))
      (keeps_firstSlice s body env) (keeps_firstSlice s body env)).mono
        fun _ _ _ _ _ _ => moves_of_relates
  next {w u _ _ _ _ _ _ _ _ _ _} hw hu hr hr' hall :=
    (Concurs.of_alike (hd.next w.kept u.kept (hb.trans hw) (hb'.trans hu) (hr.of_grows hb)
      (hr'.of_grows hb') hall) (keeps_nextSlice s _ _ _ _) (keeps_nextSlice s _ _ _ _)).mono
        fun _ _ _ _ _ _ => moves_of_relates

end Sameness

/-- What advances as a yield is a yield. -/
theorem Exit.yielded_of_advance {x : Exit} {v : Value} (h : x.advance = .yielded v) :
    ∃ target rest env, x = .yielded v target rest env := by
  cases x with
  | yielded v' target rest env =>
    cases h
    exact ⟨target, rest, env, rfl⟩
  | through env => cases h
  | returned v' => cases h

/-! ### Calls and their histories -/

/-- A call of a program: the world in which it was made, the routine with its bindings, and the
number of its record. -/
structure Made where
  base : World
  body : List Stmt
  env : Env
  id : Nat

namespace Made

variable {S : Made} {w w' : Known s} {h : Nat} {answers : List Value} {a : Value}

/-- A call has a history in a known world. -/
structure Holds (S : Made) (w : Known s) (h : Nat) (answers : List Value) : Prop where
  birth : w.births S.id = S.base
  record : ∃ i, w.world.invocations[S.id]? = some i ∧ i.body = S.body ∧ i.env = S.env ∧
    i.histories[h]? = some answers

/-- The live coroutine of a call stands at a history. -/
def StandsAt (S : Made) (w : Known s) (h : Nat) : Prop :=
  ∃ i gen, w.world.invocations[S.id]? = some i ∧ i.live = some (gen, h)

theorem Holds.id_lt (hS : S.Holds w h answers) : S.id < w.world.invocations.size := by
  obtain ⟨i, hi, -⟩ := hS.record
  exact (Array.getElem?_eq_some_iff.mp hi).1

theorem Holds.grows (hS : S.Holds w h answers) : S.base.Grows w := by
  obtain ⟨i, hi, -⟩ := hS.record
  obtain ⟨-, hgrows, -⟩ := w.keptFrom S.id i hi
  rwa [hS.birth] at hgrows

theorem Holds.later (hS : S.Holds w h answers) (hw : w.Later w') : S.Holds w' h answers := by
  refine ⟨(hw.births _ hS.id_lt).trans hS.birth, ?_⟩
  obtain ⟨i, hi, hbody, henv, hh⟩ := hS.record
  obtain ⟨j, hj, hij⟩ := hw.grows.records S.id i hi
  exact ⟨j, hj, hij.body.trans hbody, hij.env.trans henv, hij.histories h answers hh⟩

/-- What a slice comes to is kept in the books of a call: if it was a yield, the call stands at a
history with the given answers. -/
def Books (S : Made) (v : Known s) (answers : List Value) (z : World) (exit : Exit) (w' : World)
    (p : Advance × Nat) : Prop :=
  p.1 = exit.advance ∧ ∀ Z : Known s, Z.world = z → v.Later Z →
    ∃ W : Known s, W.world = w' ∧ Z.Later W ∧
      ∀ x, p.1 = .yielded x → S.Holds W p.2 answers ∧ S.StandsAt W p.2

/-- Feeding an answer to the live coroutine is executing a slice of the routine and keeping the
books. -/
theorem Holds.feed (hS : S.Holds w h answers) (hlive : S.StandsAt w h) (a : Value) :
    ∃ (v : Known s) (target : Option String) (rest : List Frame) (env : Env), w.Later v ∧
      Reached s S.base S.body S.env answers target rest env ∧
      (nextSlice s target rest env a v).Alike (S.Books v (a :: answers))
        (Invocation.feed (Evaluation.meaning s) S.id h a w) := by
  obtain ⟨i, hi, hbody, henv, hh⟩ := hS.record
  obtain ⟨i', gen, hi', hl⟩ := hlive
  obtain rfl : i = i' := Option.some.inj (hi.symm.trans hi')
  obtain ⟨v, target, rest, env, hv, hwv, hr, hmirrors⟩ :=
    Invocation.feed_mirrors w.keptFrom hi hl hh a
  rw [hS.birth, hbody, henv] at hr
  refine ⟨⟨v, w.births, hv⟩, target, rest, env, ⟨hwv, fun _ _ => rfl⟩, hr, ?_⟩
  have hfeed := Outcome.Leads.feed (sound_meaning s) w.keptFrom hi hl hh a
  show Outcome.Alike _ (nextSlice s target rest env a v) _
  generalize hend : Invocation.feed (Evaluation.meaning s) S.id h a w = o at hmirrors ⊢
  generalize nextSlice s target rest env a v = o' at hmirrors ⊢
  cases hmirrors with
  | failed hf => exact .failed hf
  | exhausted => exact .exhausted
  | @value exit p z w' hm =>
    obtain ⟨htouches, hadvance⟩ := hm
    refine .value ⟨hadvance, fun Z hZ hvZ => ?_⟩
    obtain ⟨⟨hf, births, hagree, hw'⟩, hlive⟩ := hfeed.of_value hend
    subst hZ
    -- What is known of the call is known again; of the other calls nothing has changed.
    have hbirth : births S.id = Z.births S.id := by
      rw [hagree _ hS.id_lt]
      exact (hvZ.births S.id (Nat.lt_of_lt_of_le hS.id_lt hwv.size_le)).symm
    refine ⟨⟨w', Z.births, htouches.keptFrom Z.keptFrom hw' hbirth⟩, rfl,
      ⟨htouches.grows, fun _ _ => rfl⟩, fun x hx => ?_⟩
    obtain ⟨gen', j, hj, hjl, hjh⟩ := hlive x hx
    have hij := hf.grows.record hi hj
    refine ⟨⟨?_, j, hj, hij.body.trans hbody, hij.env.trans henv, hjh⟩, j, gen', hj, hjl⟩
    exact hbirth.symm.trans ((hagree _ hS.id_lt).trans hS.birth)

/-- The call of a routine that is made in a known world. -/
def fresh (w : World) (body : List Stmt) (env : Env) : Made :=
  ⟨w, body, env, w.invocations.size⟩

/-- Enter a routine: what it comes to first, and the empty history. -/
noncomputable def entered (s : Settings) (body : List Stmt) (env : Env) :
    Action (Advance × Nat) := do
  let p ← Invocation.enter (Evaluation.meaning s) body env
  return (p.2, Invocation.emptyHistory)

/-- A new call has the next number. -/
theorem begin_apply (w : Known s) (call : Call) (fuel : Nat) (body : List Stmt) (env : Env) :
    Invocation.begin (Evaluation.meaning s) call fuel body env w
      = (entered s body env >>= fun p => Invocation.suspend (Evaluation.meaning s) call
        w.world.invocations.size fuel p.1 p.2) w := by
  obtain ⟨births, -, hbirth, hw⟩ := w.keptFrom.exists_birth
  have henter := Outcome.Leads.enter (sound_meaning s) body env hw hbirth
  rw [Invocation.begin, entered, bind_assoc, Action.bind_apply, Action.bind_apply]
  cases hend : Invocation.enter (Evaluation.meaning s) body env w with
  | value p w' =>
    obtain ⟨-, hid, -⟩ := henter.of_value hend
    show Invocation.suspend _ _ p.1 _ _ _ w' = _
    rw [hid]
    rfl
  | failed f w' => rfl
  | exhausted => rfl

/-- Entering a routine is executing its first slice and keeping the books. -/
theorem enter (w : Known s) (body : List Stmt) (env : Env) :
    ∃ v : Known s, w.Later v ∧
      (firstSlice s body env v).Alike ((Made.fresh w body env).Books v [])
        (entered s body env w) := by
  obtain ⟨births, hagree, hbirth, hw⟩ := w.keptFrom.exists_birth
  obtain ⟨v, hv, hwv, hmirrors⟩ := Invocation.enter_mirrors body env hw hbirth
  have hpush := (World.follows_push w.world ⟨body, env, #[], #[[]], none⟩).grows
  refine ⟨⟨v, births, hv⟩, ⟨hpush.trans hwv, hagree⟩, ?_⟩
  have henter := Outcome.Leads.enter (sound_meaning s) body env hw hbirth
  show Outcome.Alike _ (firstSlice s body env v) _
  rw [entered, Action.bind_apply]
  generalize hend : Invocation.enter (Evaluation.meaning s) body env w = o at hmirrors ⊢
  generalize firstSlice s body env v = o' at hmirrors ⊢
  cases hmirrors with
  | failed hf => exact .failed hf
  | exhausted => exact .exhausted
  | @value exit p z w' hm =>
    obtain ⟨hid, htouches, hadvance⟩ := hm
    refine .value ⟨hadvance, fun Z hZ hvZ => ?_⟩
    obtain ⟨⟨hf, births', hagree', hw'⟩, -, hlive⟩ := henter.of_value hend
    subst hZ
    have hnew : w.world.invocations.size < (w.world.withCall body env).invocations.size := by
      simp [World.withCall]
    have hbirth' : Z.births w.world.invocations.size = w := by
      rw [hvZ.births _ (Nat.lt_of_lt_of_le hnew hwv.size_le)]
      exact hbirth
    have hsame : births' p.1 = Z.births p.1 := by
      rw [hid, hbirth', hagree' _ hnew, hbirth]
    refine ⟨⟨w', Z.births, htouches.keptFrom Z.keptFrom hw' hsame⟩, rfl,
      ⟨htouches.grows, fun _ _ => rfl⟩, fun x hx => ?_⟩
    obtain ⟨gen, j, hj, hjl, hjh⟩ := hlive x hx
    rw [hid] at hj
    have hij := hf.grows.record (w.world.record_withCall body env) hj
    exact ⟨⟨hbirth', j, hj, hij.body, hij.env, hjh⟩, j, gen, hj, hjl⟩

/-- Before a call is resumed its live coroutine is made to stand at the history; if it has to be
rebuilt, the other routine vouches for the rebuild. -/
theorem Holds.ready {L : Likeness s} {b : World} {body : List Stmt} {env env' : Env}
    {target : Option String} {rest : List Frame} {history : List Value}
    (hS : S.Holds w h answers) (hd : Abreast L b body env S.base S.body S.env)
    (hcame : Came L b body env w history answers target rest env') (call : Call) (fuel : Nat)
    (a : Value) :
    ∃ v : Known s, w.Later v ∧ S.StandsAt v h ∧
      Invocation.resume (Evaluation.meaning s) call fuel S.id h a w
        = (Invocation.feed (Evaluation.meaning s) S.id h a >>= fun p =>
          Invocation.suspend (Evaluation.meaning s) call S.id fuel p.1 p.2) v := by
  rcases Invocation.resume_cases (Evaluation.meaning s) call fuel S.id h a w with
    ⟨i, gen, hi, hl, hresume⟩ | hresume
  · exact ⟨w, .refl w, ⟨i, gen, hi, hl⟩, hresume⟩
  · obtain ⟨i, hi, hbody, henv, hh⟩ := hS.record
    obtain ⟨w', hw'⟩ := Invocation.rebuild_value (by rwa [hbody, henv, hS.birth]) w.keptFrom hi hh
      hcame
    obtain ⟨hafter, gen, j, hj, hjl⟩ :=
      (Outcome.Leads.rebuild (sound_meaning s) w.keptFrom S.id h).of_value hw'
    obtain ⟨v, rfl, hv⟩ := hafter.known
    refine ⟨v, hv, ⟨j, gen, hj, hjl⟩, hresume.trans ?_⟩
    rw [Action.bind_of_value hw']

end Made

/-! ### Level calls -/

section

variable {L : Sameness s} {S T : Made} {w w' u u' : Known s} {h k : Nat} {as bs : List Value}
  {a b : Value}

/-- Two calls hold histories with answers that are alike, and either routine came as far before
with its own answers. -/
inductive Level (L : Sameness s) (S T : Made) (w : Known s) (h : Nat) (u : Known s) (k : Nat) :
    Prop
  | mk {as bs : List Value} {target target' : Option String} {rest rest' : List Frame}
      {env env' : Env} (left : S.Holds w h as) (right : T.Holds u k bs) (alike : L.All w as u bs)
      (came : Came L.toLikeness S.base S.body S.env u as bs target rest env)
      (came' : Came L.toLikeness T.base T.body T.env w bs as target' rest' env')

theorem Level.later (hl : Level L S T w h u k) (hw : w.Later w') (hu : u.Later u') :
    Level L S T w' h u' k := by
  obtain ⟨left, right, alike, came, came'⟩ := hl
  exact .mk (left.later hw) (right.later hu) (alike.grow hw.grows hu.grows) (came.grow hu.grows)
    (came'.grow hw.grows)

/-- A routine that came to a yield comes to the next one if the other routine does. -/
theorem Came.next {L : Likeness s} {b b' : World} {body body' : List Stmt} {env env' : Env}
    {target target' : Option String} {rest rest' : List Frame} {env₁ env₁' env₂ : Env}
    {w u z : World} {a c x : Value} {target₂ : Option String} {rest₂ : List Frame}
    (hd : Abreast L b body env b' body' env')
    (hcame : Came L b' body' env' w bs as target' rest' env₁')
    (hr : Reached s b body env as target rest env₁) (hw : Kept s w) (hu : Kept s u)
    (hbw : b.Grows w) (hbu : b'.Grows u) (hall : L.All w (a :: as) u (c :: bs))
    (hslice : nextSlice s target rest env₁ a w = .value (.yielded x target₂ rest₂ env₂) z) :
    ∃ target₃ rest₃ env₃, Came L b' body' env' w (c :: bs) (a :: as) target₃ rest₃ env₃ := by
  have hlike := hd.next hw hu hbw hbu hr hcame.reached hall
  rw [hslice] at hlike
  obtain ⟨_, target₃, rest₃, env₃, _, hnext⟩ := hlike.yields
  exact ⟨target₃, rest₃, env₃, .answer hcame hu hbu hall.symm hnext⟩

/-- What two calls came to: the same, and if it is a yield they are level and live there. -/
structure Arrived (L : Sameness s) (S T : Made) (w : Known s) (p : Advance × Nat) (u : Known s)
    (q : Advance × Nat) : Prop where
  moves : L.Moves w p.1 u q.1
  level (x : Value) : p.1 = .yielded x →
    Level L S T w p.2 u q.2 ∧ S.StandsAt w p.2 ∧ T.StandsAt u q.2

/-- Slices that concur, each with its books. -/
theorem arrive {v v' : Known s} {x y : Action Exit} {p q : Action (Advance × Nat)}
    (hslices : Concurs (fun w x u y => L.Moves w x.advance u y.advance) v x v' y)
    (hp : (x v).Alike (S.Books v as) (p w)) (hq : (y v').Alike (T.Books v' bs) (q u))
    (hwv : w.Later v) (huv : u.Later v') (hall : L.All v as v' bs)
    (hcame : ∀ {e e' target target' rest rest' env env' z z'},
      x v = .value (.yielded e target rest env) z →
      y v' = .value (.yielded e' target' rest' env') z' →
      (∃ target rest env, Came L.toLikeness S.base S.body S.env v' as bs target rest env) ∧
        ∃ target rest env, Came L.toLikeness T.base T.body T.env v bs as target rest env) :
    Concurs (Arrived L S T) w p u q := by
  unfold Concurs at hslices ⊢
  generalize hxv : x v = o at hslices hp hcame
  generalize hyv : y v' = o' at hslices hq hcame
  generalize p w = o₁ at hp ⊢
  generalize q u = o₁' at hq ⊢
  cases hp with
  | failed hf =>
    cases hslices with
    | failed hf' =>
      cases hq with
      | failed hf'' => exact .failed (hf.symm.trans (hf'.trans hf''))
  | exhausted =>
    cases hslices
    cases hq
    exact .exhausted
  | @value exit p' z w' hp =>
    cases hslices with
    | @value _ exit' _ z' hm =>
      obtain ⟨Z, Z', rfl, rfl, hvZ, hvZ', hmoves⟩ := hm
      cases hq with
      | @value _ q' _ u' hq =>
        obtain ⟨hadvance, hp⟩ := hp
        obtain ⟨hadvance', hq⟩ := hq
        obtain ⟨W, rfl, hZW, hleft⟩ := hp Z rfl hvZ
        obtain ⟨U, rfl, hZU, hright⟩ := hq Z' rfl hvZ'
        have hvW := hvZ.trans hZW
        have hvU := hvZ'.trans hZU
        have hmoves' : L.Moves W p'.1 U q'.1 := by
          rw [hadvance, hadvance']
          exact hmoves.later hZW hZU
        refine .value ⟨W, U, rfl, rfl, hwv.trans hvW, huv.trans hvU, hmoves', fun e he => ?_⟩
        obtain ⟨e', he'⟩ := hmoves'.yields_iff.mp ⟨e, he⟩
        obtain ⟨hS, hlive⟩ := hleft e he
        obtain ⟨hT, hlive'⟩ := hright e' he'
        obtain ⟨target, rest, env, rfl⟩ := Exit.yielded_of_advance (hadvance ▸ he)
        obtain ⟨target', rest', env', rfl⟩ := Exit.yielded_of_advance (hadvance' ▸ he')
        obtain ⟨⟨_, _, _, hcame⟩, _, _, _, hcame'⟩ := hcame rfl rfl
        exact ⟨.mk hS hT (hall.grow hvW.grows hvU.grows) (hcame.grow hvU.grows)
          (hcame'.grow hvW.grows), hlive, hlive'⟩

/-- An answer to both calls, each live where they are level. -/
theorem feed_concurs (hd : L.Alongside S.base S.body S.env T.base T.body T.env)
    (hl : Level L S T w h u k) (hS : S.StandsAt w h) (hT : T.StandsAt u k)
    (hab : L.same w a u b) :
    Concurs (Arrived L S T) w (Invocation.feed (Evaluation.meaning s) S.id h a) u
      (Invocation.feed (Evaluation.meaning s) T.id k b) := by
  obtain ⟨left, right, alike, came, came'⟩ := hl
  obtain ⟨v, _, _, _, hwv, hr, hbooks⟩ := left.feed hS a
  obtain ⟨v', _, _, _, huv, hr', hbooks'⟩ := right.feed hT b
  have hbase := left.grows.trans hwv.grows
  have hbase' := right.grows.trans huv.grows
  have hall : L.All v (a :: _) v' (b :: _) :=
    .cons (L.grow hab hwv.grows huv.grows) (alike.grow hwv.grows huv.grows)
  refine arrive (hd.next hbase hbase' hr hr' hall) hbooks hbooks' hwv huv hall ?_
  refine fun hslice hslice' => ⟨?_, ?_⟩
  · exact Came.next hd.abreast.symm (came.grow huv.grows) hr' v'.kept v.kept hbase' hbase hall.symm
      hslice'
  · exact Came.next hd.abreast (came'.grow hwv.grows) hr v.kept v'.kept hbase hbase' hall hslice

/-! ### Chains of level calls -/

/-- Two pending chains that go on with level calls. -/
inductive Awaits (L : Sameness s) (S T : Made) : ChainRel s
  | mk {w u : Known s} {e e' : Effect} {r : CapabilitySet} {h k : Nat}
      (chains : L.Behaves w (.suspended e r) u (.suspended e' r)) (level : Level L S T w h u k) :
      Awaits L S T w (.suspended (e.map (.bind (.call (.resumption S.id h)))) r) u
        (.suspended (e'.map (.bind (.call (.resumption T.id k)))) r)

theorem Arrived.suspend (hd : L.Alongside S.base S.body S.env T.base T.body T.env) (call : Call)
    (fuel : Nat) {p q : Advance × Nat} (hpq : Arrived L S T w p u q) :
    Concurs (fun w c u c' => Awaits L S T w c u c' ∨ L.Behaves w c u c') w
      (Invocation.suspend (Evaluation.meaning s) call S.id fuel p.1 p.2) u
      (Invocation.suspend (Evaluation.meaning s) call T.id fuel q.1 q.2) := by
  induction fuel using Nat.strongRecOn generalizing w u p q with
  | ind fuel ih =>
    obtain ⟨next, h⟩ := p
    obtain ⟨next', k⟩ := q
    obtain ⟨hmoves, hlevel⟩ := hpq
    cases hmoves with
    | returned hxy =>
      rw [Invocation.suspend_returned, Invocation.suspend_returned]
      exact .ret (.inr (Sameness.behaves_done hxy ∅))
    | @yielded v v' _ hgives =>
      obtain ⟨hlevel, hS, hT⟩ := hlevel v rfl
      rw [Invocation.suspend_yielded, Invocation.suspend_yielded]
      rcases hgives.yieldedChain with ⟨c, c', hc, hc', hcc'⟩ | ⟨f, hf, hf'⟩
      case inr =>
        rw [hf, hf']
        exact .fail (.refl f)
      rw [hc, hc', pure_bind, pure_bind]
      have hunfolds := hcc'.unfolds
      match c, c', hunfolds with
      | .done x r, .done y _, ⟨rfl, hxy⟩ =>
        -- A finished chain is answered at once.
        match fuel with
        | 0 => exact .exhaust
        | fuel + 1 =>
          refine (feed_concurs hd hlevel hS hT hxy).bind fun w' p u' q _ _ hpq => ?_
          exact ih fuel (Nat.lt_succ_self fuel) hpq
      | .suspended e r, .suspended e' _, ⟨rfl, _, _⟩ => exact .ret (.inl (.mk hcc' hlevel))

/-- What is done in later worlds is done in earlier ones. -/
theorem Concurs.of_later {α β : Type} {R : Known s → α → Known s → β → Prop} {x x' : Action α}
    {y y' : Action β} (h : Concurs R w' x' u' y') (hw : w.Later w') (hu : u.Later u')
    (hx : x w = x' w') (hy : y u = y' u') : Concurs R w x u y := by
  unfold Concurs
  rw [hx, hy]
  refine Outcome.Alike.mono h ?_
  rintro _ a _ b ⟨v, v', hvw, hvu, hv, hv', hR⟩
  exact ⟨v, v', hvw, hvu, hw.trans hv, hu.trans hv', hR⟩

/-- Level calls are resumed alike. -/
theorem resume_concurs (hd : L.Alongside S.base S.body S.env T.base T.body T.env)
    (hl : Level L S T w h u k) (hab : L.same w a u b) (call : Call) :
    Concurs (fun w c u c' => Awaits L S T w c u c' ∨ L.Behaves w c u c') w
      (Invocation.resume (Evaluation.meaning s) call s.maxSteps S.id h a) u
      (Invocation.resume (Evaluation.meaning s) call s.maxSteps T.id k b) := by
  obtain ⟨left, right, alike, came, came'⟩ := hl
  obtain ⟨v, hwv, hS, hresume⟩ := left.ready hd.abreast.symm came' call s.maxSteps a
  obtain ⟨v', huv, hT, hresume'⟩ := right.ready hd.abreast came call s.maxSteps b
  refine Concurs.of_later ?_ hwv huv hresume hresume'
  have hlevel := Level.later (.mk left right alike came came') hwv huv
  refine (feed_concurs hd hlevel hS hT (L.grow hab hwv.grows huv.grows)).bind ?_
  intro w' p u' q _ _ hpq
  exact hpq.suspend hd call s.maxSteps

theorem Awaits.declare {c c' : Chain} (h : Awaits L S T w c u c') (caps : CapabilitySet) :
    Awaits L S T w (c.declare caps) u (c'.declare caps) := by
  cases h with
  | mk chains level => exact .mk (chains.declare caps) level

/-- Going on with a resumption is resuming the call. -/
theorem Binder.apply_resumption (s : Settings) (id h : Nat) (x : Value) :
    (Binder.call (.resumption id h)).apply (Callable.meaning s) x
      = Invocation.resume (Evaluation.meaning s) (Callable.meaning s) s.maxSteps id h x := by
  simp only [Binder.apply, Callable.meaning_unfold s (.resumption id h), Callable.applyWith,
    bind_assoc, pure_bind, Chain.ofValue]
  exact bind_pure _

/-- Chains that behave alike are continued with level calls. -/
theorem bind_awaits (hd : L.Alongside S.base S.body S.env T.base T.body T.env)
    (hl : Level L S T w h u k) {c c' : Chain} (hc : L.Behaves w c u c') :
    Concurs (fun w c u c' => Awaits L S T w c u c' ∨ L.Behaves w c u c') w
      (c.bind (Callable.meaning s) (.call (.resumption S.id h))) u
      (c'.bind (Callable.meaning s) (.call (.resumption T.id k))) := by
  have hunfolds := hc.unfolds
  match c, c', hunfolds with
  | .suspended e r, .suspended e' _, ⟨rfl, _, _⟩ => exact .ret (.inl (.mk hc hl))
  | .done x r, .done y _, ⟨rfl, hxy⟩ =>
    rw [Chain.bind_done, Chain.bind_done, Binder.apply_resumption, Binder.apply_resumption]
    refine (resume_concurs hd hl hxy _).bind fun w' d u' d' _ _ hdd' => .ret ?_
    rcases hdd' with hdd' | hdd'
    · exact .inl (hdd'.declare r)
    · exact .inr (hdd'.declare r)

/-- Chains that go on with level calls behave alike. -/
theorem Awaits.behaves (hd : L.Alongside S.base S.body S.env T.base T.body T.env) {c c' : Chain}
    (h : Awaits L S T w c u c') : L.Behaves w c u c' := by
  refine Sameness.Behaves.of_closed (R := Awaits L S T) ?_ h
  intro w c u c' h
  cases h with
  | @mk _ _ e e' r h k chains level =>
    obtain ⟨-, hasks, hresume⟩ := chains.unfolds
    refine ⟨rfl, hasks, fun w' u' x y hw hu hxy => ?_⟩
    rw [Effect.resume_map, Effect.resume_map]
    refine (hresume w' u' x y hw hu hxy).bind fun w'' v u'' v' hw' hu' hv => ?_
    refine Sameness.stage_bind hv fun d d' hdd' => ?_
    exact bind_awaits hd (level.later (hw.trans hw') (hu.trans hu')) hdd'

end

/-! ### Programs -/

namespace Sameness

variable {L : Sameness s} {w u : Known s}

/-- New calls of routines that come to the same behave alike. -/
theorem begin_concurs {body body' : List Stmt} {env env' : Env}
    (hd : L.Alongside w body env u body' env') (call : Call) :
    Concurs L.Behaves w (Invocation.begin (Evaluation.meaning s) call s.maxSteps body env) u
      (Invocation.begin (Evaluation.meaning s) call s.maxSteps body' env') := by
  obtain ⟨v, hwv, hbooks⟩ := Made.enter w body env
  obtain ⟨v', huv, hbooks'⟩ := Made.enter u body' env'
  have harrived : Concurs (Arrived L (.fresh w body env) (.fresh u body' env')) w
      (Made.entered s body env) u (Made.entered s body' env') := by
    refine arrive (hd.first hwv.grows huv.grows) hbooks hbooks' hwv huv .nil ?_
    intro _ _ _ _ _ _ _ _ _ _ hslice hslice'
    exact ⟨⟨_, _, _, .start v.kept hwv.grows hslice⟩, _, _, _, .start v'.kept huv.grows hslice'⟩
  refine Concurs.of_later ?_ (.refl w) (.refl u) (Made.begin_apply w call s.maxSteps body env)
    (Made.begin_apply u call s.maxSteps body' env')
  refine (harrived.bind fun w' p u' q _ _ hpq => hpq.suspend hd call s.maxSteps).mono ?_
  intro w' c u' c' _ _ hc
  rcases hc with hc | hc
  · exact hc.behaves hd
  · exact hc

/-- Routines that, begun in known worlds, come to the same: they run alongside each other, or they
yield nothing and have values that are alike or chains that behave alike. -/
inductive Begins (L : Sameness s) (w : Known s) : Routine → Env → Known s → Routine → Env → Prop
  | resumable {body body' : List Stmt} {env env' : Env} {u : Known s}
      (h : L.Alongside w body env u body' env') :
      Begins L w (.resumable body) env u (.resumable body') env'
  | plain {body body' : Expr} {env env' : Env} {u : Known s}
      (h : Concurs L.Gives w (Evaluation.meaning s env body) u
        (Evaluation.meaning s env' body')) :
      Begins L w (.plain body) env u (.plain body') env'

/-- The chain of a program that yields nothing. -/
def plainChain (caps : CapabilitySet) : Value → Value
  | .chain c => .chain (c.declare caps)
  | v => .chain ((Chain.finished v).declare caps)

theorem meaning_plain (s : Settings) (fid : Nat) (caps : CapabilitySet) (params : List String)
    (body : Expr) (env : Env) (args : List Value) :
    Callable.meaning s (.program fid caps params (.plain body) env) args =
      (Action.require .arity (Env.setAll? env params args) >>= fun env =>
        Evaluation.meaning s env body >>= fun v => pure (plainChain caps v)) := by
  rw [Callable.meaning_unfold]
  refine congrArg (Action.require .arity (Env.setAll? env params args) >>= ·) (funext fun env => ?_)
  refine congrArg (Evaluation.meaning s env body >>= ·) (funext fun v => ?_)
  cases v <;> rfl

theorem Gives.plain_ends {v v' : Value} (h : L.Gives w v u v') (caps : CapabilitySet) :
    L.Behaves.Ends w (plainChain caps v) u (plainChain caps v') := by
  cases h with
  | chain h => exact .chain (h.declare caps)
  | same h =>
    cases ends_of_same h with
    | chain hc => exact .chain ((behaves_of_same hc).declare caps)
    | other left right _ =>
      have hplain (v : Value) (hv : ∀ c, v ≠ .chain c) :
          plainChain caps v = .chain ((Chain.finished v).declare caps) := by
        cases v with
        | chain c => exact absurd rfl (hv c)
        | _ => rfl
      rw [hplain v left, hplain v' right]
      exact .chain ((behaves_done h ∅).declare caps)

/-- **Programs that come to the same are called alike**: whatever is done between their
resumptions, the chains behave alike. -/
theorem program_concurs {fid fid' : Nat} {caps : CapabilitySet} {params params' : List String}
    {body body' : Routine} {env env' : Env} {args args' : List Value}
    (harity : (Env.setAll? env params args).isSome = (Env.setAll? env' params' args').isSome)
    (hd : ∀ env₁ env₁', Env.setAll? env params args = some env₁ →
      Env.setAll? env' params' args' = some env₁' → L.Begins w body env₁ u body' env₁') :
    Concurs L.Behaves.Ends w (Callable.meaning s (.program fid caps params body env) args) u
      (Callable.meaning s (.program fid' caps params' body' env') args') := by
  cases henv : Env.setAll? env params args with
  | none =>
    have henv' : Env.setAll? env' params' args' = none := by simpa [henv] using harity.symm
    have hfail (fid : Nat) (params : List String) (body : Routine) (env : Env)
        (args : List Value) (henv : Env.setAll? env params args = none) :
        Callable.meaning s (.program fid caps params body env) args = Action.fail .arity := by
      cases body with
      | resumable body => rw [Callable.meaning_program, henv]; rfl
      | plain body => rw [meaning_plain, henv]; rfl
    rw [hfail fid params body env args henv, hfail fid' params' body' env' args' henv']
    exact .fail (.refl _)
  | some env₁ =>
    have hsome : (Env.setAll? env' params' args').isSome = true := by
      rw [← harity, henv]
      rfl
    obtain ⟨env₁', henv'⟩ := Option.isSome_iff_exists.mp hsome
    cases hd env₁ env₁' henv henv' with
    | resumable h =>
      rw [Callable.meaning_program, Callable.meaning_program, henv, henv']
      refine (begin_concurs h _).bind fun w' c u' c' _ _ hc => ?_
      exact .ret (.chain (hc.declare caps))
    | plain h =>
      rw [meaning_plain, meaning_plain, henv, henv']
      show Concurs _ w (Evaluation.meaning s env₁ _ >>= _) u (Evaluation.meaning s env₁' _ >>= _)
      refine h.bind fun w' v u' v' _ _ hv => ?_
      exact .ret (hv.plain_ends caps)

end Sameness

end EffectHandlers
