/-
EffectHandlers/Proofs/Course.lean

What the body of a program executes.

What drives a program sees little of a slice: that the routine has yielded
or returned something, and failures as they leave the routine.  Here the
same is done in full view.  Every slice is seen with the way in which it
ends (`Exit`), and failures are what was raised.

* `Body.begin`: the first slice, and a slice for the value of each finished
  chain that the body yields next;
* `Body.resume`: a slice for a new answer, and again one for each finished
  chain; before that, if the live coroutine is elsewhere, the slices of a
  fresh one, for the recorded answers.

What a call or a resumption comes to is then read off the last slice
(`Body.begin_seen`, `Body.resume_seen`).  In particular nothing but a
return gives the finished chain of the program.
-/
import EffectHandlers.Proofs.Containment
import EffectHandlers.Proofs.Keeping
import EffectHandlers.Proofs.Moment

namespace EffectHandlers

variable {α β γ δ : Type} {s : Settings} {births : Births} {id gen h : Nat} {i : Invocation}
  {answers : List Value} {w u : World}

/-! ### Slices -/

/-- A slice ends the routine: a return is executed, or nothing is left to do and the value is
null. -/
inductive Exit.Returns : Exit → Value → Prop
  | returned (v : Value) : Returns (.returned v) v
  | through (env : Env) : Returns (.through env) .null

theorem Exit.returns_iff {exit : Exit} {v : Value} :
    exit.Returns v ↔ exit.advance = .returned v := by
  constructor
  · rintro (_ | _) <;> rfl
  · cases exit <;> rintro ⟨⟩ <;> constructor

/-- The value of the finished chain that a slice yields. -/
def Exit.answer? : Exit → Option Value
  | .yielded (.chain (.done v _)) _ _ _ => some v
  | _ => none

theorem Exit.answer?_eq_some {exit : Exit} {a : Value} : exit.answer? = some a ↔
    ∃ target rest env r, exit = .yielded (.chain (.done a r)) target rest env := by
  constructor
  · intro h
    unfold answer? at h
    split at h
    · cases h
      exact ⟨_, _, _, _, rfl⟩
    · cases h
  · rintro ⟨target, rest, env, r, rfl⟩
    rfl

namespace Body

/-- Execute a segment in a coroutine, and keep where it ends. -/
noncomputable def execute (s : Settings) (id gen : Nat) (segment : Segment) : Action Exit :=
  fun w => (segment.run s (w.setPosition id gen .running)).elim
    (fun exit u => .value exit (u.setPosition id gen exit.position))
    fun f u => .failed f (u.setPosition id gen .finished)

/-- Start a coroutine that is not started. -/
noncomputable def start (s : Settings) (id gen : Nat) : Action Exit := do
  match ← Coroutine.standing id gen with
  | .entry body env => execute s id gen (.first body env)
  | _ => Action.exhaust

/-- Send an answer to a coroutine that is parked. -/
noncomputable def send (s : Settings) (id gen : Nat) (answer : Value) : Action Exit := do
  match ← Coroutine.standing id gen with
  | .parked target rest env =>
    Coroutine.receive id gen answer
    execute s id gen (.next target rest env answer)
  | _ => Action.exhaust

/-- Send an answer to the live coroutine, which stands at a history. -/
noncomputable def feed (s : Settings) (id h : Nat) (answer : Value) : Action (Exit × Nat) := do
  let gen ← Invocation.takeLive id
  let exit ← send s id gen answer
  let p ← Invocation.settle id h gen answer exit.advance
  return (exit, p.2)

/-- Answer the finished chains that the body yields, one after the other: the last slice. -/
noncomputable def onward (s : Settings) (id : Nat) : Nat → Exit × Nat → Action (Exit × Nat)
  | 0, p =>
    match p.1.answer? with
    | some _ => Action.exhaust
    | none => pure p
  | fuel + 1, p =>
    match p.1.answer? with
    | some answer => do onward s id fuel (← feed s id p.2 answer)
    | none => pure p

/-- Send an answer to the live coroutine, and then the values of the finished chains that the body
yields: the last slice. -/
noncomputable def advance (s : Settings) (id h : Nat) (answer : Value) : Action (Exit × Nat) := do
  onward s id s.maxSteps (← feed s id h answer)

/-- Start a new call: its number and the first slice. -/
noncomputable def enter (s : Settings) (body : List Stmt) (env : Env) : Action (Nat × Exit) := do
  let id ← Invocation.create body env
  let gen ← Invocation.spawn id
  let exit ← start s id gen
  match exit.advance with
  | .returned _ => return (id, exit)
  | .yielded _ =>
    Invocation.setLive id (some (gen, Invocation.emptyHistory))
    return (id, exit)

/-- Start a new call, and answer the finished chains that the body yields: its number and the last
slice. -/
noncomputable def begin (s : Settings) (body : List Stmt) (env : Env) :
    Action (Nat × Exit × Nat) := do
  let (id, exit) ← enter s body env
  return (id, ← onward s id s.maxSteps (exit, Invocation.emptyHistory))

/-- Send recorded answers to a coroutine, oldest first, until it returns: the last slice. -/
noncomputable def replay (s : Settings) (id gen : Nat) : List Value → Exit → Action Exit
  | [], exit => pure exit
  | a :: rest, exit =>
    match exit.advance with
    | .yielded _ => do replay s id gen rest (← send s id gen a)
    | .returned _ => pure exit

/-- Make a fresh coroutine, send it the answers of a history and make it live: the last slice. -/
noncomputable def rebuild (s : Settings) (id h : Nat) : Action Exit := do
  let answers ← Invocation.answersOf id h
  let gen ← Invocation.spawn id
  let exit ← replay s id gen answers.reverse (← start s id gen)
  match exit.advance with
  | .returned _ => return exit
  | .yielded _ =>
    Invocation.setLive id (some (gen, h))
    return exit

/-- Go on from a history with an answer: the last slice, or none if a fresh coroutine returns
while it is sent the recorded answers. -/
noncomputable def resume (s : Settings) (id h : Nat) (answer : Value) :
    Action (Option (Exit × Nat)) := do
  if Invocation.standsAt h (← Invocation.liveOf id) then return some (← advance s id h answer)
  else
    let exit ← rebuild s id h
    match exit.advance with
    | .returned _ => return none
    | .yielded _ => return some (← advance s id h answer)

/-! ### What is made of the last slice -/

/-- The chain for the last slice of a body. -/
def conclude (call : Call) (id : Nat) (p : Exit × Nat) : Action Chain :=
  match p.1.advance with
  | .returned v => pure (Chain.finished v)
  | .yielded v => do
    match ← Invocation.yieldedChain v with
    | .suspended e r => (Chain.suspended e r).bind call (.call (.resumption id p.2))
    | .done _ _ => Action.exhaust

/-- The chain for the last slice of a body that goes on, which has to come as far as that. -/
def concludeResumed (call : Call) (id : Nat) : Option (Exit × Nat) → Action Chain
  | some p => conclude call id p
  | none => Action.fail .replayEndedEarly

theorem conclude_eq_done {call : Call} {p : Exit × Nat} {v : Value} {r : CapabilitySet} :
    conclude call id p w = .value (.done v r) u ↔ p.1.Returns v ∧ r = ∅ ∧ u = w := by
  rw [Exit.returns_iff, conclude]
  cases p.1.advance with
  | returned x =>
    rw [Action.pure_eq_value]
    constructor
    · rintro ⟨⟨⟩, rfl⟩
      exact ⟨rfl, rfl, rfl⟩
    · rintro ⟨⟨⟩, rfl, rfl⟩
      exact ⟨rfl, rfl⟩
  | yielded x =>
    -- What is yielded gives a pending chain, or none.
    refine iff_of_false (fun hc => ?_) (by simp)
    obtain ⟨c, w₁, -, hc⟩ := Action.bind_eq_value.mp hc
    cases c <;> cases hc

end Body

/-! ### In full view -/

/-- What follows an action that is seen in part follows it when it is seen in full. -/
theorem Outcome.Leads.bind_seen {P : α → World → Prop} {w₀ : World} {x : Action α} {y : Action β}
    {g : β → α} {f : α → Action γ} {k : β → Action δ} {c : δ → Action γ}
    (hx : x w = (y.outward >>= fun b => pure (g b)) w) (hl : (x w).Leads s births w₀ P)
    (hf : ∀ b u, After s births w₀ u → P (g b) u → f (g b) u = ((k b).outward >>= c) u) :
    (x >>= f) w = ((y >>= k).outward >>= c) w := by
  rw [Action.outward_bind, bind_assoc, Action.bind_congr_apply hx, bind_assoc]
  simp only [pure_bind]
  refine Action.bind_congr_of_value fun b u hb => ?_
  have hvalue : x w = .value (g b) u := by rw [hx, Action.bind_of_value hb, Action.pure_apply]
  rw [hvalue] at hl
  exact hf b u hl.1 hl.2

/-- What is done before does not raise stop signals. -/
theorem Action.Contained.bind_outward {x : Action α} (hx : x.Contained) (f : α → Action β)
    (c : β → Action γ) :
    (x >>= f).outward >>= c = x >>= fun a => (f a).outward >>= c := by
  rw [Action.outward_bind, bind_assoc, hx]

namespace Body

/-! ### Coroutines -/

theorem execute_seen (segment : Segment) : Coroutine.execute id gen (segment.run s)
    = (execute s id gen segment).outward >>= fun exit => pure exit.advance := by
  funext w
  rw [Coroutine.execute_apply, Action.bind_apply, Action.outward, execute]
  cases segment.run s (w.setPosition id gen .running) <;> rfl

theorem start_seen (hi : w.invocations[id]? = some i) {body : List Stmt} {env : Env}
    {received : List Value} (hc : i.coroutines[gen]? = some ⟨.entry body env, received⟩) :
    Coroutine.start (Evaluation.meaning s) id gen w
      = ((start s id gen).outward >>= fun exit => pure exit.advance) w := by
  have hstanding : (Coroutine.standing id gen).Contained := rfl
  rw [Coroutine.start_apply hi hc, start, hstanding.bind_outward,
    Action.bind_of_value (Coroutine.standing_apply hi hc), ← execute_seen]
  rfl

theorem send_seen (hi : w.invocations[id]? = some i) {target : Option String}
    {rest : List Frame} {env : Env} {received : List Value}
    (hc : i.coroutines[gen]? = some ⟨.parked target rest env, received⟩) (a : Value) :
    Coroutine.send (Evaluation.meaning s) id gen a w
      = ((send s id gen a).outward >>= fun exit => pure exit.advance) w := by
  have hstanding : (Coroutine.standing id gen).Contained := rfl
  have hreceive : (Coroutine.receive id gen a).Contained := rfl
  rw [Coroutine.send_apply hi hc, send, hstanding.bind_outward,
    Action.bind_of_value (Coroutine.standing_apply hi hc), hreceive.bind_outward, ← execute_seen]
  rfl

/-- A coroutine that awaits an answer is parked. -/
theorem send_seen_of_awaits {b : World} (hi : w.invocations[id]? = some i)
    (hawaits : i.Awaits s b gen answers) (a : Value) :
    Coroutine.send (Evaluation.meaning s) id gen a w
      = ((send s id gen a).outward >>= fun exit => pure exit.advance) w := by
  obtain ⟨target, rest, env, hposition, -⟩ := hawaits
  obtain ⟨⟨_, received⟩, hc, rfl⟩ := Option.map_eq_some_iff.mp hposition
  exact send_seen hi hc a

/-! ### Going on -/

theorem settle_seen (id h gen : Nat) (answer : Value) (next : Advance) :
    Invocation.settle id h gen answer next
      = Invocation.settle id h gen answer next >>= fun p => pure (next, p.2) := by
  cases next with
  | returned v => rfl
  | yielded v => simp only [Invocation.settle, bind_assoc, pure_bind]

theorem feed_seen (hw : KeptFrom s births w) (hi : w.invocations[id]? = some i)
    (hl : i.live = some (gen, h)) (answer : Value) :
    Invocation.feed (Evaluation.meaning s) id h answer w
      = ((feed s id h answer).outward >>= fun p => pure (p.1.advance, p.2)) w := by
  -- In a kept world the live coroutine is parked, so the answer reaches it.
  obtain ⟨-, -, hparked⟩ := hw id i hi
  obtain ⟨answers, hh, -⟩ := parked_iff.mp (hparked gen h hl)
  obtain ⟨-, -, hi₀, -, hawaits⟩ := hw.takeLive hi hl hh
  have htake := Invocation.takeLive_apply hi hl
  rw [Invocation.feed, Action.bind_of_value htake, feed,
    (Action.Contained.takeLive id).bind_outward, Action.bind_of_value htake,
    Action.bind_congr_apply (send_seen_of_awaits hi₀ hawaits answer), Action.outward_bind,
    bind_assoc, bind_assoc]
  refine Action.bind_congr_of_value fun exit u _ => ?_
  have hsettle := Action.Contained.settle id h gen answer exit.advance
  rw [pure_bind, hsettle.bind_outward]
  exact congrFun (settle_seen id h gen answer exit.advance) u

/-- A slice that yields no finished chain is the last one. -/
theorem suspend_eq_conclude (call : Call) (fuel : Nat) {exit : Exit} (h : Nat)
    (hlast : exit.answer? = none) :
    Invocation.suspend (Evaluation.meaning s) call id fuel exit.advance h
      = conclude call id (exit, h) := by
  cases exit with
  | through env => exact Invocation.suspend_returned _ call id fuel .null h
  | returned v => exact Invocation.suspend_returned _ call id fuel v h
  | yielded v target rest env =>
    rw [Exit.advance, Invocation.suspend_yielded]
    cases v
    case chain c =>
      cases c with
      | done a r => cases hlast
      | suspended e r => rfl
    all_goals rfl

theorem onward_seen (call : Call) {fuel : Nat} {exit : Exit} (hw : KeptFrom s births w)
    (hlive : LiveAt id exit.advance h answers w) :
    Invocation.suspend (Evaluation.meaning s) call id fuel exit.advance h w
      = ((onward s id fuel (exit, h)).outward >>= conclude call id) w := by
  -- A finished chain takes one unit, and the live coroutine then stands at the longer history.
  induction fuel generalizing exit births h answers w with
  | zero =>
    cases hanswer : exit.answer? with
    | none =>
      rw [suspend_eq_conclude call 0 h hanswer, onward, hanswer]
      rfl
    | some a =>
      obtain ⟨target, rest, env, r, rfl⟩ := Exit.answer?_eq_some.mp hanswer
      rw [onward, hanswer, Exit.advance, Invocation.suspend_yielded]
      rfl
  | succ fuel ih =>
    cases hanswer : exit.answer? with
    | none =>
      rw [suspend_eq_conclude call (fuel + 1) h hanswer, onward, hanswer]
      rfl
    | some a =>
      obtain ⟨target, rest, env, r, rfl⟩ := Exit.answer?_eq_some.mp hanswer
      obtain ⟨gen, i, hi, hl, hh⟩ := hlive _ rfl
      rw [onward, hanswer, Exit.advance, Invocation.suspend_yielded]
      show (Invocation.feed (Evaluation.meaning s) id h a >>= fun p =>
        Invocation.suspend (Evaluation.meaning s) call id fuel p.1 p.2) w = _
      refine Outcome.Leads.bind_seen (feed_seen hw hi hl a)
        (Outcome.Leads.feed (sound_meaning s) hw hi hl hh a) fun p u hafter hlive => ?_
      obtain ⟨-, births', -, hu⟩ := hafter
      exact ih hu hlive

theorem advance_seen (call : Call) (hw : KeptFrom s births w) (hi : w.invocations[id]? = some i)
    (hl : i.live = some (gen, h)) (answer : Value) :
    (Invocation.feed (Evaluation.meaning s) id h answer >>= fun p =>
        Invocation.suspend (Evaluation.meaning s) call id s.maxSteps p.1 p.2) w
      = ((advance s id h answer).outward >>= conclude call id) w := by
  obtain ⟨-, -, hparked⟩ := hw id i hi
  obtain ⟨answers, hh, -⟩ := parked_iff.mp (hparked gen h hl)
  refine Outcome.Leads.bind_seen (feed_seen hw hi hl answer)
    (Outcome.Leads.feed (sound_meaning s) hw hi hl hh answer) fun p u hafter hlive => ?_
  obtain ⟨-, births', -, hu⟩ := hafter
  exact onward_seen call hu hlive

/-! ### New calls -/

theorem enter_seen (body : List Stmt) (env : Env) (w : World) :
    Invocation.enter (Evaluation.meaning s) body env w
      = ((enter s body env).outward >>= fun p => pure (p.1, p.2.advance)) w := by
  let call : Invocation := ⟨body, env, #[], #[[]], none⟩
  have hi₀ : (w.withCall body env).invocations[w.invocations.size]? = some call :=
    w.record_withCall body env
  have hcreate : Invocation.create body env w
      = .value w.invocations.size (w.withCall body env) := rfl
  have hcreated : (Invocation.create body env).Contained := rfl
  have hspawn := Invocation.spawn_apply hi₀
  have hi₁ := World.record_changeCall hi₀ (·.withFresh)
  have hentry : call.withFresh.coroutines[call.coroutines.size]? = some ⟨.entry body env, []⟩ := rfl
  rw [Invocation.enter, Action.bind_of_value hcreate, Action.bind_of_value hspawn,
    Action.bind_congr_apply (start_seen hi₁ hentry), bind_assoc, enter, hcreated.bind_outward,
    Action.bind_of_value hcreate, (Action.Contained.spawn _).bind_outward,
    Action.bind_of_value hspawn, Action.outward_bind, bind_assoc]
  refine Action.bind_congr_of_value fun exit u _ => ?_
  cases exit <;> rfl

theorem begin_seen (call : Call) (hw : Kept s w) (body : List Stmt) (env : Env) :
    Invocation.begin (Evaluation.meaning s) call s.maxSteps body env w
      = ((begin s body env).outward >>= fun p => conclude call p.1 p.2) w := by
  obtain ⟨births, hw⟩ := hw.exists_births
  -- The call is born in this very world.
  obtain ⟨births', -, hbirth, hw'⟩ := hw.exists_birth
  refine Outcome.Leads.bind_seen (enter_seen body env w)
    (Outcome.Leads.enter (sound_meaning s) body env hw' hbirth) fun p u hafter hlive => ?_
  obtain ⟨-, births'', -, hu⟩ := hafter
  rw [Action.outward_bind, bind_assoc]
  exact onward_seen call hu hlive.2

/-! ### Replay -/

theorem replay_seen (as : List Value) {exit : Exit} (hw : KeptFrom s births w)
    (hid : id < w.invocations.size)
    (hrests : ∀ v, exit.advance = .yielded v → Rests s (births id) id gen i answers w) :
    (Invocation.mustYield exit.advance >>= fun _ =>
        Invocation.replay (Evaluation.meaning s) id gen as) w
      = ((replay s id gen as exit).outward >>= fun last => Invocation.mustYield last.advance) w := by
  -- Between two answers the coroutine rests at a yield, unless it has returned already.
  induction as generalizing exit births w i answers with
  | nil =>
    rw [replay]
    cases exit <;> rfl
  | cons a as ih =>
    cases hadvance : exit.advance with
    | returned v =>
      rw [replay, hadvance]
      show _ = Invocation.mustYield exit.advance w
      rw [hadvance]
      rfl
    | yielded v =>
      obtain ⟨j, hj, -, hjaway, hjawaits⟩ := hrests v hadvance
      rw [replay, hadvance]
      show (Invocation.replay (Evaluation.meaning s) id gen (a :: as)) w = _
      rw [Invocation.replay]
      refine Outcome.Leads.bind_seen (send_seen_of_awaits hj hjawaits a)
        (Outcome.Leads.send (sound_meaning s) hw hj hjaway hjawaits a) fun exit u hafter hrests => ?_
      obtain ⟨hfollows, births', hagree, hu⟩ := hafter
      rw [← hagree id hid] at hrests
      exact ih hu (Nat.lt_of_lt_of_le hid hfollows.grows.size_le) hrests

theorem rebuild_seen (hw : KeptFrom s births w) (id h : Nat) :
    Invocation.rebuild (Evaluation.meaning s) id h w
      = ((rebuild s id h).outward >>= fun exit => Invocation.mustYield exit.advance) w := by
  rw [Invocation.rebuild, rebuild, (Action.Contained.answersOf id h).bind_outward]
  rcases Invocation.answersOf_cases id h w with ⟨i, answers, hi, hh⟩ | hfail
  case inr => rw [Action.bind_apply, Action.bind_apply, hfail]
  obtain ⟨hw₀, -, haway₀⟩ := hw.withFresh hi
  have hi₀ := World.record_changeCall hi (·.withFresh)
  have hentry : i.withFresh.coroutines[i.coroutines.size]? = some ⟨.entry i.body i.env, []⟩ := by
    simp [Invocation.withFresh]
  have hid := (Array.getElem?_eq_some_iff.mp hi₀).1
  have hanswers := Invocation.answersOf_apply hi hh
  have hspawn := Invocation.spawn_apply hi
  rw [Action.bind_of_value hanswers, Action.bind_of_value hspawn, Action.bind_of_value hanswers,
    (Action.Contained.spawn id).bind_outward, Action.bind_of_value hspawn]
  refine Outcome.Leads.bind_seen (start_seen hi₀ hentry)
    (Outcome.Leads.start (sound_meaning s) hw₀ hi₀ haway₀ hentry) fun exit u hafter hrests => ?_
  obtain ⟨hfollows, births', hagree, hu⟩ := hafter
  rw [← hagree id hid] at hrests
  have hreplay := replay_seen answers.reverse hu
    (Nat.lt_of_lt_of_le hid hfollows.grows.size_le) hrests
  rw [← bind_assoc, Action.bind_congr_apply hreplay, Action.outward_bind, bind_assoc, bind_assoc]
  refine Action.bind_congr_of_value fun last v _ => ?_
  cases last <;> rfl

/-! ### Resumptions -/

theorem resume_seen (call : Call) (hw : Kept s w) (id h : Nat) (answer : Value) :
    Invocation.resume (Evaluation.meaning s) call s.maxSteps id h answer w
      = ((resume s id h answer).outward >>= concludeResumed call id) w := by
  obtain ⟨births, hw⟩ := hw.exists_births
  have hlive : Invocation.liveOf id w = .value ((w.invocations[id]?).bind (·.live)) w := rfl
  have hcontained : (Invocation.liveOf id).Contained := rfl
  -- What is left when the live coroutine stands at the history.
  have hgo {births : Births} {u : World} {gen : Nat} {i : Invocation} (hu : KeptFrom s births u)
      (hi : u.invocations[id]? = some i) (hl : i.live = some (gen, h)) :
      (Invocation.feed (Evaluation.meaning s) id h answer >>= fun p =>
          Invocation.suspend (Evaluation.meaning s) call id s.maxSteps p.1 p.2) u
        = ((advance s id h answer >>= fun p => pure (some p)).outward
          >>= concludeResumed call id) u := by
    rw [advance_seen call hu hi hl answer, Action.outward_bind, bind_assoc]
    rfl
  rw [Invocation.resume, Action.bind_of_value hlive, resume, hcontained.bind_outward,
    Action.bind_of_value hlive]
  cases hstands : Invocation.standsAt h ((w.invocations[id]?).bind (·.live)) with
  | true =>
    obtain ⟨gen, hl⟩ := Invocation.standsAt_eq_true hstands
    obtain ⟨i, hi, hl⟩ := Option.bind_eq_some_iff.mp hl
    exact hgo hw hi hl
  | false =>
    show (Invocation.rebuild (Evaluation.meaning s) id h >>= fun _ =>
      Invocation.feed (Evaluation.meaning s) id h answer >>= fun p =>
        Invocation.suspend (Evaluation.meaning s) call id s.maxSteps p.1 p.2) w
      = ((rebuild s id h >>= _).outward >>= concludeResumed call id) w
    rw [Action.bind_congr_apply (rebuild_seen hw id h), bind_assoc, Action.outward_bind, bind_assoc]
    refine Action.bind_congr_of_value fun exit u hexit => ?_
    cases hadvance : exit.advance with
    | returned v => rfl
    | yielded v =>
      have hleads := Outcome.Leads.rebuild (sound_meaning s) hw id h
      rw [rebuild_seen hw id h, Action.bind_of_value hexit, hadvance] at hleads
      obtain ⟨⟨-, births', -, hu⟩, gen, i, hi, hl⟩ := hleads
      exact hgo hu hi hl

end Body

end EffectHandlers
