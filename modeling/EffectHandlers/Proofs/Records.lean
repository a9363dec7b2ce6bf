/-
EffectHandlers/Proofs/Records.lean

What the accesses to the record of a call come to.

Every access reads or changes one record.  For a world in which the record
is known, each of them has a definite outcome.
-/
import EffectHandlers.Script.Replay

namespace EffectHandlers

/-! ### The changed record -/

/-- The record with a coroutine put at a position. -/
def Invocation.setPosition (i : Invocation) (gen : Nat) (p : Position) : Invocation :=
  { i with coroutines := i.coroutines.modify gen ({ · with position := p }) }

/-- The record with a live coroutine, or none. -/
def Invocation.withLive (i : Invocation) (l : Option (Nat × Nat)) : Invocation :=
  { i with live := l }

/-- The record with an answer received by a coroutine. -/
def Invocation.withReceived (i : Invocation) (gen : Nat) (answer : Value) : Invocation :=
  { i with
    coroutines := i.coroutines.modify gen fun c => { c with received := answer :: c.received } }

/-- The record with one more history. -/
def Invocation.withHistory (i : Invocation) (answers : List Value) : Invocation :=
  { i with histories := i.histories.push answers }

/-- The record with one more coroutine, not started. -/
def Invocation.withFresh (i : Invocation) : Invocation :=
  { i with coroutines := i.coroutines.push ⟨.entry i.body i.env, []⟩ }

theorem World.setPosition_eq (w : World) (id gen : Nat) (p : Position) :
    w.setPosition id gen p = w.changeCall id (·.setPosition gen p) := rfl

/-- A change of a record, seen in the record. -/
theorem World.record_changeCall {w : World} {id : Nat} {i : Invocation}
    (hi : w.invocations[id]? = some i) (f : Invocation → Invocation) :
    (w.changeCall id f).invocations[id]? = some (f i) := by
  simp [World.changeCall, Array.getElem?_modify, hi]

theorem World.record_changeCall_ne (w : World) {id k : Nat} (h : k ≠ id)
    (f : Invocation → Invocation) :
    (w.changeCall id f).invocations[k]? = w.invocations[k]? := by
  simp [World.changeCall, Array.getElem?_modify, Ne.symm h]

/-- After a change of one record, a record is the changed one, or it is as it was. -/
theorem World.record_changeCall_cases {w : World} {id k : Nat} {i j : Invocation}
    (hi : w.invocations[id]? = some i) {f : Invocation → Invocation}
    (hj : (w.changeCall id f).invocations[k]? = some j) :
    k = id ∧ j = f i ∨ k ≠ id ∧ w.invocations[k]? = some j := by
  by_cases hk : k = id
  · subst hk
    rw [record_changeCall hi] at hj
    exact .inl ⟨rfl, (Option.some.inj hj).symm⟩
  · rw [record_changeCall_ne w hk] at hj
    exact .inr ⟨hk, hj⟩

theorem Invocation.setPosition_setPosition (i : Invocation) (gen : Nat) (p q : Position) :
    (i.setPosition gen p).setPosition gen q = i.setPosition gen q := by
  unfold Invocation.setPosition
  refine congrArg (fun cs => { i with coroutines := cs }) ?_
  apply Array.ext_getElem?
  intro j
  simp only [Array.getElem?_modify]
  split
  · simp [Option.map_map, Function.comp_def]
  · rfl

/-! ### Accesses -/

section

variable {w : World} {id gen : Nat} {i : Invocation} (hi : w.invocations[id]? = some i)

include hi

theorem Invocation.recordOf_apply : recordOf id w = .value i w := by
  show Action.require .noLiveRoutine w.invocations[id]? w = _
  rw [hi]
  rfl

theorem Invocation.liveOf_apply : liveOf id w = .value i.live w := by
  show Outcome.value ((w.invocations[id]?).bind (·.live)) w = _
  rw [hi, Option.bind_some]

theorem Invocation.takeLive_apply {hist : Nat} (hl : i.live = some (gen, hist)) :
    takeLive id w = .value gen (w.changeCall id (·.withLive none)) := by
  rw [takeLive, Action.bind_of_value (liveOf_apply hi), hl]
  rfl

theorem Invocation.answersOf_apply {hist : Nat} {answers : List Value}
    (hh : i.histories[hist]? = some answers) : answersOf id hist w = .value answers w := by
  rw [answersOf, Action.bind_of_value (recordOf_apply hi), hh]
  rfl

theorem Invocation.extendHistory_apply {hist : Nat} {answers : List Value} (answer : Value)
    (hh : i.histories[hist]? = some answers) :
    extendHistory id hist answer w
      = .value i.histories.size (w.changeCall id (·.withHistory (answer :: answers))) := by
  rw [extendHistory, Action.bind_of_value (recordOf_apply hi), hh]
  rfl

theorem Invocation.spawn_apply :
    spawn id w = .value i.coroutines.size (w.changeCall id (·.withFresh)) := by
  rw [spawn, Action.bind_of_value (recordOf_apply hi)]
  rfl

theorem Coroutine.standing_apply {c : Coroutine} (hc : i.coroutines[gen]? = some c) :
    standing id gen w = .value c.position w := by
  have hfound : (w.invocations[id]?).bind (·.coroutines[gen]?) = some c := by
    rw [hi, Option.bind_some, hc]
  simp only [standing, Action.ask, hfound]

/-- Sending an answer to a parked coroutine is executing what its yield left. -/
theorem Coroutine.send_apply {eval : Evaluation} {answer : Value} {target : Option String}
    {rest : List Frame} {env : Env} {received : List Value}
    (hc : i.coroutines[gen]? = some ⟨.parked target rest env, received⟩) :
    send eval id gen answer w
      = execute id gen (execFrames eval rest (bindAnswer env target answer))
        (w.changeCall id (·.withReceived gen answer)) := by
  rw [send, Action.bind_of_value (standing_apply hi hc)]
  rfl

/-- An answer is fed to the coroutine that is taken away. -/
theorem Invocation.feed_apply {eval : Evaluation} {hist : Nat} {answer : Value}
    {target : Option String} {rest : List Frame} {env : Env} {received : List Value}
    (hl : i.live = some (gen, hist))
    (hc : i.coroutines[gen]? = some ⟨.parked target rest env, received⟩) :
    feed eval id hist answer w
      = (Coroutine.execute id gen (execFrames eval rest (Coroutine.bindAnswer env target answer))
          >>= settle id hist gen answer)
        ((w.changeCall id (·.withLive none)).changeCall id (·.withReceived gen answer)) := by
  have htaken := World.record_changeCall hi (·.withLive none)
  rw [feed, Action.bind_of_value (takeLive_apply hi hl), Action.bind_apply,
    Coroutine.send_apply htaken hc, ← Action.bind_apply]

/-- At a yield, the history is extended and the coroutine is live again. -/
theorem Invocation.settle_yielded {hist : Nat} {answers : List Value} (answer v : Value)
    (hh : i.histories[hist]? = some answers) :
    settle id hist gen answer (.yielded v) w
      = .value (.yielded v, i.histories.size)
        ((w.changeCall id (·.withHistory (answer :: answers))).changeCall id
          (·.withLive (some (gen, i.histories.size)))) := by
  rw [settle, Action.bind_of_value (extendHistory_apply hi answer hh)]
  rfl

theorem Coroutine.start_apply {eval : Evaluation} {body : List Stmt} {env : Env}
    {received : List Value} (hc : i.coroutines[gen]? = some ⟨.entry body env, received⟩) :
    start eval id gen w = execute id gen (execBlock eval body env) w := by
  rw [start, Action.bind_of_value (standing_apply hi hc)]

end

/-- What a routine yields is a chain, or nothing happens. -/
theorem Invocation.yieldedChain_cases (v : Value) :
    (∃ c, yieldedChain v = pure c) ∨ yieldedChain v = Action.fail (.notYieldable v.typeName) := by
  cases v
  case effect e => exact .inl ⟨_, rfl⟩
  case chain c => exact .inl ⟨c, rfl⟩
  all_goals exact .inr rfl

theorem Invocation.standsAt_eq_true {hist : Nat} {l : Option (Nat × Nat)}
    (h : standsAt hist l = true) : ∃ gen, l = some (gen, hist) := by
  rcases l with _ | ⟨gen, hist'⟩
  · cases h
  · exact ⟨gen, by rw [beq_iff_eq.mp (show (hist' == hist) = true from h)]⟩

/-- The two ways of going on from a history: with the live coroutine if it stands there, else with
a rebuilt one. -/
theorem Invocation.resume_cases (eval : Evaluation) (call : Call) (maxSteps id hist : Nat)
    (answer : Value) (w : World) :
    (∃ i gen, w.invocations[id]? = some i ∧ i.live = some (gen, hist) ∧
      resume eval call maxSteps id hist answer w = (feed eval id hist answer >>= fun p =>
        suspend eval call id maxSteps p.1 p.2) w) ∨
    resume eval call maxSteps id hist answer w
      = (rebuild eval id hist >>= fun _ => feed eval id hist answer >>= fun p =>
        suspend eval call id maxSteps p.1 p.2) w := by
  have hlive : liveOf id w = .value ((w.invocations[id]?).bind (·.live)) w := rfl
  rw [resume, Action.bind_of_value hlive]
  cases hstands : standsAt hist ((w.invocations[id]?).bind (·.live)) with
  | false => exact .inr rfl
  | true =>
    obtain ⟨gen, hl⟩ := standsAt_eq_true hstands
    obtain ⟨i, hi, hl⟩ := Option.bind_eq_some_iff.mp hl
    exact .inl ⟨i, gen, hi, hl, rfl⟩

/-- A history is recorded, or nothing is found and nothing happens. -/
theorem Invocation.answersOf_cases (id hist : Nat) (w : World) :
    (∃ i answers, w.invocations[id]? = some i ∧ i.histories[hist]? = some answers) ∨
      answersOf id hist w = .failed .noLiveRoutine w := by
  cases hi : w.invocations[id]? with
  | none =>
    refine .inr ?_
    have hrecord : recordOf id w = .failed .noLiveRoutine w := by
      show Action.require .noLiveRoutine w.invocations[id]? w = _
      rw [hi]
      rfl
    rw [answersOf, Action.bind_apply, hrecord]
  | some i =>
    cases hh : i.histories[hist]? with
    | none =>
      refine .inr ?_
      rw [answersOf, Action.bind_of_value (recordOf_apply hi), hh]
      rfl
    | some answers => exact .inl ⟨i, answers, rfl, hh⟩

end EffectHandlers
