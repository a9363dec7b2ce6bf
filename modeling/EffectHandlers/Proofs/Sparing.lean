/-
EffectHandlers/Proofs/Sparing.lean

A coroutine goes on while nobody else touches the record of its call.

A routine that does not use its own chain leaves the record of its call alone
while it is executed.  This is said of the evaluation of its expressions:
`Evaluation.sparing` comes to nothing when the record was changed, and where
it comes to something it is the evaluation.

What is then left of the record when a coroutine goes on can be told: the
other coroutines are as they were, none is new, and the histories stay
(`Invocation.Moved`).  Where the coroutine yields a pending chain, it is live
and stands at the history that the chain is continued from; where it returns,
no coroutine is live (`Invocation.AtHand`).  Only a rebuilding makes one more
coroutine.

Main results: `advance_moves` for going on with the live coroutine, and
`rebuild_moves` for a fresh one.
-/
import EffectHandlers.Proofs.Keeping

namespace EffectHandlers

variable {α β : Type} {id gen h : Nat} {i j k : Invocation} {w u v : World}

/-! ### Evaluation that leaves a record alone -/

/-- The record of a call is the same in two worlds. -/
def World.SameCall (id : Nat) (w u : World) : Prop := u.invocations[id]? = w.invocations[id]?

theorem World.SameCall.refl (id : Nat) (w : World) : w.SameCall id w := rfl

theorem World.SameCall.trans (hwu : w.SameCall id u) (huv : u.SameCall id v) : w.SameCall id v :=
  Eq.trans huv hwu

/-- An action leaves the record of a call alone, also when it fails, and what it gives satisfies
`P`. -/
def Spares (id : Nat) (P : α → Prop) (x : Action α) : Prop :=
  ∀ w, (∀ u, (x w).world? = some u → w.SameCall id u) ∧ ∀ a u, x w = .value a u → P a

namespace Spares

/-- An action that only gives a value or fails. -/
theorem still {P : α → Prop} {x : Action α} (hstill : ∀ w u, (x w).world? = some u → u = w)
    (hP : ∀ w a u, x w = .value a u → P a) : Spares id P x :=
  fun w => ⟨fun u hu => hstill w u hu ▸ .refl id w, hP w⟩

theorem exchange {P : α → Prop} {f : World → α × World} (hP : ∀ w, P (f w).1)
    (hrecords : ∀ w, (f w).2.invocations = w.invocations) :
    Spares id P (Action.exchange f) := by
  refine fun w => ⟨fun u hu => ?_, fun a u hu => ?_⟩
  · cases hu
    exact congrArg (·[id]?) (hrecords w)
  · cases hu
    exact hP w

theorem bind {P : α → Prop} {Q : β → Prop} {x : Action α} {f : α → Action β}
    (hx : Spares id P x) (hf : ∀ a, P a → Spares id Q (f a)) : Spares id Q (x >>= f) := by
  intro w
  obtain ⟨hsame, hP⟩ := hx w
  rw [Action.bind_apply]
  cases hxw : x w with
  | value a w' =>
    obtain ⟨hsame', hQ⟩ := hf a (hP a w' hxw) w'
    exact ⟨fun u hu => (hsame w' (by rw [hxw]; rfl)).trans (hsame' u hu), hQ⟩
  | failed f w' =>
    refine ⟨fun u hu => hsame u (by rw [hxw]; exact hu), nofun⟩
  | exhausted => exact ⟨nofun, nofun⟩

end Spares

/-- Leaving the record of a call alone is a discipline. -/
def sparing (id : Nat) : Discipline Unit .free where
  holds P x := Spares id P (x ())
  ret ha := Spares.still (fun _ _ hu => (Option.some.inj hu).symm)
    fun _ _ _ h => (Action.pure_eq_value.mp h).1 ▸ ha
  fail _ _ := Spares.still (fun _ _ hu => (Option.some.inj hu).symm) nofun
  exhaust _ := Spares.still nofun nofun
  bind := Spares.bind
  fresh := Spares.exchange (fun _ => trivial) fun _ => rfl
  emit e := Spares.exchange (f := fun w => ((), { w with events := e :: w.events }))
    (fun _ => trivial) fun _ => rfl
  showValue {v} _ := Spares.exchange
    (f := fun w => ((), { w with events := .traced v w.cells :: w.events }))
    (fun _ => trivial) fun _ => rfl
  newCell _ := Spares.exchange (fun _ => trivial) fun _ => rfl
  readCell a := Spares.exchange (f := fun w => ((w.cells[a]?).getD .null, w))
    (fun _ => Value.obeys_free _) fun _ => rfl
  writeCell a {v} _ := Spares.exchange
    (f := fun w => ((), { w with cells := w.cells.setIfInBounds a v }))
    (fun _ => trivial) fun _ => rfl
  newSource _ := Spares.exchange (fun _ => trivial) fun _ => rfl
  readLine _ := Spares.exchange (fun _ => trivial) fun _ => rfl
  newJournal := Spares.exchange (fun _ => trivial) fun _ => rfl
  journalEntries j := Spares.exchange (f := fun w => (((w.journals[j]?).getD []).reverse, w))
    (fun _ _ _ => Value.obeys_free _) fun _ => rfl
  record j name {v} _ := Spares.exchange
    (f := fun w => ((), { w with
      journals := w.journals.modify j (.tuple [.text name, v] :: ·) }))
    (fun _ => trivial) fun _ => rfl

open Classical in
/-- An action that comes to nothing if it changes the record of a call. -/
noncomputable def Action.sparing (id : Nat) (x : Action α) : Action α := fun w =>
  if ∀ u, (x w).world? = some u → w.SameCall id u then x w else .exhausted

/-- Evaluation that comes to nothing if it changes the record of a call. -/
noncomputable def Evaluation.sparing (id : Nat) (eval : Evaluation) : Evaluation := fun env e =>
  (eval env e).sparing id

theorem Action.sparing_eq {x : Action α} (h : ∀ u, (x w).world? = some u → w.SameCall id u) :
    x.sparing id w = x w := if_pos h

/-- Sparing evaluation leaves the record of the call alone. -/
theorem Evaluation.spares_sparing (id : Nat) (eval : Evaluation) :
    (EffectHandlers.sparing id).Evaluates fun _ => eval.sparing id := by
  refine fun e env _ _ w => ⟨fun u hu => ?_, fun v _ _ => v.obeys_free⟩
  have hu : ((eval env e).sparing id w).world? = some u := hu
  unfold Action.sparing at hu
  split at hu
  · rename_i hsame
    exact hsame u hu
  · cases hu

theorem spares_execBlock (id : Nat) (eval : Evaluation) (body : List Stmt) (env : Env) :
    Spares id (Exit.Obeys .free) (execBlock (eval.sparing id) body env) :=
  Discipline.execBlock (D := sparing id) (eval.spares_sparing id) body (stmtsUse_any body)
    fun b _ => b.2.obeys_free

theorem spares_execFrames (id : Nat) (eval : Evaluation) (rest : List Frame) (env : Env) :
    Spares id (Exit.Obeys .free) (execFrames (eval.sparing id) rest env) :=
  Discipline.execFrames (D := sparing id) (eval.spares_sparing id)
    (fun f _ => f.obeys_free) fun b _ => b.2.obeys_free

/-! ### What is left of a record -/

namespace Invocation

/-- What one coroutine leaves of the record when it goes on: the histories, and the others. -/
structure Moved (gen : Nat) (i j : Invocation) : Prop where
  grows : i.Grows j
  size : j.coroutines.size = i.coroutines.size
  others (g : Nat) : g ≠ gen → j.coroutines[g]? = i.coroutines[g]?

/-- Nothing is left to do of a coroutine. -/
def Finished (i : Invocation) (gen : Nat) : Prop :=
  ∀ c, i.coroutines[gen]? = some c → c.position = .finished

theorem Moved.refl (gen : Nat) (i : Invocation) : i.Moved gen i := ⟨.refl i, rfl, fun _ _ => rfl⟩

theorem Moved.trans (hij : i.Moved gen j) (hjk : j.Moved gen k) : i.Moved gen k where
  grows := hij.grows.trans hjk.grows
  size := hjk.size.trans hij.size
  others g hg := (hjk.others g hg).trans (hij.others g hg)

theorem moved_withLive (gen : Nat) (i : Invocation) (l : Option (Nat × Nat)) :
    i.Moved gen (i.withLive l) := ⟨grows_withLive i l, rfl, fun _ _ => rfl⟩

theorem moved_withHistory (gen : Nat) (i : Invocation) (answers : List Value) :
    i.Moved gen (i.withHistory answers) := ⟨grows_withHistory i answers, rfl, fun _ _ => rfl⟩

theorem moved_withReceived (gen : Nat) (i : Invocation) (answer : Value) :
    i.Moved gen (i.withReceived gen answer) :=
  ⟨grows_withReceived i gen answer, Array.size_modify, fun g hg => by
    simp [withReceived, Array.getElem?_modify, Ne.symm hg]⟩

theorem moved_setPosition (gen : Nat) (i : Invocation) (p : Position) :
    i.Moved gen (i.setPosition gen p) :=
  ⟨grows_setPosition i gen p, Array.size_modify, fun g hg => by
    simp [setPosition, Array.getElem?_modify, Ne.symm hg]⟩

theorem finished_setPosition (gen : Nat) (i : Invocation) :
    (i.setPosition gen .finished).Finished gen := by
  intro c hc
  simp only [setPosition, Array.getElem?_modify, if_true, Option.map_eq_some_iff] at hc
  obtain ⟨_, -, rfl⟩ := hc
  rfl

end Invocation

/-- The record that an outcome leaves, if a coroutine goes on from a record. -/
def Outcome.Moves (id gen : Nat) (i : Invocation) (Q : α → Invocation → Prop) (o : Outcome α) :
    Prop :=
  match o with
  | .value a w => ∃ j, w.invocations[id]? = some j ∧ i.Moved gen j ∧ Q a j
  | .failed _ w => ∃ j, w.invocations[id]? = some j ∧ i.Moved gen j
  | .exhausted => True

namespace Outcome.Moves

variable {Q : α → Invocation → Prop}

theorem value {a : α} (hi : w.invocations[id]? = some i) (hQ : Q a i) :
    (Outcome.value a w).Moves id gen i Q := ⟨i, hi, .refl gen i, hQ⟩

theorem failed {f : Failure} (hi : w.invocations[id]? = some i) :
    (Outcome.failed f w).Moves id gen i Q := ⟨i, hi, .refl gen i⟩

theorem after {o : Outcome α} (hij : i.Moved gen j) (ho : o.Moves id gen j Q) :
    o.Moves id gen i Q := by
  cases o with
  | value a w =>
    obtain ⟨k, hk, hjk, hQ⟩ := ho
    exact ⟨k, hk, hij.trans hjk, hQ⟩
  | failed f w =>
    obtain ⟨k, hk, hjk⟩ := ho
    exact ⟨k, hk, hij.trans hjk⟩
  | exhausted => trivial

theorem bind {x : Action α} {f : α → Action β} {Q' : β → Invocation → Prop}
    (hx : (x w).Moves id gen i Q)
    (hf : ∀ a u j, u.invocations[id]? = some j → i.Moved gen j → Q a j →
      (f a u).Moves id gen j Q') :
    ((x >>= f) w).Moves id gen i Q' := by
  rw [Action.bind_apply]
  cases hxw : x w with
  | value a u =>
    rw [hxw] at hx
    obtain ⟨j, hj, hij, hQ⟩ := hx
    exact after hij (hf a u j hj hij hQ)
  | failed f u =>
    rw [hxw] at hx
    exact hx
  | exhausted => trivial

end Outcome.Moves

/-! ### Slices -/

variable {eval : Evaluation} {call : Call} {answer : Value}

/-- What a slice leaves: the live coroutine is as before, and a coroutine that returns is
finished. -/
def Advance.Leaves (gen : Nat) (live : Option (Nat × Nat)) (next : Advance) (j : Invocation) :
    Prop :=
  j.live = live ∧ ∀ v, next = .returned v → j.Finished gen

/-- A slice that leaves the record alone changes nothing but where its coroutine stands. -/
theorem execute_moves {part : Action Exit} {P : Exit → Prop} (hpart : Spares id P part)
    (hi : w.invocations[id]? = some i) :
    (Coroutine.execute id gen part w).Moves id gen i fun next j => next.Leaves gen i.live j := by
  have hrunning := World.record_changeCall hi (·.setPosition gen .running)
  obtain ⟨hsame, -⟩ := hpart (w.setPosition id gen .running)
  -- The slice leaves the record as it was begun, so only the position is set, twice.
  have hset (u : World) (hu : (part (w.setPosition id gen .running)).world? = some u)
      (p : Position) : (u.setPosition id gen p).invocations[id]? = some (i.setPosition gen p) := by
    have hu : u.invocations[id]? = some (i.setPosition gen .running) :=
      Eq.trans (hsame u hu) hrunning
    rw [World.setPosition_eq, World.record_changeCall hu, Invocation.setPosition_setPosition]
  rw [Coroutine.execute_apply]
  cases hend : part (w.setPosition id gen .running) with
  | value exit u =>
    refine ⟨_, hset u (by rw [hend]; rfl) _, Invocation.moved_setPosition gen i _, rfl, ?_⟩
    rintro v hv
    cases exit with
    | yielded => cases hv
    | returned | through => exact Invocation.finished_setPosition gen i
  | failed f u => exact ⟨_, hset u (by rw [hend]; rfl) _, Invocation.moved_setPosition gen i _⟩
  | exhausted => trivial

/-- Where a coroutine stands, when the record is known. -/
theorem Coroutine.standing_of_record (gen : Nat) (hi : w.invocations[id]? = some i) :
    standing id gen w = .value ((i.coroutines[gen]?).elim .finished (·.position)) w := by
  simp only [standing, Action.ask, hi, Option.bind_some]
  cases i.coroutines[gen]? <;> rfl

/-- Sending an answer moves nothing but the coroutine, wherever that stands. -/
theorem send_moves (eval : Evaluation) (gen : Nat) (answer : Value)
    (hi : w.invocations[id]? = some i) :
    (Coroutine.send (eval.sparing id) id gen answer w).Moves id gen i
      fun next j => next.Leaves gen i.live j := by
  rw [Coroutine.send, Action.bind_of_value (Coroutine.standing_of_record gen hi)]
  cases hp : (i.coroutines[gen]?).elim .finished (·.position) with
  | entry body env => exact .failed hi
  | running => exact .failed hi
  | parked target rest env =>
    exact .after (Invocation.moved_withReceived gen i answer)
      (execute_moves (spares_execFrames id eval rest _) (World.record_changeCall hi _))
  | finished =>
    refine .value hi ⟨rfl, fun _ _ c hc => ?_⟩
    rwa [hc] at hp

/-- Starting a coroutine moves nothing but the coroutine. -/
theorem start_moves (eval : Evaluation) (gen : Nat) (hi : w.invocations[id]? = some i) :
    (Coroutine.start (eval.sparing id) id gen w).Moves id gen i
      fun next j => next.Leaves gen i.live j := by
  rw [Coroutine.start, Action.bind_of_value (Coroutine.standing_of_record gen hi)]
  cases (i.coroutines[gen]?).elim .finished (·.position) with
  | entry body env => exact execute_moves (spares_execBlock id eval body env) hi
  | parked | running | finished => exact send_moves eval gen .null hi

/-! ### Going on with the live coroutine -/

/-- Where the holder of a chain is: at the node that is continued from a history of a call, at the
end of the routine, or nowhere. -/
inductive Hand
  | node (h : Nat)
  | returned
  | lost

/-- Where a chain leaves its holder that a resumption of a call gives. -/
def Chain.hand (id : Nat) : Chain → Hand
  | .done _ _ => .returned
  | .suspended e _ =>
    match e.pipeline.getLast? with
    | some (.bind (.call (.resumption k h))) => if k = id then .node h else .lost
    | _ => .lost

theorem Chain.hand_bind (id h : Nat) (e : Effect) (r : CapabilitySet) :
    (Chain.suspended (e.map (.bind (.call (.resumption id h)))) r).hand id = .node h := by
  simp [hand]

/-- The record stands where its holder is: the live coroutine at the history of the node, and at
the end of the routine there is none. -/
def Invocation.AtHand (gen : Nat) (i : Invocation) : Hand → Prop
  | .node h => i.live = some (gen, h)
  | .returned => i.live = none ∧ i.Finished gen
  | .lost => True

/-- Where a routine is that has come to something after an answer. -/
def Advance.hand : Advance → Nat → Hand
  | .yielded _, h => .node h
  | .returned _, _ => .returned

/-- What feeding an answer leaves: the record stands where the routine is, at a history with one
more answer. -/
def Fed (gen : Nat) (i : Invocation) (h : Nat) (answer : Value) (p : Advance × Nat)
    (j : Invocation) : Prop :=
  j.AtHand gen (p.1.hand p.2) ∧ ∀ v answers, p.1 = .yielded v → i.histories[h]? = some answers →
    j.histories[p.2]? = some (answer :: answers)

/-- At a yield the coroutine is live again, at a history with one more answer. -/
theorem settle_moves (h : Nat) (answer : Value) {next : Advance} (hij : i.Moved gen j)
    (hj : w.invocations[id]? = some j) (hleaves : next.Leaves gen none j) :
    (Invocation.settle id h gen answer next w).Moves id gen j (Fed gen i h answer) := by
  cases next with
  | returned v => exact .value hj ⟨⟨hleaves.1, hleaves.2 v rfl⟩, fun _ _ h => by cases h⟩
  | yielded v =>
    cases hh : j.histories[h]? with
    | none =>
      -- No history is extended that is not there.
      have hfail : Invocation.extendHistory id h answer w = .failed .noLiveRoutine w := by
        rw [Invocation.extendHistory, Action.bind_of_value (Invocation.recordOf_apply hj), hh]
        rfl
      rw [Invocation.settle, Action.bind_apply, hfail]
      exact .failed hj
    | some earlier =>
      rw [Invocation.settle_yielded hj answer v hh]
      have hmore := World.record_changeCall hj (·.withHistory (answer :: earlier))
      refine ⟨_, World.record_changeCall hmore _,
        (Invocation.moved_withHistory gen j _).trans (Invocation.moved_withLive gen _ _), rfl, ?_⟩
      rintro _ answers - hanswers
      have hsame := hij.grows.histories h answers hanswers
      rw [hh] at hsame
      cases hsame
      simp [Invocation.withLive, Invocation.withHistory]

theorem feed_moves (eval : Evaluation) {hist : Nat} (h : Nat) (answer : Value)
    (hi : w.invocations[id]? = some i) (hl : i.live = some (gen, hist)) :
    (Invocation.feed (eval.sparing id) id h answer w).Moves id gen i (Fed gen i h answer) := by
  have htaken := World.record_changeCall hi (·.withLive none)
  rw [Invocation.feed, Action.bind_of_value (Invocation.takeLive_apply hi hl)]
  refine .after (Invocation.moved_withLive gen i none) ?_
  exact (send_moves eval gen answer htaken).bind fun next u j hj hij hleaves =>
    settle_moves h answer ((Invocation.moved_withLive gen i none).trans hij) hj hleaves

theorem suspend_moves (eval : Evaluation) (call : Call) (fuel : Nat) {next : Advance} {h : Nat}
    (hi : w.invocations[id]? = some i) (hstands : i.AtHand gen (next.hand h)) :
    (Invocation.suspend (eval.sparing id) call id fuel next h w).Moves id gen i
      fun c j => j.AtHand gen (c.hand id) := by
  induction fuel using Nat.strongRecOn generalizing next h w i with
  | ind fuel ih =>
    cases next with
    | returned v =>
      rw [Invocation.suspend_returned]
      exact .value hi hstands
    | yielded v =>
      rw [Invocation.suspend_yielded]
      rcases Invocation.yieldedChain_cases v with ⟨c, hc⟩ | hfail
      · rw [hc, pure_bind]
        cases c with
        | suspended e r =>
          refine .value hi ?_
          rw [Chain.hand_bind]
          exact hstands
        | done answer r =>
          cases fuel with
          | zero => trivial
          | succ fuel =>
            exact (feed_moves eval h answer hi hstands).bind fun p u j hj _ hfed =>
              ih fuel (Nat.lt_succ_self fuel) hj hfed.1
      · rw [hfail, Action.fail_bind]
        exact .failed hi

namespace Invocation

/-- Go on with an answer in the live coroutine, wherever that stands: nothing is ever made again. -/
def advance (eval : Evaluation) (call : Call) (maxSteps id h : Nat) (answer : Value) :
    Action Chain := do
  let (next, h) ← feed eval id h answer
  suspend eval call id maxSteps next h

/-- Going on from a history, when the record is known. -/
theorem resume_apply (eval : Evaluation) (call : Call) (maxSteps h : Nat) (answer : Value)
    (hi : w.invocations[id]? = some i) :
    resume eval call maxSteps id h answer w
      = if standsAt h i.live then advance eval call maxSteps id h answer w
        else (rebuild eval id h >>= fun _ => advance eval call maxSteps id h answer) w := by
  rw [resume, Action.bind_of_value (liveOf_apply hi)]
  cases standsAt h i.live <;> rfl

end Invocation

/-- **Going on with the live coroutine** makes no coroutine, and leaves the record where the
holder is. -/
theorem advance_moves (eval : Evaluation) (call : Call) (maxSteps : Nat) {hist : Nat} (h : Nat)
    (answer : Value) (hi : w.invocations[id]? = some i) (hl : i.live = some (gen, hist)) :
    (Invocation.advance (eval.sparing id) call maxSteps id h answer w).Moves id gen i
      fun c j => j.AtHand gen (c.hand id) :=
  (feed_moves eval h answer hi hl).bind fun _ _ _ hj _ hfed =>
    suspend_moves eval call maxSteps hj hfed.1

/-! ### Going on with a fresh coroutine -/

theorem mustYield_moves (next : Advance) {Q : Invocation → Prop}
    (hi : w.invocations[id]? = some i) (hQ : Q i) :
    (Invocation.mustYield next w).Moves id gen i fun _ j => Q j := by
  cases next with
  | yielded v => exact .value hi hQ
  | returned v => exact .failed hi

theorem replay_moves (eval : Evaluation) (gen : Nat) (answers : List Value)
    (hi : w.invocations[id]? = some i) :
    (Invocation.replay (eval.sparing id) id gen answers w).Moves id gen i fun _ _ => True := by
  induction answers generalizing w i with
  | nil => exact .value hi trivial
  | cons a rest ih =>
    refine (send_moves eval gen a hi).bind fun next u j hj _ _ => ?_
    exact (mustYield_moves next hj trivial).bind fun _ v k hk _ (_ : True) => ih hk

/-- **A fresh coroutine** is the only one that is made, and it is live if it comes to the end of
the history. -/
theorem rebuild_moves (eval : Evaluation) {answers : List Value}
    (hi : w.invocations[id]? = some i) (hh : i.histories[h]? = some answers) :
    (Invocation.rebuild (eval.sparing id) id h w).Moves id i.coroutines.size i.withFresh
      fun _ j => j.live = some (i.coroutines.size, h) := by
  rw [Invocation.rebuild, Action.bind_of_value (Invocation.answersOf_apply hi hh),
    Action.bind_of_value (Invocation.spawn_apply hi)]
  have hfresh := World.record_changeCall hi (·.withFresh)
  refine (start_moves eval _ hfresh).bind fun next u j hj _ _ => ?_
  refine (mustYield_moves next hj trivial).bind fun _ v k hk _ (_ : True) => ?_
  refine (replay_moves eval _ _ hk).bind fun _ v l hl _ _ => ?_
  exact ⟨_, World.record_changeCall hl _, Invocation.moved_withLive _ _ _, rfl⟩

end EffectHandlers
