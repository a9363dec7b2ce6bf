/-
EffectHandlers/Proofs/Retracing.lean

When a rebuilt coroutine goes another way.

A fresh coroutine that is sent the answers of a history retraces what was
done before.  Nothing makes it come to the same requests again: a body may
read a cell that was written in between.  So it may depart from what was
recorded, by returning early or by yielding something else at some position
(`Retrace.Departs`).

A resumption that has to rebuild is a retrace that is looked at once: whether
the coroutine has returned.  If it has, the resumption fails, and the
coroutine has received recorded answers only.  If it has not, the new answer
is sent to it, whatever it has yielded and whatever was yielded in its place
before.  So the early end is reported and no other departure is.

Main result: `early_ends_reported`, with a routine that gets an answer to a
question that it was not asked for (`early_ends_reported_misled`).
-/
import EffectHandlers.Proofs.Watch

namespace EffectHandlers

variable {s : Settings} {births : Births} {id gen h : Nat} {i : Invocation}
  {answers : List Value} {w u : World}

/-! ### Departing from what was recorded -/

/-- What a routine yields, seen as a chain, if it may be yielded. -/
def Value.pending? : Value → Option Chain
  | .effect e => some (Chain.perform e)
  | .chain c => some c
  | _ => none

/-- Whether two yields come to the same: to requests of one kind with equal fields, or to finished
chains with equal values. -/
def Value.yieldsLike (x y : Value) : Bool :=
  match x.pending?, y.pending? with
  | some c, some d => c.same d
  | _, _ => false

/-- What a coroutine does that is sent recorded answers: what it yields, in order, and what it
returns if it does not take all of them. -/
structure Retrace where
  yields : List Value
  returned : Option Value

namespace Retrace

/-- Something else is yielded at a position than what was yielded there before. -/
def DiffersAt (r : Retrace) (recorded : List Value) (k : Nat) : Prop :=
  ∃ x y, r.yields[k]? = some x ∧ recorded[k]? = some y ∧ x.yieldsLike y = false

/-- A retrace ends early, or something else is yielded at some position. -/
def Departs (r : Retrace) (recorded : List Value) : Prop :=
  r.returned.isSome = true ∨ ∃ k, r.DiffersAt recorded k

/-- Insist that a retrace has not ended early. -/
def mustLast (r : Retrace) : Action Unit :=
  match r.returned with
  | some _ => Action.fail .replayEndedEarly
  | none => pure ()

end Retrace

namespace Invocation

/-- Send recorded answers to a coroutine, oldest first, until it returns, after what it has come
to. -/
def retraceFrom (eval : Evaluation) (id gen : Nat) : List Value → Advance → Action Retrace
  | _, .returned v => pure ⟨[], some v⟩
  | [], .yielded v => pure ⟨[v], none⟩
  | a :: rest, .yielded v => do
    let r ← retraceFrom eval id gen rest (← Coroutine.send eval id gen a)
    return { r with yields := v :: r.yields }

/-- Start a fresh coroutine and send it the answers of a history: the coroutine and what it has
done. -/
def retrace (eval : Evaluation) (id h : Nat) : Action (Nat × Retrace) := do
  let answers ← answersOf id h
  let gen ← spawn id
  let r ← retraceFrom eval id gen answers.reverse (← Coroutine.start eval id gen)
  return (gen, r)

/-- Send a new answer to a coroutine that stands at a history, and go on with what it comes to. -/
def deliver (eval : Evaluation) (call : Call) (maxSteps id gen h : Nat) (answer : Value) :
    Action Chain := do
  setLive id none
  let (next, h) ← settle id h gen answer (← Coroutine.send eval id gen answer)
  suspend eval call id maxSteps next h

/-! ### Rebuilding is retracing -/

theorem replay_eq_retraceFrom (eval : Evaluation) (as : List Value) (next : Advance) :
    (mustYield next >>= fun _ => replay eval id gen as)
      = retraceFrom eval id gen as next >>= Retrace.mustLast := by
  induction as generalizing next with
  | nil => cases next <;> rfl
  | cons a as ih =>
    cases next with
    | returned v => rfl
    | yielded v =>
      rw [mustYield, pure_bind, replay, retraceFrom]
      simp only [ih, bind_assoc, pure_bind]
      rfl

theorem rebuild_eq_retrace (eval : Evaluation) (id h : Nat) :
    rebuild eval id h = retrace eval id h >>= fun p =>
      p.2.mustLast >>= fun _ => setLive id (some (p.1, h)) := by
  simp only [rebuild, retrace, bind_assoc, pure_bind]
  refine congrArg (_ >>= ·) (funext fun answers => congrArg (_ >>= ·) (funext fun gen =>
    congrArg (_ >>= ·) (funext fun next => ?_)))
  rw [← bind_assoc, ← bind_assoc, replay_eq_retraceFrom]

/-- Going on by way of a rebuild is retracing and, if the retrace has not ended early, sending the
new answer to the coroutine that has become the live one. -/
theorem resume_eq_retrace (eval : Evaluation) (call : Call) (maxSteps : Nat) (a : Value)
    (haway : ∀ gen j, w.invocations[id]? = some j → j.live ≠ some (gen, h)) :
    resume eval call maxSteps id h a w = (retrace eval id h >>= fun p =>
      p.2.mustLast >>= fun _ => setLive id (some (p.1, h)) >>= fun _ =>
        feed eval id h a >>= fun p => suspend eval call id maxSteps p.1 p.2) w := by
  rcases resume_cases eval call maxSteps id h a w with ⟨j, gen, hj, hl, -⟩ | hresume
  · exact absurd hl (haway gen j hj)
  · rw [hresume, rebuild_eq_retrace]
    simp only [bind_assoc]

/-- The coroutine that was made live is the one that is sent the answer. -/
theorem setLive_feed (eval : Evaluation) (call : Call) (maxSteps : Nat) (a : Value)
    (hi : w.invocations[id]? = some i) :
    (setLive id (some (gen, h)) >>= fun _ => feed eval id h a >>= fun p =>
      suspend eval call id maxSteps p.1 p.2) w = deliver eval call maxSteps id gen h a w := by
  have hset : setLive id (some (gen, h)) w
      = .value () (w.changeCall id (·.withLive (some (gen, h)))) := rfl
  have hi' := World.record_changeCall hi (·.withLive (some (gen, h)))
  have htwice : (w.changeCall id (·.withLive (some (gen, h)))).changeCall id (·.withLive none)
      = w.changeCall id (·.withLive none) := by
    simp only [World.changeCall]
    congr 1
    apply Array.ext_getElem?
    intro k
    simp only [Array.getElem?_modify]
    split <;> simp [Option.map_map, Function.comp_def, Invocation.withLive]
  rw [Action.bind_of_value hset, feed, bind_assoc, Action.bind_of_value (takeLive_apply hi' rfl),
    htwice]
  simp only [deliver, bind_assoc]
  rfl

end Invocation

/-! ### What a retrace leaves -/

namespace Outcome.Comes

variable {eval : Evaluation} {w : Moment s} {a : Value}

/-- A coroutine that retraces answers receives nothing else. -/
theorem retraceFrom (heval : eval.Proceeds s) (as : List Value) {next : Advance}
    (hidle : w.world.Idle id gen answers) :
    (Invocation.retraceFrom eval id gen as next w).Comes (some (id, gen)) w fun r v =>
      ∃ sent, v.world.Idle id gen (sent.reverse ++ answers) ∧ sent <+: as ∧
        (r.returned = none → sent = as ∧ r.yields.length = as.length + 1) := by
  induction as generalizing answers w next with
  | nil =>
    cases next with
    | returned x => exact ⟨w, rfl, .refl w, [], hidle, List.prefix_rfl, fun h => by cases h⟩
    | yielded x => exact ⟨w, rfl, .refl w, [], hidle, List.prefix_rfl, fun _ => ⟨rfl, rfl⟩⟩
  | cons a as ih =>
    cases next with
    | returned x => exact ⟨w, rfl, .refl w, [], hidle, List.nil_prefix, fun h => by cases h⟩
    | yielded x =>
      rw [Invocation.retraceFrom]
      refine (send_received heval hidle a).bind fun next v _ hnext => ?_
      rcases hnext with hidle | ⟨hidle, y, rfl⟩
      · refine (ih hidle).bind fun r z _ hr => ?_
        obtain ⟨sent, hidle, hsent, hlast⟩ := hr
        refine ⟨z, rfl, .refl z, a :: sent, by simpa using hidle,
          List.cons_prefix_cons.mpr ⟨rfl, hsent⟩, fun hnone => ?_⟩
        obtain ⟨hall, hlength⟩ := hlast hnone
        exact ⟨by rw [hall], by simp [hlength]⟩
      · cases as <;>
          exact ⟨v, rfl, .refl v, [], hidle, List.nil_prefix, fun h => by cases h⟩

/-- The fresh coroutine that retraces a history receives answers of the history only. -/
theorem retrace (heval : eval.Proceeds s) (hi : w.world.invocations[id]? = some i)
    (hh : i.histories[h]? = some answers) :
    (Invocation.retrace eval id h w).Comes none w fun p v =>
      ∃ received, v.world.Idle id p.1 received ∧ received <:+ answers ∧
        (p.2.returned = none → p.2.yields.length = answers.length + 1) := by
  rw [Invocation.retrace, Action.bind_of_value (Invocation.answersOf_apply hi hh)]
  refine spawn hi fun u hi₀ hentry haway => ?_
  refine (start heval hi₀ hentry haway).bind fun next v _ hidle => ?_
  refine (retraceFrom heval answers.reverse hidle).bind fun r z _ hr => ?_
  obtain ⟨sent, hidle, hsent, hlast⟩ := hr
  refine ⟨z, rfl, .refl z, sent.reverse, by simpa using hidle, ?_, fun hnone => ?_⟩
  · rwa [← List.reverse_prefix, List.reverse_reverse]
  · simpa using (hlast hnone).2

end Outcome.Comes

/-- Evaluation whose calls have their meaning proceeds from moment to moment. -/
theorem proceeds_meaning (s : Settings) : (Evaluation.meaning s).Proceeds s :=
  ⟨sound_meaning s, fun e _ he henv =>
    Discipline.eval (proceeding_meaning s) (Callable.runsAlike_const _ s) e he henv⟩

/-- A coroutine that has taken all answers of a history is parked, and ready to be sent one
more. -/
theorem World.Steady.awaits_of_retrace (hw : w.Steady s) {r : Retrace}
    (hi : w.invocations[id]? = some i) (hh : i.histories[h]? = some answers)
    (hr : Invocation.retrace (Evaluation.meaning s) id h w = .value (gen, r) u)
    (hlast : r.returned = none) : u.Awaits id gen answers := by
  obtain ⟨hkept, m, rfl⟩ := hw
  obtain ⟨births, hkept⟩ := hkept.exists_births
  let u' := u.changeCall id (·.withLive (some (gen, h)))
  have hrebuild : Invocation.rebuild (Evaluation.meaning s) id h m = .value () u' := by
    rw [Invocation.rebuild_eq_retrace, Action.bind_of_value hr, Retrace.mustLast, hlast, pure_bind]
    rfl
  have hleads := Outcome.Leads.rebuild (sound_meaning s) hkept id h
  have hcomes := Outcome.Comes.rebuild (proceeds_meaning s) m id h
  rw [hrebuild] at hleads hcomes
  obtain ⟨⟨hfollows, births', -, hkept'⟩, -⟩ := hleads
  obtain ⟨v, hv, -⟩ := hcomes
  have hsteady : u'.Steady s := ⟨hkept'.kept, v, hv⟩
  obtain ⟨j', hj', hij⟩ := hfollows.grows.records id i hi
  -- The books of the rebuilt world say what the live coroutine has received.
  cases hj : u.invocations[id]? with
  | none =>
    have hnone : u'.invocations[id]? = none := by
      simp [u', World.changeCall, Array.getElem?_modify, hj]
    cases hnone.symm.trans hj'
  | some j =>
    cases (World.record_changeCall hj _).symm.trans hj'
    obtain ⟨k, gen', answers', hk, hl, hh', target, rest, env, k', hk', hc⟩ :=
      hsteady.upright id _ gen h hj' rfl
    cases hk.symm.trans hj'
    cases hk'.symm.trans hj'
    cases hl
    cases hh'.symm.trans (hij.histories h answers hh)
    exact ⟨target, rest, env, j, hj, hc⟩

/-! ### The report -/

/-- **Early ends are reported, and no other departure is.**  A resumption has to rebuild, and the
fresh coroutine that is sent the recorded answers departs from what was recorded, whatever that was.
Either the coroutine has returned, and then the resumption fails at once, with the coroutine having
received recorded answers only; or it has yielded something else at some position, and then the new
answer is sent to it all the same. -/
theorem early_ends_reported (hw : w.Reachable s) (hi : w.invocations[id]? = some i)
    (hh : i.histories[h]? = some answers) (haway : ∀ gen, i.live ≠ some (gen, h)) {r : Retrace}
    (hr : Invocation.retrace (Evaluation.meaning s) id h w = .value (gen, r) u)
    {recorded : List Value} (hdeparts : r.Departs recorded) (a : Value) :
    r.returned.isSome = true ∧
        Callable.meaning s (.resumption id h) [a] w = .failed .replayEndedEarly u ∧
        Failure.replayEndedEarly.className = "RuntimeError" ∧
        (∃ received, received <:+ answers ∧ u.Idle id gen received) ∨
      r.returned = none ∧ (∃ k, k ≤ answers.length ∧ r.DiffersAt recorded k) ∧
        u.Awaits id gen answers ∧
        Callable.meaning s (.resumption id h) [a] w
          = (Invocation.deliver (Evaluation.meaning s) (Callable.meaning s) s.maxSteps id gen h a
              >>= fun c => pure (.chain c)) u := by
  have haway' (g : Nat) (j : Invocation) (hj : w.invocations[id]? = some j) :
      j.live ≠ some (g, h) := by
    cases hi.symm.trans hj
    exact haway g
  have hresume := Invocation.resume_eq_retrace (Evaluation.meaning s) (Callable.meaning s)
    s.maxSteps a haway'
  have happly : Callable.meaning s (.resumption id h) [a] w
      = (Invocation.resume (Evaluation.meaning s) (Callable.meaning s) s.maxSteps id h a
          >>= fun c => pure (.chain c)) w := by
    rw [Callable.meaning_unfold]
    rfl
  obtain ⟨received, hidle, hreceived, hyields⟩ :
      ∃ received, u.Idle id gen received ∧ received <:+ answers ∧
        (r.returned = none → r.yields.length = answers.length + 1) := by
    obtain ⟨-, m, rfl⟩ := hw.steady
    have hcomes := Outcome.Comes.retrace (proceeds_meaning s) hi hh
    rw [hr] at hcomes
    obtain ⟨v, rfl, -, hv⟩ := hcomes
    exact hv
  rw [Action.bind_of_value hr] at hresume
  cases hreturned : r.returned with
  | some v =>
    refine .inl ⟨rfl, ?_, rfl, received, hreceived, hidle⟩
    rw [happly, Action.bind_apply, hresume, Retrace.mustLast, hreturned]
    rfl
  | none =>
    refine .inr ⟨rfl, ?_, hw.steady.awaits_of_retrace hi hh hr hreturned, ?_⟩
    · obtain ⟨k, hk⟩ := hdeparts.resolve_left (by simp [hreturned])
      refine ⟨k, ?_, hk⟩
      obtain ⟨x, -, hx, -⟩ := hk
      have hlt := (List.getElem?_eq_some_iff.mp hx).1
      have hlength := hyields hreturned
      omega
    · obtain ⟨j, -, hj, -⟩ := hidle
      rw [Retrace.mustLast, hreturned, pure_bind, Invocation.setLive_feed _ _ _ a hj] at hresume
      rw [happly, Action.bind_apply, hresume, ← Action.bind_apply]

/-- A routine that counts its executions in a cell.  The first one asks for a log entry, and the
later ones do something else. -/
def recalling (later : List Stmt) : List Stmt :=
  [.eval (.op (.data .cellSet) [.var "count",
      .op (.data .add) [.op (.data .cellGet) [.var "count"], .literal (.int 1)]]),
    .assign "n" (.op (.data .cellGet) [.var "count"]),
    .cond (.op (.data .equal) [.var "n", .literal (.int 1)])
      [.yield (some "x") (.op (.effect .log) [.literal (.text "question")])] later,
    .exit (.op (.data .tuple) [.var "n", .var "x"])]

/-- A call of such a routine whose node is answered at once; the value is the chain of the call. -/
def recallOnce (later : List Stmt) : Callable :=
  .closure 0 [] (.letIn "count" (.op (.data .cell) [.literal (.int 0)])
    (.letIn "chain" (.op (.data .call)
        [.program [] ["count"] (.resumable (recalling later)), .var "count"])
      (.block [.op (.effect .resume) [.op (.chain .effect) [.var "chain"], .literal (.text "one")],
        .var "chain"]))) []

/-- The first request of such a routine. -/
def question : Value := .effect (.of (.log (.text "question")))

/-- A world that a call has led to is reachable. -/
theorem World.Reachable.of_apply {depth : Nat} {f : Callable} {args : List Value} {v : Value}
    (hw : w.Reachable s) (h : Callable.apply s depth f args w = .value v u) : u.Reachable s :=
  hw.call f args (by rw [Callable.meaning_of_apply (by rw [h]; simp), h]; rfl)

/-- A routine that asks its question only the first time: when its node is answered once more, the
early end is reported. -/
theorem early_ends_reported_forgetful : ∃ (w u : World) (v : Value) (gen : Nat) (r : Retrace),
    Callable.apply ⟨false, 10⟩ 6 (recallOnce [.exit (.var "n")]) [] (.initial "") = .value v w ∧
    Invocation.retrace (Evaluation.meaning ⟨false, 10⟩) 0 0 w = .value (gen, r) u ∧
    r.Departs [question] ∧
    Callable.meaning ⟨false, 10⟩ (.resumption 0 0) [.text "two"] w
      = .failed .replayEndedEarly u := by
  have hcalls : ∃ (w u : World) (v : Value) (i : Invocation) (gen : Nat),
      Callable.apply ⟨false, 10⟩ 6 (recallOnce [.exit (.var "n")]) [] (.initial "") = .value v w ∧
      w.invocations[0]? = some i ∧ i.histories[0]? = some [] ∧ i.live = none ∧
      Invocation.retrace (Evaluation.meaning ⟨false, 10⟩) 0 0 w
        = .value (gen, ⟨[], some (.int 2)⟩) u := by
    iterate 5 apply Exists.intro
    refine ⟨?_, ?_, ?_, ?_, ?_⟩
    · cbv
    · cbv
    · cbv
    · cbv
    · cbv
  obtain ⟨w, u, v, i, gen, hcall, hi, hh, hlive, hr⟩ := hcalls
  have hw : w.Reachable ⟨false, 10⟩ := (World.Reachable.initial "").of_apply hcall
  have hdeparts : Retrace.Departs ⟨[], some (.int 2)⟩ [question] := .inl rfl
  rcases early_ends_reported hw hi hh (by simp [hlive]) hr hdeparts (.text "two") with
    ⟨-, hfail, -⟩ | ⟨hnone, -⟩
  · exact ⟨w, u, v, gen, _, hcall, hr, hdeparts, hfail⟩
  · cases hnone

/-- A routine that asks for a line where it asked for a log entry the first time: when its node is
answered once more, nothing is reported, and it gets the answer to the other question. -/
theorem early_ends_reported_misled : ∃ (w u z : World) (e : Effect) (R : CapabilitySet) (gen : Nat)
    (r : Retrace),
    Callable.apply ⟨false, 10⟩ 6 (recallOnce [.yield (some "x") (.op (.effect .readLine) [])]) []
      (.initial "") = .value (.chain (.suspended e R)) w ∧
    (Value.chain (.suspended e R)).yieldsLike question = true ∧ w.Reachable ⟨false, 10⟩ ∧
    Invocation.retrace (Evaluation.meaning ⟨false, 10⟩) 0 0 w = .value (gen, r) u ∧
    r.Departs [question] ∧
    Callable.meaning ⟨false, 10⟩ (.resumption 0 0) [.text "two"] w
      = .value (.chain (Chain.finished (.tuple [.int 2, .text "two"]))) z := by
  have hcalls : ∃ (w u z : World) (e : Effect) (R : CapabilitySet) (gen : Nat),
      Callable.apply ⟨false, 10⟩ 6 (recallOnce [.yield (some "x") (.op (.effect .readLine) [])]) []
        (.initial "") = .value (.chain (.suspended e R)) w ∧
      (Value.chain (.suspended e R)).yieldsLike question = true ∧
      Invocation.retrace (Evaluation.meaning ⟨false, 10⟩) 0 0 w
        = .value (gen, ⟨[.effect (.of .readLine)], none⟩) u ∧
      Callable.apply ⟨false, 10⟩ 6 (.resumption 0 0) [.text "two"] w
        = .value (.chain (Chain.finished (.tuple [.int 2, .text "two"]))) z := by
    iterate 6 apply Exists.intro
    refine ⟨?_, ?_, ?_, ?_⟩
    · cbv
    · cbv
    · cbv
    · cbv
  obtain ⟨w, u, z, e, R, gen, hcall, hfirst, hr, hresume⟩ := hcalls
  refine ⟨w, u, z, e, R, gen, _, hcall, hfirst, (World.Reachable.initial "").of_apply hcall, hr,
    .inr ⟨0, _, _, rfl, rfl, rfl⟩, ?_⟩
  rw [Callable.meaning_of_apply (by rw [hresume]; simp), hresume]

end EffectHandlers
