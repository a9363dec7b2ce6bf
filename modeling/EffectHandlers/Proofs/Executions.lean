/-
EffectHandlers/Proofs/Executions.lean

How often the routine of a program is executed.

The call of a program begins one execution.  Finished chains that the
routine yields are answered at once (`Answered`), so the call comes to the
first pending chain, or to the end of the routine (`Begun`).  The first run
of the chain goes on with this execution.  Whatever happened before a later
run, it begins at most one more, when the routine goes on for the first time;
and a routine that was run to its end so many times was executed so many
times (`OncePerRun`).

Main result: `executions_per_run`.
-/
import EffectHandlers.Proofs.Holding
import EffectHandlers.Proofs.Transparency
import Mathlib.Data.List.Permutation

namespace EffectHandlers

variable {s : Settings} {id gen h : Nat} {i : Invocation} {w w₀ u : World}

/-! ### Up to the first pending chain -/

/-- The finished chains that a routine yields in a row are answered at once with their values. -/
inductive Answered (eval : Evaluation) (id : Nat) :
    World × Advance × Nat → List Value → World × Advance × Nat → Prop
  | none {p : World × Advance × Nat} : Answered eval id p [] p
  | next {w u : World} {v answer : Value} {r : CapabilitySet} {h : Nat} {p : Advance × Nat}
      {answers : List Value} {q : World × Advance × Nat}
      (yields : Invocation.yieldedChain v = pure (.done answer r))
      (feeds : Invocation.feed eval id h answer w = .value p u)
      (rest : Answered eval id (u, p) answers q) :
      Answered eval id (w, .yielded v, h) (answer :: answers) q

/-- Where a routine suspends: at a history with the values of the finished chains on the way, in
the coroutine that was live. -/
structure Suspends (s : Settings) (id gen : Nat) (i : Invocation) (p : World × Advance × Nat)
    (past answers : List Value) (v : Value) (e : Effect) (r : CapabilitySet) (h : Nat)
    (u : World) : Prop where
  answered : Answered (Evaluation.meaning s) id p answers (u, .yielded v, h)
  pending : Invocation.yieldedChain v = pure (.suspended e r)
  clear : e.Obeys (.others id)
  tidy : u.Tidy id
  record : ∃ j, u.invocations[id]? = some j ∧ i.Moved gen j ∧ j.live = some (gen, h) ∧
    j.histories[h]? = some (answers.reverse ++ past)

theorem yieldedChain_eq_value {v : Value} {c : Chain}
    (h : Invocation.yieldedChain v w = .value c u) :
    Invocation.yieldedChain v = pure c ∧ u = w := by
  rcases Invocation.yieldedChain_cases v with ⟨d, hd⟩ | hfail
  · rw [hd] at h
    obtain ⟨rfl, rfl⟩ := Action.pure_eq_value.mp h
    exact ⟨hd, rfl⟩
  · rw [hfail] at h
    cases h

/-- What an action gives in a tidy world that does not use the chain of the call, with what is left
of the record of the call. -/
theorem Detached.moved {α : Type} {P : α → Prop} {x : Evaluation → Action α} {a : α}
    {Q : α → Invocation → Prop} (hx : Detached s id P x) (hw : w.Tidy id)
    (hmoves : (x ((Evaluation.meaning s).sparing id) w).Moves id gen i Q)
    (h : x (Evaluation.meaning s) w = .value a u) :
    P a ∧ u.Tidy id ∧ ∃ j, u.invocations[id]? = some j ∧ i.Moved gen j ∧ Q a j := by
  obtain ⟨hagree, hleft⟩ := hx w hw
  rw [hagree, h] at hmoves
  obtain ⟨ha, hu⟩ := hleft a u h
  exact ⟨ha, hu, hmoves⟩

/-- A routine comes to its end, or it suspends. -/
theorem suspend_suspends (call : Call) (fuel : Nat) {next : Advance} {past : List Value} {c : Chain}
    (hw : w.Tidy id) (hnext : next.Obeys (.others id)) (hi : w.invocations[id]? = some i)
    (hstands : i.AtHand gen (next.hand h))
    (hh : ∀ v, next = .yielded v → i.histories[h]? = some past)
    (hc : Invocation.suspend (Evaluation.meaning s) call id fuel next h w = .value c u) :
    (∃ v, c = Chain.finished v) ∨ ∃ answers v e r h',
      c = .suspended (e.map (.bind (.call (.resumption id h')))) r ∧
      Suspends s id gen i (w, next, h) past answers v e r h' u := by
  -- Every finished chain that is yielded takes one unit of fuel and adds its value to the history.
  induction fuel using Nat.strongRecOn generalizing next h w i past with
  | ind fuel ih =>
    rcases Invocation.suspend_eq_value hc with ⟨v, rfl, rfl, rfl⟩ |
      ⟨v, e, r, rfl, hd, rfl⟩ | ⟨v, answer, r, w₁, p, w₂, n, rfl, rfl, hd, hp, hrest⟩
    · exact .inl ⟨v, rfl⟩
    · obtain ⟨hyields, rfl⟩ := yieldedChain_eq_value hd
      refine .inr ⟨[], v, e, r, h, rfl, .none, hyields, ?_, hw, i, hi, .refl gen i, hstands, ?_⟩
      · exact ((Detached.yieldedChain (s := s) hnext _ hw).2 _ _ hd).1.2
      · exact hh v rfl
    · obtain ⟨hyields, rfl⟩ := yieldedChain_eq_value hd
      have hanswer := ((Detached.yieldedChain (s := s) hnext _ hw).2 _ _ hd).1
      obtain ⟨hnext', hw', j, hj, hij, hstands', hmore⟩ :=
        (Detached.feed (s := s) h hanswer).moved hw
          (feed_moves (Evaluation.meaning s) h answer hi hstands) hp
      rcases ih n (Nat.lt_succ_self n) hw' hnext' hj hstands'
        (fun v' hv' => hmore v' past hv' (hh v rfl)) hrest with
        hend | ⟨answers, v', e, r', h', hchain, hs⟩
      · exact .inl hend
      · obtain ⟨k, hk, hjk, hlive, hhist⟩ := hs.record
        refine .inr ⟨answer :: answers, v', e, r', h', hchain, .next hyields hp hs.answered,
          hs.pending, hs.clear, hs.tidy, k, hk, hij.trans hjk, hlive, ?_⟩
        rw [hhist, List.reverse_cons, List.append_assoc, List.singleton_append]

/-! ### The call of a program -/

/-- A new call leaves a world in which nobody holds a resumption of it; its only coroutine is at
the first yield, or at the end. -/
theorem enter_opens {body : List Stmt} {env : Env} {p : Nat × Advance}
    (hw : w.Obeys (.others w.invocations.size))
    (hbody : stmtsUse (Regime.others w.invocations.size).op body)
    (henv : Env.Obeys (.others w.invocations.size) env)
    (h : Invocation.enter (Evaluation.meaning s) body env w = .value p u) :
    p.1 = w.invocations.size ∧ p.2.Obeys (.others w.invocations.size) ∧
      u.Tidy w.invocations.size ∧ ∃ i, u.invocations[w.invocations.size]? = some i ∧
        i.coroutines.size = 1 ∧ i.AtHand 0 (p.2.hand Invocation.emptyHistory) ∧
        i.histories[Invocation.emptyHistory]? = some [] := by
  have hcreate : Framed (.others w.invocations.size) none _ (Invocation.create body env) :=
    .create hbody henv
  have htidy : (w.withCall body env).Tidy w.invocations.size :=
    { obeys := ((hcreate w hw.clean).2 w.invocations.size _ rfl).2.obeys
      made := by simp [World.withCall] }
  have hi := w.record_withCall body env
  have hspawn := Invocation.spawn_apply hi
  have hfresh := World.record_changeCall hi (·.withFresh)
  have htidy' := ((Detached.spawn (s := s) _ htidy).2 _ _ hspawn).2
  -- The number of a new call is the number of the calls before it.
  have h : (Invocation.spawn w.invocations.size >>= _) (w.withCall body env) = .value p u := h
  rw [Action.bind_of_value hspawn] at h
  obtain ⟨next, u', hstart, h⟩ := Action.bind_eq_value.mp h
  obtain ⟨hnext, htidy'', j, hj, hij, hlive, hreturned⟩ := (Detached.start (s := s) 0).moved htidy'
    (start_moves (Evaluation.meaning s) 0 hfresh) hstart
  have hhist : j.histories[Invocation.emptyHistory]? = some [] :=
    hij.grows.histories _ _ rfl
  cases next with
  | returned v =>
    obtain ⟨rfl, rfl⟩ := Action.pure_eq_value.mp h
    exact ⟨rfl, hnext, htidy'', j, hj, hij.size, ⟨hlive, hreturned v rfl⟩, hhist⟩
  | yielded v =>
    obtain ⟨_, u'', hset, h⟩ := Action.bind_eq_value.mp h
    obtain ⟨rfl, rfl⟩ := Action.pure_eq_value.mp h
    have hset' := ((Detached.setLive (s := s) _ _ htidy'').2 _ _ hset).2
    cases hset
    exact ⟨rfl, hnext, hset', _, World.record_changeCall hj _, hij.size, rfl, hhist⟩

/-- The call of a program has come to its first pending chain: what was answered on the way, and
what the chain is continued from.  The only execution is live there. -/
structure Begun (s : Settings) (body : List Stmt) (env : Env) (w : World) (e : Effect) (h : Nat)
    (answers : List Value) (w₀ : World) : Prop where
  answered : ∃ next u v e' r,
    Invocation.enter (Evaluation.meaning s) body env w = .value (w.invocations.size, next) u ∧
    Answered (Evaluation.meaning s) w.invocations.size (u, next, Invocation.emptyHistory) answers
      (w₀, .yielded v, h) ∧
    Invocation.yieldedChain v = pure (.suspended e' r) ∧
    e = e'.map (.bind (.call (.resumption w.invocations.size h)))
  node : e.AtNode w.invocations.size h
  tidy : w₀.Tidy w.invocations.size
  record : ∃ i, w₀.invocations[w.invocations.size]? = some i ∧ i.coroutines.size = 1 ∧
    i.live = some (0, h) ∧ i.histories[h]? = some answers.reverse

theorem begin_begun {body : List Stmt} {env : Env} {e : Effect} {r : CapabilitySet}
    (hw : w.Obeys (.others w.invocations.size))
    (hbody : stmtsUse (Regime.others w.invocations.size).op body)
    (henv : Env.Obeys (.others w.invocations.size) env) (call : Call) (maxSteps : Nat)
    (h : Invocation.begin (Evaluation.meaning s) call maxSteps body env w
      = .value (.suspended e r) w₀) :
    ∃ h answers, Begun s body env w e h answers w₀ := by
  obtain ⟨⟨id, next⟩, u, henter, hsuspend⟩ := Action.bind_eq_value.mp h
  obtain ⟨hid, hnext, htidy, i, hi, hsize, hstands, hhist⟩ := enter_opens hw hbody henv henter
  cases hid
  rcases suspend_suspends call maxSteps htidy hnext hi hstands (fun _ _ => hhist) hsuspend with
    ⟨v, hv⟩ | ⟨answers, v, e', r', h', hchain, hs⟩
  · cases hv
  · cases hchain
    obtain ⟨j, hj, hij, hlive, hanswers⟩ := hs.record
    rw [List.append_nil] at hanswers
    exact ⟨h', answers, ⟨next, u, v, e', _, henter, hs.answered, hs.pending, rfl⟩, .made hs.clear,
      hs.tidy, j, hj, hij.size.trans hsize, hlive, hanswers⟩

/-! ### Whatever happened before -/

/-- A world that calls, runs and resumptions lead to, by whoever they are made, also if they
fail. -/
inductive World.Later (s : Settings) (w : World) : World → Prop
  | refl : Later s w w
  | call {u v : World} (f : Callable) (args : List Value) (before : Later s w u)
      (after : (Callable.meaning s f args u).world? = some v) : Later s w v
  | run {u v : World} (c : Chain) (A : Handler) (before : Later s w u)
      (after : (run s (Callable.meaning s) c A u).world? = some v) : Later s w v
  | resume {u v : World} (e : Effect) (answer : Value) (before : Later s w u)
      (after : (e.resume (Callable.meaning s) answer u).world? = some v) : Later s w v

theorem Keeps.onward {α : Type} {P : α → Prop} {x : Action α} {v : World} (hx : Keeps s P x)
    (h : Kept s u ∧ w.Grows u) (hv : (x u).world? = some v) : Kept s v ∧ w.Grows v := by
  obtain ⟨hkept, hgrows⟩ := hx.world h.1 hv
  exact ⟨hkept, h.2.trans hgrows⟩

theorem World.Later.grows (hlater : w.Later s u) (hw : Kept s w) : Kept s u ∧ w.Grows u := by
  induction hlater with
  | refl => exact ⟨hw, .refl w⟩
  | call f args _ after ih =>
    have hcall := keeping_meaning s f args f.obeys_free fun a _ => a.obeys_free
    exact Keeps.onward hcall ih after
  | run c A _ after ih =>
    have hrun := Discipline.run (D := keeping s) s (keeping_meaning s) c.obeys_free A.obeys_free
    exact Keeps.onward hrun ih after
  | resume e answer _ after ih =>
    have hresume := Discipline.resume (D := keeping s) (keeping_meaning s) e.obeys_free
      answer.obeys_free
    exact Keeps.onward hresume ih after

/-! ### Runs -/

/-- Complete runs one after the other, against handlers that always go on, are complete uses. -/
theorem uses_of_runs {e : Effect} {r : CapabilitySet} (he : e.AtNode id h) {A : Nat → Handler}
    {results : Nat → Value} {ws : Nat → World} {n : Nat} (hw : (ws 0).Tidy id)
    (hA : ∀ k ≤ n, (A k).Obeys (.others id))
    (ho : ∀ k ≤ n, ResumesOnce s id True ((A k).offer (Callable.meaning s)))
    (hruns : ∀ k ≤ n, run s (Callable.meaning s) (.suspended e r) (A k) (ws k)
      = .value (results k) (ws (k + 1))) :
    ∀ k ≤ n, Uses s id (resuming s id) (ws k, .node h) (ws (k + 1), .returned) := by
  have hstep (k : Nat) (hk : k ≤ n) (htidy : (ws k).Tidy id) :
      Uses s id (resuming s id) (ws k, .node h) (ws (k + 1), .returned) ∧ (ws (k + 1)).Tidy id := by
    have huses := run_uses (hA k hk) (ho k hk) (c := .suspended e r) (.node he) htidy
    rw [hruns k hk] at huses
    obtain ⟨t, huses, htidy', hend⟩ := huses
    exact ⟨hend trivial ▸ huses, htidy'⟩
  have htidy (k : Nat) (hk : k ≤ n) : (ws k).Tidy id := by
    induction k with
    | zero => exact hw
    | succ k ih => exact (hstep k (by omega) (ih (by omega))).2
  exact fun k hk => (hstep k hk (htidy k hk)).1

/-- The routine of a call is executed once in every run of its chain, which is pending at a
history. -/
structure OncePerRun (s : Settings) (id h : Nat) (answers : List Value) (c : Chain) (w₀ : World) :
    Prop where
  /-- The first use of the chain goes on with the execution that the call has begun, and no other
  one is begun. -/
  first {q : World × Hand} : Uses s id (resuming s id) (w₀, .node h) q →
    Uses s id (advancing s id) (w₀, .node h) q ∧ q.1.executions id = 1
  /-- Whatever happened before, a use begins at most one execution, when the routine goes on for
  the first time; a fresh one is sent the answers that the routine was given before its first
  pending chain, and none is begun if the live one stands there. -/
  later {w₁ : World} {q : World × Hand} : w₀.Later s w₁ →
    Uses s id (resuming s id) (w₁, .node h) q → CourseOfUse s id h answers w₁ q
  /-- After complete uses, one after the other, the routine was executed as many times. -/
  complete (ws : Nat → World) (n : Nat) : ws 0 = w₀ →
    (∀ k ≤ n, Uses s id (resuming s id) (ws k, .node h) (ws (k + 1), .returned)) →
    ∃ i, (ws (n + 1)).invocations[id]? = some i ∧ i.Spent (n + 1)
  /-- A run against a handler that resumes each effect at most once is a use, and a complete one if
  the handler always goes on and the run gives a result. -/
  run {A : Handler} {always : Prop} {w₁ : World} : A.Obeys (.others id) →
    ResumesOnce s id always (A.offer (Callable.meaning s)) → w₁.Tidy id →
    (run s (Callable.meaning s) c A w₁).Used s id w₁ (.node h) fun _ u t =>
      u.Tidy id ∧ (always → t = .returned)
  /-- After complete runs, one after the other, the routine was executed as many times. -/
  runs (A : Nat → Handler) (results : Nat → Value) (ws : Nat → World) (n : Nat) : ws 0 = w₀ →
    (∀ k ≤ n, (A k).Obeys (.others id)) →
    (∀ k ≤ n, ResumesOnce s id True ((A k).offer (Callable.meaning s))) →
    (∀ k ≤ n, EffectHandlers.run s (Callable.meaning s) c (A k) (ws k)
      = .value (results k) (ws (k + 1))) →
    ∃ i, (ws (n + 1)).invocations[id]? = some i ∧ i.Spent (n + 1)

/-- The chain of a call that has begun is executed once in every run. -/
theorem Begun.oncePerRun {body : List Stmt} {env : Env} {e : Effect} {answers : List Value}
    (hb : Begun s body env w e h answers w₀) (hkept : Kept s w₀) (r : CapabilitySet) :
    OncePerRun s w.invocations.size h answers (.suspended e r) w₀ := by
  obtain ⟨i, hi, hsize, hlive, hhist⟩ := hb.record
  have hcomplete (ws : Nat → World) (n : Nat) (hstart : ws 0 = w₀)
      (huses : ∀ k ≤ n, Uses s w.invocations.size (resuming s w.invocations.size) (ws k, .node h)
        (ws (k + 1), .returned)) :
      ∃ i, (ws (n + 1)).invocations[w.invocations.size]? = some i ∧ i.Spent (n + 1) :=
    executions_of_complete_uses (hstart ▸ hi) hhist hsize hlive huses
  refine ⟨fun huses => ?_, fun hlater huses => ?_, hcomplete, fun hA ho hw₁ => ?_,
    fun A results ws n hstart hA ho hruns => ?_⟩
  · obtain ⟨hplain, j, hj, hij, -⟩ := Uses.advances huses hi hlive
    refine ⟨hplain, ?_⟩
    rw [World.executions, hj]
    exact hij.size.trans hsize
  · obtain ⟨j, hj, hij⟩ := (hlater.grows hkept).2.records _ _ hi
    exact course_of_uses huses hj (hij.histories h _ hhist)
  · exact run_uses hA ho (.node hb.node) hw₁
  · exact hcomplete ws n hstart (uses_of_runs hb.node (hstart ▸ hb.tidy) hA ho hruns)

/-- **How often a routine is executed**: the call of a program that comes to a pending chain begins
one execution, the first run goes on with it, and every later run begins at most one.  Nobody holds
a resumption of a call before it is made. -/
theorem executions_per_run {number : Nat} {requires : CapabilitySet} {params : List String}
    {body : List Stmt} {env : Env} {args : List Value} {e : Effect} {r : CapabilitySet}
    (hreach : w.Reachable s) (hw : w.Obeys (.others w.invocations.size))
    (hf : (Callable.program number requires params (.resumable body) env).Obeys
      (.others w.invocations.size))
    (hargs : ∀ a ∈ args, a.Obeys (.others w.invocations.size))
    (hcall : Callable.meaning s (.program number requires params (.resumable body) env) args w
      = .value (.chain (.suspended e r)) w₀) :
    ∃ env' h answers, Env.setAll? env params args = some env' ∧
      Begun s body env' w e h answers w₀ ∧
      OncePerRun s w.invocations.size h answers (.suspended e r) w₀ := by
  have hkept : Kept s w₀ := (hreach.call _ _ (congrArg Outcome.world? hcall)).kept
  rw [Callable.meaning_program] at hcall
  cases henv : Env.setAll? env params args with
  | none =>
    rw [henv] at hcall
    cases hcall
  | some env' =>
    rw [henv] at hcall
    obtain ⟨_, _, hrequire, hcall⟩ := Action.bind_eq_value.mp hcall
    cases hrequire
    obtain ⟨c, u, hbegin, hc⟩ := Action.bind_eq_value.mp hcall
    obtain ⟨hc, rfl⟩ := Action.pure_eq_value.mp hc
    cases c with
    | done v r' => cases hc
    | suspended e' r' =>
      cases hc
      obtain ⟨h, answers, hbegun⟩ := begin_begun hw hf.1
        (Env.obeys_setAll (bindingsObey_iff.mp hf.2) hargs henv) _ _ hbegin
      exact ⟨env', h, answers, rfl, hbegun, hbegun.oncePerRun hkept _⟩

/-- A routine that yields a finished chain, leaves a trace and makes a request. -/
def tracedTick : List Stmt :=
  [.yield none (.op (.chain .done) [.literal (.int 1)]),
    .eval (.op (.data .trace) [.literal (.text "once")]),
    .yield (some "x") (.op (.effect .tick) [.literal (.int 2)]),
    .exit (.var "x")]

/-- A run whose nested calls have come to something is the run with the meaning of calls. -/
theorem run_of_apply {depth : Nat} {c : Chain} {A : Handler} {v : Value}
    (h : run s (Callable.apply s depth) c A w = .value v u) :
    run s (Callable.meaning s) c A w = .value v u := by
  have hrun := Discipline.run (D := Comparison.limit.discipline.toDiscipline) s
    (Callable.meaning_limit s) c.obeys_free A.obeys_free
  rcases (hrun w).1.1 depth with hex | heq
  · cases Eq.trans (Eq.symm h) hex
  · exact Eq.trans (Eq.symm heq) h

/-- Two complete runs of the routine against a counter are two executions. -/
theorem executions_per_run_counted : ∃ (e : Effect) (r : CapabilitySet) (w₀ : World) (env : Env)
    (h : Nat) (answers : List Value) (v₁ : Value) (u₁ : World) (v₂ : Value) (u₂ : World),
    Callable.meaning ⟨false, 10⟩ (.program 1 ∅ [] (.resumable tracedTick) []) [] (.initial "")
      = .value (.chain (.suspended e r)) w₀ ∧
    Begun ⟨false, 10⟩ tracedTick env (.initial "") e h answers w₀ ∧
    OncePerRun ⟨false, 10⟩ 0 h answers (.suspended e r) w₀ ∧
    run ⟨false, 10⟩ (Callable.meaning ⟨false, 10⟩) (.suspended e r) (.counter 2) w₀
      = .value v₁ u₁ ∧
    run ⟨false, 10⟩ (Callable.meaning ⟨false, 10⟩) (.suspended e r) (.counter 2) u₁
      = .value v₂ u₂ ∧
    ∃ i, u₂.invocations[0]? = some i ∧ i.Spent 2 := by
  have hcomputed : ∃ e r w₀ v₁ u₁ v₂ u₂,
      Callable.apply ⟨false, 10⟩ 6 (.program 1 ∅ [] (.resumable tracedTick) []) [] (.initial "")
        = .value (.chain (.suspended e r)) w₀ ∧
      run ⟨false, 10⟩ (Callable.apply ⟨false, 10⟩ 6) (.suspended e r) (.counter 2) w₀
        = .value v₁ u₁ ∧
      run ⟨false, 10⟩ (Callable.apply ⟨false, 10⟩ 6) (.suspended e r) (.counter 2) u₁
        = .value v₂ u₂ := by
    -- The values and worlds are what the computations come to.
    iterate 7 apply Exists.intro
    refine ⟨?_, ?_, ?_⟩
    · cbv
    · cbv
    · cbv
  obtain ⟨e, r, w₀, v₁, u₁, v₂, u₂, hcall, hrun₁, hrun₂⟩ := hcomputed
  have hcall := (Callable.meaning_of_apply (by rw [hcall]; simp)).trans hcall
  have hrun₁ := run_of_apply hrun₁
  have hrun₂ := run_of_apply hrun₂
  obtain ⟨env, h, answers, -, hbegun, honce⟩ := executions_per_run (.initial "")
    (World.obeys_initial _ "") ⟨stmtsUse_any _, bindingsObey_iff.mpr (by simp)⟩ (by simp) hcall
  have hcounter : ResumesOnce ⟨false, 10⟩ 0 True (Handler.offer _ (.counter 2)) :=
    TailResumptive.resumesOnce trivial (Handler.Shipped.counter 2).tailResumptive
  refine ⟨e, r, w₀, env, h, answers, v₁, u₁, v₂, u₂, hcall, hbegun, honce, hrun₁, hrun₂, ?_⟩
  refine honce.runs (fun _ => .counter 2) ([v₁, v₂].getD · .null) ([w₀, u₁, u₂].getD · w₀) 1 rfl
    (fun _ _ => trivial) (fun _ _ => hcounter) fun k hk => ?_
  obtain rfl | rfl : k = 0 ∨ k = 1 := by omega
  · exact hrun₁
  · exact hrun₂

end EffectHandlers
