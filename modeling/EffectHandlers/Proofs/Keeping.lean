/-
EffectHandlers/Proofs/Keeping.lean

Whatever is called, worlds stay kept.

Between two accesses to the record of a call the invariant may be broken, so
new calls and resumptions are walked through as a whole.  Each operation
on the record has a lemma that says what it leads to: the coroutine that is
executed is away before and after (`Leads.execute`), a coroutine that is
sent an answer and yields awaits one more answer (`Leads.send`), and so on
up to the resumption (`Keeps.resume`) and the new call (`Keeps.begin`).
Everything else does not touch the records.

Main result: calls keep worlds kept, at every depth (`keeping_meaning`).
-/
import EffectHandlers.Proofs.Kept

namespace EffectHandlers

variable {α β : Type} {s : Settings} {births births' : Births} {w u : World} {id gen h : Nat}
  {i : Invocation} {answers : List Value}

/-! ### Outcomes that keep worlds kept -/

/-- The world that an outcome leaves. -/
def Outcome.world? {α : Type} : Outcome α → Option World
  | .value _ w | .failed _ w => some w
  | .exhausted => none

/-- An outcome in a world after the first one, with `P` if it is a value. -/
def Outcome.Leads (s : Settings) (births : Births) (w : World) (P : α → World → Prop) :
    Outcome α → Prop
  | .value a w' => After s births w w' ∧ P a w'
  | .failed _ w' => After s births w w'
  | .exhausted => True

namespace Outcome.Leads

variable {P Q : α → World → Prop}

theorem weaken {o : Outcome α} (ho : o.Leads s births w P) (hPQ : ∀ a w', P a w' → Q a w') :
    o.Leads s births w Q := by
  cases o with
  | value a w' => exact ⟨ho.1, hPQ a w' ho.2⟩
  | failed f w' => exact ho
  | exhausted => trivial

/-- What is known from a later world on. -/
theorem trans {o : Outcome α} (hwu : w.Follows u)
    (hbirths : ∀ id, id < w.invocations.size → births' id = births id)
    (ho : o.Leads s births' u P) : o.Leads s births w P := by
  cases o with
  | value a w' => exact ⟨ho.1.trans hwu hbirths, ho.2⟩
  | failed f w' => exact After.trans hwu hbirths ho
  | exhausted => trivial

theorem after {o : Outcome α} (hwu : After s births w u)
    (ho : ∀ births', KeptFrom s births' u →
      (∀ id, id < w.invocations.size → births' id = births id) → o.Leads s births' u P) :
    o.Leads s births w P := by
  obtain ⟨hfollows, births', hagree, hu⟩ := hwu
  exact (ho births' hu hagree).trans hfollows hagree

/-- What follows is known from the first world on. -/
theorem bind {x : Action α} {f : α → Action β} {Q : β → World → Prop}
    (hx : (x u).Leads s births w P)
    (hf : ∀ a w', After s births w w' → P a w' → (f a w').Leads s births w Q) :
    ((x >>= f) u).Leads s births w Q := by
  rw [Action.bind_apply]
  cases hxu : x u with
  | value a w' =>
    rw [hxu] at hx
    exact hf a w' hx.1 hx.2
  | failed f w' =>
    rw [hxu] at hx
    exact hx
  | exhausted => trivial

end Outcome.Leads

/-- An action that leads from kept worlds to kept worlds, with `P` of what it gives. -/
def Keeps (s : Settings) (P : α → Prop) (x : Action α) : Prop :=
  ∀ births w, KeptFrom s births w → (x w).Leads s births w fun a _ => P a

namespace Keeps

theorem ret {P : α → Prop} {a : α} (ha : P a) : Keeps s P (pure a) :=
  fun _ _ hw => ⟨.refl hw, ha⟩

theorem fail (P : α → Prop) (f : Failure) : Keeps s P (Action.fail f) :=
  fun _ _ hw => After.refl hw

theorem exhaust (P : α → Prop) : Keeps s P Action.exhaust := fun _ _ _ => trivial

theorem bind {P : α → Prop} {Q : β → Prop} {x : Action α} {f : α → Action β}
    (hx : Keeps s P x) (hf : ∀ a, P a → Keeps s Q (f a)) : Keeps s Q (x >>= f) :=
  fun births w hw => (hx births w hw).bind fun a w' hafter ha =>
    .after hafter fun births' hw' _ => hf a ha births' w' hw'

theorem weaken {P Q : α → Prop} {x : Action α} (hx : Keeps s P x) (h : ∀ a, P a → Q a) :
    Keeps s Q x :=
  fun births w hw => (hx births w hw).weaken fun a _ => h a

theorem of_value {P : α → Prop} {x : Action α} {a : α} (hx : Keeps s P x) (hw : Kept s w)
    (ha : x w = .value a u) : Kept s u ∧ w.Grows u ∧ P a := by
  obtain ⟨births, hw⟩ := hw.exists_births
  have hlead := hx births w hw
  rw [ha] at hlead
  exact ⟨hlead.1.kept, hlead.1.1.grows, hlead.2⟩

/-- An exchange that leaves the records of calls alone. -/
theorem exchange {P : α → Prop} {f : World → α × World} (hP : ∀ w, P (f w).1)
    (hrecords : ∀ w, (f w).2.invocations = w.invocations)
    (hgrows : ∀ w : World, w.Grows (f w).2) :
    Keeps s P (Action.exchange f) := by
  intro births w hw
  refine ⟨.of_keptFrom ((hgrows w).follows_of_eq (hrecords w)) ?_, hP w⟩
  exact hw.of_eq (hgrows w) (hrecords w)

end Keeps

/-- Keeping worlds kept is a discipline. -/
def keeping (s : Settings) : Discipline Unit .free where
  holds P x := Keeps s P (x ())
  ret := Keeps.ret
  fail := Keeps.fail
  exhaust := Keeps.exhaust
  bind := Keeps.bind
  fresh := Keeps.exchange (fun _ => trivial) (fun _ => rfl) fun w =>
    { World.Grows.refl w with fresh := Nat.le_succ _ }
  emit e := Keeps.exchange (f := fun w => ((), { w with events := e :: w.events }))
    (fun _ => trivial) (fun _ => rfl) fun w => { World.Grows.refl w with }
  showValue {v} _ := Keeps.exchange
    (f := fun w => ((), { w with events := .traced v w.cells :: w.events }))
    (fun _ => trivial) (fun _ => rfl) fun w => { World.Grows.refl w with }
  newCell _ := Keeps.exchange (fun _ => trivial) (fun _ => rfl) fun w =>
    { World.Grows.refl w with cells := by simp }
  readCell a := Keeps.exchange (f := fun w => ((w.cells[a]?).getD .null, w))
    (fun _ => Value.obeys_free _) (fun _ => rfl) World.Grows.refl
  writeCell a {v} _ := Keeps.exchange
    (f := fun w => ((), { w with cells := w.cells.setIfInBounds a v }))
    (fun _ => trivial) (fun _ => rfl) fun w => { World.Grows.refl w with cells := by simp }
  newSource _ := Keeps.exchange (fun _ => trivial) (fun _ => rfl) fun w =>
    { World.Grows.refl w with sources := by simp }
  readLine _ := Keeps.exchange (fun _ => trivial) (fun _ => rfl) fun w =>
    { World.Grows.refl w with sources := by simp }
  newJournal := Keeps.exchange (fun _ => trivial) (fun _ => rfl) fun w =>
    { World.Grows.refl w with journals := by simp }
  journalEntries j := Keeps.exchange (f := fun w => (((w.journals[j]?).getD []).reverse, w))
    (fun _ _ _ => Value.obeys_free _) (fun _ => rfl) World.Grows.refl
  record j name {v} _ := Keeps.exchange
    (f := fun w => ((), { w with
      journals := w.journals.modify j (.tuple [.text name, v] :: ·) }))
    (fun _ => trivial) (fun _ => rfl) fun w => { World.Grows.refl w with journals := by simp }

/-! ### Evaluation -/

/-- Evaluation that keeps worlds kept and comes to what is meant, unless it is exhausted. -/
structure Evaluation.Sound (s : Settings) (eval : Evaluation) : Prop where
  keeps : (keeping s).Evaluates fun _ => eval
  meant (env : Env) (e : Expr) (w : World) :
    eval env e w = .exhausted ∨ Evaluation.meaning s env e w = eval env e w

namespace Evaluation.Sound

variable {eval : Evaluation}

theorem meaning_of_value {o o' : Outcome α} {a : α} (h : o = .exhausted ∨ o' = o)
    (ho : o = .value a w) : o' = .value a w := by
  rcases h with h | h
  · rw [ho] at h
    cases h
  · exact h.trans ho

/-- The evaluation and its meaning compare. -/
theorem compares (heval : eval.Sound s) :
    Comparison.defined.discipline.Evaluates
      fun b => if b then Evaluation.meaning s else eval := by
  intro e env _ _ w
  exact ⟨heval.meant env e w, fun _ v _ _ => v.obeys_free⟩

theorem execBlock (heval : eval.Sound s) {ss : List Stmt} {env : Env} {exit : Exit}
    (h : execBlock eval ss env w = .value exit u) :
    EffectHandlers.execBlock (Evaluation.meaning s) ss env w = .value exit u := by
  have hrel := (Discipline.execBlock heval.compares ss (stmtsUse_any ss)
    (fun b (_ : b ∈ env) => Value.obeys_free b.2) w).1
  exact meaning_of_value hrel h

theorem execFrames (heval : eval.Sound s) {fs : List Frame} {env : Env} {exit : Exit}
    (h : execFrames eval fs env w = .value exit u) :
    EffectHandlers.execFrames (Evaluation.meaning s) fs env w = .value exit u := by
  have hrel := (Discipline.execFrames heval.compares (fun f (_ : f ∈ fs) => f.obeys_free)
    (fun b (_ : b ∈ env) => Value.obeys_free b.2) w).1
  exact meaning_of_value hrel h

theorem keeps_execBlock (heval : eval.Sound s) (ss : List Stmt) (env : Env) :
    Keeps s (Exit.Obeys .free) (EffectHandlers.execBlock eval ss env) :=
  Discipline.execBlock (D := keeping s) heval.keeps ss (stmtsUse_any ss)
    fun b _ => Value.obeys_free b.2

theorem keeps_execFrames (heval : eval.Sound s) (fs : List Frame) (env : Env) :
    Keeps s (Exit.Obeys .free) (EffectHandlers.execFrames eval fs env) :=
  Discipline.execFrames (D := keeping s) heval.keeps (fun f _ => f.obeys_free)
    fun b _ => Value.obeys_free b.2

end Evaluation.Sound

/-! ### Coroutines -/

theorem World.follows_setPosition (hi : w.invocations[id]? = some i) (p : Position) :
    w.Follows (w.setPosition id gen p) :=
  World.follows_changeCall hi (Invocation.grows_setPosition i gen p) fun _ _ haway => haway

/-- A coroutine that is away may be put anywhere. -/
theorem KeptFrom.setPosition (hw : KeptFrom s births w) (hi : w.invocations[id]? = some i)
    (haway : i.Away gen) (p : Position) : KeptFrom s births (w.setPosition id gen p) := by
  refine hw.changeAway hi (Invocation.grows_setPosition i gen p) haway rfl fun k hk => ?_
  simp [Array.getElem?_modify, Ne.symm hk]

/-- A coroutine that is away is put somewhere after something else has happened. -/
theorem After.setPosition {w' : World} (h : After s births w w')
    (hi : w.invocations[id]? = some i) (hgen : gen < i.coroutines.size) (haway : i.Away gen)
    (p : Position) :
    After s births w (w'.setPosition id gen p) ∧
      ∃ j, (w'.setPosition id gen p).invocations[id]? = some j ∧ i.Grows j ∧ j.Away gen ∧
        (j.coroutines[gen]?).map (·.position) = some p := by
  obtain ⟨hfollows, births', hagree, hw'⟩ := h
  obtain ⟨j, hj, hij⟩ := hfollows.grows.records id i hi
  have hjaway : j.Away gen := hfollows.spares id i j hi hj gen hgen haway
  have hjgen : gen < j.coroutines.size := Nat.lt_of_lt_of_le hgen hij.coroutines
  constructor
  · exact ⟨hfollows.trans (World.follows_setPosition hj p), births', hagree,
      hw'.setPosition hj hjaway p⟩
  · refine ⟨j.setPosition gen p, World.record_changeCall hj _,
      hij.trans (Invocation.grows_setPosition j gen p), hjaway, ?_⟩
    show ((j.coroutines.modify gen _)[gen]?).map _ = some p
    rw [Array.getElem?_modify, if_pos rfl, Array.getElem?_eq_getElem hjgen]
    rfl

namespace Outcome.Leads

/-- A slice of a coroutine that is away is executed in a kept world; after it the coroutine is
away, and stands where the slice ended. -/
theorem execute {part : Action Exit} {P : Exit → Prop} (hw : KeptFrom s births w)
    (hi : w.invocations[id]? = some i) (hgen : gen < i.coroutines.size) (haway : i.Away gen)
    (hpart : Keeps s P part) :
    (Coroutine.execute id gen part w).Leads s births w fun next w' =>
      ∃ exit u u' j, exit.advance = next ∧ Kept s u ∧ w.Grows u ∧ part u = .value exit u' ∧
        w'.invocations[id]? = some j ∧ i.Grows j ∧ j.Away gen ∧
        (j.coroutines[gen]?).map (·.position) = some exit.position := by
  have hu := hw.setPosition hi haway .running
  have hwu : w.Follows (w.setPosition id gen .running) := World.follows_setPosition hi .running
  have hrun := hpart births _ hu
  rw [Coroutine.execute_apply]
  cases hend : part (w.setPosition id gen .running) with
  | value exit u' =>
    rw [hend] at hrun
    obtain ⟨hafter, j, hj, hij, hjaway, hposition⟩ :=
      (After.trans hwu (fun _ _ => rfl) hrun.1).setPosition hi hgen haway exit.position
    exact ⟨hafter, exit, _, u', j, rfl, hu.kept, hwu.grows, hend, hj, hij, hjaway, hposition⟩
  | failed f u' =>
    rw [hend] at hrun
    exact ((After.trans hwu (fun _ _ => rfl) hrun).setPosition hi hgen haway .finished).1
  | exhausted => trivial

end Outcome.Leads

/-! ### Accesses to the live coroutine -/

/-- A coroutine that is away receives an answer. -/
theorem KeptFrom.withReceived (hw : KeptFrom s births w) (hi : w.invocations[id]? = some i)
    (haway : i.Away gen) (answer : Value) :
    KeptFrom s births (w.changeCall id (·.withReceived gen answer)) ∧
      w.Follows (w.changeCall id (·.withReceived gen answer)) ∧
      (w.changeCall id (·.withReceived gen answer)).invocations[id]?
        = some (i.withReceived gen answer) := by
  have hgrows := i.grows_withReceived gen answer
  refine ⟨hw.changeAway hi hgrows haway rfl fun k hk => ?_,
    World.follows_changeCall hi hgrows fun _ _ h => h, World.record_changeCall hi _⟩
  simp [Invocation.withReceived, Array.getElem?_modify, Ne.symm hk]

/-- The live coroutine is taken away; it awaits the answer after its history. -/
theorem KeptFrom.takeLive (hw : KeptFrom s births w) (hi : w.invocations[id]? = some i)
    (hl : i.live = some (gen, h)) (hh : i.histories[h]? = some answers) :
    KeptFrom s births (w.changeCall id (·.withLive none)) ∧
      w.Follows (w.changeCall id (·.withLive none)) ∧
      (w.changeCall id (·.withLive none)).invocations[id]? = some (i.withLive none) ∧
      (i.withLive none).Away gen ∧ (i.withLive none).Awaits s (births id) gen answers := by
  obtain ⟨-, -, hparked⟩ := hw id i hi
  obtain ⟨answers', hh', hawaits⟩ := parked_iff.mp (hparked gen h hl)
  rw [hh] at hh'
  cases hh'
  have hgrows := i.grows_withLive none
  have haway (gen : Nat) : (i.withLive none).Away gen := fun _ hl => by cases hl
  have hw₀ : KeptFrom s births (w.changeCall id (·.withLive none)) :=
    hw.changeCall hi hgrows fun gen h hl => absurd hl (haway gen h)
  exact ⟨hw₀, World.follows_changeCall hi hgrows fun gen _ _ => haway gen,
    World.record_changeCall hi _, haway gen, hawaits.mono hgrows rfl⟩

/-- A new coroutine is away. -/
theorem KeptFrom.withFresh (hw : KeptFrom s births w) (hi : w.invocations[id]? = some i) :
    KeptFrom s births (w.changeCall id (·.withFresh)) ∧
      w.Follows (w.changeCall id (·.withFresh)) ∧ i.withFresh.Away i.coroutines.size := by
  have haway : i.Away i.coroutines.size := by
    intro h hl
    obtain ⟨-, -, hparked⟩ := hw id i hi
    exact Nat.lt_irrefl _ (hparked _ h hl).gen_lt
  have hgrows := i.grows_withFresh
  refine ⟨hw.changeAway hi hgrows haway rfl fun k hk => ?_,
    World.follows_changeCall hi hgrows fun _ _ h => h, haway⟩
  rw [Invocation.withFresh, Array.getElem?_push, if_neg hk]

/-! ### New calls -/

/-- The world with a new call. -/
def World.withCall (w : World) (body : List Stmt) (env : Env) : World :=
  { w with invocations := w.invocations.push ⟨body, env, #[], #[[]], none⟩ }

theorem World.record_withCall (w : World) (body : List Stmt) (env : Env) :
    (w.withCall body env).invocations[w.invocations.size]?
      = some ⟨body, env, #[], #[[]], none⟩ := by
  simp [World.withCall]

/-! ### Starting and sending -/

/-- A coroutine of a call is away and awaits the next answer. -/
def Rests (s : Settings) (b : World) (id gen : Nat) (i : Invocation) (answers : List Value)
    (w : World) : Prop :=
  ∃ j, w.invocations[id]? = some j ∧ i.Grows j ∧ j.Away gen ∧ j.Awaits s b gen answers

theorem Rests.of_grows {b : World} {j : Invocation} (hij : i.Grows j)
    (h : Rests s b id gen j answers w) : Rests s b id gen i answers w := by
  obtain ⟨k, hk, hjk, haway, hawaits⟩ := h
  exact ⟨k, hk, hij.trans hjk, haway, hawaits⟩

/-- If a routine has yielded, a coroutine is live that stands at a history with answers. -/
def LiveAt (id : Nat) (next : Advance) (h : Nat) (answers : List Value) (w : World) : Prop :=
  ∀ v, next = .yielded v → ∃ gen j, w.invocations[id]? = some j ∧ j.live = some (gen, h) ∧
    j.histories[h]? = some answers

namespace Outcome.Leads

variable {eval : Evaluation}

/-- A coroutine that is sent an answer and yields awaits the answer after that. -/
theorem send (heval : eval.Sound s) (hw : KeptFrom s births w)
    (hi : w.invocations[id]? = some i) (haway : i.Away gen)
    (hawaits : i.Awaits s (births id) gen answers) (answer : Value) :
    (Coroutine.send eval id gen answer w).Leads s births w fun next w' =>
      ∀ v, next = .yielded v → Rests s (births id) id gen i (answer :: answers) w' := by
  have hgen := hawaits.gen_lt
  obtain ⟨target, rest, env, hposition, hreached⟩ := hawaits
  obtain ⟨⟨_, received⟩, hc, rfl⟩ := Option.map_eq_some_iff.mp hposition
  rw [Coroutine.send_apply hi hc]
  obtain ⟨hw₁, hf₁, hi₁⟩ := hw.withReceived hi haway answer
  refine trans hf₁ (fun _ _ => rfl) (weaken (execute hw₁ hi₁ ?_ haway
    (heval.keeps_execFrames rest (Coroutine.bindAnswer env target answer))) ?_)
  · simpa [Invocation.withReceived] using hgen
  · rintro _ w' ⟨exit, u, u', j, rfl, hu, hwu, hslice, hj, hij, hjaway, hend⟩ v hv
    cases exit with
    | yielded v' target' rest' env' =>
      have hig := (i.grows_withReceived gen answer).trans hij
      refine ⟨j, hj, hig, hjaway, target', rest', env', hend, ?_⟩
      rw [hig.body, hig.env]
      obtain ⟨-, hb, -⟩ := hw id i hi
      exact .answer hreached hu (hb.trans (hf₁.grows.trans hwu)) (heval.execFrames hslice)
    | through env' => cases hv
    | returned v' => cases hv

/-- A fresh coroutine that yields awaits the first answer. -/
theorem start (heval : eval.Sound s) (hw : KeptFrom s births w)
    (hi : w.invocations[id]? = some i) (haway : i.Away gen)
    (hc : i.coroutines[gen]? = some ⟨.entry i.body i.env, []⟩) :
    (Coroutine.start eval id gen w).Leads s births w fun next w' =>
      ∀ v, next = .yielded v → Rests s (births id) id gen i [] w' := by
  have hgen : gen < i.coroutines.size := (Array.getElem?_eq_some_iff.mp hc).1
  rw [Coroutine.start_apply hi hc]
  refine weaken (execute hw hi hgen haway (heval.keeps_execBlock i.body i.env)) ?_
  rintro _ w' ⟨exit, u, u', j, rfl, hu, hwu, hslice, hj, hij, hjaway, hend⟩ v hv
  cases exit with
  | yielded v' target rest env =>
    refine ⟨j, hj, hij, hjaway, target, rest, env, hend, ?_⟩
    rw [hij.body, hij.env]
    obtain ⟨-, hb, -⟩ := hw id i hi
    exact .start hu (hb.trans hwu) (heval.execBlock hslice)
  | through env => cases hv
  | returned v' => cases hv

/-! ### Replay -/

/-- A coroutine that awaits an answer after a history is made live, if it was live before or is
new. -/
theorem setLive {w' : World} {j : Invocation} (hafter : After s births w w')
    (hi : w.invocations[id]? = some i) (hj : w'.invocations[id]? = some j)
    (hh : j.histories[h]? = some answers) (hawaits : j.Awaits s (births id) gen answers)
    (hnew : gen < i.coroutines.size → ¬ i.Away gen) :
    (Invocation.setLive id (some (gen, h)) w').Leads s births w fun _ w'' =>
      w''.invocations[id]? = some (j.withLive (some (gen, h))) := by
  obtain ⟨hfollows, births', hagree, hw'⟩ := hafter
  have hid := (Array.getElem?_eq_some_iff.mp hi).1
  have hgrows := j.grows_withLive (some (gen, h))
  have hlive : KeptFrom s births' (w'.changeCall id (·.withLive (some (gen, h)))) := by
    refine hw'.changeCall hj hgrows fun gen' h' hl => ?_
    cases hl
    rw [hagree id hid]
    exact parked_iff.mpr ⟨answers, hh, hawaits.mono hgrows rfl⟩
  have hspares (k : Nat) (i' j' : Invocation) (hi' : w.invocations[k]? = some i')
      (hj' : (w'.changeCall id (·.withLive (some (gen, h)))).invocations[k]? = some j') :
      i'.Spares j' := by
    rcases World.record_changeCall_cases hj hj' with ⟨rfl, rfl⟩ | ⟨-, hj'⟩
    · cases hi.symm.trans hi'
      intro g hg haway h' hl
      cases hl
      exact hnew hg haway
    · exact hfollows.spares k i' j' hi' hj'
  have hgrow := hfollows.grows.trans
    (World.grows_changeCall hj (f := (·.withLive (some (gen, h)))) hgrows)
  exact ⟨⟨⟨hgrow, hspares⟩, births', hagree, hlive⟩, World.record_changeCall hj _⟩

theorem mustYield {next : Advance} {Q : World → Prop} (hw : KeptFrom s births w)
    (h : ∀ v, next = .yielded v → Q w) :
    (Invocation.mustYield next w).Leads s births w fun _ w' => Q w' := by
  cases next with
  | yielded v => exact ⟨.refl hw, h v rfl⟩
  | returned v => exact After.refl hw

/-- A coroutine that was sent recorded answers awaits the answer after them. -/
theorem replay (heval : eval.Sound s) (as : List Value) (hw : KeptFrom s births w)
    (hi : w.invocations[id]? = some i) (haway : i.Away gen)
    (hawaits : i.Awaits s (births id) gen answers) :
    (Invocation.replay eval id gen as w).Leads s births w fun _ w' =>
      Rests s (births id) id gen i (as.reverse ++ answers) w' := by
  have hid : id < w.invocations.size := (Array.getElem?_eq_some_iff.mp hi).1
  induction as generalizing answers births w i with
  | nil => exact ⟨.refl hw, i, hi, .refl i, haway, hawaits⟩
  | cons a as ih =>
    rw [Invocation.replay, List.reverse_cons, List.append_assoc]
    refine (send heval hw hi haway hawaits a).bind fun next w₁ h₁ hnext => ?_
    refine (after h₁ fun _ hw₁ _ => mustYield hw₁ hnext).bind fun _ w₂ h₂ hrests => ?_
    obtain ⟨j, hj, hij, hjaway, hjawaits⟩ := hrests
    refine after h₂ fun births₂ hw₂ hagree => ?_
    rw [← hagree id hid] at hjawaits ⊢
    have hid₂ := (Array.getElem?_eq_some_iff.mp hj).1
    exact (ih hw₂ hj hjaway hjawaits hid₂).weaken fun _ _ h => h.of_grows hij

/-- After a rebuild the live coroutine stands at the history. -/
theorem rebuild (heval : eval.Sound s) (hw : KeptFrom s births w) (id h : Nat) :
    (Invocation.rebuild eval id h w).Leads s births w fun _ w' =>
      ∃ gen j, w'.invocations[id]? = some j ∧ j.live = some (gen, h) := by
  rcases Invocation.answersOf_cases id h w with ⟨i, answers, hi, hh⟩ | hfail
  case inr =>
    rw [Invocation.rebuild, Action.bind_apply, hfail]
    exact After.refl hw
  -- The coroutine is new, so it is not the live one.
  obtain ⟨hw₀, hf₀, haway₀⟩ := hw.withFresh hi
  have hi₀ := World.record_changeCall hi (·.withFresh)
  have hid := (Array.getElem?_eq_some_iff.mp hi).1
  have hentry : i.withFresh.coroutines[i.coroutines.size]? = some ⟨.entry i.body i.env, []⟩ := by
    simp [Invocation.withFresh]
  rw [Invocation.rebuild, Action.bind_of_value (Invocation.answersOf_apply hi hh),
    Action.bind_of_value (Invocation.spawn_apply hi)]
  have hstart := (start heval hw₀ hi₀ haway₀ hentry).trans hf₀ fun _ _ => rfl
  refine hstart.bind fun next w₁ h₁ hnext => ?_
  refine (after h₁ fun _ hw₁ _ => mustYield hw₁ hnext).bind fun _ w₂ h₂ hrests => ?_
  obtain ⟨j, hj, hij, hjaway, hjawaits⟩ := hrests
  have hreplay : (Invocation.replay eval id i.coroutines.size answers.reverse w₂).Leads s births
      w fun _ w' => Rests s (births id) id i.coroutines.size j answers w' := by
    refine after h₂ fun births₂ hw₂ hagree => ?_
    rw [← hagree id hid] at hjawaits ⊢
    simpa using replay heval answers.reverse hw₂ hj hjaway hjawaits
  refine hreplay.bind fun _ w₃ h₃ hrests => ?_
  obtain ⟨k, hk, hjk, -, hkawaits⟩ := hrests
  have hkh : k.histories[h]? = some answers :=
    (hij.trans hjk).histories h answers (i.grows_withFresh.histories h answers hh)
  refine (setLive h₃ hi hk hkh hkawaits fun hlt => ?_).weaken fun _ w' hw' => ⟨_, _, hw', rfl⟩
  exact absurd hlt (Nat.lt_irrefl _)

/-- An answer is fed to the live coroutine; if it yields, it is live again and stands at the
extended history. -/
theorem feed (heval : eval.Sound s) (hw : KeptFrom s births w)
    (hi : w.invocations[id]? = some i) (hl : i.live = some (gen, h))
    (hh : i.histories[h]? = some answers) (answer : Value) :
    (Invocation.feed eval id h answer w).Leads s births w fun p w' =>
      LiveAt id p.1 p.2 (answer :: answers) w' := by
  -- The coroutine is taken away.
  obtain ⟨hw₀, hf₀, hi₀, haway₀, hawaits⟩ := hw.takeLive hi hl hh
  rw [Invocation.feed, Action.bind_of_value (Invocation.takeLive_apply hi hl)]
  have hsend := (send heval hw₀ hi₀ haway₀ hawaits answer).trans hf₀ fun _ _ => rfl
  refine hsend.bind fun next w₁ h₁ hnext => ?_
  cases next with
  | returned v => exact ⟨h₁, fun _ hv => by cases hv⟩
  | yielded v =>
    obtain ⟨j, hj, hij, -, hjawaits⟩ := hnext v rfl
    have hjh : j.histories[h]? = some answers := hij.histories h answers hh
    -- The history is extended, and the coroutine is live again.
    rw [Invocation.settle, Action.bind_of_value (Invocation.extendHistory_apply hj answer hjh)]
    have h₂ : After s births w (w₁.changeCall id (·.withHistory (answer :: answers))) := by
      obtain ⟨hf, births', hagree, hw₁⟩ := h₁
      have hjgrows := j.grows_withHistory (answer :: answers)
      exact ⟨hf.trans (World.follows_changeCall hj hjgrows fun _ _ h => h), births', hagree,
        hw₁.changeStill hj hjgrows rfl rfl⟩
    have hk := World.record_changeCall hj (·.withHistory (answer :: answers))
    have hkh : (j.withHistory (answer :: answers)).histories[j.histories.size]?
        = some (answer :: answers) := by simp [Invocation.withHistory]
    have hkawaits := hjawaits.mono (j.grows_withHistory (answer :: answers)) rfl
    refine (setLive h₂ hi hk hkh hkawaits fun _ haway => haway h hl).bind fun _ w₃ h₃ hlive => ?_
    exact ⟨h₃, fun _ _ => ⟨_, _, hlive, rfl, hkh⟩⟩

/-! ### Yielding and going on -/

/-- Finished chains that are yielded are answered, one after the other. -/
theorem suspend (heval : eval.Sound s) (call : Call) {fuel : Nat} {next : Advance}
    (hw : KeptFrom s births w) (hlive : LiveAt id next h answers w) :
    (Invocation.suspend eval call id fuel next h w).Leads s births w
      fun c _ => c.Obeys .free := by
  induction fuel using Nat.strongRecOn generalizing births next h answers w with
  | ind fuel ih =>
    cases next with
    | returned v =>
      rw [Invocation.suspend_returned]
      exact ⟨.refl hw, Chain.obeys_free _⟩
    | yielded v =>
      rw [Invocation.suspend_yielded]
      rcases Invocation.yieldedChain_cases v with ⟨c, hc⟩ | hfail
      case inr =>
        rw [hfail]
        exact After.refl hw
      rw [hc, pure_bind]
      rcases c with ⟨answer, r⟩ | ⟨e, r⟩
      · cases fuel with
        | zero => trivial
        | succ fuel =>
          obtain ⟨gen, i, hi, hl, hh⟩ := hlive v rfl
          refine (feed heval hw hi hl hh answer).bind fun p w₁ h₁ hlive₁ => ?_
          exact after h₁ fun births₁ hw₁ _ => ih fuel (Nat.lt_succ_self fuel) hw₁ hlive₁
      · exact ⟨.refl hw, Chain.obeys_free _⟩

/-- An answer to the live coroutine, and what comes after it. -/
theorem goOn (heval : eval.Sound s) (call : Call) (maxSteps : Nat) (answer : Value)
    (hw : KeptFrom s births w) (hi : w.invocations[id]? = some i)
    (hl : i.live = some (gen, h)) :
    ((Invocation.feed eval id h answer >>= fun p =>
      Invocation.suspend eval call id maxSteps p.1 p.2) w).Leads s births w
        fun c _ => c.Obeys .free := by
  obtain ⟨-, -, hparked⟩ := hw id i hi
  obtain ⟨answers, hh, -⟩ := parked_iff.mp (hparked gen h hl)
  refine (feed heval hw hi hl hh answer).bind fun p w₁ h₁ hlive => ?_
  exact after h₁ fun births₁ hw₁ _ => suspend heval call hw₁ hlive

/-- A new call of a routine is made from this world. -/
theorem enter (heval : eval.Sound s) (body : List Stmt) (env : Env)
    (hw : KeptFrom s births w) (hbirth : births w.invocations.size = w) :
    (Invocation.enter eval body env w).Leads s births (w.withCall body env) fun p w' =>
      p.1 = w.invocations.size ∧
        LiveAt p.1 p.2 Invocation.emptyHistory [] w' := by
  let call : Invocation := ⟨body, env, #[], #[[]], none⟩
  have hw₀ : KeptFrom s births (w.withCall body env) := hw.push hbirth rfl
  have hi₀ : (w.withCall body env).invocations[w.invocations.size]? = some call :=
    w.record_withCall body env
  obtain ⟨hw₁, hf₁, haway₁⟩ := hw₀.withFresh hi₀
  have hi₁ := World.record_changeCall hi₀ (·.withFresh)
  have hstart := (start heval hw₁ hi₁ haway₁ rfl).trans hf₁ fun _ _ => rfl
  show Outcome.Leads s births _ _
    ((Invocation.spawn w.invocations.size >>= _) (w.withCall body env))
  rw [Action.bind_of_value (Invocation.spawn_apply hi₀)]
  refine hstart.bind fun next w₂ h₂ hnext => ?_
  cases next with
  | returned v => exact ⟨h₂, rfl, fun _ hv => by cases hv⟩
  | yielded v =>
    obtain ⟨j, hj, hij, -, hawaits⟩ := hnext v rfl
    have hh : j.histories[Invocation.emptyHistory]? = some [] :=
      hij.histories _ _ (call.grows_withFresh.histories _ _ rfl)
    refine (setLive h₂ hi₀ hj hh hawaits ?_).bind fun _ w₃ h₃ hlive =>
      ⟨h₃, rfl, fun _ _ => ⟨_, _, hlive, rfl, hh⟩⟩
    exact fun hlt => absurd hlt (Nat.lt_irrefl _)

theorem begin (heval : eval.Sound s) (call : Call) (maxSteps : Nat) (body : List Stmt)
    (env : Env) (hw : KeptFrom s births w) (hbirth : births w.invocations.size = w) :
    (Invocation.begin eval call maxSteps body env w).Leads s births (w.withCall body env)
      fun c _ => c.Obeys .free := by
  refine (enter heval body env hw hbirth).bind fun p w₁ h₁ hlive => ?_
  exact after h₁ fun births₁ hw₁ _ => suspend heval call hw₁ hlive.2

end Outcome.Leads

namespace Keeps

variable {eval : Evaluation}

theorem resume (heval : eval.Sound s) (call : Call) (maxSteps id h : Nat)
    (answer : Value) :
    Keeps s (Chain.Obeys .free) (Invocation.resume eval call maxSteps id h answer) := by
  intro births w hw
  rcases Invocation.resume_cases eval call maxSteps id h answer w with
    ⟨i, gen, hi, hl, hresume⟩ | hresume
  · rw [hresume]
    exact Outcome.Leads.goOn heval call maxSteps answer hw hi hl
  · rw [hresume]
    refine (Outcome.Leads.rebuild heval hw id h).bind fun _ w₁ h₁ hlive => ?_
    obtain ⟨gen, i, hi, hl⟩ := hlive
    exact .after h₁ fun births₁ hw₁ _ => Outcome.Leads.goOn heval call maxSteps answer hw₁ hi hl

theorem begin (heval : eval.Sound s) (call : Call) (maxSteps : Nat) (body : List Stmt)
    (env : Env) :
    Keeps s (Chain.Obeys .free) (Invocation.begin eval call maxSteps body env) := by
  intro births w hw
  obtain ⟨births', hagree, hbirth, hw'⟩ := hw.exists_birth
  exact (Outcome.Leads.begin heval call maxSteps body env hw' hbirth).trans
    (World.follows_push w _) hagree

end Keeps

/-! ### Calls -/

/-- Evaluation at a bounded depth is sound if calls at that depth keep worlds kept. -/
theorem sound_apply {depth : Nat} (hcall : (keeping s).Calls fun _ => Callable.apply s depth) :
    Evaluation.Sound s fun env e => e.eval s (Callable.apply s depth) env where
  keeps e _ he henv := Discipline.eval hcall (Callable.runsAlike_const _ s) e he henv
  meant env e w := (Evaluation.apply_or_meaning s depth env e w).imp id Eq.symm

theorem keeping_apply (s : Settings) (depth : Nat) :
    (keeping s).Calls fun _ => Callable.apply s depth := by
  induction depth with
  | zero => exact fun _ _ _ _ => Keeps.exhaust _
  | succ depth ih =>
    have hsound := sound_apply ih
    exact Discipline.applyWith (Callable.runsAlike_const _ s) ih
      (fun body env _ _ => Keeps.begin hsound _ _ body env)
      fun id h answer _ _ => Keeps.resume hsound _ _ id h answer

/-- **Calls keep worlds kept**: after any call, the live coroutines stand where their histories
lead. -/
theorem keeping_meaning (s : Settings) : (keeping s).Calls fun _ => Callable.meaning s := by
  intro f args hf hargs births w hw
  obtain ⟨depth, hdepth⟩ := Callable.apply_of_meaning s f args w
  show Outcome.Leads s births w _ (Callable.meaning s f args w)
  rw [← hdepth]
  exact keeping_apply s depth f args hf hargs births w hw

theorem sound_meaning (s : Settings) : (Evaluation.meaning s).Sound s where
  keeps e _ he henv :=
    Discipline.eval (keeping_meaning s) (Callable.runsAlike_const _ s) e he henv
  meant _ _ _ := .inr rfl

/-! ### Reachable worlds -/

theorem Outcome.Leads.after_world {α : Type} {P : α → World → Prop} {o : Outcome α}
    (ho : o.Leads s births w P) (h : o.world? = some u) : After s births w u := by
  cases o with
  | value a w' =>
    cases h
    exact ho.1
  | failed f w' =>
    cases h
    exact ho
  | exhausted => cases h

theorem Keeps.world {α : Type} {P : α → Prop} {x : Action α} (hx : Keeps s P x) (hw : Kept s w)
    (h : (x w).world? = some u) : Kept s u ∧ w.Grows u := by
  obtain ⟨births, hw⟩ := hw.exists_births
  have hafter := (hx births w hw).after_world h
  exact ⟨hafter.kept, hafter.1.grows⟩

/-- A world that calls lead to. -/
inductive World.Reachable (s : Settings) : World → Prop
  | initial (input : String) : Reachable s (.initial input)
  | call {w w' : World} (f : Callable) (args : List Value) (before : Reachable s w)
      (after : (Callable.meaning s f args w).world? = some w') : Reachable s w'

/-- Reachable worlds are kept. -/
theorem World.Reachable.kept (hw : w.Reachable s) : Kept s w := by
  induction hw with
  | initial input => exact kept_initial s input
  | call f args _ after ih =>
    have hcall := keeping_meaning s f args f.obeys_free fun a _ => a.obeys_free
    exact (Keeps.world hcall ih after).1

end EffectHandlers
