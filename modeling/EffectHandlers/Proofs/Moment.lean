/-
EffectHandlers/Proofs/Moment.lean

Moments of an execution.

A world does not say how it came about.  While a slice of a routine is
executed, the record of its call is incomplete, and anything may happen
before it is complete again: the same call may be resumed, and other calls
may be made.  A moment is a world together with the slices under execution
in it, the innermost one first (`Moment`).

One moment comes before another one if steps lead from it there: the records
of calls are written, a slice begins, or the innermost slice ends and the
coroutine is put where it ended (`Moment.Step`, `Moment.Later`).

In every moment the books are in order: a live coroutine has received the
answers of the history that it stands at (`World.Orderly`).  Nobody sends
anything to a coroutine that is away but the one who executes it
(`World.Respects`).
-/
import EffectHandlers.Proofs.Growth
import EffectHandlers.Proofs.Meaning
import Mathlib.Logic.Relation

namespace EffectHandlers

/-! ### Slices -/

/-- What is executed of a routine: its first part, or what follows the answer to a yield. -/
inductive Segment
  | first (body : List Stmt) (env : Env)
  | next (target : Option String) (rest : List Frame) (env : Env) (answer : Value)

noncomputable def Segment.run (s : Settings) : Segment → Action Exit
  | .first body env => execBlock (Evaluation.meaning s) body env
  | .next target rest env answer =>
    execFrames (Evaluation.meaning s) rest (Coroutine.bindAnswer env target answer)

/-- A slice under execution: a coroutine of a call, a segment of the routine, and the world in
which the execution began. -/
structure Slice where
  id : Nat
  gen : Nat
  segment : Segment
  start : World

/-- A slice begins in a world in which its coroutine stands where the segment does. -/
inductive Slice.Begins (w : World) : Slice → Prop
  | first {id gen : Nat} {i : Invocation} {body : List Stmt} {env : Env} {received : List Value}
      (record : w.invocations[id]? = some i)
      (coroutine : i.coroutines[gen]? = some ⟨.entry body env, received⟩) :
      Begins w ⟨id, gen, .first body env, w.setPosition id gen .running⟩
  | next {id gen : Nat} {i : Invocation} {target : Option String} {rest : List Frame} {env : Env}
      {answer : Value} {received : List Value} (record : w.invocations[id]? = some i)
      (coroutine : i.coroutines[gen]? = some ⟨.parked target rest env, received⟩) :
      Begins w ⟨id, gen, .next target rest env answer,
        (w.changeCall id (·.withReceived gen answer)).setPosition id gen .running⟩

/-- A slice ends in a world, with its coroutine to be put at a position. -/
inductive Slice.Ends (s : Settings) (f : Slice) (z : World) : Position → Prop
  | value {exit : Exit} (h : f.segment.run s f.start = .value exit z) : Ends s f z exit.position
  | failed {e : Failure} (h : f.segment.run s f.start = .failed e z) : Ends s f z .finished

/-- The coroutine of a slice is being executed. -/
def Slice.Under (f : Slice) (w : World) : Prop :=
  ∃ i c, w.invocations[f.id]? = some i ∧ i.coroutines[f.gen]? = some c ∧ c.position = .running

/-! ### Moments -/

/-- Every live coroutine has received the answers of the history that it stands at. -/
def World.Orderly (w : World) : Prop :=
  ∀ (id : Nat) (i : Invocation) (gen h : Nat), w.invocations[id]? = some i →
    i.live = some (gen, h) →
    ∃ c, i.coroutines[gen]? = some c ∧ i.histories[h]? = some c.received

/-- A world and the slices under execution, the innermost one first. -/
@[ext] structure Moment (s : Settings) where
  world : World
  running : List Slice
  orderly : world.Orderly
  underway : ∀ f ∈ running, f.Under world
  distinct : running.Pairwise fun f g => f.id = g.id → f.gen ≠ g.gen

/-- What stays of a record if no coroutine is moved: its coroutines are where they were, and new
ones are not started. -/
structure Invocation.Still (i j : Invocation) : Prop where
  grows : i.Grows j
  stays (gen : Nat) (c : Coroutine) : i.coroutines[gen]? = some c → j.coroutines[gen]? = some c
  fresh (gen : Nat) (c : Coroutine) : j.coroutines[gen]? = some c →
    i.coroutines[gen]? = some c ∨ c = ⟨.entry i.body i.env, []⟩

/-- One world grows to another one and no coroutine is moved. -/
structure World.Still (w u : World) : Prop where
  grows : w.Grows u
  records (id : Nat) (i j : Invocation) : w.invocations[id]? = some i →
    u.invocations[id]? = some j → i.Still j

namespace Moment

variable {s : Settings}

instance : CoeOut (Moment s) World := ⟨world⟩

/-- From one moment to the next one. -/
inductive Step : Moment s → Moment s → Prop
  | still {w u : Moment s} (running : u.running = w.running) (still : w.world.Still u.world) :
      Step w u
  | begin {w u : Moment s} {f : Slice} (running : u.running = f :: w.running)
      (world : u.world = f.start) (begins : f.Begins w.world) : Step w u
  | stop {w u : Moment s} {f : Slice} {p : Position} (running : w.running = f :: u.running)
      (ends : f.Ends s w.world p) (world : u.world = w.world.setPosition f.id f.gen p) : Step w u

/-- One moment comes before another one. -/
def Later (w u : Moment s) : Prop := Relation.ReflTransGen Step w u

variable {w u v : Moment s}

theorem Later.refl (w : Moment s) : w.Later w := Relation.ReflTransGen.refl

theorem Later.trans (h : w.Later u) (h' : u.Later v) : w.Later v :=
  Relation.ReflTransGen.trans h h'

theorem Step.later (h : Step w u) : w.Later u := Relation.ReflTransGen.single h

theorem Step.grows (h : Step w u) : w.world.Grows u := by
  cases h with
  | still _ still => exact still.grows
  | begin _ world begins =>
    rw [world]
    cases begins with
    | first record coroutine => exact w.world.grows_setPosition _ _ _
    | @next id gen i _ _ _ answer _ record coroutine =>
      exact (World.grows_changeCall record (i.grows_withReceived gen answer)).trans
        (World.grows_setPosition _ _ _ _)
  | stop _ _ world =>
    rw [world]
    exact w.world.grows_setPosition _ _ _

theorem Later.grows (h : w.Later u) : w.world.Grows u := by
  induction h with
  | refl => exact .refl _
  | tail _ hstep ih => exact ih.trans hstep.grows

end Moment

/-! ### Records in which no coroutine is moved -/

namespace Invocation

theorem Still.refl (i : Invocation) : i.Still i := ⟨.refl i, fun _ _ h => h, fun _ _ => .inl⟩

theorem still_withLive (i : Invocation) (l : Option (Nat × Nat)) : i.Still (i.withLive l) :=
  ⟨i.grows_withLive l, fun _ _ h => h, fun _ _ => .inl⟩

theorem still_withHistory (i : Invocation) (answers : List Value) :
    i.Still (i.withHistory answers) :=
  ⟨i.grows_withHistory answers, fun _ _ h => h, fun _ _ => .inl⟩

theorem still_withFresh (i : Invocation) : i.Still i.withFresh := by
  refine ⟨i.grows_withFresh, fun gen c hc => ?_, fun gen c hc => ?_⟩
  · have hlt := (Array.getElem?_eq_some_iff.mp hc).1
    rw [withFresh, Array.getElem?_push, if_neg (Nat.ne_of_lt hlt), hc]
  · rw [withFresh, Array.getElem?_push] at hc
    split at hc
    · exact .inr (Option.some.inj hc).symm
    · exact .inl hc

end Invocation

namespace World

variable {w u : World} {id : Nat} {i : Invocation}

theorem still_changeCall (hi : w.invocations[id]? = some i) {f : Invocation → Invocation}
    (hf : i.Still (f i)) : w.Still (w.changeCall id f) := by
  refine ⟨grows_changeCall hi hf.grows, fun k j j' hj hj' => ?_⟩
  rcases record_changeCall_cases hi hj' with ⟨rfl, rfl⟩ | ⟨-, hj'⟩
  · cases hi.symm.trans hj
    exact hf
  · cases hj.symm.trans hj'
    exact .refl j

theorem Grows.still_of_eq (hg : w.Grows u) (h : u.invocations = w.invocations) : w.Still u := by
  refine ⟨hg, fun id i j hi hj => ?_⟩
  rw [h, hi] at hj
  cases hj
  exact .refl i

theorem still_push (w : World) (i : Invocation) :
    w.Still { w with invocations := w.invocations.push i } := by
  refine ⟨(w.follows_push i).grows, fun k j j' hj hj' => ?_⟩
  have hlt : k < w.invocations.size := (Array.getElem?_eq_some_iff.mp hj).1
  have hj'' : (w.invocations.push i)[k]? = some j' := hj'
  rw [Array.getElem?_push, if_neg (Nat.ne_of_lt hlt), hj] at hj''
  cases hj''
  exact .refl j

theorem Still.underway (h : w.Still u) {f : Slice} (hf : f.Under w) : f.Under u := by
  obtain ⟨i, c, hi, hc, hp⟩ := hf
  obtain ⟨j, hj, -⟩ := h.grows.records f.id i hi
  exact ⟨j, c, hj, (h.records f.id i j hi hj).stays f.gen c hc, hp⟩

/-! ### Worlds in order -/

theorem orderly_initial (input : String) : (World.initial input).Orderly :=
  fun _ _ _ _ hi => by simp [initial] at hi

theorem Orderly.of_eq (hw : w.Orderly) (h : u.invocations = w.invocations) : u.Orderly :=
  fun id i gen k hi => hw id i gen k (by rwa [h] at hi)

/-- A change of one record. -/
theorem Orderly.changeCall (hw : w.Orderly) (hi : w.invocations[id]? = some i)
    {f : Invocation → Invocation} (hf : ∀ gen h, (f i).live = some (gen, h) →
      ∃ c, (f i).coroutines[gen]? = some c ∧ (f i).histories[h]? = some c.received) :
    (w.changeCall id f).Orderly := by
  intro k j gen h hj
  rcases record_changeCall_cases hi hj with ⟨-, rfl⟩ | ⟨-, hj⟩
  · exact hf gen h
  · exact hw k j gen h hj

/-- A change of one record that makes nothing live and keeps what the live coroutine received. -/
theorem Orderly.changeStill (hw : w.Orderly) (hi : w.invocations[id]? = some i)
    {f : Invocation → Invocation} (hf : i.Grows (f i)) (hlive : (f i).live = i.live)
    (hreceived : ∀ gen h c, i.live = some (gen, h) → i.coroutines[gen]? = some c →
      ∃ c', (f i).coroutines[gen]? = some c' ∧ c'.received = c.received) :
    (w.changeCall id f).Orderly := by
  refine hw.changeCall hi fun gen h hl => ?_
  rw [hlive] at hl
  obtain ⟨c, hc, hh⟩ := hw id i gen h hi hl
  obtain ⟨c', hc', heq⟩ := hreceived gen h c hl hc
  exact ⟨c', hc', heq ▸ hf.histories h _ hh⟩

theorem Orderly.push (hw : w.Orderly) {i : Invocation} (hi : i.live = none) :
    World.Orderly { w with invocations := w.invocations.push i } := by
  intro k j gen h hj hl
  have hj' : (w.invocations.push i)[k]? = some j := hj
  rw [Array.getElem?_push] at hj'
  split at hj'
  · cases hj'
    rw [hi] at hl
    cases hl
  · exact hw k j gen h hj' hl

end World

/-! ### What is away -/

/-- Coroutines that are away stay away and receive nothing, up to one of them. -/
def World.Respects (own : Option (Nat × Nat)) (w u : World) : Prop :=
  ∀ (id : Nat) (i j : Invocation) (gen : Nat) (c : Coroutine), own ≠ some (id, gen) →
    w.invocations[id]? = some i → u.invocations[id]? = some j → i.coroutines[gen]? = some c →
    i.Away gen → j.Away gen ∧ ∃ c', j.coroutines[gen]? = some c' ∧ c'.received = c.received

namespace World.Respects

variable {w u v : World} {own : Option (Nat × Nat)}

theorem trans (hwu : w.Grows u) (h : w.Respects own u) (h' : u.Respects own v) :
    w.Respects own v := by
  intro id i k gen c hown hi hk hc haway
  obtain ⟨j, hj, -⟩ := hwu.records id i hi
  obtain ⟨haway', c', hc', heq⟩ := h id i j gen c hown hi hj hc haway
  obtain ⟨haway'', c'', hc'', heq'⟩ := h' id j k gen c' hown hj hk hc' haway'
  exact ⟨haway'', c'', hc'', heq'.trans heq⟩

theorem weaken (h : w.Respects none u) : w.Respects own u :=
  fun id i j gen c _ => h id i j gen c (by simp)

/-- A coroutine that was not away, or not there, need not be respected. -/
theorem strengthen {id gen : Nat} (h : w.Respects (some (id, gen)) u)
    (hnew : ∀ i c, w.invocations[id]? = some i → i.coroutines[gen]? = some c → ¬ i.Away gen) :
    w.Respects none u := by
  intro k i j g c _ hi hj hc haway
  refine h k i j g c (fun heq => ?_) hi hj hc haway
  cases heq
  exact hnew i c hi hc haway

theorem of_still (hstill : w.Still u) (hlive : ∀ id i j gen, w.invocations[id]? = some i →
    u.invocations[id]? = some j → own ≠ some (id, gen) → i.Away gen → j.Away gen) :
    w.Respects own u := by
  intro id i j gen c hown hi hj hc haway
  exact ⟨hlive id i j gen hi hj hown haway, c, (hstill.records id i j hi hj).stays gen c hc, rfl⟩

/-- A change of one record. -/
theorem changeCall {id : Nat} {i : Invocation} (hi : w.invocations[id]? = some i)
    {f : Invocation → Invocation} (hf : ∀ gen c, own ≠ some (id, gen) →
      i.coroutines[gen]? = some c → i.Away gen →
      (f i).Away gen ∧ ∃ c', (f i).coroutines[gen]? = some c' ∧ c'.received = c.received) :
    w.Respects own (w.changeCall id f) := by
  intro k j j' gen c hown hj hj' hc haway
  rcases World.record_changeCall_cases hi hj' with ⟨rfl, rfl⟩ | ⟨-, hj'⟩
  · cases hi.symm.trans hj
    exact hf gen c hown hc haway
  · cases hj.symm.trans hj'
    exact ⟨haway, c, hc, rfl⟩

end World.Respects

end EffectHandlers
