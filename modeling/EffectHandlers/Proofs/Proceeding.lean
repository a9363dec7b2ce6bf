/-
EffectHandlers/Proofs/Proceeding.lean

Whatever is called, it leads from one moment to a later one.

A computation that has come to its end has ended the slices that it began,
and it has sent nothing to a coroutine that was away (`Moment.Passes`).  The
books are in order again, although they are not while a slice is executed:
new calls and resumptions are walked through as a whole, with the coroutine
in hand as the one that need not be respected.

Main result: calls proceed from moment to moment, at every depth
(`proceeding_meaning`).
-/
import EffectHandlers.Proofs.Keeping
import EffectHandlers.Proofs.Moment

namespace EffectHandlers

variable {α β : Type} {s : Settings} {id gen h : Nat} {i : Invocation} {answers : List Value}
  {a : Value}

/-! ### From moment to moment -/

/-- A later moment with the same slices under execution, in which coroutines that were away are
respected, up to one of them. -/
structure Moment.Passes (own : Option (Nat × Nat)) (w u : Moment s) : Prop where
  later : w.Later u
  running : u.running = w.running
  respects : w.world.Respects own u

/-- A moment that a computation may lead to. -/
abbrev Moment.Leads (w u : Moment s) : Prop := Passes none w u

namespace Moment.Passes

variable {w u v : Moment s} {own : Option (Nat × Nat)}

theorem refl (w : Moment s) : w.Passes own w where
  later := .refl w
  running := rfl
  respects := .of_still ⟨.refl _, fun _ i _ hi hj => by
    cases hi.symm.trans hj
    exact .refl i⟩ fun _ _ _ _ hi hj _ haway => by
      cases hi.symm.trans hj
      exact haway

theorem trans (h : w.Passes own u) (h' : u.Passes own v) : w.Passes own v where
  later := h.later.trans h'.later
  running := h'.running.trans h.running
  respects := h.respects.trans h.later.grows h'.respects

theorem weaken (h : w.Passes none u) : w.Passes own u := ⟨h.later, h.running, h.respects.weaken⟩

theorem strengthen (h : w.Passes (some (id, gen)) u)
    (hnew : ∀ i c, w.world.invocations[id]? = some i → i.coroutines[gen]? = some c →
      ¬ i.Away gen) : w.Leads u :=
  ⟨h.later, h.running, h.respects.strengthen hnew⟩

end Moment.Passes

/-- An outcome at a moment that is passed to, with `P` if it is a value. -/
def Outcome.Comes (own : Option (Nat × Nat)) (w : Moment s) (P : α → Moment s → Prop) :
    Outcome α → Prop
  | .value a w' => ∃ v : Moment s, v.world = w' ∧ w.Passes own v ∧ P a v
  | .failed _ w' => ∃ v : Moment s, v.world = w' ∧ w.Passes own v
  | .exhausted => True

namespace Outcome.Comes

variable {own : Option (Nat × Nat)} {w u : Moment s} {P Q : α → Moment s → Prop}

theorem mono {o : Outcome α} (ho : o.Comes own w P) (hPQ : ∀ a v, P a v → Q a v) :
    o.Comes own w Q := by
  cases o with
  | value a w' =>
    obtain ⟨v, hv, hwv, ha⟩ := ho
    exact ⟨v, hv, hwv, hPQ a v ha⟩
  | failed f w' => exact ho
  | exhausted => trivial

/-- What is known from a later moment on. -/
theorem trans {o : Outcome α} (hwu : w.Passes own u) (ho : o.Comes own u P) :
    o.Comes own w P := by
  cases o with
  | value a w' =>
    obtain ⟨v, hv, huv, ha⟩ := ho
    exact ⟨v, hv, hwu.trans huv, ha⟩
  | failed f w' =>
    obtain ⟨v, hv, huv⟩ := ho
    exact ⟨v, hv, hwu.trans huv⟩
  | exhausted => trivial

theorem bind {x : Action α} {f : α → Action β} {Q : β → Moment s → Prop} {z : World}
    (hx : (x z).Comes own w P)
    (hf : ∀ a v, w.Passes own v → P a v → (f a v).Comes own v Q) :
    ((x >>= f) z).Comes own w Q := by
  rw [Action.bind_apply]
  cases hxz : x z with
  | value a w' =>
    rw [hxz] at hx
    obtain ⟨v, rfl, hwv, ha⟩ := hx
    exact (hf a v hwv ha).trans hwv
  | failed f w' =>
    rw [hxz] at hx
    exact hx
  | exhausted => trivial

theorem strengthen (id gen : Nat) {o : Outcome α} (ho : o.Comes (some (id, gen)) w P)
    (hnew : ∀ i c, w.world.invocations[id]? = some i → i.coroutines[gen]? = some c →
      ¬ i.Away gen) : o.Comes none w P := by
  cases o with
  | value a w' =>
    obtain ⟨v, hv, hwv, ha⟩ := ho
    exact ⟨v, hv, hwv.strengthen hnew, ha⟩
  | failed f w' =>
    obtain ⟨v, hv, hwv⟩ := ho
    exact ⟨v, hv, hwv.strengthen hnew⟩
  | exhausted => trivial

end Outcome.Comes

/-- An action that leads from moments to moments, with `P` of what it gives. -/
def Proceeds (s : Settings) (P : α → Prop) (x : Action α) : Prop :=
  ∀ w : Moment s, (x w).Comes none w fun a _ => P a

/-- The moment after the records were written and no coroutine was moved. -/
def Moment.turn (w : Moment s) {u : World} (still : w.world.Still u) (orderly : u.Orderly) :
    Moment s where
  world := u
  running := w.running
  orderly := orderly
  underway f hf := still.underway (w.underway f hf)
  distinct := w.distinct

theorem Moment.turn_later (w : Moment s) {u : World} (still : w.world.Still u)
    (orderly : u.Orderly) : w.Later (w.turn still orderly) :=
  Step.later (.still rfl still)

namespace Proceeds

theorem ret {P : α → Prop} {a : α} (ha : P a) : Proceeds s P (pure a) :=
  fun w => ⟨w, rfl, .refl w, ha⟩

theorem fail (P : α → Prop) (f : Failure) : Proceeds s P (Action.fail f) :=
  fun w => ⟨w, rfl, .refl w⟩

theorem exhaust (P : α → Prop) : Proceeds s P Action.exhaust := fun _ => trivial

theorem bind {P : α → Prop} {Q : β → Prop} {x : Action α} {f : α → Action β}
    (hx : Proceeds s P x) (hf : ∀ a, P a → Proceeds s Q (f a)) : Proceeds s Q (x >>= f) :=
  fun w => (hx w).bind fun a v _ ha => hf a ha v

/-- An exchange that leaves the records of calls alone. -/
theorem exchange {P : α → Prop} {f : World → α × World} (hP : ∀ w, P (f w).1)
    (hrecords : ∀ w, (f w).2.invocations = w.invocations)
    (hgrows : ∀ w : World, w.Grows (f w).2) :
    Proceeds s P (Action.exchange f) := by
  intro w
  have hstill := (hgrows w).still_of_eq (hrecords w)
  have hlater := w.turn_later hstill (w.orderly.of_eq (hrecords w))
  refine ⟨_, rfl, ⟨hlater, rfl, .of_still hstill ?_⟩, hP w⟩
  intro id i j gen hi hj _ haway
  have hj' : (f w).2.invocations[id]? = some j := hj
  rw [hrecords, hi] at hj'
  cases hj'
  exact haway

/-- Whatever an action comes to, a moment is led to. -/
theorem of_world {P : α → Prop} {x : Action α} (hx : Proceeds s P x) (w : Moment s) {w' : World}
    (h : (x w).world? = some w') : ∃ v : Moment s, v.world = w' ∧ w.Leads v := by
  have hcomes := hx w
  generalize x w = o at hcomes h
  cases o with
  | value a z =>
    obtain ⟨v, rfl, hv, -⟩ := hcomes
    exact ⟨v, Option.some.inj h, hv⟩
  | failed f z =>
    obtain ⟨v, rfl, hv⟩ := hcomes
    exact ⟨v, Option.some.inj h, hv⟩
  | exhausted => cases h

end Proceeds

/-- Proceeding from moment to moment is a discipline. -/
def proceeding (s : Settings) : Discipline Unit .free where
  holds P x := Proceeds s P (x ())
  ret := Proceeds.ret
  fail := Proceeds.fail
  exhaust := Proceeds.exhaust
  bind := Proceeds.bind
  fresh := Proceeds.exchange (fun _ => trivial) (fun _ => rfl) fun w =>
    { World.Grows.refl w with fresh := Nat.le_succ _ }
  emit e := Proceeds.exchange (f := fun w => ((), { w with events := e :: w.events }))
    (fun _ => trivial) (fun _ => rfl) fun w => { World.Grows.refl w with }
  showValue {v} _ := Proceeds.exchange
    (f := fun w => ((), { w with events := .traced v w.cells :: w.events }))
    (fun _ => trivial) (fun _ => rfl) fun w => { World.Grows.refl w with }
  newCell _ := Proceeds.exchange (fun _ => trivial) (fun _ => rfl) fun w =>
    { World.Grows.refl w with cells := by simp }
  readCell a := Proceeds.exchange (f := fun w => ((w.cells[a]?).getD .null, w))
    (fun _ => Value.obeys_free _) (fun _ => rfl) World.Grows.refl
  writeCell a {v} _ := Proceeds.exchange
    (f := fun w => ((), { w with cells := w.cells.setIfInBounds a v }))
    (fun _ => trivial) (fun _ => rfl) fun w => { World.Grows.refl w with cells := by simp }
  newSource _ := Proceeds.exchange (fun _ => trivial) (fun _ => rfl) fun w =>
    { World.Grows.refl w with sources := by simp }
  readLine _ := Proceeds.exchange (fun _ => trivial) (fun _ => rfl) fun w =>
    { World.Grows.refl w with sources := by simp }
  newJournal := Proceeds.exchange (fun _ => trivial) (fun _ => rfl) fun w =>
    { World.Grows.refl w with journals := by simp }
  journalEntries j := Proceeds.exchange (f := fun w => (((w.journals[j]?).getD []).reverse, w))
    (fun _ _ _ => Value.obeys_free _) (fun _ => rfl) World.Grows.refl
  record j name {v} _ := Proceeds.exchange
    (f := fun w => ((), { w with
      journals := w.journals.modify j (.tuple [.text name, v] :: ·) }))
    (fun _ => trivial) (fun _ => rfl) fun w => { World.Grows.refl w with journals := by simp }

/-- Evaluation that is sound and proceeds from moment to moment. -/
structure Evaluation.Proceeds (s : Settings) (eval : Evaluation) : Prop where
  sound : eval.Sound s
  proceeds : (proceeding s).Evaluates fun _ => eval

/-! ### Coroutines that are moved -/

/-- One coroutine of one record is moved, and nothing else. -/
structure World.Moves (id gen : Nat) (c : Coroutine) (w u : World) : Prop where
  grows : w.Grows u
  others (k : Nat) : k ≠ id → u.invocations[k]? = w.invocations[k]?
  moved : ∃ i j, w.invocations[id]? = some i ∧ u.invocations[id]? = some j ∧ j.live = i.live ∧
    j.coroutines[gen]? = some c ∧ ∀ k, k ≠ gen → j.coroutines[k]? = i.coroutines[k]?

/-- A coroutine is away and has received answers. -/
def World.Idle (w : World) (id gen : Nat) (answers : List Value) : Prop :=
  ∃ i c, w.invocations[id]? = some i ∧ i.coroutines[gen]? = some c ∧ i.Away gen ∧
    c.received = answers

namespace World

variable {w u : World} {c : Coroutine}

theorem moves_setPosition (hi : w.invocations[id]? = some i) (hc : i.coroutines[gen]? = some c)
    (p : Position) : w.Moves id gen ⟨p, c.received⟩ (w.setPosition id gen p) where
  grows := w.grows_setPosition id gen p
  others k hk := w.record_changeCall_ne hk _
  moved := by
    refine ⟨i, i.setPosition gen p, hi, record_changeCall hi _, rfl, ?_, fun k hk => ?_⟩
    · simp [Invocation.setPosition, Array.getElem?_modify, hc]
    · simp [Invocation.setPosition, Array.getElem?_modify, Ne.symm hk]

theorem moves_send (hi : w.invocations[id]? = some i) (hc : i.coroutines[gen]? = some c)
    (a : Value) (p : Position) : w.Moves id gen ⟨p, a :: c.received⟩
      ((w.changeCall id (·.withReceived gen a)).setPosition id gen p) where
  grows := (grows_changeCall hi (i.grows_withReceived gen a)).trans (grows_setPosition _ id gen p)
  others k hk := (record_changeCall_ne _ hk _).trans (w.record_changeCall_ne hk _)
  moved := by
    refine ⟨i, (i.withReceived gen a).setPosition gen p, hi,
      record_changeCall (record_changeCall hi _) _, rfl, ?_, fun k hk => ?_⟩
    · simp [Invocation.setPosition, Invocation.withReceived, Array.getElem?_modify, hc]
    · simp [Invocation.setPosition, Invocation.withReceived, Array.getElem?_modify, Ne.symm hk]

namespace Moves

theorem respects (h : w.Moves id gen c u) : w.Respects (some (id, gen)) u := by
  obtain ⟨i, j, hi, hj, hlive, -, hothers⟩ := h.moved
  intro k i' j' g c' hown hi' hj' hc' haway
  by_cases hk : k = id
  · subst hk
    cases hi.symm.trans hi'
    cases hj.symm.trans hj'
    have hg : g ≠ gen := fun heq => hown (by rw [heq])
    exact ⟨fun n hn => haway n (hlive ▸ hn), c', (hothers g hg).trans hc', rfl⟩
  · rw [h.others k hk, hi'] at hj'
    cases hj'
    exact ⟨haway, c', hc', rfl⟩

theorem orderly (h : w.Moves id gen c u) (hw : w.Orderly)
    (hreceived : (∀ i, w.invocations[id]? = some i → i.Away gen) ∨
      ∀ i c', w.invocations[id]? = some i → i.coroutines[gen]? = some c' →
        c.received = c'.received) : u.Orderly := by
  obtain ⟨i, j, hi, hj, hlive, hmoved, hothers⟩ := h.moved
  intro k j' g n hj' hl
  by_cases hk : k = id
  · subst hk
    cases hj.symm.trans hj'
    rw [hlive] at hl
    obtain ⟨c', hc', hn⟩ := hw k i g n hi hl
    have hgrow := h.grows.record hi hj
    by_cases hg : g = gen
    · subst hg
      refine ⟨c, hmoved, ?_⟩
      rcases hreceived with haway | heq
      · exact absurd hl (haway i hi n)
      · rw [heq i c' hi hc']
        exact hgrow.histories n _ hn
    · exact ⟨c', (hothers g hg).trans hc', hgrow.histories n _ hn⟩
  · rw [h.others k hk] at hj'
    exact hw k j' g n hj' hl

theorem underway (h : w.Moves id gen c u) {f : Slice} (hf : f.Under w)
    (hne : f.id = id → f.gen ≠ gen) : f.Under u := by
  obtain ⟨i, j, hi, hj, -, -, hothers⟩ := h.moved
  obtain ⟨i', c', hi', hc', hp⟩ := hf
  by_cases hk : f.id = id
  · rw [hk, hi] at hi'
    cases hi'
    exact ⟨j, c', by rw [hk, hj], (hothers f.gen (hne hk)).trans hc', hp⟩
  · exact ⟨i', c', by rw [h.others f.id hk, hi'], hc', hp⟩

theorem idle (h : w.Moves id gen c u) (haway : ∀ i, w.invocations[id]? = some i → i.Away gen) :
    u.Idle id gen c.received := by
  obtain ⟨i, j, hi, hj, hlive, hmoved, -⟩ := h.moved
  exact ⟨j, c, hj, hmoved, fun n hn => haway i hi n (hlive ▸ hn), rfl⟩

end Moves

theorem Idle.respects (h : w.Idle id gen answers) (hg : w.Grows u) (hr : w.Respects none u) :
    u.Idle id gen answers := by
  obtain ⟨i, c, hi, hc, haway, hreceived⟩ := h
  obtain ⟨j, hj, -⟩ := hg.records id i hi
  obtain ⟨haway', c', hc', heq⟩ := hr id i j gen c (by simp) hi hj hc haway
  exact ⟨j, c', hj, hc', haway', heq.trans hreceived⟩

end World

/-! ### Slices that begin and end -/

/-- A slice of a coroutine that is away has begun, and with it the coroutine has received
answers. -/
structure Moment.Enters (w : Moment s) (f : Slice) (answers : List Value) (v : Moment s) :
    Prop where
  world : v.world = f.start
  running : v.running = f :: w.running
  later : w.Later v
  respects : w.world.Respects (some (f.id, f.gen)) v
  idle : v.world.Idle f.id f.gen answers

namespace Moment

variable {w v z : Moment s} {f : Slice} {c : Coroutine}

theorem exists_enters (hb : f.Begins w.world) (hm : w.world.Moves f.id f.gen c f.start)
    (hc : c.position = .running) (haway : ∀ i, w.world.invocations[f.id]? = some i → i.Away f.gen) :
    ∃ v, w.Enters f c.received v := by
  -- A coroutine at which a slice begins is not under execution yet.
  have hrests : ∀ g ∈ w.running, g.id = f.id → g.gen ≠ f.gen := by
    rintro g hg hid hgen
    obtain ⟨i, c', hi, hc', hp⟩ := w.underway g hg
    cases hb with
    | first hi' hcoroutine | next hi' hcoroutine =>
      rw [hid, hi'] at hi
      cases hi
      rw [hgen, hcoroutine] at hc'
      cases hc'
      cases hp
  have hunder : f.Under f.start := by
    obtain ⟨-, j, -, hj, -, hmoved, -⟩ := hm.moved
    exact ⟨j, c, hj, hmoved, hc⟩
  let v : Moment s :=
    { world := f.start
      running := f :: w.running
      orderly := hm.orderly w.orderly (.inl haway)
      underway := fun g hg => by
        rcases List.mem_cons.mp hg with rfl | hg
        · exact hunder
        · exact hm.underway (w.underway g hg) (hrests g hg)
      distinct := List.pairwise_cons.mpr
        ⟨fun g hg hid hgen => hrests g hg hid.symm hgen.symm, w.distinct⟩ }
  exact ⟨v, rfl, rfl, Step.later (.begin rfl rfl hb), hm.respects, hm.idle haway⟩

/-- The first slice of a coroutine. -/
theorem enters_first {body : List Stmt} {env : Env} (hi : w.world.invocations[id]? = some i)
    (hc : i.coroutines[gen]? = some ⟨.entry body env, answers⟩) (haway : i.Away gen) :
    ∃ v, w.Enters ⟨id, gen, .first body env, w.world.setPosition id gen .running⟩ answers v := by
  refine exists_enters (.first hi hc) (World.moves_setPosition hi hc .running) rfl ?_
  intro j hj
  cases hi.symm.trans hj
  exact haway

/-- The slice that follows an answer. -/
theorem enters_next {target : Option String} {rest : List Frame} {env : Env}
    (hi : w.world.invocations[id]? = some i)
    (hc : i.coroutines[gen]? = some ⟨.parked target rest env, answers⟩) (haway : i.Away gen)
    (a : Value) :
    ∃ v, w.Enters ⟨id, gen, .next target rest env a,
      (w.world.changeCall id (·.withReceived gen a)).setPosition id gen .running⟩
        (a :: answers) v := by
  refine exists_enters (.next hi hc) (World.moves_send hi hc a .running) rfl ?_
  intro j hj
  cases hi.symm.trans hj
  exact haway

/-- The slice ends. -/
theorem Enters.stop (he : w.Enters f answers v) (hz : v.Leads z) {p : Position}
    (hends : f.Ends s z.world p) :
    ∃ z', z'.world = z.world.setPosition f.id f.gen p ∧ z.Later z' ∧
      w.Passes (some (f.id, f.gen)) z' ∧ z'.world.Idle f.id f.gen answers := by
  have hrunning : z.running = f :: w.running := hz.running.trans he.running
  have hidle := he.idle.respects hz.later.grows hz.respects
  obtain ⟨i, c, hi, hc, haway, hreceived⟩ := hidle
  have hm := World.moves_setPosition hi hc p
  have hdistinct := hrunning ▸ z.distinct
  have hothers := (List.pairwise_cons.mp hdistinct).1
  have haways : ∀ j, z.world.invocations[f.id]? = some j → j.Away f.gen := by
    intro j hj
    cases hi.symm.trans hj
    exact haway
  let z' : Moment s :=
    { world := z.world.setPosition f.id f.gen p
      running := w.running
      orderly := hm.orderly z.orderly (.inl haways)
      underway := fun g hg => by
        refine hm.underway (z.underway g (by rw [hrunning]; exact .tail _ hg)) ?_
        exact fun hid hgen => hothers g hg hid.symm hgen.symm
      distinct := w.distinct }
  have hstop : z.Later z' := Step.later (.stop hrunning hends rfl)
  refine ⟨z', rfl, hstop, ⟨(he.later.trans hz.later).trans hstop, rfl, ?_⟩,
    hreceived ▸ hm.idle haways⟩
  refine he.respects.trans he.later.grows (hz.respects.weaken.trans hz.later.grows ?_)
  exact hm.respects

end Moment

namespace Outcome.Comes

variable {w v : Moment s} {f : Slice}

/-- A slice is executed from its beginning to its end. -/
theorem execute {part : Action Exit} {P : Exit → Prop} {z : World} (he : w.Enters f answers v)
    (hstart : z.setPosition f.id f.gen .running = f.start) (hpart : Proceeds s P part)
    (hmeant : part f.start = .exhausted ∨ f.segment.run s f.start = part f.start) :
    (Coroutine.execute f.id f.gen part z).Comes (some (f.id, f.gen)) w fun _ v' =>
      v'.world.Idle f.id f.gen answers := by
  have hrun := hpart v
  rw [he.world] at hrun
  rw [Coroutine.execute_apply, hstart]
  cases hend : part f.start with
  | value exit u =>
    rw [hend] at hrun hmeant
    obtain ⟨y, rfl, hy, -⟩ := hrun
    have hends : f.Ends s y.world exit.position := .value (hmeant.resolve_left (by simp))
    obtain ⟨z', hz', -, hpasses, hidle⟩ := he.stop hy hends
    exact ⟨z', hz', hpasses, hidle⟩
  | failed e u =>
    rw [hend] at hrun hmeant
    obtain ⟨y, rfl, hy⟩ := hrun
    obtain ⟨z', hz', -, hpasses, -⟩ := he.stop hy (.failed (hmeant.resolve_left (by simp)))
    exact ⟨z', hz', hpasses⟩
  | exhausted => trivial

end Outcome.Comes

/-! ### Accesses to the live coroutine -/

namespace Moment

variable {w : Moment s} {c : Coroutine}

/-- The live coroutine is taken away. -/
theorem exists_takeLive (gen : Nat) (hi : w.world.invocations[id]? = some i) :
    ∃ v : Moment s, v.world = w.world.changeCall id (·.withLive none) ∧
      w.Passes (some (id, gen)) v := by
  have hstill := World.still_changeCall hi (f := (·.withLive none)) (i.still_withLive none)
  have horderly : (w.world.changeCall id (·.withLive none)).Orderly :=
    w.orderly.changeCall hi fun _ _ h => nomatch h
  refine ⟨w.turn hstill horderly, rfl, w.turn_later _ _, rfl, .changeCall hi ?_⟩
  exact fun k c' _ hc' _ => ⟨fun _ h => (nomatch h), c', hc', rfl⟩

/-- A new coroutine. -/
theorem exists_spawn (hi : w.world.invocations[id]? = some i) :
    ∃ v : Moment s, v.world = w.world.changeCall id (·.withFresh) ∧ w.Leads v ∧
      i.withFresh.Away i.coroutines.size := by
  have hstill := World.still_changeCall hi i.still_withFresh
  have hkeeps (k : Nat) (c : Coroutine) (hc : i.coroutines[k]? = some c) :
      i.withFresh.coroutines[k]? = some c := i.still_withFresh.stays k c hc
  have horderly : (w.world.changeCall id (·.withFresh)).Orderly :=
    w.orderly.changeStill hi i.grows_withFresh rfl fun k _ c _ hc => ⟨c, hkeeps k c hc, rfl⟩
  refine ⟨w.turn hstill horderly, rfl, ⟨w.turn_later _ _, rfl, .changeCall hi ?_⟩, ?_⟩
  · exact fun k c _ hc haway => ⟨haway, c, hkeeps k c hc, rfl⟩
  · intro h hl
    obtain ⟨c, hc, -⟩ := w.orderly id i _ h hi hl
    simp at hc

/-- A coroutine that has received the answers of a history is made live there. -/
theorem exists_setLive (hidle : w.world.Idle id gen answers)
    (hi : w.world.invocations[id]? = some i) (hh : i.histories[h]? = some answers) :
    ∃ v : Moment s, v.world = w.world.changeCall id (·.withLive (some (gen, h))) ∧
      w.Passes (some (id, gen)) v := by
  obtain ⟨j, c, hj, hc, -, hreceived⟩ := hidle
  cases hi.symm.trans hj
  have hstill := World.still_changeCall hi (f := (·.withLive (some (gen, h))))
    (i.still_withLive (some (gen, h)))
  have horderly : (w.world.changeCall id (·.withLive (some (gen, h)))).Orderly := by
    refine w.orderly.changeCall hi fun gen' h' hl => ?_
    cases hl
    exact ⟨c, hc, hreceived ▸ hh⟩
  refine ⟨w.turn hstill horderly, rfl, w.turn_later _ _, rfl, .changeCall hi ?_⟩
  intro k c' hk hc' _
  refine ⟨fun n hl => ?_, c', hc', rfl⟩
  cases hl
  exact hk rfl

/-- At a yield the history is extended and the coroutine is live again. -/
theorem exists_settle (hidle : w.world.Idle id gen (a :: answers))
    (hi : w.world.invocations[id]? = some i) (hh : i.histories[h]? = some answers) (x : Value) :
    ∃ (v : Moment s) (h' : Nat), Invocation.settle id h gen a (.yielded x) w
        = .value (.yielded x, h') v.world ∧ w.Passes (some (id, gen)) v ∧
      ∃ j, v.world.invocations[id]? = some j ∧ j.live = some (gen, h') ∧
        j.histories[h']? = some (a :: answers) := by
  have hstill := World.still_changeCall hi (f := (·.withHistory (a :: answers)))
    (i.still_withHistory (a :: answers))
  have horderly : (w.world.changeCall id (·.withHistory (a :: answers))).Orderly :=
    w.orderly.changeStill hi (i.grows_withHistory _) rfl fun _ _ c _ hc => ⟨c, hc, rfl⟩
  let u := w.turn hstill horderly
  have hwu : w.Passes (some (id, gen)) u :=
    ⟨w.turn_later _ _, rfl, .changeCall hi fun _ c _ hc haway => ⟨haway, c, hc, rfl⟩⟩
  have hj : u.world.invocations[id]? = some (i.withHistory (a :: answers)) :=
    World.record_changeCall hi _
  have hjh : (i.withHistory (a :: answers)).histories[i.histories.size]?
      = some (a :: answers) := by simp [Invocation.withHistory]
  have hidle' : u.world.Idle id gen (a :: answers) := by
    obtain ⟨j, c, hj, hc, haway, hreceived⟩ := hidle
    cases hi.symm.trans hj
    exact ⟨_, c, World.record_changeCall hi _, hc, haway, hreceived⟩
  obtain ⟨v, hv, huv⟩ := exists_setLive hidle' hj hjh
  refine ⟨v, i.histories.size, ?_, hwu.trans huv,
    (i.withHistory (a :: answers)).withLive (some (gen, i.histories.size)), ?_, rfl, hjh⟩
  · rw [Invocation.settle_yielded hi a x hh, hv]
    rfl
  · rw [hv]
    exact World.record_changeCall hj _

/-- A call of a routine that is made now. -/
def made (w : Moment s) (body : List Stmt) (env : Env) : Moment s :=
  w.turn (w.world.still_push ⟨body, env, #[], #[[]], none⟩) (w.orderly.push rfl)

theorem made_leads (w : Moment s) (body : List Stmt) (env : Env) : w.Leads (w.made body env) := by
  refine ⟨w.turn_later _ _, rfl, .of_still (w.world.still_push _) ?_⟩
  intro id i j gen hi hj _ haway
  have hlt := (Array.getElem?_eq_some_iff.mp hi).1
  have hj' : (w.world.invocations.push ⟨body, env, #[], #[[]], none⟩)[id]? = some j := hj
  rw [Array.getElem?_push, if_neg (Nat.ne_of_lt hlt), hi] at hj'
  cases hj'
  exact haway

end Moment

/-! ### Sending and replaying -/

namespace Outcome.Comes

variable {eval : Evaluation} {w : Moment s} {c : Coroutine}

/-- A coroutine that is sent an answer receives it, unless it has returned before. -/
theorem send_received (heval : eval.Proceeds s) (hidle : w.world.Idle id gen answers) (a : Value) :
    (Coroutine.send eval id gen a w).Comes (some (id, gen)) w fun next v =>
      v.world.Idle id gen (a :: answers) ∨
        v.world.Idle id gen answers ∧ ∃ x, next = .returned x := by
  obtain ⟨i, ⟨position, received⟩, hi, hc, haway, rfl⟩ := hidle
  cases position with
  | parked target rest env =>
    obtain ⟨v, hv⟩ := w.enters_next hi hc haway a
    rw [Coroutine.send_apply hi hc]
    refine (execute hv rfl (P := Exit.Obeys .free) ?_ ?_).mono fun _ _ h => .inl h
    · exact Discipline.execFrames (D := proceeding s) heval.proceeds (fun f _ => f.obeys_free)
        fun b _ => Value.obeys_free b.2
    · exact (Discipline.execFrames heval.sound.compares (fun f (_ : f ∈ rest) => f.obeys_free)
        (fun b _ => Value.obeys_free b.2) _).1
  | entry body env =>
    rw [Coroutine.send, Action.bind_of_value (Coroutine.standing_apply hi hc)]
    exact ⟨w, rfl, .refl w⟩
  | running =>
    rw [Coroutine.send, Action.bind_of_value (Coroutine.standing_apply hi hc)]
    exact ⟨w, rfl, .refl w⟩
  | finished =>
    rw [Coroutine.send, Action.bind_of_value (Coroutine.standing_apply hi hc)]
    exact ⟨w, rfl, .refl w, .inr ⟨⟨i, _, hi, hc, haway, rfl⟩, .null, rfl⟩⟩

/-- A coroutine that is sent an answer and yields has received it. -/
theorem send (heval : eval.Proceeds s) (hidle : w.world.Idle id gen answers) (a : Value) :
    (Coroutine.send eval id gen a w).Comes (some (id, gen)) w fun next v =>
      ∀ x, next = .yielded x → v.world.Idle id gen (a :: answers) := by
  refine (send_received heval hidle a).mono fun _ _ h _ hx => ?_
  rcases h with hidle | ⟨-, _, hreturned⟩
  · exact hidle
  · cases hx.symm.trans hreturned

/-- A coroutine that is started has received nothing more. -/
theorem start (heval : eval.Proceeds s) {body : List Stmt} {env : Env}
    (hi : w.world.invocations[id]? = some i)
    (hc : i.coroutines[gen]? = some ⟨.entry body env, answers⟩) (haway : i.Away gen) :
    (Coroutine.start eval id gen w).Comes (some (id, gen)) w fun _ v =>
      v.world.Idle id gen answers := by
  obtain ⟨v, hv⟩ := w.enters_first hi hc haway
  rw [Coroutine.start_apply hi hc]
  refine execute hv rfl (P := Exit.Obeys .free) ?_ ?_
  · exact Discipline.execBlock (D := proceeding s) heval.proceeds body (stmtsUse_any body)
      fun b _ => Value.obeys_free b.2
  · exact (Discipline.execBlock heval.sound.compares body (stmtsUse_any body)
      (fun b (_ : b ∈ env) => Value.obeys_free b.2) _).1

theorem mustYield {own : Option (Nat × Nat)} {next : Advance} {Q : Moment s → Prop}
    (h : ∀ x, next = .yielded x → Q w) :
    (Invocation.mustYield next w).Comes own w fun _ v => Q v := by
  cases next with
  | yielded x => exact ⟨w, rfl, .refl w, h x rfl⟩
  | returned x => exact ⟨w, rfl, .refl w⟩

/-- A coroutine that was sent recorded answers has received them. -/
theorem replay (heval : eval.Proceeds s) (as : List Value)
    (hidle : w.world.Idle id gen answers) :
    (Invocation.replay eval id gen as w).Comes (some (id, gen)) w fun _ v =>
      v.world.Idle id gen (as.reverse ++ answers) := by
  induction as generalizing answers w with
  | nil => exact ⟨w, rfl, .refl w, hidle⟩
  | cons a as ih =>
    rw [Invocation.replay, List.reverse_cons, List.append_assoc]
    refine (send heval hidle a).bind fun next v _ hnext => ?_
    exact (mustYield hnext).bind fun _ u _ hidle => ih hidle

/-- A fresh coroutine is made, and something is done with it.  It is new, so it need not be
respected. -/
theorem spawn {f : Nat → Action β} {Q : β → Moment s → Prop}
    (hi : w.world.invocations[id]? = some i)
    (hf : ∀ u : Moment s, u.world.invocations[id]? = some i.withFresh →
      i.withFresh.coroutines[i.coroutines.size]? = some ⟨.entry i.body i.env, []⟩ →
      i.withFresh.Away i.coroutines.size →
      (f i.coroutines.size u.world).Comes (some (id, i.coroutines.size)) u Q) :
    ((Invocation.spawn id >>= f) w.world).Comes none w Q := by
  obtain ⟨u, hu, hwu, haway⟩ := w.exists_spawn hi
  have hi₀ : u.world.invocations[id]? = some i.withFresh := by
    rw [hu]
    exact World.record_changeCall hi _
  rw [Action.bind_of_value (Invocation.spawn_apply hi), ← hu]
  refine strengthen id i.coroutines.size (trans hwu.weaken ?_) ?_
  · exact hf u hi₀ (by simp [Invocation.withFresh]) haway
  · intro j c hj hc
    cases hi.symm.trans hj
    simp at hc

/-- After a rebuild the live coroutine stands at the history. -/
theorem rebuild (heval : eval.Proceeds s) (w : Moment s) (id h : Nat) :
    (Invocation.rebuild eval id h w).Comes none w fun _ v =>
      ∃ gen j, v.world.invocations[id]? = some j ∧ j.live = some (gen, h) := by
  rcases Invocation.answersOf_cases id h w with ⟨i, answers, hi, hh⟩ | hfail
  case inr =>
    rw [Invocation.rebuild, Action.bind_apply, hfail]
    exact ⟨w, rfl, .refl w⟩
  rw [Invocation.rebuild, Action.bind_of_value (Invocation.answersOf_apply hi hh)]
  refine spawn hi fun u hi₀ hentry haway => ?_
  refine (start heval hi₀ hentry haway).bind fun next v hv hidle => ?_
  refine (mustYield (Q := fun v => v.world.Idle id i.coroutines.size [])
    fun x hx => hidle).bind fun _ v' hv' hidle' => ?_
  refine (replay heval answers.reverse hidle').bind fun _ z hz hidle'' => ?_
  obtain ⟨j, hj, hij⟩ := ((hv.trans hv').trans hz).later.grows.records id _ hi₀
  have hjh := hij.histories h answers (i.grows_withFresh.histories h answers hh)
  rw [List.reverse_reverse, List.append_nil] at hidle''
  obtain ⟨z', hz', hpasses⟩ := Moment.exists_setLive hidle'' hj hjh
  exact ⟨z', hz', hpasses, _, _, by rw [hz']; exact World.record_changeCall hj _, rfl⟩

/-- What a coroutine comes to is kept in the books. -/
theorem settle {next : Advance} {a : Value}
    (hidle : ∀ x, next = .yielded x → w.world.Idle id gen (a :: answers))
    (hi : w.world.invocations[id]? = some i) (hh : i.histories[h]? = some answers) :
    (Invocation.settle id h gen a next w).Comes (some (id, gen)) w fun p v =>
      LiveAt id p.1 p.2 (a :: answers) v := by
  cases next with
  | returned x => exact ⟨w, rfl, .refl w, fun _ hx => by cases hx⟩
  | yielded x =>
    obtain ⟨v, h', hsettle, hwv, j, hj, hl, hjh⟩ := Moment.exists_settle (hidle x rfl) hi hh x
    rw [hsettle]
    exact ⟨v, rfl, hwv, fun _ _ => ⟨gen, j, hj, hl, hjh⟩⟩

/-- An answer is fed to the live coroutine; if it yields, it is live again and stands at the
extended history. -/
theorem feed (heval : eval.Proceeds s) (hi : w.world.invocations[id]? = some i)
    (hl : i.live = some (gen, h)) (hh : i.histories[h]? = some answers) (a : Value) :
    (Invocation.feed eval id h a w).Comes none w fun p v =>
      LiveAt id p.1 p.2 (a :: answers) v := by
  obtain ⟨c, hc, hh'⟩ := w.orderly id i gen h hi hl
  cases hh.symm.trans hh'
  obtain ⟨u, hu, hwu⟩ := w.exists_takeLive gen hi
  have hi₀ : u.world.invocations[id]? = some (i.withLive none) := by
    rw [hu]
    exact World.record_changeCall hi _
  have hidle : u.world.Idle id gen c.received :=
    ⟨i.withLive none, c, hi₀, hc, fun _ h => (nomatch h), rfl⟩
  rw [Invocation.feed, Action.bind_of_value (Invocation.takeLive_apply hi hl), ← hu]
  refine strengthen id gen (trans hwu ?_) ?_
  · refine (send heval hidle a).bind fun next v hv hnext => ?_
    obtain ⟨j, hj, hij⟩ := hv.later.grows.records id _ hi₀
    exact settle hnext hj (hij.histories h _ hh)
  · intro j c' hj _ haway
    cases hi.symm.trans hj
    exact haway h hl

/-! ### Yielding and going on -/

/-- Finished chains that are yielded are answered, one after the other. -/
theorem suspend (heval : eval.Proceeds s) (call : Call) {fuel : Nat} {next : Advance}
    (hlive : LiveAt id next h answers w) :
    (Invocation.suspend eval call id fuel next h w).Comes none w fun c _ => c.Obeys .free := by
  induction fuel using Nat.strongRecOn generalizing next h answers w with
  | ind fuel ih =>
    cases next with
    | returned v =>
      rw [Invocation.suspend_returned]
      exact ⟨w, rfl, .refl w, Chain.obeys_free _⟩
    | yielded v =>
      rw [Invocation.suspend_yielded]
      rcases Invocation.yieldedChain_cases v with ⟨c, hc⟩ | hfail
      case inr =>
        rw [hfail]
        exact ⟨w, rfl, .refl w⟩
      rw [hc, pure_bind]
      rcases c with ⟨answer, r⟩ | ⟨e, r⟩
      · cases fuel with
        | zero => trivial
        | succ fuel =>
          obtain ⟨gen, i, hi, hl, hh⟩ := hlive v rfl
          refine (feed heval hi hl hh answer).bind fun p v _ hlive => ?_
          exact ih fuel (Nat.lt_succ_self fuel) hlive
      · exact ⟨w, rfl, .refl w, Chain.obeys_free _⟩

/-- An answer to the live coroutine, and what comes after it. -/
theorem goOn (heval : eval.Proceeds s) (call : Call) (maxSteps : Nat) (a : Value)
    (hi : w.world.invocations[id]? = some i) (hl : i.live = some (gen, h)) :
    ((Invocation.feed eval id h a >>= fun p =>
      Invocation.suspend eval call id maxSteps p.1 p.2) w).Comes none w
        fun c _ => c.Obeys .free := by
  obtain ⟨c, hc, hh⟩ := w.orderly id i gen h hi hl
  exact (feed heval hi hl hh a).bind fun p v _ hlive => suspend heval call hlive

/-- A new call of a routine. -/
theorem enter (heval : eval.Proceeds s) (w : Moment s) (body : List Stmt) (env : Env) :
    (Invocation.enter eval body env w).Comes none (w.made body env) fun p v =>
      p.1 = w.world.invocations.size ∧ LiveAt p.1 p.2 Invocation.emptyHistory [] v := by
  have hi : (w.made body env).world.invocations[w.world.invocations.size]?
      = some ⟨body, env, #[], #[[]], none⟩ := w.world.record_withCall body env
  refine spawn (w := w.made body env) hi fun u hi₀ hentry haway => ?_
  refine (start heval hi₀ hentry haway).bind fun next v hv hidle => ?_
  cases next with
  | returned x => exact ⟨v, rfl, .refl v, rfl, fun _ hx => by cases hx⟩
  | yielded x =>
    obtain ⟨j, hj, hij⟩ := hv.later.grows.records _ _ hi₀
    have hjh : j.histories[Invocation.emptyHistory]? = some [] := hij.histories _ _ rfl
    obtain ⟨z, hz, hvz⟩ := Moment.exists_setLive hidle hj hjh
    refine ⟨z, hz, hvz, rfl, fun _ _ =>
      ⟨0, j.withLive (some (0, Invocation.emptyHistory)), ?_, rfl, hjh⟩⟩
    rw [hz]
    exact World.record_changeCall hj _

theorem begin (heval : eval.Proceeds s) (call : Call) (maxSteps : Nat) (w : Moment s)
    (body : List Stmt) (env : Env) :
    (Invocation.begin eval call maxSteps body env w).Comes none (w.made body env)
      fun c _ => c.Obeys .free :=
  (enter heval w body env).bind fun _ _ _ hlive => suspend heval call hlive.2

end Outcome.Comes

/-! ### Calls -/

namespace Proceeds

variable {eval : Evaluation}

theorem resume (heval : eval.Proceeds s) (call : Call) (maxSteps id h : Nat) (a : Value) :
    Proceeds s (Chain.Obeys .free) (Invocation.resume eval call maxSteps id h a) := by
  intro w
  rcases Invocation.resume_cases eval call maxSteps id h a w with
    ⟨i, gen, hi, hl, hresume⟩ | hresume
  · rw [hresume]
    exact Outcome.Comes.goOn heval call maxSteps a hi hl
  · rw [hresume]
    refine (Outcome.Comes.rebuild heval w id h).bind fun _ v _ hlive => ?_
    obtain ⟨gen, i, hi, hl⟩ := hlive
    exact Outcome.Comes.goOn heval call maxSteps a hi hl

theorem begin (heval : eval.Proceeds s) (call : Call) (maxSteps : Nat) (body : List Stmt)
    (env : Env) :
    Proceeds s (Chain.Obeys .free) (Invocation.begin eval call maxSteps body env) :=
  fun w => (Outcome.Comes.begin heval call maxSteps w body env).trans (w.made_leads body env)

end Proceeds

theorem proceeding_apply (s : Settings) (depth : Nat) :
    (proceeding s).Calls fun _ => Callable.apply s depth := by
  induction depth with
  | zero => exact fun _ _ _ _ => Proceeds.exhaust _
  | succ depth ih =>
    have heval : Evaluation.Proceeds s fun env e => e.eval s (Callable.apply s depth) env :=
      ⟨sound_apply (keeping_apply s depth), fun e _ he henv =>
        Discipline.eval ih (Callable.runsAlike_const _ s) e he henv⟩
    exact Discipline.applyWith (Callable.runsAlike_const _ s) ih
      (fun body env _ _ => Proceeds.begin heval _ _ body env)
      fun id h a _ _ => Proceeds.resume heval _ _ id h a

/-- **Calls proceed from moment to moment.** -/
theorem proceeding_meaning (s : Settings) :
    (proceeding s).Calls fun _ => Callable.meaning s := by
  intro f args hf hargs w
  obtain ⟨depth, hdepth⟩ := Callable.apply_of_meaning s f args w
  show (Callable.meaning s f args w.world).Comes none w _
  rw [← hdepth]
  exact proceeding_apply s depth f args hf hargs w

end EffectHandlers
