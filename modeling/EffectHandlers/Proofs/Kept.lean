/-
EffectHandlers/Proofs/Kept.lean

The live coroutine stands where its history leads.

A call of a program keeps one live coroutine, and the history that it stands
at.  A world is kept if this is true of every call: the live coroutine is
parked where the routine comes to when it is sent the answers of the history
(`Kept`).  The slices of that run may have been executed in different worlds
of the past, with anything between them; but all these worlds were kept, and
none is earlier than the call.

A computation may interrupt itself at will: while one coroutine executes,
the same call may be resumed again.  Then the live coroutine is away, and
another one is made live.  What carries the proofs is that nobody makes a
coroutine live that another computation executes (`World.Follows`).

`Births` says for every call from which world it was made.  It is a ghost:
the births of the calls that were made stay (`After`), so that two things
that are known of one call are known of it from the same world on.
-/
import EffectHandlers.Proofs.Growth
import EffectHandlers.Proofs.Meaning

namespace EffectHandlers

/-! ### Kept worlds -/

mutual

/-- The live coroutine of every call stands where its history leads. -/
inductive Kept (s : Settings) : World → Prop
  | mk {w : World}
      (calls : ∀ (id : Nat) (i : Invocation), w.invocations[id]? = some i → Born s w id i) :
      Kept s w

/-- A call was made in an earlier world, and its live coroutine stands where its history leads. -/
inductive Born (s : Settings) : World → Nat → Invocation → Prop
  | mk {w : World} {id : Nat} {i : Invocation} (b : World) (size : b.invocations.size = id)
      (grows : b.Grows w) (live : ∀ gen h, i.live = some (gen, h) → Parked s b i gen h) :
      Born s w id i

/-- A coroutine is parked where the answers of a history lead. -/
inductive Parked (s : Settings) : World → Invocation → Nat → Nat → Prop
  | mk {b : World} {i : Invocation} {gen h : Nat} {target : Option String} {rest : List Frame}
      {env : Env} {answers : List Value} (history : i.histories[h]? = some answers)
      (position : (i.coroutines[gen]?).map (·.position) = some (.parked target rest env))
      (reached : Reached s b i.body i.env answers target rest env) :
      Parked s b i gen h

/-- A routine parks at a yield when it is sent answers, the newest of which stands first; its
slices are executed in kept worlds not earlier than `b`. -/
inductive Reached (s : Settings) : World → List Stmt → Env → List Value → Option String →
    List Frame → Env → Prop
  | start {b u u' : World} {body : List Stmt} {env env' : Env} {v : Value}
      {target : Option String} {rest : List Frame} (kept : Kept s u) (grows : b.Grows u)
      (slice : execBlock (Evaluation.meaning s) body env u
        = .value (.yielded v target rest env') u') :
      Reached s b body env [] target rest env'
  | answer {b u u' : World} {body : List Stmt} {env env' env'' : Env} {answers : List Value}
      {a v : Value} {target target' : Option String} {rest rest' : List Frame}
      (before : Reached s b body env answers target rest env') (kept : Kept s u)
      (grows : b.Grows u)
      (slice : execFrames (Evaluation.meaning s) rest (Coroutine.bindAnswer env' target a) u
        = .value (.yielded v target' rest' env'') u') :
      Reached s b body env (a :: answers) target' rest' env''

end

/-- A coroutine is parked where answers lead. -/
def Invocation.Awaits (s : Settings) (b : World) (i : Invocation) (gen : Nat)
    (answers : List Value) : Prop :=
  ∃ target rest env,
    (i.coroutines[gen]?).map (·.position) = some (.parked target rest env) ∧
    Reached s b i.body i.env answers target rest env

section

variable {s : Settings} {b w u : World} {id gen h : Nat} {i j : Invocation}
  {answers : List Value}

theorem parked_iff : Parked s b i gen h ↔
    ∃ answers, i.histories[h]? = some answers ∧ i.Awaits s b gen answers := by
  constructor
  · rintro ⟨hh, hp, hr⟩
    exact ⟨_, hh, _, _, _, hp, hr⟩
  · rintro ⟨answers, hh, target, rest, env, hp, hr⟩
    exact .mk hh hp hr

theorem Invocation.Awaits.gen_lt (ha : i.Awaits s b gen answers) :
    gen < i.coroutines.size := by
  obtain ⟨_, _, _, hp, -⟩ := ha
  obtain ⟨c, hc, -⟩ := Option.map_eq_some_iff.mp hp
  exact (Array.getElem?_eq_some_iff.mp hc).1

/-- A coroutine that stays where it is parked awaits what it awaited. -/
theorem Invocation.Awaits.mono (ha : i.Awaits s b gen answers) (hg : i.Grows j)
    (hposition : (j.coroutines[gen]?).map (·.position) = (i.coroutines[gen]?).map (·.position)) :
    j.Awaits s b gen answers := by
  obtain ⟨target, rest, env, hp, hr⟩ := ha
  refine ⟨target, rest, env, hposition.trans hp, ?_⟩
  rwa [hg.body, hg.env]

/-- What is reached in worlds of a later time is reached. -/
theorem Reached.of_grows {body : List Stmt} {env env' : Env} {target : Option String}
    {rest : List Frame} (hr : Reached s w body env answers target rest env') (hbw : b.Grows w) :
    Reached s b body env answers target rest env' := by
  induction answers generalizing target rest env' with
  | nil =>
    cases hr with
    | start hu hwu hslice => exact .start hu (hbw.trans hwu) hslice
  | cons a answers ih =>
    cases hr with
    | answer hr hu hwu hslice => exact .answer (ih hr) hu (hbw.trans hwu) hslice

theorem Parked.gen_lt (hp : Parked s b i gen h) : gen < i.coroutines.size := by
  obtain ⟨answers, -, ha⟩ := parked_iff.mp hp
  exact ha.gen_lt

theorem Parked.mono (hp : Parked s b i gen h) (hg : i.Grows j)
    (hposition : (j.coroutines[gen]?).map (·.position) = (i.coroutines[gen]?).map (·.position)) :
    Parked s b j gen h := by
  obtain ⟨answers, hh, ha⟩ := parked_iff.mp hp
  exact parked_iff.mpr ⟨answers, hg.histories _ _ hh, ha.mono hg hposition⟩

theorem kept_initial (s : Settings) (input : String) : Kept s (.initial input) :=
  .mk fun _ _ hi => by simp [World.initial] at hi

/-! ### Births -/

/-- From which world each call was made. -/
abbrev Births := Nat → World

/-- A world is kept, with calls that were made from given worlds. -/
def KeptFrom (s : Settings) (births : Births) (w : World) : Prop :=
  ∀ (id : Nat) (i : Invocation), w.invocations[id]? = some i →
    (births id).invocations.size = id ∧ (births id).Grows w ∧
      ∀ gen h, i.live = some (gen, h) → Parked s (births id) i gen h

variable {births births' : Births}

theorem KeptFrom.kept (hw : KeptFrom s births w) : Kept s w := .mk fun id i hi => by
  obtain ⟨hb, hg, hl⟩ := hw id i hi
  exact .mk (births id) hb hg hl

theorem Kept.exists_births (hw : Kept s w) : ∃ births, KeptFrom s births w := by
  obtain ⟨calls⟩ := hw
  have hex (id : Nat) : ∃ b, ∀ i, w.invocations[id]? = some i →
      b.invocations.size = id ∧ b.Grows w ∧
        ∀ gen h, i.live = some (gen, h) → Parked s b i gen h := by
    cases hi : w.invocations[id]? with
    | none => exact ⟨w, fun i h => by cases h⟩
    | some i =>
      obtain ⟨b, hb, hg, hl⟩ := calls id i hi
      refine ⟨b, fun j hj => ?_⟩
      cases hj
      exact ⟨hb, hg, hl⟩
  exact Classical.skolem.mp hex

/-- Births may be chosen at will for calls that are not made yet. -/
theorem KeptFrom.congr (hw : KeptFrom s births w)
    (h : ∀ id, id < w.invocations.size → births' id = births id) : KeptFrom s births' w := by
  intro id i hi
  rw [h id (Array.getElem?_eq_some_iff.mp hi).1]
  exact hw id i hi

/-- Nothing is known of the birth of a call that is made now. -/
theorem KeptFrom.exists_birth (hw : KeptFrom s births w) :
    ∃ births', (∀ id, id < w.invocations.size → births' id = births id) ∧
      births' w.invocations.size = w ∧ KeptFrom s births' w := by
  have hagree (id : Nat) (hid : id < w.invocations.size) :
      (if id = w.invocations.size then w else births id) = births id :=
    if_neg (Nat.ne_of_lt hid)
  exact ⟨_, hagree, if_pos rfl, hw.congr hagree⟩

/-! ### Changes of worlds -/

theorem KeptFrom.of_eq (hw : KeptFrom s births w) (hg : w.Grows u)
    (h : u.invocations = w.invocations) : KeptFrom s births u := by
  intro id i hi
  obtain ⟨hb, hgrows, hl⟩ := hw id i (by rwa [h] at hi)
  exact ⟨hb, hgrows.trans hg, hl⟩

/-- A change of one record. -/
theorem KeptFrom.changeCall (hw : KeptFrom s births w) (hi : w.invocations[id]? = some i)
    {f : Invocation → Invocation} (hf : i.Grows (f i))
    (hlive : ∀ gen h, (f i).live = some (gen, h) → Parked s (births id) (f i) gen h) :
    KeptFrom s births (w.changeCall id f) := by
  have hgrows := World.grows_changeCall hi hf
  intro k j hj
  rcases World.record_changeCall_cases hi hj with ⟨rfl, rfl⟩ | ⟨-, hj⟩
  · obtain ⟨hb, hg, -⟩ := hw k i hi
    exact ⟨hb, hg.trans hgrows, hlive⟩
  · obtain ⟨hb, hg, hl⟩ := hw k j hj
    exact ⟨hb, hg.trans hgrows, hl⟩

/-- A change of one record that moves at most a coroutine that is away. -/
theorem KeptFrom.changeAway (hw : KeptFrom s births w) (hi : w.invocations[id]? = some i)
    {f : Invocation → Invocation} (hf : i.Grows (f i)) (haway : i.Away gen)
    (hlive : (f i).live = i.live)
    (hposition : ∀ k, k ≠ gen →
      ((f i).coroutines[k]?).map (·.position) = (i.coroutines[k]?).map (·.position)) :
    KeptFrom s births (w.changeCall id f) := by
  refine hw.changeCall hi hf fun k h hl => ?_
  rw [hlive] at hl
  obtain ⟨-, -, hparked⟩ := hw id i hi
  refine (hparked k h hl).mono hf (hposition k fun hk => ?_)
  exact haway h (hk ▸ hl)

/-- A change of one record that moves no coroutine. -/
theorem KeptFrom.changeStill (hw : KeptFrom s births w) (hi : w.invocations[id]? = some i)
    {f : Invocation → Invocation} (hf : i.Grows (f i)) (hlive : (f i).live = i.live)
    (hcoroutines : (f i).coroutines = i.coroutines) :
    KeptFrom s births (w.changeCall id f) := by
  refine hw.changeCall hi hf fun gen h hl => ?_
  rw [hlive] at hl
  obtain ⟨-, -, hparked⟩ := hw id i hi
  exact (hparked gen h hl).mono hf (by rw [hcoroutines])

/-- A new call. -/
theorem KeptFrom.push (hw : KeptFrom s births w) (hb : births w.invocations.size = w)
    (hi : i.live = none) :
    KeptFrom s births { w with invocations := w.invocations.push i } := by
  have hgrows := (World.follows_push w i).grows
  intro k j hj
  have hj' : (w.invocations.push i)[k]? = some j := hj
  rw [Array.getElem?_push] at hj'
  split at hj'
  · rename_i hk
    cases hj'
    subst hk
    rw [hb]
    exact ⟨rfl, hgrows, fun gen h hl => by rw [hi] at hl; cases hl⟩
  · obtain ⟨hsize, hg, hl⟩ := hw k j hj'
    exact ⟨hsize, hg.trans hgrows, hl⟩

/-! ### From one kept world to another -/

/-- A kept world follows another one, and the calls that were made there were made from the same
worlds. -/
def After (s : Settings) (births : Births) (w w' : World) : Prop :=
  w.Follows w' ∧ ∃ births', (∀ id, id < w.invocations.size → births' id = births id) ∧
    KeptFrom s births' w'

theorem After.of_keptFrom (hf : w.Follows u) (hu : KeptFrom s births u) :
    After s births w u :=
  ⟨hf, births, fun _ _ => rfl, hu⟩

theorem After.refl (hw : KeptFrom s births w) : After s births w w :=
  .of_keptFrom (.refl w) hw

theorem After.trans {v : World} (hwu : w.Follows u)
    (hbirths : ∀ id, id < w.invocations.size → births' id = births id)
    (huv : After s births' u v) : After s births w v := by
  obtain ⟨hf, births'', hagree, hv⟩ := huv
  refine ⟨hwu.trans hf, births'', fun id hid => ?_, hv⟩
  rw [hagree id (Nat.lt_of_lt_of_le hid hwu.grows.size_le), hbirths id hid]

theorem After.kept (h : After s births w u) : Kept s u := by
  obtain ⟨-, _, -, hu⟩ := h
  exact hu.kept

end

end EffectHandlers
