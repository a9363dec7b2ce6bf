/-
EffectHandlers/Proofs/InTurn.lean

Driving a sequence of chains.

A sequence is put together from the left: the chains so far, which come to a
list, are continued by one that adds the value of the next chain to it.  As
long as the chains are finished their values are collected at once, and from
the first suspended one on the rest waits in its pipeline.  No function is
called, so a sequence is what a plain fold of the list gives
(`sequence_eq_collect`), and it requires what the chains up to the first
suspended one require.

Design.  The reference `driveEach` drives chain after chain, each from the
state that the one before it leaves.  Driving a sequence is put in relation
to it in two steps, each an induction on the list with `bind_drive` for one
chain:

    drive (acc, then the rest)  =  drive acc  >>=  one continuation after the other
                                =  drive acc  >>=  drive each chain of the rest

The two steps part where the chain that is continued changes, from the chains
so far to the next one alone.

Main result: `drive_sequence_in_turn`.
-/
import EffectHandlers.Proofs.Sequencing
import EffectHandlers.Script.Library

namespace EffectHandlers

/-! ### Sequences as data -/

namespace Chain

/-- The chains of a list up to and including the first suspended one. -/
def upToSuspended : List Chain → List Chain
  | [] => []
  | .done v r :: cs => .done v r :: upToSuspended cs
  | .suspended e r :: _ => [.suspended e r]

/-- The chain that runs after one that comes to a list, and adds its value to the list. -/
def collect (acc c : Chain) : Chain :=
  match acc with
  | .done (.list xs) r => (c.gather xs).declare r
  | .done v r => .done v r
  | .suspended e r => .suspended (e.map (.bind (.gather c))) r

variable {call : Call} {acc c : Chain} {cs : List Chain}

theorem bind_gather (h : acc.Gathering) : acc.bind call (.gather c) = pure (acc.collect c) := by
  cases acc with
  | done v r =>
    obtain ⟨xs, rfl⟩ := h
    rfl
  | suspended e r => rfl

theorem gathering_collect (h : acc.Gathering) : (acc.collect c).Gathering := by
  cases acc with
  | done v r =>
    obtain ⟨xs, rfl⟩ := h
    exact gathering_declare (gathering_gather c xs) r
  | suspended e r =>
    exact ⟨.bind (.gather c), by rw [Effect.pipeline_map, List.getLast?_concat]; rfl, rfl⟩

theorem sequenceAfter_eq_collect (h : acc.Gathering) :
    sequenceAfter call acc cs = pure (cs.foldl collect acc) := by
  induction cs generalizing acc with
  | nil => rfl
  | cons c cs ih =>
    rw [sequenceAfter, bind_gather h, pure_bind, ih (gathering_collect h), List.foldl_cons]

/-- A sequence is made without a call. -/
theorem sequence_eq_collect (call : Call) (cs : List Chain) :
    sequence call cs = pure (cs.foldl collect (finished (.list []))) :=
  sequenceAfter_eq_collect ⟨[], rfl⟩

/-! ### What a sequence requires -/

theorem foldl_collect_suspended (e : Effect) (r : CapabilitySet) :
    ((cs.foldl collect (.suspended e r)).requires) = r := by
  induction cs generalizing e with
  | nil => rfl
  | cons c cs ih => exact ih (e.map (.bind (.gather c)))

theorem mem_requires_foldl_collect {xs : List Value} {r : CapabilitySet} {a : Capability} :
    a ∈ (cs.foldl collect (.done (.list xs) r)).requires ↔
      a ∈ r ∨ ∃ d ∈ upToSuspended cs, a ∈ d.requires := by
  induction cs generalizing xs r with
  | nil => simp [upToSuspended, requires]
  | cons c cs ih =>
    cases c with
    | done v q =>
      have hcollect : (Chain.done (.list xs) r).collect (.done v q)
          = .done (.list (xs ++ [v])) (q ∪ r) := rfl
      rw [List.foldl_cons, hcollect, ih, CapabilitySet.mem_union, or_comm (a := a ∈ q), or_assoc]
      simp only [upToSuspended, List.mem_cons, exists_eq_or_imp, requires]
    | suspended e q =>
      have hcollect : (Chain.done (.list xs) r).collect (.suspended e q)
          = .suspended (e.map (.bind (.append xs))) (q ∪ r) := rfl
      rw [List.foldl_cons, hcollect, foldl_collect_suspended, CapabilitySet.mem_union,
        upToSuspended, or_comm]
      simp [requires]

end Chain

/-! ### Driving each chain -/

/-- Where drives in turn ended: the values of the chains, the state of the handler and the number
of steps. -/
structure Drives where
  values : List Value
  state : Value
  steps : Nat

/-- The drive of one chain whose value is the list of the values. -/
def Drives.collected (ds : Drives) : Drive := ⟨.list ds.values, ds.state, ds.steps⟩

/-- Drive chains one after the other, each from the state that the one before it leaves. -/
def driveEach (s : Settings) (offer : Offer) (total : Nat) :
    Nat → Value → List Chain → Action Drives
  | steps, state, [] => pure ⟨[], state, steps⟩
  | steps, state, c :: cs => do
    let d ← drive s offer (total - steps) steps state (.chain c)
    let ds ← driveEach s offer total d.steps d.state cs
    return { ds with values := d.value :: ds.values }

theorem driveEach_length {s : Settings} {offer : Offer} {total steps : Nat} {state : Value}
    {cs : List Chain} {ds : Drives} {w w' : World}
    (h : driveEach s offer total steps state cs w = .value ds w') :
    ds.values.length = cs.length := by
  induction cs generalizing steps state w w' ds with
  | nil =>
    obtain ⟨rfl, -⟩ := Action.pure_eq_value.mp h
    rfl
  | cons c cs ih =>
    obtain ⟨d, w₁, -, h⟩ := Action.bind_eq_value.mp h
    obtain ⟨ds', w₂, hds, h⟩ := Action.bind_eq_value.mp h
    obtain ⟨rfl, -⟩ := Action.pure_eq_value.mp h
    exact congrArg (· + 1) (ih hds)

/-! ### A sequence and its chains -/

/-- What follows does not tell apart outcomes that differ in diagnostics. -/
theorem Framed.plain_bind_left {R : Regime} {α β : Type} {P : α → Prop} {w : World}
    {x y : Action α} {f : α → Action β} {Q : β → Prop} (hx : Framed R none P x)
    (hw : w.Clean R none) (hf : ∀ a, P a → Framed R none Q (f a))
    (h : (x w).plain = (y w).plain) : ((x >>= f) w).plain = ((y >>= f) w).plain := by
  have hgoes := (hx w hw).2
  rw [Action.bind_apply, Action.bind_apply]
  generalize x w = o, y w = o' at h hgoes
  cases o with
  | value a u =>
    cases o' with
    | value b v =>
      obtain ⟨rfl, huv⟩ := Outcome.value.inj h
      obtain ⟨ha, hu⟩ := hgoes a u rfl
      exact (hf a ha).plain_congr hu huv
    | _ => cases h
  | failed e u =>
    cases o' with
    | failed e' v =>
      obtain ⟨he, huv⟩ := Outcome.failed.inj h
      show Outcome.failed e.outline u.plain = .failed e'.outline v.plain
      rw [he, huv]
    | _ => cases h
  | exhausted => rw [Outcome.plain_eq_exhausted.mp h.symm]

section

variable {s : Settings} {offer : Offer} {R : Regime} {w : World} {cs : List Chain}

theorem Chain.obeys_collect {acc c : Chain} (hacc : acc.Obeys R) (hgathering : acc.Gathering)
    (hc : c.Obeys R) : (acc.collect c).Obeys R := by
  cases acc with
  | done v r =>
    obtain ⟨xs, rfl⟩ := hgathering
    exact Chain.obeys_declare (Chain.obeys_gather hc (valuesObey_iff.mp hacc)) r
  | suspended e r => exact Chain.obeys_bind hacc hc fun _ _ => hgathering

/-- A chain whose value will be a list is driven to a list. -/
theorem Chain.Gathering.drive {call : Call} (htail : TailResumptive call offer) {fuel steps : Nat}
    {state : Value} {c : Chain} (hc : c.Gathering) {d : Drive} {w' : World}
    (h : EffectHandlers.drive s offer fuel steps state (.chain c) w = .value d w') :
    ∃ xs, d.value = .list xs := by
  induction fuel generalizing steps state c w with
  | zero =>
    cases c with
    | done v r =>
      obtain ⟨rfl, -⟩ := Action.pure_eq_value.mp h
      exact hc
    | suspended e r => cases h
  | succ fuel ih =>
    cases c with
    | done v r =>
      rw [drive_done] at h
      obtain ⟨rfl, -⟩ := Action.pure_eq_value.mp h
      exact hc
    | suspended e r =>
      obtain ⟨t, ht, hcollects⟩ := hc
      rw [drive_suspended, htail state e, bind_assoc] at h
      obtain ⟨u, w₁, -, h⟩ := Action.bind_eq_value.mp h
      cases u
      case handled state' a =>
        rw [Effect.goOn, bind_assoc] at h
        obtain ⟨next, w₂, hnext, h⟩ := Action.bind_eq_value.mp h
        rw [pure_bind] at h
        obtain ⟨-, w₃, -, h⟩ := Action.bind_eq_value.mp h
        rw [Effect.resume, resumeFrom_eq_applyStages] at hnext
        obtain ⟨c, rfl, hgathering⟩ :=
          applyStages_leaves hnext t ht (Stage.givesChain_of_collects hcollects)
        exact ih (hgathering hcollects) h
      all_goals exact (failUnhandled_ne_value steps e w₁ d w' h).elim

/-- Go on, where a drive has ended, with one continuation after the other. -/
noncomputable def driveGathers (s : Settings) (offer : Offer) (total : Nat) (cs : List Chain)
    (d : Drive) : Action Drive :=
  cs.foldlM (fun d c => driveAfter s offer (.gather c) total d) d

variable (hany : Discipline.Offers
  (frame .free none (Regime.call_iff fun _ => trivial)).toDiscipline fun _ => offer)

include hany in
theorem framed_driveGathers (total : Nat) {d : Drive} (hd : d.Obeys .free) :
    Framed .free none (Drive.Obeys .free) (driveGathers s offer total cs d) := by
  induction cs generalizing d with
  | nil => exact Framed.ret hd
  | cons c cs ih => exact Framed.bind (framed_driveAfter hany _ total d) fun d hd => ih hd

variable (hid : ∀ k, R.call k ↔ some k ≠ none)
  (hoffer : Discipline.Offers (frame R none hid).toDiscipline fun _ => offer)
  (htail : TailResumptive (Callable.meaning s) offer)
  (hnode : ∀ e r, R.node e r → e.EndsInChain)

include hany hid hoffer htail hnode in
/-- Driving a chain whose value is added to a list. -/
theorem drive_gather (fuel steps : Nat) {state : Value} (hstate : state.Obeys R) {c : Chain}
    (hc : c.Obeys R) (xs : List Value) (hw : w.Clean R none) :
    (drive s offer fuel steps state (.chain (c.gather xs)) w).plain
    = ((drive s offer fuel steps state (.chain c) >>= fun d =>
        pure ⟨.list (xs ++ [d.value]), d.state, d.steps⟩) w).plain := by
  cases c with
  | done v r => rw [Chain.gather_done, drive_done, drive_done, pure_bind]
  | suspended e r =>
    have hafter : driveAfter s offer (.append xs) (fuel + steps)
        = fun d => pure ⟨.list (xs ++ [d.value]), d.state, d.steps⟩ := by
      funext d
      rw [driveAfter, Binder.apply, pure_bind, Chain.finished, drive_done]
    have h := bind_drive hany hid hoffer htail hnode (.append xs) fuel steps hstate hc hw
      fun _ _ _ _ _ _ _ => ⟨_, rfl⟩
    rw [hafter] at h
    exact h

include hany hid hoffer htail hnode in
/-- Driving the chains so far and the rest of a sequence is driving the chains so far, and going
on with one continuation after the other. -/
theorem drive_collect (hcs : ∀ c ∈ cs, c.Obeys R) (fuel steps : Nat) {state : Value}
    (hstate : state.Obeys R) {acc : Chain} (hacc : acc.Obeys R) (hgathering : acc.Gathering)
    (hw : w.Clean R none) :
    (drive s offer fuel steps state (.chain (cs.foldl Chain.collect acc)) w).plain
    = ((drive s offer fuel steps state (.chain acc) >>=
        driveGathers s offer (fuel + steps) cs) w).plain := by
  induction cs generalizing acc with
  | nil => exact congrArg (fun x : Action Drive => (x w).plain) (bind_pure _).symm
  | cons c cs ih =>
    have hrest : ∀ c ∈ cs, c.Obeys R := fun c hc => hcs c (List.mem_cons_of_mem _ hc)
    have hcollect := Chain.obeys_collect hacc hgathering (hcs c List.mem_cons_self)
    have hwaits : (Binder.gather c).Waits s (drive s offer fuel steps state (.chain acc) w)
        (drive s.silent offer fuel steps state (.chain acc) w) := by
      intro _ _ _ d _ _ hended
      obtain ⟨xs, hxs⟩ := hgathering.drive htail hended
      rw [hxs]
      exact ⟨_, rfl⟩
    -- One continuation, before the rest.
    have hone : (drive s offer fuel steps state (.chain (acc.collect c)) w).plain
        = ((drive s offer fuel steps state (.chain acc) >>=
            driveAfter s offer (.gather c) (fuel + steps)) w).plain := by
      rw [← bind_drive hany hid hoffer htail hnode (.gather c) fuel steps hstate hacc hw hwaits,
        Chain.bind_gather hgathering, pure_bind]
    calc (drive s offer fuel steps state (.chain ((c :: cs).foldl Chain.collect acc)) w).plain
        = ((drive s offer fuel steps state (.chain (acc.collect c)) >>=
            driveGathers s offer (fuel + steps) cs) w).plain :=
          ih hrest hcollect (Chain.gathering_collect hgathering)
      _ = ((drive s offer fuel steps state (.chain acc) >>=
            driveAfter s offer (.gather c) (fuel + steps) >>=
            driveGathers s offer (fuel + steps) cs) w).plain :=
          (framed_drive hany _ _ _ _).plain_bind_left w.clean_free
            (fun d hd => framed_driveGathers hany (fuel + steps) hd) hone
      _ = ((drive s offer fuel steps state (.chain acc) >>=
            driveGathers s offer (fuel + steps) (c :: cs)) w).plain := by
          rw [bind_assoc]
          rfl

include hany hid hoffer htail hnode in
/-- Going on with one continuation after the other is driving each chain. -/
theorem driveGathers_eq_driveEach (hcs : ∀ c ∈ cs, c.Obeys R) (total steps : Nat) {state : Value}
    (hstate : state.Obeys R) (xs : List Value) (hw : w.Clean R none) :
    (driveGathers s offer total cs ⟨.list xs, state, steps⟩ w).plain
    = ((driveEach s offer total steps state cs >>= fun ds =>
        pure ⟨.list (xs ++ ds.values), ds.state, ds.steps⟩) w).plain := by
  induction cs generalizing xs state steps w with
  | nil =>
    rw [driveEach, pure_bind, List.append_nil]
    rfl
  | cons c cs ih =>
    have hc := hcs c List.mem_cons_self
    have hrest : ∀ c ∈ cs, c.Obeys R := fun c hc => hcs c (List.mem_cons_of_mem _ hc)
    have hdrive : Framed R none (Drive.Obeys R)
        (drive s offer (total - steps) steps state (.chain c)) :=
      Discipline.drive s hoffer _ _ hstate hc
    calc (driveGathers s offer total (c :: cs) ⟨.list xs, state, steps⟩ w).plain
        = ((drive s offer (total - steps) steps state (.chain (c.gather xs)) >>=
            driveGathers s offer total cs) w).plain := rfl
      _ = ((drive s offer (total - steps) steps state (.chain c) >>= (fun d =>
            pure ⟨.list (xs ++ [d.value]), d.state, d.steps⟩) >>=
            driveGathers s offer total cs) w).plain :=
          (framed_drive hany _ _ _ _).plain_bind_left w.clean_free
            (fun d hd => framed_driveGathers hany total hd)
            (drive_gather hany hid hoffer htail hnode (total - steps) steps hstate hc xs hw)
      _ = ((drive s offer (total - steps) steps state (.chain c) >>= fun d =>
            driveGathers s offer total cs ⟨.list (xs ++ [d.value]), d.state, d.steps⟩) w).plain := by
          rw [bind_assoc]
          rfl
      _ = ((drive s offer (total - steps) steps state (.chain c) >>= fun d =>
            driveEach s offer total d.steps d.state cs >>= fun ds =>
              pure ⟨.list (xs ++ [d.value] ++ ds.values), ds.state, ds.steps⟩) w).plain :=
          hdrive.plain_bind hw fun d w' _ hd hw' => ih hrest d.steps hd.2 _ hw'
      _ = ((driveEach s offer total steps state (c :: cs) >>= fun ds =>
            pure ⟨.list (xs ++ ds.values), ds.state, ds.steps⟩) w).plain := by
          simp only [driveEach, bind_assoc, pure_bind, List.append_assoc, List.singleton_append]

include hany hid hoffer htail hnode in
/-- **Driving a sequence is driving each of its chains in turn.** -/
theorem drive_sequence (hcs : ∀ c ∈ cs, c.Obeys R) (fuel steps : Nat) {state : Value}
    (hstate : state.Obeys R) (hw : w.Clean R none) :
    (drive s offer fuel steps state
        (.chain (cs.foldl Chain.collect (.finished (.list [])))) w).plain
    = ((driveEach s offer (fuel + steps) steps state cs >>= fun ds =>
        pure ds.collected) w).plain := by
  have hempty : (Chain.finished (.list [])).Obeys R := Chain.obeys_finished (by simp)
  rw [drive_collect hany hid hoffer htail hnode hcs fuel steps hstate hempty ⟨[], rfl⟩ hw,
    Chain.finished, drive_done, pure_bind,
    driveGathers_eq_driveEach hany hid hoffer htail hnode hcs (fuel + steps) steps hstate [] hw]
  rfl

end

/-! ### Values that have to be chains -/

theorem chainsOf_chains (role : String) (cs : List Chain) :
    chainsOf role (cs.map Value.chain) = pure cs := by
  induction cs with
  | nil => rfl
  | cons c cs ih =>
    show (do return c :: (← chainsOf role (cs.map Value.chain))) = _
    rw [ih, pure_bind]

/-- The first value that is not a chain is refused. -/
theorem chainsOf_other (role : String) {v : Value} (hv : ∀ c, v ≠ .chain c) (cs : List Chain)
    (vs : List Value) :
    chainsOf role (cs.map Value.chain ++ v :: vs)
      = Action.fail (.notChainResult role v.typeName) := by
  induction cs with
  | nil =>
    cases v with
    | chain c => exact absurd rfl (hv c)
    | _ => rfl
  | cons c cs ih =>
    show (do return c :: (← chainsOf role (cs.map Value.chain ++ v :: vs))) = _
    rw [ih, Action.fail_bind]

theorem ChainOp.apply_sequence {call : Call} {v : Value} {vs : List Value} (hv : v.items = .ok vs) :
    ChainOp.sequence.apply call [v]
      = chainsOf "sequence" vs >>= fun cs => Chain.sequence call cs >>= fun c =>
          pure (.chain c) := by
  show (do
    let cs ← chainsOf "sequence" (← Action.ofExcept v.items)
    return Value.chain (← Chain.sequence call cs)) = _
  rw [hv]
  rfl

/-! ### The theorem -/

/-- **The chains of a sequence run one after the other.**

Making the sequence calls nothing, and it requires what its chains up to and including the first
suspended one require.  A value that is not a chain is refused, the first one of the list, before
anything is called.

Against a tail-resumptive handler, and up to diagnostics: driving the sequence comes to what driving
each chain comes to, in order and from the state that the one before it leaves, with the list of
their values, one for each, and the last state; and if the drive of one of them fails, then so does
the drive of the sequence, in the same world, where nothing of the later chains has been done.
Requests may be watched, so the same requests are offered in the same order. -/
theorem drive_sequence_in_turn (s : Settings) :
    (∀ (call : Call) (cs : List Chain) (v : Value), v.items = .ok (cs.map .chain) →
      ∃ c : Chain, Chain.sequence call cs = pure c ∧
        ChainOp.sequence.apply call [v] = pure (.chain c) ∧
        ∀ a, a ∈ c.requires ↔ ∃ d ∈ Chain.upToSuspended cs, a ∈ d.requires) ∧
    (∀ (call : Call) (cs : List Chain) (u : Value) (rest : List Value) (v : Value),
      v.items = .ok (cs.map .chain ++ u :: rest) → (∀ c, u ≠ .chain c) →
      ChainOp.sequence.apply call [v]
        = Action.fail (.notChainResult "sequence" u.typeName)) ∧
    ∀ (h : Handler) (watch : Request → Option Event) (cs : List Chain) (state : Value)
      (fuel steps : Nat) (w : World),
      TailResumptive (Callable.meaning s) (h.offer (Callable.meaning s)) →
      w.Obeys (.constructed fun _ => True) → h.Obeys (.constructed fun _ => True) →
      (∀ c ∈ cs, c.Obeys (.constructed fun _ => True)) →
      state.Obeys (.constructed fun _ => True) →
      let offer := h.watched watch (Callable.meaning s)
      let sequenced := Chain.sequence (Callable.meaning s) cs >>= fun c =>
        drive s offer fuel steps state (.chain c)
      match driveEach s offer (fuel + steps) steps state cs w with
      | .value ds w' => ds.values.length = cs.length ∧
        (sequenced w).plain = .value ⟨.list ds.values, ds.state, ds.steps⟩ w'.plain
      | .failed e w' => (sequenced w).plain = .failed e.outline w'.plain
      | .exhausted => sequenced w = .exhausted := by
  refine ⟨?_, ?_, ?_⟩
  · intro call cs v hv
    refine ⟨_, Chain.sequence_eq_collect call cs, ?_, fun a => ?_⟩
    · rw [ChainOp.apply_sequence hv, chainsOf_chains, pure_bind, Chain.sequence_eq_collect, pure_bind]
    · rw [Chain.finished, Chain.mem_requires_foldl_collect]
      exact or_iff_right (CapabilitySet.not_mem_empty a)
  · intro call cs u rest v hv hu
    rw [ChainOp.apply_sequence hv, chainsOf_other "sequence" hu, Action.fail_bind]
  · intro h watch cs state fuel steps w htail hw hh hcs hstate
    have hcalls (R : Regime) (hcall : ∀ k, R.call k) := frame_meaning (Regime.call_iff hcall) s
    have hany := Discipline.watched (hcalls .free fun _ => trivial) h.obeys_free watch
    have hoffer := Discipline.watched (hcalls (.constructed _) fun _ => trivial) hh watch
    have heq := drive_sequence hany _ hoffer (htail.watched watch) (fun _ _ he => he) hcs fuel steps
      hstate hw.clean
    dsimp only
    rw [Action.bind_apply] at heq
    rw [Chain.sequence_eq_collect, pure_bind]
    split
    · rename_i ds w' hds
      rw [hds] at heq
      exact ⟨driveEach_length hds, heq⟩
    · rename_i e w' hds
      rw [hds] at heq
      exact heq
    · rename_i hds
      rw [hds] at heq
      exact Outcome.plain_eq_exhausted.mp heq

/-- A chain that occurs twice in a sequence, with a finished chain and another one between. -/
theorem drive_sequence_in_turn_tickBy :
    ((Chain.sequence (Callable.meaning ⟨false, 10⟩)
        [tickBy 2, .finished (.int 7), tickBy 3, tickBy 2] >>= fun c =>
      drive ⟨false, 10⟩ (watchedCounter (Callable.meaning ⟨false, 10⟩)) 3 0 (.int 1) (.chain c))
        (.initial "")).plain
    = .value ⟨.list [.int 3, .int 7, .int 6, .int 8], .int 8, 3⟩
      { World.initial "" with
        events := [.traced (.effect (.of (.tick (.int 2)))) #[],
          .traced (.effect (.of (.tick (.int 3)))) #[],
          .traced (.effect (.of (.tick (.int 2)))) #[]] } := by
  have htail : TailResumptive (Callable.meaning ⟨false, 10⟩)
      (Handler.offer (Callable.meaning ⟨false, 10⟩) (.counter 0)) :=
    (Handler.Shipped.counter 0).tailResumptive
  have hworld := World.obeys_initial (.constructed fun _ => True) ""
  have htick (n : Int) : (tickBy n).Obeys (.constructed fun _ => True) :=
    Chain.obeys_perform (Effect.obeys_of trivial)
  have hcs : ∀ c ∈ [tickBy 2, .finished (.int 7), tickBy 3, tickBy 2],
      c.Obeys (.constructed fun _ => True) := by
    intro c hc
    simp only [List.mem_cons, List.not_mem_nil, or_false] at hc
    rcases hc with rfl | rfl | rfl | rfl
    · exact htick 2
    · exact Chain.obeys_finished trivial
    · exact htick 3
    · exact htick 2
  have h := (drive_sequence_in_turn ⟨false, 10⟩).2.2 (.counter 0)
    (fun r => some (.traced (.effect (.of r)) #[]))
    [tickBy 2, .finished (.int 7), tickBy 3, tickBy 2] (.int 1) 3 0 (.initial "") htail hworld
    trivial hcs trivial
  have hfirst (w : World) := drive_tickBy (Callable.meaning ⟨false, 10⟩) 2 0 1 2 w
  have hthird (w : World) := drive_tickBy (Callable.meaning ⟨false, 10⟩) 1 1 3 3 w
  have hlast (w : World) := drive_tickBy (Callable.meaning ⟨false, 10⟩) 0 2 6 2 w
  have heach : driveEach ⟨false, 10⟩ (watchedCounter (Callable.meaning ⟨false, 10⟩)) 3 0 (.int 1)
      [tickBy 2, .finished (.int 7), tickBy 3, tickBy 2] (.initial "")
      = .value ⟨[.int 3, .int 7, .int 6, .int 8], .int 8, 3⟩
        { World.initial "" with
          events := [.traced (.effect (.of (.tick (.int 2)))) #[],
            .traced (.effect (.of (.tick (.int 3)))) #[],
            .traced (.effect (.of (.tick (.int 2)))) #[]] } := by
    simp only [driveEach, bind_assoc, pure_bind, Chain.finished, drive_done]
    refine (Action.bind_of_value (hfirst _)).trans ?_
    refine (Action.bind_of_value (hthird _)).trans ?_
    exact (Action.bind_of_value (hlast _)).trans rfl
  rw [watchedCounter] at heach ⊢
  dsimp only at h
  rw [heach] at h
  exact h.2

end EffectHandlers
