/-
EffectHandlers/Proofs/StepRecords.lean

What the records of steps change.

Two runs are compared that differ only in whether steps are recorded, and
in which nothing calls for another run.  They are held side by side: after
as many steps they stand in the same state with the same chain, and in
worlds that differ in their events only (`Standing.Beside`).  Neither the
settings nor the events make a difference to what a handler does there when
it is asked (`Indifferent.told`).

So their dialogues are the same if each exchange is told without what
happened before it (`Exchange.told`): the same questions are asked, and each
of them comes to the same, events included.  The logs of the two runs are
the account of one dialogue, with the records of its steps and without them.

This goes on as long as the effects that are handled can be shown.  The
record of one that cannot be shown fails, and so does the run: the dialogue
of the run without records has more to it (`Recording.stopped`).

Main result: `step_records_faithful`.
-/
import EffectHandlers.Proofs.Resumption
import EffectHandlers.Proofs.RunFree
import EffectHandlers.Proofs.RunLog

namespace EffectHandlers

variable {α : Type} {R : Regime} {w w' u : World}

/-! ### Worlds that differ in their events -/

/-- Events do not count when it is said that everything in a world keeps to a regime. -/
theorem World.Obeys.of_silent (hw : w.Obeys R) (h : w'.silent = w.silent) : w'.Obeys R where
  cells a v hv := hw.cells a v ((congrArg (fun u : World => u.cells[a]?) h).symm.trans hv)
  journals j vs hvs :=
    hw.journals j vs ((congrArg (fun u : World => u.journals[j]?) h).symm.trans hvs)
  records k i hi := hw.records k i ((congrArg (fun u : World => u.invocations[k]?) h).symm.trans hi)

theorem World.silent_recorded {s : Settings} {step : Nat} {e : Effect}
    (h : s.recorded step e w = .ok u) : u.silent = w.silent := by
  obtain ⟨-, rfl⟩ | ⟨-, text, -, rfl⟩ := Settings.recorded_eq_ok.mp h
  · rfl
  · rfl

theorem Effect.reported_of_silent {steps : Nat} {e : Effect} (hw : w'.silent = w.silent)
    (h : e.reported steps w = .ok u) :
    ∃ u', e.reported steps w' = .ok u' ∧ u'.silent = u.silent := by
  obtain ⟨text, htext, rfl⟩ := Effect.reported_eq_ok.mp h
  exact ⟨_, Effect.reported_eq_ok.mpr ⟨text, htext, rfl⟩, hw⟩

theorem Outcome.world?_silent (o : Outcome α) : o.silent.world? = o.world?.map World.silent := by
  cases o <;> rfl

theorem Outcome.value_of_silent {o o' : Outcome α} {a : α} (h : o'.silent = o.silent)
    (ho : o = .value a u) : ∃ u', o' = .value a u' ∧ u'.silent = u.silent := by
  rw [ho] at h
  cases o' with
  | value b u' =>
    obtain ⟨rfl, hu⟩ := Outcome.value.inj h
    exact ⟨u', rfl, hu⟩
  | failed f u' => cases h
  | exhausted => cases h

/-- What gives no value on the one side gives none on the other. -/
theorem Outcome.Lost.of_silent {β : Type} {x x' : Outcome α} {o : Outcome β} (hx : x.Lost o)
    (h : x'.silent = x.silent) : ∃ o' : Outcome β, x'.Lost o' ∧ o'.silent = o.silent := by
  cases hx with
  | failed f u =>
    cases x' with
    | value a u' => cases h
    | failed g u' =>
      obtain ⟨rfl, hu⟩ := Outcome.failed.inj h
      exact ⟨_, .failed g u', congrArg (Outcome.failed g) hu⟩
    | exhausted => cases h
  | exhausted =>
    cases x' with
    | value a u' => cases h
    | failed g u' => cases h
    | exhausted => exact ⟨_, .exhausted, rfl⟩

theorem Outcome.Concludes.of_silent {v : Value} {x x' o : Outcome Value} (hx : x.Concludes v o)
    (h : x'.silent = x.silent) : ∃ o', x'.Concludes v o' ∧ o'.silent = o.silent := by
  cases hx with
  | value output u =>
    obtain ⟨u', rfl, hu⟩ := Outcome.value_of_silent h rfl
    exact ⟨_, .value output u', congrArg (Outcome.value _) hu⟩
  | lost hlost =>
    obtain ⟨o', hlost', ho⟩ := hlost.of_silent h
    exact ⟨o', .lost hlost', ho⟩

/-- What an exchange comes to in the end is told, but for the events before it. -/
theorem Exchange.silent_of_told {x y : Exchange} (h : y.told = x.told) :
    y.outcome.silent = x.outcome.silent := by
  have hsilent (z : Exchange) : z.told.outcome.silent = z.outcome.silent := by
    obtain ⟨k, w, o⟩ := z
    cases o <;> rfl
  rw [← hsilent y, h, hsilent x]

/-! ### Questions -/

/-- Everything in a question keeps to a regime. -/
def Question.Obeys (R : Regime) : Question → Prop
  | .start => True
  | .offer state e => state.Obeys R ∧ e.Obeys R
  | .finish state => state.Obeys R

/-- What a handler is asked comes to the same whether steps are recorded or not. -/
theorem Handler.indifferent_reply (n : Nat) {h : Handler} (hh : h.Obeys .runFree) {k : Question}
    (hk : k.Obeys .runFree) : Indifferent .runFree (Value.Obeys .runFree) fun b : Bool =>
      h.reply (Callable.meaning ⟨b, n⟩) k := by
  have hcall : (indifferent Bool .runFree Regime.runFree_call).Calls fun b =>
      Callable.meaning ⟨b, n⟩ :=
    indifferent_meaning Regime.runFree_call (fun hrun => hrun rfl) fun _ => rfl
  cases k with
  | start => exact Discipline.start hcall h hh
  | offer state e => exact Discipline.offer hcall h hh hk.1 hk.2
  | finish state => exact Discipline.finish hcall h hh hk

/-! ### Exchanges that are told alike -/

section

variable {ι : Type} {P : Value → Prop} {x : ι → Action Value}

/-- Actions of a family come to the same in worlds that differ in their events only. -/
theorem Indifferent.told (hx : Indifferent R P x) (k : Question) (i j : ι) (hw : w.Obeys R)
    (hw' : w'.silent = w.silent) :
    Exchange.told ⟨k, w', x j w'⟩ = Exchange.told ⟨k, w, x i w⟩ := by
  -- Both of them come to what they come to in the world without events.
  have hsilent : w.silent.Obeys R := hw.of_silent rfl
  simp only [Exchange.told, (hx.abides i).framed.since hw,
    (hx.abides j).framed.since (hw.of_silent hw'), hw', hx.same j i _ hsilent]

/-- Where one of them gives a value, the other one does. -/
theorem Indifferent.told_of_value {v : Value} (hx : Indifferent R P x) (k : Question) (i j : ι)
    (hw : w.Obeys R) (hw' : w'.silent = w.silent) (hv : x i w = .value v u) :
    ∃ u', x j w' = .value v u' ∧ u'.silent = u.silent ∧
      Exchange.told ⟨k, w', .value v u'⟩ = Exchange.told ⟨k, w, .value v u⟩ := by
  have htold := hx.told k i j hw hw'
  obtain ⟨u', (hu' : x j w' = .value v u'), hsilent⟩ :=
    Outcome.value_of_silent (Exchange.silent_of_told htold) hv
  rw [hv, hu'] at htold
  exact ⟨u', hu', hsilent, htold⟩

end

/-- What is told alike handles the same. -/
theorem handled_of_told {xs ys : List Exchange}
    (h : ys.map Exchange.told = xs.map Exchange.told) :
    ys.filterMap Exchange.handled? = xs.filterMap Exchange.handled? := by
  have hmap (zs : List Exchange) :
      zs.filterMap Exchange.handled? = (zs.map Exchange.told).filterMap Exchange.handled? := by
    rw [List.filterMap_map]
    exact congrArg (zs.filterMap ·) (funext fun z => z.handled?_told.symm)
  rw [hmap ys, hmap xs, h]

/-- The effects can be shown. -/
def CanBeShown (es : List Effect) : Prop := ∀ e ∈ es, ∃ text, e.recordText = .ok text

/-- What steps handled that were recorded can be shown. -/
theorem Advances.canBeShown {n : Nat} {offer : Offer} {p q : Standing} {xs : List Exchange}
    (hsteps : Advances ⟨true, n⟩ offer p xs q) : CanBeShown (xs.filterMap Exchange.handled?) := by
  induction hsteps with
  | nil p => exact List.forall_mem_nil _
  | @cons k state state' next e r w w' u xs q within handled recorded rest ih =>
    refine List.forall_mem_cons.mpr ⟨?_, ih⟩
    obtain ⟨hlog, -⟩ | ⟨-, text, htext, -⟩ := Settings.recorded_eq_ok.mp recorded
    · cases hlog
    · exact ⟨text, htext⟩

/-! ### Runs in which nothing calls for a run -/

/-- Nothing calls for a run where a drive stands. -/
structure Standing.Free (p : Standing) : Prop where
  state : p.state.Obeys .runFree
  next : p.next.Obeys .runFree
  world : p.world.Obeys .runFree

section

variable {n : Nat} {b : Bool} {c : Chain} {h : Handler} {p p' q : Standing}
  {xs ys t : List Exchange}

/-- What happens in the steps of a drive adds to the log. -/
theorem Advances.adds (hh : h.Obeys .runFree)
    (hsteps : Advances ⟨b, n⟩ (h.offer (Callable.meaning ⟨b, n⟩)) p xs q) (hp : p.Free) :
    (∀ x ∈ xs, x.Adds) ∧ q.Free := by
  induction hsteps with
  | nil p => exact ⟨List.forall_mem_nil _, hp⟩
  | @cons k state state' next e r w w' u xs q within handled recorded rest ih =>
    have hreply := h.indifferent_reply n hh (k := .offer state e) ⟨hp.state, hp.next.2⟩
    obtain ⟨hanswer, hw'⟩ := (hreply.abides b).of_value hp.world handled
    have hadds : Exchange.Adds ⟨.offer state e, w, .value (.handled state' next) w'⟩ :=
      handled ▸ Exchange.adds_of_framed (.offer state e) (hreply.abides b).framed hp.world
    obtain ⟨hrest, hq⟩ :=
      ih ⟨hanswer.1, hanswer.2, hw'.of_silent (World.silent_recorded recorded)⟩
    exact ⟨List.forall_mem_cons.mpr ⟨hadds, hrest⟩, hq⟩

theorem Halts.adds {d : Outcome Drive} (hh : h.Obeys .runFree)
    (hhalt : Halts ⟨b, n⟩ (h.offer (Callable.meaning ⟨b, n⟩)) p ys d) (hp : p.Free) :
    ∀ y ∈ ys, y.Adds := by
  rw [hhalt.eq_offers, Standing.offers]
  split
  · rename_i e r hnext
    have he : e.Obeys .runFree := by
      have hobeys := hp.next
      rw [hnext] at hobeys
      exact hobeys.2
    have hreply := h.indifferent_reply n hh (k := .offer p.state e) ⟨hp.state, he⟩
    split
    · exact List.forall_mem_singleton.mpr
        (Exchange.adds_of_framed (.offer p.state e) (hreply.abides b).framed hp.world)
    · exact List.forall_mem_nil _
  · exact List.forall_mem_nil _

/-- What happens in the exchanges of a run adds to the log. -/
theorem Dialogue.adds {o : Outcome Value} (hc : c.Obeys .runFree) (hh : h.Obeys .runFree)
    (hw : w.Obeys .runFree) (hd : Dialogue ⟨b, n⟩ (Callable.meaning ⟨b, n⟩) c h w t o) :
    ∀ x ∈ t, x.Adds := by
  have hstart := h.indifferent_reply n hh (k := .start) trivial
  have hfirst : Exchange.Adds ⟨.start, w, h.start (Callable.meaning ⟨b, n⟩) w⟩ :=
    Exchange.adds_of_framed .start (hstart.abides b).framed hw
  have hopened {state : Value} {u : World}
      (start : h.start (Callable.meaning ⟨b, n⟩) w = .value state u) :
      Standing.Free ⟨0, state, .chain c, h.opened u⟩ := by
    obtain ⟨hstate, hu⟩ := (hstart.abides b).of_value hw start
    exact ⟨hstate, hc, hu.of_silent rfl⟩
  cases hd with
  | refused => exact List.forall_mem_nil _
  | notStarted provided start => exact List.forall_mem_singleton.mpr hfirst
  | halted provided start steps halt lost =>
    obtain ⟨hxs, hp⟩ := steps.adds hh (hopened start)
    exact List.forall_mem_cons.mpr
      ⟨start ▸ hfirst, List.forall_mem_append.mpr ⟨hxs, halt.adds hh hp⟩⟩
  | @finished state u u' xs p d o provided start steps halt finish =>
    obtain ⟨-, r, rfl⟩ := halt.of_value
    obtain ⟨hxs, hp⟩ := steps.adds hh (hopened start)
    have hreply := h.indifferent_reply n hh (k := .finish d.state) hp.state
    have hclosed : (d.closed u').Obeys .runFree := hp.world.of_silent rfl
    have hlast := Exchange.adds_of_framed (.finish d.state) (hreply.abides b).framed hclosed
    exact List.forall_mem_cons.mpr
      ⟨start ▸ hfirst, List.forall_mem_append.mpr ⟨hxs, List.forall_mem_singleton.mpr hlast⟩⟩

/-! ### Runs side by side -/

/-- Two drives stand in the same place, in worlds that differ in their events only, and nothing
there calls for a run. -/
inductive Standing.Beside : Standing → Standing → Prop
  | mk {k : Nat} {state next : Value} {w w' : World} (silent : w'.silent = w.silent)
    (free : Standing.Free ⟨k, state, next, w⟩) : Beside ⟨k, state, next, w⟩ ⟨k, state, next, w'⟩

/-- A step that is handled on the one side is handled on the other. -/
theorem Standing.Beside.handled {k : Nat} {state state' next : Value} {e : Effect}
    {r : CapabilitySet} (hh : h.Obeys .runFree)
    (hp : Beside ⟨k, state, .chain (.suspended e r), w⟩ p') (within : k < n)
    (handled : h.offer (Callable.meaning ⟨true, n⟩) state e w = .value (.handled state' next) u) :
    ∃ x' q', Advances ⟨false, n⟩ (h.offer (Callable.meaning ⟨false, n⟩)) p' [x'] q' ∧
      x'.told = Exchange.told ⟨.offer state e, w, .value (.handled state' next) u⟩ ∧
      ∀ u', u'.silent = u.silent → Beside ⟨k + 1, state', next, u'⟩ q' := by
  cases hp with
  | @mk _ _ _ _ z hz free =>
    have hreply := h.indifferent_reply n hh (k := .offer state e) ⟨free.state, free.next.2⟩
    obtain ⟨hanswer, hu⟩ := (hreply.abides true).of_value free.world handled
    obtain ⟨z', handled', hz', htold⟩ :=
      hreply.told_of_value (.offer state e) true false free.world hz handled
    exact ⟨_, _, .cons within handled' rfl (.nil _), htold, fun u' hu' =>
      .mk (hz'.trans hu'.symm) ⟨hanswer.1, hanswer.2, hu.of_silent hu'⟩⟩

/-- Every step that is handled and recorded is handled without its record. -/
theorem Advances.beside (hh : h.Obeys .runFree)
    (hsteps : Advances ⟨true, n⟩ (h.offer (Callable.meaning ⟨true, n⟩)) p xs q)
    (hp : p.Beside p') :
    ∃ xs' q', Advances ⟨false, n⟩ (h.offer (Callable.meaning ⟨false, n⟩)) p' xs' q' ∧
      xs'.map Exchange.told = xs.map Exchange.told ∧ q.Beside q' := by
  induction hsteps generalizing p' with
  | nil p => exact ⟨[], p', .nil p', rfl, hp⟩
  | @cons k state state' next e r w w' u xs q within handled recorded rest ih =>
    obtain ⟨x', q₁, hstep, htold, hbeside⟩ := hp.handled hh within handled
    obtain ⟨xs', q', hrest, hxs, hq⟩ := ih (hbeside u (World.silent_recorded recorded))
    exact ⟨_, q', hstep.append hrest, by rw [List.map_append, List.map_cons, hxs, htold]; rfl, hq⟩

/-- Drives that stand side by side stop in the same way, unless it is the record of a step that
stops one of them. -/
theorem Halts.beside {d : Outcome Drive} (hh : h.Obeys .runFree)
    (hhalt : Halts ⟨true, n⟩ (h.offer (Callable.meaning ⟨true, n⟩)) p ys d) (hp : p.Beside p') :
    (∃ ys' d', Halts ⟨false, n⟩ (h.offer (Callable.meaning ⟨false, n⟩)) p' ys' d' ∧
      ys.filterMap Exchange.handled? = [] ∧ ys'.map Exchange.told = ys.map Exchange.told ∧
      d'.silent = d.silent) ∨
    ∃ x x' q' e f u, Advances ⟨false, n⟩ (h.offer (Callable.meaning ⟨false, n⟩)) p' [x'] q' ∧
      ys = [x] ∧ x'.told = x.told ∧ x.handled? = some e ∧ e.recordText = .error f ∧
      x.outcome.world? = some u ∧ d = .failed (.noText f) u := by
  have hp' := hp
  cases hp with
  | @mk k state next w z hz free =>
    cases hhalt with
    | finished => exact .inl ⟨[], _, .finished, rfl, rfl, congrArg (Outcome.value _) hz⟩
    | notChain hno => exact .inl ⟨[], _, .notChain hno, rfl, rfl, congrArg (Outcome.failed _) hz⟩
    | @declined _ _ v e r _ w' u within answer hv reported =>
      have hreply := h.indifferent_reply n hh (k := .offer state e) ⟨free.state, free.next.2⟩
      obtain ⟨z', answer', hz', htold⟩ :=
        hreply.told_of_value (.offer state e) true false free.world hz answer
      obtain ⟨u', reported', hu'⟩ := Effect.reported_of_silent hz' reported
      refine .inl ⟨_, _, .declined within answer' hv reported', ?_, congrArg (fun x => [x]) htold,
        congrArg (Outcome.failed _) hu'⟩
      cases v <;> first | rfl | exact absurd rfl (hv _ _)
    | @unreported _ _ v e r _ w' f within answer hv reported =>
      have hreply := h.indifferent_reply n hh (k := .offer state e) ⟨free.state, free.next.2⟩
      obtain ⟨z', answer', hz', htold⟩ :=
        hreply.told_of_value (.offer state e) true false free.world hz answer
      have reported' : e.reported k z' = .error f :=
        Effect.reported_eq_error.mpr (Effect.reported_eq_error.mp reported)
      refine .inl ⟨_, _, .unreported within answer' hv reported', ?_,
        congrArg (fun x => [x]) htold, congrArg (Outcome.failed _) hz'⟩
      cases v <;> first | rfl | exact absurd rfl (hv _ _)
    | @unrecorded _ _ state' next' e r _ w' f within handled recorded =>
      obtain ⟨x', q', hstep, htold, -⟩ := hp'.handled hh within handled
      exact .inr ⟨_, x', q', e, f, w', hstep, rfl, htold, rfl,
        (Settings.recorded_eq_error.mp recorded).2, rfl, rfl⟩
    | @lost _ _ e r _ d within answer =>
      have hreply := h.indifferent_reply n hh (k := .offer state e) ⟨free.state, free.next.2⟩
      have htold := hreply.told (.offer state e) true false free.world hz
      obtain ⟨d', answer', hd⟩ := answer.of_silent (Exchange.silent_of_told htold)
      refine .inl ⟨_, d', .lost within answer', ?_, congrArg (fun x => [x]) htold, hd⟩
      generalize h.offer (Callable.meaning ⟨true, n⟩) state e w = x at answer
      cases answer <;> rfl
    | spent beyond => exact .inl ⟨[], _, .spent beyond, rfl, rfl, rfl⟩

/-- Runs that begin in one world stand side by side after as many steps. -/
theorem Advances.beside_of_start (hc : c.Obeys .runFree) (hh : h.Obeys .runFree)
    (hw : w.Obeys .runFree) {state : Value}
    (start : h.start (Callable.meaning ⟨true, n⟩) w = .value state u)
    (hsteps : Advances ⟨true, n⟩ (h.offer (Callable.meaning ⟨true, n⟩))
      ⟨0, state, .chain c, h.opened u⟩ xs q) :
    ∃ u' xs' q', h.start (Callable.meaning ⟨false, n⟩) w = .value state u' ∧
      Advances ⟨false, n⟩ (h.offer (Callable.meaning ⟨false, n⟩))
        ⟨0, state, .chain c, h.opened u'⟩ xs' q' ∧
      ((⟨.start, w, .value state u'⟩ : Exchange) :: xs').map Exchange.told
        = ((⟨.start, w, .value state u⟩ : Exchange) :: xs).map Exchange.told ∧ q.Beside q' := by
  have hreply := h.indifferent_reply n hh (k := .start) trivial
  obtain ⟨hstate, hu⟩ := (hreply.abides true).of_value hw start
  obtain ⟨u', start', hu', htold⟩ := hreply.told_of_value .start true false hw rfl start
  have hopened : Standing.Beside ⟨0, state, .chain c, h.opened u⟩
      ⟨0, state, .chain c, h.opened u'⟩ := .mk hu' ⟨hstate, hc, hu.of_silent rfl⟩
  obtain ⟨xs', q', hsteps', hxs, hq⟩ := hsteps.beside hh hopened
  exact ⟨u', xs', q', start', hsteps', by rw [List.map_cons, hxs, htold]; rfl, hq⟩

/-- What becomes of the dialogue and the outcome of a run if its steps are recorded.

* `alike`: if all effects that it handles can be shown, it is told in the same way, and comes to the
  same;
* `stopped`: else it ends with the first effect that is handled and cannot be shown, and fails. -/
inductive Recording (t' : List Exchange) (o' : Outcome Value) :
    List Exchange → Outcome Value → Prop
  | alike {t : List Exchange} {o : Outcome Value}
    (shown : CanBeShown (t'.filterMap Exchange.handled?))
    (told : t'.map Exchange.told = t.map Exchange.told) (silent : o'.silent = o.silent) :
    Recording t' o' t o
  | stopped {xs ys t : List Exchange} {x : Exchange} {e : Effect} {f : TextFault} {u : World}
    (split : t' = xs ++ x :: ys) (shown : CanBeShown (xs.filterMap Exchange.handled?))
    (handled : x.handled? = some e) (fault : e.recordText = .error f)
    (told : (xs ++ [x]).map Exchange.told = t.map Exchange.told)
    (world : x.outcome.world?.map World.silent = some u.silent) :
    Recording t' o' t (.failed (.noText f) u)

/-- If all effects can be shown, there is one account of both runs. -/
theorem Recording.account_eq {t' : List Exchange} {o o' : Outcome Value}
    (hrecording : Recording t' o' t o) (h : Handler)
    (hshown : CanBeShown (t'.filterMap Exchange.handled?)) (logSteps : Bool) :
    account logSteps h Exchange.happened 0 t' = account logSteps h Exchange.happened 0 t := by
  cases hrecording with
  | alike _ told _ => exact account_congr h told fun x y => Exchange.happened_congr
  | @stopped xs ys t x e f u split _ handled fault =>
    have hx : e ∈ t'.filterMap Exchange.handled? := by
      rw [split]
      exact List.mem_filterMap.mpr ⟨x, List.mem_append_right _ List.mem_cons_self, handled⟩
    obtain ⟨text, htext⟩ := hshown e hx
    cases fault.symm.trans htext

/-- **Runs side by side.**  What a handler is asked in a run, and what it answers, does not depend
on whether steps are recorded, as long as they can be. -/
theorem Dialogue.recording {o : Outcome Value} (hc : c.Obeys .runFree) (hh : h.Obeys .runFree)
    (hw : w.Obeys .runFree) (hd : Dialogue ⟨true, n⟩ (Callable.meaning ⟨true, n⟩) c h w t o) :
    ∃ t' o', Dialogue ⟨false, n⟩ (Callable.meaning ⟨false, n⟩) c h w t' o' ∧
      Recording t' o' t o := by
  cases hd with
  | refused required missing =>
    exact ⟨[], _, .refused required missing, .alike (List.forall_mem_nil _) rfl rfl⟩
  | notStarted provided start =>
    have hreply := h.indifferent_reply n hh (k := .start) trivial
    have htold := hreply.told .start true false hw rfl
    obtain ⟨o', start', ho⟩ := start.of_silent (Exchange.silent_of_told htold)
    exact ⟨_, o', .notStarted provided start',
      .alike (List.forall_mem_nil _) (congrArg (fun x => [x]) htold) ho⟩
  | @halted state u xs ys p d o provided start steps halt lost =>
    obtain ⟨v, xs', p', start', steps', hxs, hp⟩ := steps.beside_of_start hc hh hw start
    have hshown : CanBeShown (xs'.filterMap Exchange.handled?) :=
      (handled_of_told (List.tail_eq_of_cons_eq hxs)) ▸ steps.canBeShown
    obtain ⟨ys', d', halt', hnone, hys, hd⟩ | ⟨x, x', q', e, f, u', hstep, rfl, hx, he, hf, hu', rfl⟩
      := halt.beside hh hp
    · obtain ⟨o', lost', ho⟩ := lost.of_silent hd
      refine ⟨_, o', .halted provided start' steps' halt' lost', .alike ?_ ?_ ho⟩
      · rw [List.filterMap_cons_none rfl, List.filterMap_append, handled_of_told hys, hnone,
          List.append_nil]
        exact hshown
      · rw [← List.cons_append, ← List.cons_append, List.map_append, List.map_append, hxs, hys]
    · obtain ⟨zs, o', hd'⟩ := (steps'.append hstep).exists_dialogue provided start'
      cases lost
      have hsplit : ⟨.start, w, .value state v⟩ :: (xs' ++ [x'] ++ zs)
          = (⟨.start, w, .value state v⟩ :: xs') ++ x' :: zs := by
        rw [List.append_assoc, List.cons_append]
        rfl
      refine ⟨_, o', hd', .stopped hsplit ?_
        ((x'.handled?_told.symm.trans (congrArg _ hx)).trans (x.handled?_told.trans he)) hf ?_ ?_⟩
      · rwa [List.filterMap_cons_none rfl]
      · rw [← List.cons_append, List.map_append, List.map_append, hxs, List.map_singleton,
          List.map_singleton, hx]
      · rw [← Outcome.world?_silent, Exchange.silent_of_told hx, Outcome.world?_silent, hu']
        rfl
  | @finished state u u' xs p d o provided start steps halt finish =>
    obtain ⟨-, r, rfl⟩ := halt.of_value
    obtain ⟨v, xs', p', start', steps', hxs, hp⟩ := steps.beside_of_start hc hh hw start
    have hshown : CanBeShown (xs'.filterMap Exchange.handled?) :=
      (handled_of_told (List.tail_eq_of_cons_eq hxs)) ▸ steps.canBeShown
    cases hp with
    | @mk _ _ _ _ v' hv' free =>
      have hreply := h.indifferent_reply n hh (k := .finish d.state) free.state
      have hclosed : (d.closed v').silent = (d.closed u').silent := hv'
      have hfree : (d.closed u').Obeys .runFree := free.world.of_silent rfl
      have htold := hreply.told (.finish d.state) true false hfree hclosed
      obtain ⟨o', finish', ho⟩ := finish.of_silent (Exchange.silent_of_told htold)
      refine ⟨_, o', .finished provided start' steps' .finished finish', .alike ?_ ?_ ho⟩
      · rw [List.filterMap_cons_none rfl, List.filterMap_append]
        exact List.forall_mem_append.mpr ⟨hshown, List.forall_mem_nil _⟩
      · rw [← List.cons_append, ← List.cons_append, List.map_append, List.map_append, hxs]
        exact congrArg (_ ++ [·]) htold

end

/-- **Records of steps are right, and change nothing else unless they cannot be made.**  Of two runs
that differ only in whether steps are recorded, and in which nothing calls for a run, the one with
records has the same dialogue as the other one, told without what happened before each exchange,
and comes to the same but for the events; or an effect is handled that cannot be shown, and then the
run with records fails where the first one would be recorded.  The events of each run are the
account of its dialogue, with the records of its steps or without.  Those are numbered from one
without a gap and show the effects that were handled, and their number is the one that is recorded
at the end. -/
theorem step_records_faithful (n : Nat) {c : Chain} {h : Handler} {w : World}
    (hc : c.Obeys .runFree) (hh : h.Obeys .runFree) (hw : w.Obeys .runFree) :
    let outcome (b : Bool) : Outcome Value := run ⟨b, n⟩ (Callable.meaning ⟨b, n⟩) c h w
    ∃ t : Bool → List Exchange,
      (∀ b, Dialogue ⟨b, n⟩ (Callable.meaning ⟨b, n⟩) c h w (t b) (outcome b)) ∧
      Recording (t false) (outcome false) (t true) (outcome true) ∧
      (∀ b u, (outcome b).world? = some u →
        u.log = w.log ++ account b h Exchange.happened 0 (t b)) ∧
      (CanBeShown ((t false).filterMap Exchange.handled?) → ∀ b,
        account b h Exchange.happened 0 (t false) = account b h Exchange.happened 0 (t true)) ∧
      ∀ b, ∃ opening closing, Opening h opening ∧ Closing ⟨b, n⟩ c (t b) (outcome b) closing ∧
        ∀ b' : Bool, account b' h (fun _ => []) 0 (t b) = opening ++ (if b' then
          stepRecords ((t b).filterMap Exchange.handled?) else []) ++ closing := by
  intro outcome
  obtain ⟨t, o, ht⟩ := exists_dialogue ⟨true, n⟩ (Callable.meaning ⟨true, n⟩) c h w
  obtain ⟨t', o', ht', hrecording⟩ := ht.recording hc hh hw
  obtain rfl : outcome true = o := ht.run_eq
  obtain rfl : outcome false = o' := ht'.run_eq
  have hd (b : Bool) : Dialogue ⟨b, n⟩ (Callable.meaning ⟨b, n⟩) c h w (bif b then t else t')
      (outcome b) := by
    cases b
    · exact ht'
    · exact ht
  exact ⟨fun b => bif b then t else t', hd, hrecording,
    fun b u hu => (hd b).log_eq ((hd b).adds hc hh hw) hu, hrecording.account_eq h,
    fun b => (hd b).records_eq⟩

/-- The later one of two log entries, as it is pending. -/
def laterEntry : Effect := (Effect.of (.log (.int 2))).map .lift

/-- The earlier one, whose chain goes on with the later one. -/
def earlierEntry : Effect :=
  ((Effect.of (.log (.int 1))).map .lift).map
    (.bind (.always (.suspended laterEntry (.single ⟨"log"⟩))))

/-- A chain that makes two log entries. -/
def twoEntries : Chain := .suspended earlierEntry (.single ⟨"log"⟩)

/-- What a collector answers to an entry, if its chain goes on without changing the world. -/
theorem Handler.offer_entry {call : Call} {e : Effect} {id : Nat} {m log next : Value} {w : World}
    (hm : e.request = .log m) (hresume : e.resume call .null w = .value next w) :
    (Handler.collector id).offer call log e w = .value (.handled (addEntry m log) next) w := by
  obtain ⟨r, ss⟩ := e
  cases hm
  have hstep : collectorStep call log ⟨.log m, ss⟩ w = .value (addEntry m log, next) w := by
    show (Effect.resume call ⟨.log m, ss⟩ .null >>= fun v => pure (addEntry m log, v)) w = _
    rw [Action.bind_of_value hresume]
    rfl
  show (collectorStep call log ⟨.log m, ss⟩ >>= fun r => pure (taken r)) w = _
  rw [Action.bind_of_value hstep]
  rfl

/-- The dialogue of a run that records its steps, and the account of it. -/
theorem dialogue_twoEntries : ∃ t u,
    Dialogue ⟨true, 3⟩ (Callable.meaning ⟨true, 3⟩) twoEntries (.collector 0) (.initial "") t
      (.value (.result .null (.list [.int 1, .int 2])) u) ∧
    ∀ b, account b (.collector 0) Exchange.happened 0 t
      = [(Handler.collector 0).startRecord] ++
        (if b then stepRecords [earlierEntry, laterEntry] else []) ++ [finishRecord 2] := by
  have hearlier (call : Call) (w : World) : earlierEntry.resume call .null w
      = .value (.chain (.suspended laterEntry (.single ⟨"log"⟩))) w := by
    rw [earlierEntry, Effect.resume_map, Effect.resume_map, Effect.resume_of]
    rfl
  have hlater (call : Call) (w : World) : laterEntry.resume call .null w
      = .value (.chain (.done .null ∅)) w := by
    rw [laterEntry, Effect.resume_map, Effect.resume_of]
    rfl
  refine ⟨_, _, .finished (fun _ h => h) rfl (.cons (by decide)
    (Handler.offer_entry rfl (hearlier _ _)) rfl (.cons (by decide)
      (Handler.offer_entry rfl (hlater _ _)) rfl (.nil _))) .finished (.value _ _), fun b => ?_⟩
  cases b <;> rfl

/-- Either the two entries are recorded as steps or the run is silent about them; it comes to the
same. -/
theorem step_records_faithful_entries :
    let h : Handler := .collector 0
    twoEntries.Obeys .runFree ∧ h.Obeys .runFree ∧ (World.initial "").Obeys .runFree ∧
    ∃ u u',
      run ⟨true, 3⟩ (Callable.meaning ⟨true, 3⟩) twoEntries h (.initial "")
        = .value (.result .null (.list [.int 1, .int 2])) u ∧
      run ⟨false, 3⟩ (Callable.meaning ⟨false, 3⟩) twoEntries h (.initial "")
        = .value (.result .null (.list [.int 1, .int 2])) u' ∧
      u'.silent = u.silent ∧
      u.log = [h.startRecord] ++ stepRecord 1 earlierEntry ++ stepRecord 2 laterEntry ++
        [finishRecord 2] ∧
      u'.log = [h.startRecord, finishRecord 2] := by
  intro h
  have hc : twoEntries.Obeys .runFree := by
    simp [twoEntries, earlierEntry, laterEntry, Effect.map, Effect.of, Regime.runFree, Regime.free,
      Regime.ofCalls]
  have hh : h.Obeys .runFree := by simp [h]
  have hw := World.obeys_initial .runFree ""
  obtain ⟨t, u, ht, haccount⟩ := dialogue_twoEntries
  obtain ⟨t₁, hd, hrecording, hlog, haccounts, -⟩ := step_records_faithful 3 hc hh hw
  obtain rfl : t = t₁ true := ht.unique (hd true)
  have hrun := ht.run_eq
  change Recording _ _ _ (run _ _ twoEntries (.collector 0) (.initial "")) at hrecording
  rw [hrun] at hrecording
  cases hrecording with
  | alike hshown htold hsilent =>
    obtain ⟨u', hrun', hu'⟩ := Outcome.value_of_silent hsilent rfl
    refine ⟨hc, hh, hw, u, u', hrun, hrun', hu', ?_, ?_⟩
    · rw [hlog true u (congrArg Outcome.world? hrun), haccount]
      rfl
    · rw [hlog false u' (congrArg Outcome.world? hrun'), haccounts hshown, haccount]
      rfl

/-- A chain that stores a value that cannot be shown. -/
def storeUnsorted : Chain := .suspended unsorted (.single ⟨"state"⟩)

/-- With records of its steps the run fails. -/
theorem step_records_unsorted :
    let h : Handler := .store 0 []
    let call (b : Bool) : Call := Callable.meaning ⟨b, 1⟩
    storeUnsorted.Obeys .runFree ∧ h.Obeys .runFree ∧ (World.initial "").Obeys .runFree ∧
      (∃ v u, run ⟨false, 1⟩ (call false) storeUnsorted h (.initial "") = .value v u) ∧
      ∃ u, run ⟨true, 1⟩ (call true) storeUnsorted h (.initial "")
        = .failed (.noText (.notOrdered "str" "int")) u := by
  intro h call
  have hoffer (b : Bool) (w : World) : h.offer (call b) (.frozen []) unsorted w
      = .value (.handled (.frozen [(.text "k", .handler (.store 1
          [(.int 1, .int 0), (.text "a", .int 0)]))]) (.chain (.done .null ∅))) w := by
    show (Effect.resume (call b) _ _ >>= _ >>= _) w = _
    rw [unsorted, Effect.resume_map, Effect.resume_of]
    rfl
  have hprovided : ∀ a, a ∈ storeUnsorted.requires → a ∈ h.capabilities := fun _ ha => ha
  refine ⟨?_, ?_, World.obeys_initial .runFree "", ?_, ?_⟩
  · simp [storeUnsorted, unsorted, Effect.map, Effect.of, Regime.runFree, Regime.free, Regime.ofCalls]
  · simp [h]
  · have hsteps := Advances.cons (s := ⟨false, 1⟩) (n := 0) (r := .single ⟨"state"⟩) (by decide)
      (hoffer false (h.opened (.initial ""))) rfl (.nil _)
    exact ⟨_, _, (Dialogue.finished hprovided rfl hsteps .finished (.value _ _)).run_eq⟩
  · have hhalt := Halts.unrecorded (s := ⟨true, 1⟩) (n := 0) (r := .single ⟨"state"⟩) (by decide)
      (hoffer true (h.opened (.initial ""))) rfl
    exact ⟨_, (Dialogue.halted hprovided rfl (.nil _) hhalt (.failed _ _)).run_eq⟩

end EffectHandlers
