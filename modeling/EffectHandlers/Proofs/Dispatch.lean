/-
EffectHandlers/Proofs/Dispatch.lean

A combination of handlers as a flat list.

The flat interpreter keeps one state for each handler of a list.  It starts
the handlers from left to right, offers an effect to each in turn until one
takes it, replaces the state of that one only, and finishes them from left
to right.  It knows of no pairs.

The states of a combination are right-nested pairs; `nestStates` reads a
list of states as such a value.  All of what follows is by induction on how
the combination was put together (`Nested`), and for a run by induction on
the number of steps.

Main results: a combination offers an effect as the flat interpreter does
(`Nested.offer_eq`), and what this means for each way in which an offer can
end (`Nested.offer_taken_iff`, `Nested.offer_left_iff`,
`Nested.offer_failed_iff`); `combine_eq_flat` puts them together with the
start, the finish and the run of a combination.
-/
import EffectHandlers.Handler.Nest
import EffectHandlers.Run

namespace EffectHandlers

/-! ### The flat interpreter -/

namespace Flat

section

variable (call : Call)

/-- The capabilities that one of the handlers declares. -/
def provided (hs : List Handler) : CapabilitySet :=
  hs.foldr (fun h s => h.capabilities ∪ s) ∅

/-- Start the handlers, from left to right. -/
def start (hs : List Handler) : Action (List Value) := hs.mapM (Handler.start call)

/-- What became of an offer: a handler took it, at a place counted from the first, with its new
state and the next chain; or all of them left it, the last one with an answer. -/
inductive Offered
  | taken (place : Nat) (state next : Value)
  | left (answer : Value)

/-- What became of the same offer, counted from one handler before. -/
def Offered.after : Offered → Offered
  | .taken place state next => .taken (place + 1) state next
  | .left answer => .left answer

/-- Offer an effect to handlers in turn, each in its own state, until one takes it. -/
def offer (e : Effect) : List (Handler × Value) → Action Offered
  | [] => pure (.left .declined)
  | (h, s) :: rest => do
    match ← h.offer call s e with
    | .handled t next => return .taken 0 t next
    | answer => if rest.isEmpty then return .left answer else return (← offer e rest).after

/-- Finish the handlers in their states, from left to right. -/
def finish (slots : List (Handler × Value)) : Action (List Value) :=
  slots.mapM fun slot => slot.1.finish call slot.2

/-- Where a flat drive ended: the value, the states of the handlers and the number of steps. -/
structure Drive where
  value : Value
  states : List Value
  steps : Nat

/-- Drive a chain against handlers from their states. -/
def drive (s : Settings) (hs : List Handler) : Nat → Nat → List Value → Value → Action Drive :=
  fun fuel steps states next =>
    match next with
    | .chain (.done v _) => pure ⟨v, states, steps⟩
    | .chain (.suspended e _) =>
      match fuel with
      | 0 => Action.exhaust
      | fuel + 1 => do
        match ← offer call e (hs.zip states) with
        | .taken place state next =>
          s.noteStep (steps + 1) e
          drive s hs fuel (steps + 1) (states.set place state) next
        | .left _ => failUnhandled steps e
    | other => Action.fail (.notChainStep other.typeName)
termination_by structural fuel => fuel

/-- How a combination of handlers is shown. -/
def form : List Handler → Except TextFault String
  | [] => .ok ""
  | [h] => h.form
  | h :: hs => do return "CombinedHandler" ++ bracketed "(" ")" [← h.form, ← form hs]

/-- A combination of handlers in a record. -/
def written (hs : List Handler) : String := orUnprintable (form hs)

end

end Flat

/-- States or results as right-nested pairs. -/
def nestStates : List Value → Value
  | [] => .null
  | [s] => s
  | s :: ss => .tuple [s, nestStates ss]

namespace Flat

/-- The answer to an offer, as a combination gives it: the states are nested, and an effect that
several handlers left is declined. -/
def Offered.answer (states : List Value) : Offered → Value
  | .taken place state next => .handled (nestStates (states.set place state)) next
  | .left answer => if states.length = 1 then answer else .declined

/-- Run a chain against a list of handlers. -/
def run (s : Settings) (call : Call) (c : Chain) (hs : List Handler) : Action Value := do
  let missing := c.requires \ provided hs
  if missing.isEmpty then
    let states ← start call hs
    Action.note .debug ("Run started with " ++ written hs)
    let d ← drive call s hs s.maxSteps 0 states (.chain c)
    Action.note .debug ("Run finished after " ++ toString d.steps ++ " step(s)")
    return .result d.value (nestStates (← finish call (hs.zip d.states)))
  else Action.fail (.refused (.missingCapability missing))

end Flat

theorem nestStates_cons (s : Value) {ss : List Value} (h : ss ≠ []) :
    nestStates (s :: ss) = .tuple [s, nestStates ss] := by
  cases ss with
  | nil => exact absurd rfl h
  | cons t ss => rfl

/-! ### Handlers that leave an effect -/

/-- Whether a value says that an effect was handled. -/
def Value.isHandled : Value → Bool
  | .handled _ _ => true
  | _ => false

/-- Every handler of a list is offered the effect in its own state, in turn, and none of them
takes it. -/
inductive Leave (call : Call) (e : Effect) : List (Handler × Value) → World → World → Prop
  | nil (w : World) : Leave call e [] w w
  | cons {h : Handler} {s v : Value} {rest : List (Handler × Value)} {w w' w'' : World}
      (first : h.offer call s e w = .value v w') (isLeft : v.isHandled = false)
      (others : Leave call e rest w' w'') : Leave call e ((h, s) :: rest) w w''

namespace Flat

variable {call : Call} {e : Effect} {h : Handler} {s : Value} {rest slots : List (Handler × Value)}
  {w w' : World}

/-- What comes after the answer of one handler. -/
def afterAnswer (call : Call) (e : Effect) (rest : List (Handler × Value)) :
    Value → Action Offered
  | .handled t next => pure (.taken 0 t next)
  | answer =>
    if rest.isEmpty then pure (.left answer) else offer call e rest >>= fun o => pure o.after

theorem offer_cons (h : Handler) (s : Value) (rest : List (Handler × Value)) :
    offer call e ((h, s) :: rest) = h.offer call s e >>= afterAnswer call e rest := by
  rw [offer]
  refine congrArg (h.offer call s e >>= ·) (funext fun v => ?_)
  cases v <;> rfl

theorem afterAnswer_of_left {v : Value} (hv : v.isHandled = false) :
    afterAnswer call e rest v
      = if rest.isEmpty then pure (.left v) else offer call e rest >>= fun o => pure o.after := by
  cases v with
  | handled t next => cases hv
  | _ => rfl

theorem eq_handled_of_isHandled {v : Value} (hv : v.isHandled = true) :
    ∃ t next, v = .handled t next := by
  cases v with
  | handled t next => exact ⟨t, next, rfl⟩
  | _ => cases hv

/-- What an offer can come to among a number of handlers. -/
def Offered.Sound (n : Nat) : Offered → Prop
  | .taken place _ _ => place < n
  | .left answer => answer.isHandled = false

theorem offer_sound (hne : slots ≠ []) {o : Offered} (ho : offer call e slots w = .value o w') :
    o.Sound slots.length := by
  induction slots generalizing o w w' with
  | nil => exact absurd rfl hne
  | cons slot rest ih =>
    obtain ⟨h, s⟩ := slot
    rw [offer_cons] at ho
    obtain ⟨v, w₁, -, ho⟩ := Action.bind_eq_value.mp ho
    cases hv : v.isHandled with
    | true =>
      obtain ⟨t, next, rfl⟩ := eq_handled_of_isHandled hv
      obtain ⟨rfl, -⟩ := Action.pure_eq_value.mp ho
      exact Nat.zero_lt_succ _
    | false =>
      rw [afterAnswer_of_left hv] at ho
      split at ho
      · obtain ⟨rfl, -⟩ := Action.pure_eq_value.mp ho
        exact hv
      · rename_i hrest
        obtain ⟨o', w₂, ho', ho⟩ := Action.bind_eq_value.mp ho
        obtain ⟨rfl, -⟩ := Action.pure_eq_value.mp ho
        have hsound := ih (fun h0 => hrest (List.isEmpty_iff.mpr h0)) ho'
        cases o' with
        | taken place t next => exact Nat.succ_lt_succ hsound
        | left answer => exact hsound

theorem answer_isHandled (states : List Value) {answer : Value}
    (hleft : answer.isHandled = false) : ((Offered.left answer).answer states).isHandled = false := by
  show (if states.length = 1 then answer else .declined).isHandled = false
  split
  · exact hleft
  · rfl

/-- A handler that leaves an effect passes it to the ones after it. -/
theorem offer_of_left {v : Value} (hv : v.isHandled = false)
    (hfirst : h.offer call s e w = .value v w') (hrest : rest ≠ []) :
    offer call e ((h, s) :: rest) w = (offer call e rest >>= fun o => pure o.after) w' := by
  rw [offer_cons, Action.bind_of_value hfirst, afterAnswer_of_left hv, if_neg (by simpa using hrest)]

/-- An effect is taken at a place exactly if the handlers before that place leave it in turn and
the one there handles it. -/
theorem offer_taken_iff {i : Nat} {t next : Value} :
    offer call e slots w = .value (.taken i t next) w' ↔
      ∃ h s u, slots[i]? = some (h, s) ∧ Leave call e (slots.take i) w u ∧
        h.offer call s e u = .value (.handled t next) w' := by
  induction slots generalizing i w with
  | nil => simp [offer, Action.pure_eq_value]
  | cons slot rest ih =>
    obtain ⟨h, s⟩ := slot
    constructor
    · intro ho
      rw [offer_cons] at ho
      obtain ⟨v, w₁, hfirst, ho⟩ := Action.bind_eq_value.mp ho
      cases hv : v.isHandled with
      | true =>
        obtain ⟨t', next', rfl⟩ := eq_handled_of_isHandled hv
        obtain ⟨ho, rfl⟩ := Action.pure_eq_value.mp ho
        cases ho
        exact ⟨h, s, w, rfl, .nil w, hfirst⟩
      | false =>
        rw [afterAnswer_of_left hv] at ho
        split at ho
        · obtain ⟨ho, -⟩ := Action.pure_eq_value.mp ho
          cases ho
        · obtain ⟨o', w₂, ho', ho⟩ := Action.bind_eq_value.mp ho
          obtain ⟨ho, rfl⟩ := Action.pure_eq_value.mp ho
          cases o' with
          | left answer => cases ho
          | taken place t' next' =>
            cases ho
            obtain ⟨h', s', u, hslot, hleave, htaken⟩ := ih.mp ho'
            exact ⟨h', s', u, hslot, .cons hfirst hv hleave, htaken⟩
    · rintro ⟨h', s', u, hslot, hleave, htaken⟩
      cases i with
      | zero =>
        cases hslot
        cases hleave
        rw [offer_cons, Action.bind_of_value htaken]
        rfl
      | succ i =>
        cases hleave with
        | cons hfirst hv hleave =>
          have hrest : rest ≠ [] := by
            rintro rfl
            cases hslot
          rw [offer_of_left hv hfirst hrest,
            Action.bind_of_value (ih.mpr ⟨h', s', u, hslot, hleave, htaken⟩)]
          rfl

/-- An offer fails exactly if the handlers before some place leave the effect in turn and the one
there fails. -/
theorem offer_failed_iff {f : Failure} :
    offer call e slots w = .failed f w' ↔
      ∃ i h s u, slots[i]? = some (h, s) ∧ Leave call e (slots.take i) w u ∧
        h.offer call s e u = .failed f w' := by
  induction slots generalizing w with
  | nil => simp [offer, Action.pure_apply]
  | cons slot rest ih =>
    obtain ⟨h, s⟩ := slot
    constructor
    · intro ho
      rw [offer_cons] at ho
      rcases Action.bind_eq_failed.mp ho with hfirst | ⟨v, w₁, hfirst, ho⟩
      · exact ⟨0, h, s, w, rfl, .nil w, hfirst⟩
      · cases hv : v.isHandled with
        | true =>
          obtain ⟨t', next', rfl⟩ := eq_handled_of_isHandled hv
          cases ho
        | false =>
          rw [afterAnswer_of_left hv] at ho
          split at ho
          · cases ho
          · rcases Action.bind_eq_failed.mp ho with ho' | ⟨_, _, _, ho'⟩
            · obtain ⟨i, h', s', u, hslot, hleave, hfailed⟩ := ih.mp ho'
              exact ⟨i + 1, h', s', u, hslot, .cons hfirst hv hleave, hfailed⟩
            · cases ho'
    · rintro ⟨i, h', s', u, hslot, hleave, hfailed⟩
      cases i with
      | zero =>
        cases hslot
        cases hleave
        rw [offer_cons, Action.bind_apply, hfailed]
      | succ i =>
        cases hleave with
        | cons hfirst hv hleave =>
          have hrest : rest ≠ [] := by
            rintro rfl
            cases hslot
          rw [offer_of_left hv hfirst hrest, Action.bind_apply,
            ih.mpr ⟨i, h', s', u, hslot, hleave, hfailed⟩]

/-- An effect is left exactly if every handler leaves it in turn. -/
theorem offer_left_iff (hne : slots ≠ []) :
    (∃ answer, offer call e slots w = .value (.left answer) w') ↔ Leave call e slots w w' := by
  induction slots generalizing w with
  | nil => exact absurd rfl hne
  | cons slot rest ih =>
    obtain ⟨h, s⟩ := slot
    constructor
    · rintro ⟨answer, ho⟩
      rw [offer_cons] at ho
      obtain ⟨v, w₁, hfirst, ho⟩ := Action.bind_eq_value.mp ho
      cases hv : v.isHandled with
      | true =>
        obtain ⟨t', next', rfl⟩ := eq_handled_of_isHandled hv
        obtain ⟨ho, -⟩ := Action.pure_eq_value.mp ho
        cases ho
      | false =>
        rw [afterAnswer_of_left hv] at ho
        split at ho
        · rename_i hrest
          obtain ⟨-, rfl⟩ := Action.pure_eq_value.mp ho
          rw [List.isEmpty_iff.mp hrest]
          exact .cons hfirst hv (.nil _)
        · rename_i hrest
          obtain ⟨o', w₂, ho', ho⟩ := Action.bind_eq_value.mp ho
          obtain ⟨ho, rfl⟩ := Action.pure_eq_value.mp ho
          cases o' with
          | taken place t' next' => cases ho
          | left answer' =>
            exact .cons hfirst hv ((ih (by simpa using hrest)).mp ⟨answer', ho'⟩)
    · intro hleave
      cases hleave with
      | @cons _ _ v _ _ w₁ _ hfirst hv hleave =>
        cases rest with
        | nil =>
          cases hleave
          refine ⟨v, ?_⟩
          rw [offer_cons, Action.bind_of_value hfirst, afterAnswer_of_left hv]
          rfl
        | cons slot' rest =>
          have hrest : slot' :: rest ≠ [] := List.cons_ne_nil _ _
          obtain ⟨answer, ho⟩ := (ih hrest).mpr hleave
          exact ⟨answer, by rw [offer_of_left hv hfirst hrest, Action.bind_of_value ho]; rfl⟩

end Flat

/-! ### Pairs -/

namespace Handler

variable {call : Call} {e : Effect}

/-- What a pair makes of the answer of its second handler, in the state of the first. -/
def pairSecond (s : Value) : Value → Action Value
  | .handled t next => pure (.handled (.tuple [s, t]) next)
  | _ => pure .declined

/-- What a pair makes of the answer of its first handler, in the state of the second. -/
def pairFirst (call : Call) (e : Effect) (second : Handler) (s t : Value) : Value → Action Value
  | .handled s next => pure (.handled (.tuple [s, t]) next)
  | _ => second.offer call t e >>= pairSecond s

theorem offer_pair (id : Nat) (first second : Handler) (s t : Value) :
    (Handler.pair id first second).offer call (.tuple [s, t]) e
      = first.offer call s e >>= pairFirst call e second s t := by
  have hsecond : ∀ u, (match u with
      | .handled t next => pure (.handled (.tuple [s, t]) next)
      | _ => pure .declined) = pairSecond s u := by
    intro u
    cases u <;> rfl
  rw [offer, Value.unpackTwo_tuple]
  refine congrArg (first.offer call s e >>= ·) (funext fun v => ?_)
  cases v with
  | handled s next => rfl
  | _ => exact congrArg (second.offer call t e >>= ·) (funext hsecond)

theorem pairFirst_of_left {second : Handler} {s t v : Value} (hv : v.isHandled = false) :
    pairFirst call e second s t v = second.offer call t e >>= pairSecond s := by
  cases v with
  | handled s next => cases hv
  | _ => rfl

theorem pairSecond_of_left {s v : Value} (hv : v.isHandled = false) :
    pairSecond s v = pure .declined := by
  cases v with
  | handled t next => cases hv
  | _ => rfl

theorem finish_pair (id : Nat) (first second : Handler) (s t : Value) :
    (Handler.pair id first second).finish call (.tuple [s, t])
      = first.finish call s >>= fun a => second.finish call t >>= fun b =>
        pure (.tuple [a, b]) := by
  rw [finish, Value.unpackTwo_tuple]
  rfl

end Handler

/-! ### How a combination is put together -/

/-- A handler is put together from a list, as right-nested pairs. -/
inductive Nested : List Handler → Handler → Prop
  | one (h : Handler) : Nested [h] h
  | pair (id : Nat) (h : Handler) {hs : List Handler} {c : Handler} (rest : Nested hs c) :
      Nested (h :: hs) (.pair id h c)

theorem Handler.nested_of_nest {hs : List Handler} {c : Handler} {w w' : World}
    (h : Handler.nest hs w = .value c w') : Nested hs c := by
  induction hs generalizing c w w' with
  | nil => cases h
  | cons x hs ih =>
    rcases hs with _ | ⟨y, hs⟩
    · obtain ⟨rfl, -⟩ := Action.pure_eq_value.mp h
      exact .one x
    · obtain ⟨rest, w₁, hrest, hpair⟩ := Action.bind_eq_value.mp h
      unfold Handler.pairOf at hpair
      split at hpair
      · obtain ⟨id, w₂, -, hp⟩ := Action.bind_eq_value.mp hpair
        obtain ⟨rfl, -⟩ := Action.pure_eq_value.mp hp
        exact .pair id x (ih hrest)
      · cases hpair

theorem Handler.nested_of_combine {hs : List Handler} {c : Handler} {w w' : World}
    (h : Handler.combine hs w = .value c w') : Nested hs c := by
  obtain ⟨n, w₁, hn, h⟩ := Action.bind_eq_value.mp h
  obtain ⟨_, w₂, -, h⟩ := Action.bind_eq_value.mp h
  obtain ⟨rfl, -⟩ := Action.pure_eq_value.mp h
  exact Handler.nested_of_nest hn

namespace Nested

variable {call : Call} {e : Effect} {hs : List Handler} {c : Handler}

theorem ne_nil (hn : Nested hs c) : hs ≠ [] := by
  cases hn <;> exact List.cons_ne_nil _ _

/-- The components of a combination are those of its parts. -/
theorem leaves_eq (hn : Nested hs c) : c.leaves = hs.flatMap Handler.leaves := by
  induction hn with
  | one h => simp
  | pair id h rest ih =>
    rw [Handler.leaves, ih]
    rfl

theorem capabilities_eq (hn : Nested hs c) : c.capabilities = Flat.provided hs := by
  induction hn with
  | one h =>
    apply CapabilitySet.ext
    intro x
    simp [Flat.provided]
  | pair id h rest ih => exact congrArg (h.capabilities ∪ ·) ih

theorem form_eq (hn : Nested hs c) : c.form = Flat.form hs := by
  induction hn with
  | one h => rfl
  | @pair id h hs c rest ih =>
    have hpair : (Handler.pair id h c).form
        = h.form >>= fun t => c.form >>= fun t' =>
          pure ("CombinedHandler" ++ bracketed "(" ")" [t, t']) := rfl
    rw [hpair, ih]
    cases rest <;> rfl

theorem written_eq (hn : Nested hs c) : c.written = Flat.written hs :=
  congrArg orUnprintable hn.form_eq

/-- There is a state for every handler, so there is one. -/
theorem states_ne_nil (hn : Nested hs c) {ss : List Value} (hlen : ss.length = hs.length) :
    ss ≠ [] := by
  rintro rfl
  exact hn.ne_nil (List.length_eq_zero_iff.mp hlen.symm)

theorem zip_ne_nil (hn : Nested hs c) {ss : List Value} (hlen : ss.length = hs.length) :
    hs.zip ss ≠ [] := by
  intro h
  rcases List.zip_eq_nil_iff.mp h with h | h
  · exact hn.ne_nil h
  · exact hn.states_ne_nil hlen h

/-! ### Start and finish -/

/-- Actions made one after the other for a list with items give a list with items. -/
theorem nestStates_mapM {α : Type} (f : α → Action Value) (s : Value) {xs : List α}
    (h : xs ≠ []) :
    (xs.mapM f >>= fun ss => pure (nestStates (s :: ss)))
      = xs.mapM f >>= fun ss => pure (.tuple [s, nestStates ss]) := by
  cases xs with
  | nil => exact absurd rfl h
  | cons x xs =>
    simp only [List.mapM_cons, bind_assoc, pure_bind]
    rfl

theorem start_eq (hn : Nested hs c) :
    c.start call = Flat.start call hs >>= fun ss => pure (nestStates ss) := by
  unfold Flat.start
  induction hn with
  | one h => simp only [List.mapM_cons, List.mapM_nil, bind_assoc, pure_bind, nestStates, bind_pure]
  | pair id h rest ih =>
    simp only [Handler.start, List.mapM_cons, bind_assoc, pure_bind, ih,
      nestStates_mapM (Handler.start call) _ rest.ne_nil]

theorem finish_eq (hn : Nested hs c) {ss : List Value} (hlen : ss.length = hs.length) :
    c.finish call (nestStates ss)
      = Flat.finish call (hs.zip ss) >>= fun outs => pure (nestStates outs) := by
  unfold Flat.finish
  induction hn generalizing ss with
  | one h =>
    obtain ⟨s, rfl⟩ := List.length_eq_one_iff.mp hlen
    simp only [nestStates, List.zip_cons_cons, List.zip_nil_left, List.mapM_cons, List.mapM_nil,
      bind_assoc, pure_bind, bind_pure]
  | @pair id h hs c rest ih =>
    obtain ⟨s, ss, rfl⟩ := List.exists_cons_of_length_eq_add_one hlen
    have hlen' : ss.length = hs.length := Nat.succ.inj hlen
    rw [nestStates_cons s (rest.states_ne_nil hlen'), Handler.finish_pair]
    simp only [List.zip_cons_cons, List.mapM_cons, bind_assoc, pure_bind, ih hlen',
      nestStates_mapM _ _ (rest.zip_ne_nil hlen')]

/-! ### Offers -/

theorem offer_eq (hn : Nested hs c) {ss : List Value} (hlen : ss.length = hs.length) :
    c.offer call (nestStates ss) e
      = Flat.offer call e (hs.zip ss) >>= fun o => pure (o.answer ss) := by
  induction hn generalizing ss with
  | one h =>
    obtain ⟨s, rfl⟩ := List.length_eq_one_iff.mp hlen
    rw [List.zip_cons_cons, Flat.offer_cons, bind_assoc, nestStates]
    refine (bind_pure _).symm.trans (congrArg (h.offer call s e >>= ·) (funext fun v => ?_))
    cases v <;> rfl
  | @pair id h hs c rest ih =>
    obtain ⟨s, ss, rfl⟩ := List.exists_cons_of_length_eq_add_one hlen
    have hlen' : ss.length = hs.length := Nat.succ.inj hlen
    have hss := rest.states_ne_nil hlen'
    have hzip := rest.zip_ne_nil hlen'
    rw [nestStates_cons s hss, Handler.offer_pair, List.zip_cons_cons, Flat.offer_cons, bind_assoc]
    refine congrArg (h.offer call s e >>= ·) (funext fun v => ?_)
    cases hv : v.isHandled with
    | true =>
      obtain ⟨t, next, rfl⟩ := Flat.eq_handled_of_isHandled hv
      show pure (Value.handled (.tuple [t, nestStates ss]) next)
        = (pure (Value.handled (nestStates (t :: ss)) next) : Action Value)
      rw [nestStates_cons t hss]
    | false =>
      rw [Handler.pairFirst_of_left hv, Flat.afterAnswer_of_left hv, if_neg (by simpa using hzip),
        ih hlen', bind_assoc, bind_assoc]
      -- The offer leaves only what is not handled, which the pair declines.
      funext w
      refine Action.bind_congr_of_value fun o w' ho => ?_
      have hsound := Flat.offer_sound hzip ho
      cases o with
      | taken place t next =>
        have hset : ss.set place t ≠ [] := by simpa using hss
        simp only [pure_bind, Flat.Offered.after, Flat.Offered.answer, Handler.pairSecond,
          List.set_cons_succ, nestStates_cons s hset]
      | left answer =>
        have hlong : ¬ (s :: ss).length = 1 := by simpa using hss
        rw [pure_bind, pure_bind, Handler.pairSecond_of_left (Flat.answer_isHandled ss hsound)]
        exact congrArg (fun v => (pure v : Action Value) w') (if_neg hlong).symm

/-! What an offer to a combination comes to. -/

theorem offer_taken_iff (hn : Nested hs c) {ss : List Value} (hlen : ss.length = hs.length)
    {w w' : World} {state next : Value} :
    c.offer call (nestStates ss) e w = .value (.handled state next) w' ↔
      ∃ i h s t u, hs[i]? = some h ∧ ss[i]? = some s ∧
        Leave call e ((hs.zip ss).take i) w u ∧
        h.offer call s e u = .value (.handled t next) w' ∧ state = nestStates (ss.set i t) := by
  rw [hn.offer_eq hlen]
  constructor
  · intro ho
    obtain ⟨o, w₁, hflat, ho⟩ := Action.bind_eq_value.mp ho
    obtain ⟨hanswer, rfl⟩ := Action.pure_eq_value.mp ho
    cases o with
    | taken i t n =>
      cases hanswer
      obtain ⟨h, s, u, hslot, hleave, htaken⟩ := Flat.offer_taken_iff.mp hflat
      obtain ⟨hh, hs'⟩ := List.getElem?_zip_eq_some.mp hslot
      exact ⟨i, h, s, t, u, hh, hs', hleave, htaken, rfl⟩
    | left answer =>
      have hleft := Flat.answer_isHandled ss (Flat.offer_sound (hn.zip_ne_nil hlen) hflat)
      rw [hanswer] at hleft
      cases hleft
  · rintro ⟨i, h, s, t, u, hh, hs', hleave, htaken, rfl⟩
    have hslot : (hs.zip ss)[i]? = some (h, s) := List.getElem?_zip_eq_some.mpr ⟨hh, hs'⟩
    rw [Action.bind_of_value (Flat.offer_taken_iff.mpr ⟨h, s, u, hslot, hleave, htaken⟩)]
    rfl

theorem offer_failed_iff (hn : Nested hs c) {ss : List Value} (hlen : ss.length = hs.length)
    {w w' : World} {f : Failure} :
    c.offer call (nestStates ss) e w = .failed f w' ↔
      ∃ i h s u, hs[i]? = some h ∧ ss[i]? = some s ∧
        Leave call e ((hs.zip ss).take i) w u ∧ h.offer call s e u = .failed f w' := by
  rw [hn.offer_eq hlen]
  constructor
  · intro ho
    rcases Action.bind_eq_failed.mp ho with hflat | ⟨_, _, _, ho⟩
    · obtain ⟨i, h, s, u, hslot, hleave, hfailed⟩ := Flat.offer_failed_iff.mp hflat
      obtain ⟨hh, hs'⟩ := List.getElem?_zip_eq_some.mp hslot
      exact ⟨i, h, s, u, hh, hs', hleave, hfailed⟩
    · cases ho
  · rintro ⟨i, h, s, u, hh, hs', hleave, hfailed⟩
    have hslot : (hs.zip ss)[i]? = some (h, s) := List.getElem?_zip_eq_some.mpr ⟨hh, hs'⟩
    rw [Action.bind_apply, Flat.offer_failed_iff.mpr ⟨i, h, s, u, hslot, hleave, hfailed⟩]

theorem offer_left_iff (hn : Nested hs c) {ss : List Value} (hlen : ss.length = hs.length)
    {w w' : World} :
    (∃ answer, c.offer call (nestStates ss) e w = .value answer w' ∧ answer.isHandled = false) ↔
      Leave call e (hs.zip ss) w w' := by
  rw [hn.offer_eq hlen, ← Flat.offer_left_iff (hn.zip_ne_nil hlen)]
  constructor
  · rintro ⟨answer, ho, hleft⟩
    obtain ⟨o, w₁, hflat, ho⟩ := Action.bind_eq_value.mp ho
    obtain ⟨rfl, rfl⟩ := Action.pure_eq_value.mp ho
    cases o with
    | taken i t n => cases hleft
    | left answer => exact ⟨answer, hflat⟩
  · rintro ⟨answer, hflat⟩
    refine ⟨(Flat.Offered.left answer).answer ss, ?_, ?_⟩
    · rw [Action.bind_of_value hflat]
      rfl
    · exact Flat.answer_isHandled ss (Flat.offer_sound (hn.zip_ne_nil hlen) hflat)

/-- Several handlers decline what they do not handle. -/
theorem offer_declined (hn : Nested hs c) {ss : List Value} (hlen : ss.length = hs.length)
    (htwo : 2 ≤ hs.length) {w w' : World} {answer : Value}
    (ho : c.offer call (nestStates ss) e w = .value answer w') (hleft : answer.isHandled = false) :
    answer = .declined := by
  rw [hn.offer_eq hlen] at ho
  obtain ⟨o, w₁, -, ho⟩ := Action.bind_eq_value.mp ho
  obtain ⟨rfl, -⟩ := Action.pure_eq_value.mp ho
  cases o with
  | taken i t n => cases hleft
  | left answer => exact if_neg (by omega)

/-! ### Runs -/

/-- A drive against a combination is a drive against its handlers: every step is an offer, and
the next state of the combination is the list of the next states. -/
theorem drive_eq (hn : Nested hs c) (s : Settings) (fuel steps : Nat) {ss : List Value}
    (hlen : ss.length = hs.length) (next : Value) :
    drive s (c.offer call) fuel steps (nestStates ss) next
      = Flat.drive call s hs fuel steps ss next >>= fun d =>
        pure ⟨d.value, nestStates d.states, d.steps⟩ := by
  induction fuel generalizing steps ss next with
  | zero =>
    cases next with
    | chain c => cases c <;> rfl
    | _ => rfl
  | succ fuel ih =>
    cases next with
    | chain c =>
      cases c with
      | done v r => rfl
      | suspended e r =>
        rw [drive_suspended, hn.offer_eq hlen, Flat.drive, bind_assoc, bind_assoc]
        funext w
        refine Action.bind_congr_of_value fun o w' ho => ?_
        rw [pure_bind]
        cases o with
        | taken place state next =>
          have hset : (ss.set place state).length = hs.length := by simpa using hlen
          show (s.noteStep (steps + 1) e >>= fun _ =>
            EffectHandlers.drive s _ fuel (steps + 1) (nestStates (ss.set place state)) next) w' = _
          rw [bind_assoc]
          exact congrFun (congrArg (s.noteStep (steps + 1) e >>= ·)
            (funext fun _ => ih (steps + 1) hset next)) w'
        | left answer =>
          have hleft := Flat.answer_isHandled ss (Flat.offer_sound (hn.zip_ne_nil hlen) ho)
          generalize (Flat.Offered.left answer).answer ss = v at hleft
          cases v with
          | handled t next => cases hleft
          | _ => exact congrFun (failUnhandled_bind steps e _).symm w'
    | _ => rfl

end Nested

theorem Flat.start_length {call : Call} {hs : List Handler} {ss : List Value} {w w' : World}
    (h : Flat.start call hs w = .value ss w') : ss.length = hs.length := by
  unfold Flat.start at h
  induction hs generalizing ss w with
  | nil =>
    obtain ⟨rfl, -⟩ := Action.pure_eq_value.mp h
    rfl
  | cons x hs ih =>
    rw [List.mapM_cons] at h
    obtain ⟨s, w₁, -, h⟩ := Action.bind_eq_value.mp h
    obtain ⟨rest, w₂, hrest, h⟩ := Action.bind_eq_value.mp h
    obtain ⟨rfl, rfl⟩ := Action.pure_eq_value.mp h
    exact congrArg (· + 1) (ih hrest)

/-- A flat drive keeps one state for each handler. -/
theorem Flat.drive_length {call : Call} {s : Settings} {hs : List Handler} {fuel steps : Nat}
    {ss : List Value} {next : Value} {d : Flat.Drive} {w w' : World}
    (h : Flat.drive call s hs fuel steps ss next w = .value d w') :
    d.states.length = ss.length := by
  induction fuel generalizing steps ss next w with
  | zero =>
    cases next with
    | chain c =>
      cases c with
      | done v r =>
        obtain ⟨rfl, -⟩ := Action.pure_eq_value.mp h
        rfl
      | suspended e r => cases h
    | _ => cases h
  | succ fuel ih =>
    cases next with
    | chain c =>
      cases c with
      | done v r =>
        obtain ⟨rfl, -⟩ := Action.pure_eq_value.mp h
        rfl
      | suspended e r =>
        rw [Flat.drive] at h
        obtain ⟨o, w₁, -, h⟩ := Action.bind_eq_value.mp h
        cases o with
        | taken place state next =>
          obtain ⟨_, w₂, -, h⟩ := Action.bind_eq_value.mp h
          rw [ih h, List.length_set]
        | left answer =>
          obtain ⟨_, w₂, -, h⟩ := Action.bind_eq_value.mp h
          cases h
    | _ => cases h

theorem Nested.run_eq {hs : List Handler} {c : Handler} (hn : Nested hs c) (s : Settings)
    (call : Call) (ch : Chain) : run s call ch c = Flat.run s call ch hs := by
  unfold run runBy checkProvided Flat.run
  rw [hn.capabilities_eq]
  dsimp only
  split
  · unfold openRun closeRun
    rw [hn.start_eq, hn.written_eq, pure_bind]
    simp only [bind_assoc, pure_bind]
    funext w
    refine Action.bind_congr_of_value fun ss w₁ hss => ?_
    have hlen := Flat.start_length hss
    refine Action.bind_congr_of_value fun _ w₂ _ => ?_
    rw [hn.drive_eq s s.maxSteps 0 hlen, bind_assoc]
    refine Action.bind_congr_of_value fun d w₃ hd => ?_
    have hlen' : d.states.length = hs.length := (Flat.drive_length hd).trans hlen
    rw [pure_bind, hn.finish_eq hlen', bind_assoc]
    simp only [pure_bind]
  · rfl

/-- **A combination of handlers is the flat list of them.**  It starts and finishes them from
left to right.  An effect is offered to each in turn, in its own state, up to the first one that
handles it or fails: its failure is the failure of the offer, and if it handles the effect, then
only its state is replaced.  The effect is left exactly if all of them leave it.  So a run
against the combination is a run against the list. -/
theorem combine_eq_flat {hs : List Handler} {c : Handler} {w₀ w₁ : World}
    (hc : Handler.combine hs w₀ = .value c w₁) (call : Call) :
    (c.start call = Flat.start call hs >>= fun ss => pure (nestStates ss)) ∧
    (∀ (ss : List Value) (e : Effect), ss.length = hs.length →
      (∀ w w' state next,
        c.offer call (nestStates ss) e w = .value (.handled state next) w' ↔
          ∃ i h s t u, hs[i]? = some h ∧ ss[i]? = some s ∧
            Leave call e ((hs.zip ss).take i) w u ∧
            h.offer call s e u = .value (.handled t next) w' ∧
            state = nestStates (ss.set i t)) ∧
      (∀ w w' f,
        c.offer call (nestStates ss) e w = .failed f w' ↔
          ∃ i h s u, hs[i]? = some h ∧ ss[i]? = some s ∧
            Leave call e ((hs.zip ss).take i) w u ∧ h.offer call s e u = .failed f w') ∧
      (∀ w w',
        (∃ answer, c.offer call (nestStates ss) e w = .value answer w' ∧
            answer.isHandled = false) ↔
          Leave call e (hs.zip ss) w w') ∧
      (2 ≤ hs.length → ∀ w w' answer,
        c.offer call (nestStates ss) e w = .value answer w' → answer.isHandled = false →
          answer = .declined)) ∧
    (∀ ss : List Value, ss.length = hs.length →
      c.finish call (nestStates ss)
        = Flat.finish call (hs.zip ss) >>= fun outs => pure (nestStates outs)) ∧
    (∀ (s : Settings) (ch : Chain), run s call ch c = Flat.run s call ch hs) := by
  have hn : Nested hs c := Handler.nested_of_combine hc
  refine ⟨hn.start_eq, ?_, fun ss hlen => hn.finish_eq hlen, fun s ch => hn.run_eq s call ch⟩
  intro ss e hlen
  refine ⟨fun w w' state next => hn.offer_taken_iff hlen, fun w w' f => hn.offer_failed_iff hlen,
    fun w w' => hn.offer_left_iff hlen, ?_⟩
  intro htwo w w' answer ho hleft
  exact hn.offer_declined hlen htwo ho hleft

/-- A request that the first two of three handlers leave is taken by the third, in its slot. -/
theorem combine_eq_flat_three :
    ∃ c w₁, Handler.combine [.counter 5, .store 6 [], .collector 7] (.initial "") = .value c w₁ ∧
      (∀ call w, c.offer call (nestStates [.int 2, .frozen [], .null])
          ⟨.log (.text "a"), [.lift]⟩ w
        = .value (.handled (nestStates [.int 2, .frozen [], .tuple [.text "a", .null]])
            (.chain (.finished .null))) w) ∧
      ∀ call s ch, run s call ch c = Flat.run s call ch [.counter 5, .store 6 [], .collector 7] := by
  have hc : Handler.combine [.counter 5, .store 6 [], .collector 7] (.initial "") = _ := rfl
  refine ⟨_, _, hc, fun call w => ?_, fun call => (combine_eq_flat hc call).2.2.2⟩
  have hoffer := ((combine_eq_flat hc call).2.1 [.int 2, .frozen [], .null]
    ⟨.log (.text "a"), [.lift]⟩ rfl).1 w w
    (nestStates [.int 2, .frozen [], .tuple [.text "a", .null]]) (.chain (.finished .null))
  have hleave : Leave call ⟨.log (.text "a"), [.lift]⟩
      [(.counter 5, .int 2), (.store 6 [], .frozen [])] w w :=
    .cons rfl rfl (.cons rfl rfl (.nil w))
  have hresume : Effect.resume call ⟨.log (.text "a"), [.lift]⟩ .null
      = pure (.chain (.finished .null)) := by
    rw [Effect.resume, resumeFrom_eq_applyStages]
    rfl
  have htaken : Handler.offer call (.collector 7) .null ⟨.log (.text "a"), [.lift]⟩ w
      = .value (.handled (.tuple [.text "a", .null]) (.chain (.finished .null))) w := by
    simp only [Handler.offer, Handler.whenKind, Handler.collectorStep, hresume]
    rfl
  exact hoffer.mpr ⟨2, .collector 7, .null, _, w, rfl, rfl, hleave, htaken, rfl⟩

end EffectHandlers
