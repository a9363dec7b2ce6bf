/-
EffectHandlers/Proofs/Arrangement.lean

Combinations of handlers of any shape.

A combination is a tree of pairs.  Its shape is a tree whose leaves name
handlers (`Shape`), and its states and results are values of the same shape:
one value for each name, nested as the handlers are (`Shape.nest`).

Whatever the shape is, only the order of the leaves counts when an effect is
offered: it goes from leaf to leaf, and the state of the one that takes it is
replaced (`Arranged.offer_settled`).  The combination of several handlers
declines an effect that none of them takes, while a single handler may say
so in other ways; that is the difference which `Value.settled` forgets.
Starting and finishing visit the leaves from left to right.

Main results: every handler is the combination of its components in some
shape (`Handler.exists_arranged`), one step of a drive against a combination
(`Arranged.drive_suspended`), and what a run comes to with the state in
which its drive ended and the effects that it handled
(`run_eq_runWithEnd`, `handledInRun`).
-/
import EffectHandlers.Proofs.Dispatch
import EffectHandlers.Proofs.TailResumption
import Mathlib.Data.List.Forall2
import Mathlib.Logic.Function.Basic

namespace EffectHandlers

variable {ι : Type}

/-! ### Shapes -/

/-- The shape of a combination: a tree of pairs with names at its leaves. -/
inductive Shape (ι : Type)
  | leaf (i : ι)
  | pair (left right : Shape ι)

namespace Shape

/-- The names at the leaves, from left to right. -/
def leaves : Shape ι → List ι
  | .leaf i => [i]
  | .pair left right => left.leaves ++ right.leaves

/-- One value for each name, nested in pairs. -/
def nest (σ : ι → Value) : Shape ι → Value
  | .leaf i => σ i
  | .pair left right => .tuple [left.nest σ, right.nest σ]

theorem nest_congr {σ τ : ι → Value} {t : Shape ι} (h : ∀ i ∈ t.leaves, σ i = τ i) :
    t.nest σ = t.nest τ := by
  induction t with
  | leaf i => exact h i (List.mem_singleton.mpr rfl)
  | pair left right ihl ihr =>
    have hl := ihl fun i hi => h i (List.mem_append_left _ hi)
    have hr := ihr fun i hi => h i (List.mem_append_right _ hi)
    rw [nest, nest, hl, hr]

/-- Do something at each leaf, from left to right, and nest what it gives. -/
def visit (x : ι → Action Value) : Shape ι → Action Value
  | .leaf i => x i
  | .pair left right => do return .tuple [← left.visit x, ← right.visit x]

theorem visit_pair (x : ι → Action Value) (left right : Shape ι) :
    (Shape.pair left right).visit x = left.visit x >>= fun v =>
      right.visit x >>= fun u => pure (.tuple [v, u]) := rfl

/-- If every leaf gives a value and leaves the world as it is, then so does a visit. -/
theorem visit_still {x : ι → Action Value} {o : ι → Value} {t : Shape ι} {w : World}
    (h : ∀ i ∈ t.leaves, x i w = .value (o i) w) : t.visit x w = .value (t.nest o) w := by
  induction t with
  | leaf i => exact h i (List.mem_singleton.mpr rfl)
  | pair left right ihl ihr =>
    have hl := ihl fun i hi => h i (List.mem_append_left _ hi)
    have hr := ihr fun i hi => h i (List.mem_append_right _ hi)
    rw [visit_pair, Action.bind_of_value hl, Action.bind_of_value hr]
    rfl

variable [DecidableEq ι]

theorem nest_update_of_notMem {σ : ι → Value} {t : Shape ι} {i : ι} (hi : ¬ i ∈ t.leaves)
    (v : Value) : t.nest (Function.update σ i v) = t.nest σ :=
  nest_congr fun j hj => Function.update_of_ne (fun h : j = i => hi (h ▸ hj)) v σ

/-- A visit gives the values that the leaves give, nested. -/
theorem visit_value {x : ι → Action Value} {t : Shape ι} (hn : t.leaves.Nodup) {w w' : World}
    {v : Value} (h : t.visit x w = .value v w') :
    ∃ o, v = t.nest o ∧ ∀ i ∈ t.leaves, ∃ u u', x i u = .value (o i) u' := by
  induction t generalizing w w' v with
  | leaf i =>
    refine ⟨fun _ => v, rfl, fun j hj => ⟨w, w', ?_⟩⟩
    rw [List.mem_singleton.mp hj]
    exact h
  | pair left right ihl ihr =>
    obtain ⟨hnl, hnr, hdisjoint⟩ := List.nodup_append.mp hn
    rw [visit_pair] at h
    obtain ⟨a, w₁, ha, h⟩ := Action.bind_eq_value.mp h
    obtain ⟨b, w₂, hb, h⟩ := Action.bind_eq_value.mp h
    obtain ⟨rfl, rfl⟩ := Action.pure_eq_value.mp h
    obtain ⟨oₗ, rfl, hl⟩ := ihl hnl ha
    obtain ⟨oᵣ, rfl, hr⟩ := ihr hnr hb
    -- No name stands on both sides.
    let o : ι → Value := fun i => if i ∈ left.leaves then oₗ i else oᵣ i
    have hol (i : ι) (hi : i ∈ left.leaves) : o i = oₗ i := if_pos hi
    have hor (i : ι) (hi : i ∈ right.leaves) : o i = oᵣ i :=
      if_neg fun hi' => hdisjoint i hi' i hi rfl
    refine ⟨o, ?_, fun i hi => ?_⟩
    · rw [nest, nest_congr hol, nest_congr hor]
    · rcases List.mem_append.mp hi with hi | hi
      · rw [hol i hi]
        exact hl i hi
      · rw [hor i hi]
        exact hr i hi

end Shape

/-! ### Offering along the leaves -/

/-- What came of an offer: whether it was taken, by whom, with the new state and what comes
next. -/
abbrev Claim (ι : Type) := Option (ι × Value × Value)

/-- What the answer of a handler says. -/
def Value.claim (i : ι) : Value → Claim ι
  | .handled state next => some (i, state, next)
  | _ => none

/-- Offer an effect to handlers in turn, each in its own state, until one takes it. -/
def offerEach (call : Call) (hs : ι → Handler) (σ : ι → Value) (e : Effect) :
    List ι → Action (Claim ι)
  | [] => pure none
  | i :: is => do
    match (← (hs i).offer call (σ i) e).claim i with
    | some r => return some r
    | none => offerEach call hs σ e is

/-- The answer of a handler, with every way of not taking an effect made the same. -/
def Value.settled : Value → Value
  | .handled state next => .handled state next
  | _ => .declined

theorem settled_bind {α : Type} (x : Action Value) {f : Value → Action α}
    (hf : ∀ v, f v = f v.settled) : (x >>= fun v => pure v.settled) >>= f = x >>= f := by
  rw [bind_assoc]
  exact congrArg (x >>= ·) (funext fun v => (hf v).symm)

/-- The answer of a combination to an offer. -/
def Shape.answer [DecidableEq ι] (t : Shape ι) (σ : ι → Value) : Claim ι → Value
  | some (i, state, next) => .handled (t.nest (Function.update σ i state)) next
  | none => .declined

section

variable {call : Call} {hs : ι → Handler} {σ : ι → Value} {e : Effect}

/-- What comes after the claim of one handler. -/
def afterClaim (rest : Action (Claim ι)) : Claim ι → Action (Claim ι)
  | some r => pure (some r)
  | none => rest

theorem offerEach_cons (i : ι) (is : List ι) :
    offerEach call hs σ e (i :: is) = (hs i).offer call (σ i) e >>= fun v =>
      afterClaim (offerEach call hs σ e is) (v.claim i) := by
  rw [offerEach]
  refine congrArg ((hs i).offer call (σ i) e >>= ·) (funext fun v => ?_)
  cases v <;> rfl

theorem offerEach_append (is js : List ι) :
    offerEach call hs σ e (is ++ js)
      = offerEach call hs σ e is >>= afterClaim (offerEach call hs σ e js) := by
  induction is with
  | nil => rfl
  | cons i is ih =>
    rw [List.cons_append, offerEach_cons, offerEach_cons, ih, bind_assoc]
    refine congrArg ((hs i).offer call (σ i) e >>= ·) (funext fun v => ?_)
    cases v <;> rfl

/-- The handler that takes an effect is one of those that it was offered to. -/
theorem offerEach_some {is : List ι} {i : ι} {state next : Value} {w w' : World}
    (h : offerEach call hs σ e is w = .value (some (i, state, next)) w') :
    i ∈ is ∧ ∃ u, (hs i).offer call (σ i) e u = .value (.handled state next) w' := by
  induction is generalizing w with
  | nil => cases h
  | cons j is ih =>
    rw [offerEach_cons] at h
    obtain ⟨v, w₁, hv, h⟩ := Action.bind_eq_value.mp h
    have hrest (h : offerEach call hs σ e is w₁ = .value (some (i, state, next)) w') :
        i ∈ j :: is ∧ ∃ u, (hs i).offer call (σ i) e u = .value (.handled state next) w' := by
      obtain ⟨hi, htaken⟩ := ih h
      exact ⟨List.mem_cons_of_mem _ hi, htaken⟩
    cases v with
    | handled state' next' =>
      cases h
      exact ⟨List.mem_cons_self, w, hv⟩
    | _ => exact hrest h

end

/-! ### Handlers of one kind -/

/-- A handler that interprets one kind of request: one that the library comes with, or a custom one
that leaves the test of the kind to its base. -/
inductive Handler.Simple : Handler → Kind → Prop
  | collector (id : Nat) : Simple (.collector id) .log
  | emitter (id : Nat) (level component : Value) : Simple (.emitter id level component) .log
  | transcript (id : Nat) (lines : List Value) : Simple (.transcript id lines) .console
  | stream (id source : Nat) : Simple (.stream id source) .console
  | store (id : Nat) (initial : List (Value × Value)) : Simple (.store id initial) .state
  | counter (id : Nat) : Simple (.counter id) .tick
  | custom (id : Nat) {m : CustomMethods} {k : Kind} (offer : m.offer = none)
      (tests : m.base.testsKind = true) (kind : (m.kind <|> m.base.kind?) = some k) :
      Simple (.custom id m) k

namespace Handler

variable {h : Handler} {k : Kind} {call : Call} {e : Effect}

/-- A simple handler takes the requests of its kind, and no others. -/
theorem Simple.offer_eq (hs : h.Simple k) (call : Call) (state : Value) (e : Effect) :
    ∃ step, h.offer call state e = whenKind k e step := by
  cases hs with
  | collector id => exact ⟨_, rfl⟩
  | emitter id level component => exact ⟨_, rfl⟩
  | transcript id lines => exact ⟨_, rfl⟩
  | stream id source => exact ⟨_, rfl⟩
  | store id initial => exact ⟨_, rfl⟩
  | counter id => exact ⟨_, rfl⟩
  | @custom id m _ offer tests kind =>
    refine ⟨customStep call m state e, ?_⟩
    rw [Handler.offer, customOffer, offer]
    simp only [tests, kind, if_true]

theorem Simple.offer_of_other (hs : h.Simple k) (hk : e.request.isA k = false) (state : Value) :
    h.offer call state e = pure .declined := by
  obtain ⟨step, hstep⟩ := hs.offer_eq call state e
  rw [hstep, whenKind, hk]
  rfl

theorem Simple.offer_of_kind (hs : h.Simple k) (hk : e.request.isA k = true) {state v : Value}
    {w w' : World} (hv : h.offer call state e w = .value v w') :
    ∃ state' next, v = .handled state' next := by
  obtain ⟨step, hstep⟩ := hs.offer_eq call state e
  rw [hstep, whenKind, if_pos hk] at hv
  obtain ⟨p, w₁, -, hv⟩ := Action.bind_eq_value.mp hv
  obtain ⟨rfl, -⟩ := Action.pure_eq_value.mp hv
  exact ⟨p.1, p.2, rfl⟩

/-- A step of one kind that was taken was made. -/
theorem whenKind_handled {step : Action (Value × Value)} {v next : Value} {w w' : World}
    (h : whenKind k e step w = .value (.handled v next) w') : step w = .value (v, next) w' := by
  unfold whenKind at h
  split at h
  · obtain ⟨p, w₁, hp, h⟩ := Action.bind_eq_value.mp h
    obtain ⟨h, rfl⟩ := Action.pure_eq_value.mp h
    cases h
    exact hp
  · cases h

theorem Shipped.simple (hs : h.Shipped) : ∃ k, h.Simple k := by
  cases hs with
  | collector id => exact ⟨_, .collector id⟩
  | emitter id level component => exact ⟨_, .emitter id level component⟩
  | transcript id lines => exact ⟨_, .transcript id lines⟩
  | stream id source => exact ⟨_, .stream id source⟩
  | store id initial => exact ⟨_, .store id initial⟩
  | counter id => exact ⟨_, .counter id⟩

end Handler

/-! ### Combinations of a shape -/

/-- A handler is the combination of the named handlers in a shape. -/
inductive Arranged (hs : ι → Handler) : Shape ι → Handler → Prop
  | leaf (i : ι) : Arranged hs (.leaf i) (hs i)
  | pair {left right : Shape ι} {a b : Handler} (id : Nat) (first : Arranged hs left a)
      (second : Arranged hs right b) : Arranged hs (.pair left right) (.pair id a b)

namespace Handler

/-- Components are named by their numbers, from some number on. -/
def Numbers (hs : Nat → Handler) (n : Nat) (A : Handler) : Prop :=
  ∀ k, k < A.leaves.length → A.leaves[k]? = some (hs (n + k))

theorem exists_arranged_leaf {hs : Nat → Handler} {n : Nat} {A : Handler} (hA : A.leaves = [A])
    (h : Numbers hs n A) : ∃ t : Shape Nat,
      t.leaves = List.range' n A.leaves.length ∧ Arranged hs t A := by
  have hn : A = hs n := Option.some.inj (by simpa [hA] using h 0 (by simp [hA]))
  refine ⟨.leaf n, by rw [hA]; rfl, ?_⟩
  rw [hn]
  exact .leaf n

theorem exists_arranged_from (hs : Nat → Handler) : ∀ (A : Handler) (n : Nat), Numbers hs n A →
    ∃ t : Shape Nat, t.leaves = List.range' n A.leaves.length ∧ Arranged hs t A
  | .pair id a b, n, h => by
    rw [Numbers, leaves] at h
    rw [leaves]
    have ha : Numbers hs n a := by
      intro k hk
      rw [← h k (by simp; omega), List.getElem?_append_left hk]
    have hb : Numbers hs (n + a.leaves.length) b := by
      intro k hk
      rw [Nat.add_assoc, ← h (a.leaves.length + k) (by simp; omega),
        List.getElem?_append_right (by omega), Nat.add_sub_cancel_left]
    obtain ⟨left, hleft, first⟩ := exists_arranged_from hs a n ha
    obtain ⟨right, hright, second⟩ := exists_arranged_from hs b (n + a.leaves.length) hb
    refine ⟨.pair left right, ?_, .pair id first second⟩
    rw [Shape.leaves, hleft, hright, List.length_append, List.range'_append_1]
  | .collector _, _, h => exists_arranged_leaf rfl h
  | .emitter _ _ _, _, h => exists_arranged_leaf rfl h
  | .transcript _ _, _, h => exists_arranged_leaf rfl h
  | .stream _ _, _, h => exists_arranged_leaf rfl h
  | .store _ _, _, h => exists_arranged_leaf rfl h
  | .counter _, _, h => exists_arranged_leaf rfl h
  | .recorder _ _ _, _, h => exists_arranged_leaf rfl h
  | .custom _ _, _, h => exists_arranged_leaf rfl h

/-- **Every handler is the combination of its components in some shape**, all of them named
differently. -/
theorem exists_arranged (A : Handler) : ∃ (hs : Nat → Handler) (t : Shape Nat),
    t.leaves.Nodup ∧ t.leaves.map hs = A.leaves ∧ Arranged hs t A := by
  let hs (k : Nat) : Handler := A.leaves[k]?.getD A
  have hnumbers : Numbers hs 0 A := by
    intro k hk
    simp [hs, hk]
  obtain ⟨t, ht, hA⟩ := exists_arranged_from hs A 0 hnumbers
  refine ⟨hs, t, ht ▸ List.nodup_range', ?_, hA⟩
  rw [ht]
  apply List.ext_getElem?
  intro k
  by_cases hk : k < A.leaves.length
  · rw [hnumbers k hk]
    simp [hk]
  · simp [hk]

end Handler

namespace Arranged

variable {hs : ι → Handler} {t : Shape ι} {A : Handler} {call : Call}

/-- Two combinations are put together to one of both shapes. -/
theorem of_pairOf {left right : Shape ι} {a b c : Handler} (ha : Arranged hs left a)
    (hb : Arranged hs right b) {w w' : World} (hc : Handler.pairOf a b w = .value c w') :
    Arranged hs (.pair left right) c := by
  unfold Handler.pairOf at hc
  split at hc
  · obtain ⟨id, w₁, -, hc⟩ := Action.bind_eq_value.mp hc
    obtain ⟨rfl, -⟩ := Action.pure_eq_value.mp hc
    exact .pair id ha hb
  · cases hc

/-- The leaves of a list of combinations are those of the nest of them. -/
theorem of_nest {ts : List (Shape ι)} {as : List Handler}
    (parts : List.Forall₂ (Arranged hs) ts as) {w w' : World} {c : Handler}
    (hc : Handler.nest as w = .value c w') :
    ∃ t, t.leaves = ts.flatMap Shape.leaves ∧ Arranged hs t c := by
  induction parts generalizing c w w' with
  | nil => cases hc
  | @cons t a ts as ha parts ih =>
    cases as with
    | nil =>
      cases parts
      obtain ⟨rfl, -⟩ := Action.pure_eq_value.mp hc
      exact ⟨t, by simp, ha⟩
    | cons b bs =>
      obtain ⟨m, w₁, hm, hc⟩ := Action.bind_eq_value.mp hc
      obtain ⟨t', ht', hm⟩ := ih hm
      exact ⟨.pair t t', by rw [Shape.leaves, ht', List.flatMap_cons], of_pairOf ha hm hc⟩

/-- The leaves of a list of combinations are those of their combination. -/
theorem of_combine {ts : List (Shape ι)} {as : List Handler}
    (parts : List.Forall₂ (Arranged hs) ts as) {w w' : World} {c : Handler}
    (hc : Handler.combine as w = .value c w') :
    ∃ t, t.leaves = ts.flatMap Shape.leaves ∧ Arranged hs t c := by
  obtain ⟨n, w₁, hn, hc⟩ := Action.bind_eq_value.mp hc
  obtain ⟨_, w₂, -, hc⟩ := Action.bind_eq_value.mp hc
  obtain ⟨rfl, -⟩ := Action.pure_eq_value.mp hc
  exact of_nest parts hn

theorem mem_capabilities (hA : Arranged hs t A) {a : Capability} :
    a ∈ A.capabilities ↔ ∃ i ∈ t.leaves, a ∈ (hs i).capabilities := by
  induction hA with
  | leaf i => simp [Shape.leaves]
  | pair id _ _ ihl ihr =>
    rw [Handler.capabilities, CapabilitySet.mem_union, ihl, ihr]
    simp only [Shape.leaves, List.mem_append, or_and_right, exists_or]

theorem start_eq (hA : Arranged hs t A) :
    A.start call = t.visit fun i => (hs i).start call := by
  induction hA with
  | leaf i => rfl
  | pair id _ _ ihl ihr => rw [Handler.start, Shape.visit_pair, ihl, ihr]

theorem finish_eq (hA : Arranged hs t A) (σ : ι → Value) :
    A.finish call (t.nest σ) = t.visit fun i => (hs i).finish call (σ i) := by
  induction hA with
  | leaf i => rfl
  | pair id _ _ ihl ihr => rw [Shape.nest, Handler.finish_pair, Shape.visit_pair, ihl, ihr]

/-! ### Offers -/

variable [DecidableEq ι]

/-- **Only the order of the leaves counts for an offer.** -/
theorem offer_settled (hA : Arranged hs t A) (hn : t.leaves.Nodup) (σ : ι → Value) (e : Effect) :
    (A.offer call (t.nest σ) e >>= fun v => pure v.settled)
      = offerEach call hs σ e t.leaves >>= fun r => pure (t.answer σ r) := by
  induction hA with
  | leaf i =>
    rw [Shape.leaves, offerEach_cons, bind_assoc, Shape.nest]
    refine congrArg ((hs i).offer call (σ i) e >>= ·) (funext fun v => ?_)
    cases v with
    | handled state next =>
      show pure (Value.handled state next) = (pure (Value.handled _ next) : Action Value)
      rw [Shape.nest, Function.update_self]
    | _ => rfl
  | @pair left right a b id _ _ ihl ihr =>
    obtain ⟨hnl, hnr, hdisjoint⟩ := List.nodup_append.mp hn
    -- What a pair does with an answer does not depend on how an effect was declined.
    let first (v : Value) : Action Value :=
      Handler.pairFirst call e b (left.nest σ) (right.nest σ) v >>= fun v => pure v.settled
    let second (v : Value) : Action Value :=
      Handler.pairSecond (left.nest σ) v >>= fun v => pure v.settled
    have hfirst (v : Value) : first v = first v.settled := by cases v <;> rfl
    have hsecond (v : Value) : second v = second v.settled := by cases v <;> rfl
    have hleft : a.offer call (left.nest σ) e >>= first
        = offerEach call hs σ e left.leaves >>= fun r => first (left.answer σ r) := by
      rw [← settled_bind _ hfirst, ihl hnl, bind_assoc]
      rfl
    have hright : b.offer call (right.nest σ) e >>= second
        = offerEach call hs σ e right.leaves >>= fun r => second (right.answer σ r) := by
      rw [← settled_bind _ hsecond, ihr hnr, bind_assoc]
      rfl
    rw [Shape.nest, Handler.offer_pair, bind_assoc, hleft, Shape.leaves, offerEach_append,
      bind_assoc]
    funext w
    refine Action.bind_congr_of_value fun r w' hr => ?_
    rcases r with _ | ⟨i, state, next⟩
    · show ((b.offer call (right.nest σ) e >>= Handler.pairSecond (left.nest σ)) >>= _) w' = _
      rw [bind_assoc, hright]
      refine Action.bind_congr_of_value fun r w'' hr => ?_
      rcases r with _ | ⟨i, state, next⟩
      · rfl
      · have hi : ¬ i ∈ left.leaves := fun hi => hdisjoint i hi i (offerEach_some hr).1 rfl
        show Outcome.value (Value.handled (.tuple [left.nest σ, _]) next) w''
          = .value (.handled (.tuple [left.nest (Function.update σ i state), _]) next) w''
        rw [Shape.nest_update_of_notMem hi]
    · have hi : ¬ i ∈ right.leaves := fun hi => hdisjoint i (offerEach_some hr).1 i hi rfl
      show Outcome.value (Value.handled (.tuple [_, right.nest σ]) next) w'
        = .value (.handled (.tuple [_, right.nest (Function.update σ i state)]) next) w'
      rw [Shape.nest_update_of_notMem hi]

/-- A combination handles an effect exactly if one of its leaves takes it in turn. -/
theorem offer_handled_iff (hA : Arranged hs t A) (hn : t.leaves.Nodup) {σ : ι → Value} {e : Effect}
    {w w' : World} {v next : Value} :
    A.offer call (t.nest σ) e w = .value (.handled v next) w' ↔
      ∃ i state, offerEach call hs σ e t.leaves w = .value (some (i, state, next)) w' ∧
        v = t.nest (Function.update σ i state) := by
  have hsettled : (A.offer call (t.nest σ) e >>= fun v => pure v.settled) w
      = (offerEach call hs σ e t.leaves >>= fun r => pure (t.answer σ r)) w :=
    congrFun (hA.offer_settled hn σ e) w
  constructor
  · intro hv
    rw [Action.bind_of_value hv] at hsettled
    obtain ⟨r, w₁, hr, hanswer⟩ := Action.bind_eq_value.mp hsettled.symm
    obtain ⟨hanswer, rfl⟩ := Action.pure_eq_value.mp hanswer
    rcases r with _ | ⟨i, state, next'⟩
    · cases hanswer
    · cases hanswer
      exact ⟨i, state, hr, rfl⟩
  · rintro ⟨i, state, hr, rfl⟩
    rw [Action.bind_of_value hr] at hsettled
    obtain ⟨v, w₁, hv, hanswer⟩ := Action.bind_eq_value.mp hsettled
    obtain ⟨hanswer, rfl⟩ := Action.pure_eq_value.mp hanswer
    cases v with
    | handled =>
      cases hanswer
      exact hv
    | _ => cases hanswer

/-! ### Drives -/

/-- What a drive does when an effect was offered to a combination. -/
def afterOffer (s : Settings) (offer : Offer) (fuel steps : Nat) (e : Effect) (t : Shape ι)
    (σ : ι → Value) : Claim ι → Action Drive
  | some (i, state, next) => s.noteStep (steps + 1) e >>= fun _ =>
    drive s offer fuel (steps + 1) (t.nest (Function.update σ i state)) next
  | none => failUnhandled steps e

/-- One step of a drive against a combination. -/
theorem drive_suspended (hA : Arranged hs t A) (hn : t.leaves.Nodup) (s : Settings)
    (fuel steps : Nat) (σ : ι → Value) (e : Effect) (r : CapabilitySet) :
    drive s (A.offer call) (fuel + 1) steps (t.nest σ) (.chain (.suspended e r))
      = offerEach call hs σ e t.leaves >>= afterOffer s (A.offer call) fuel steps e t σ := by
  rw [EffectHandlers.drive_suspended, ← settled_bind _ fun v => by cases v <;> rfl,
    hA.offer_settled hn, bind_assoc]
  refine congrArg (offerEach call hs σ e t.leaves >>= ·) (funext fun r => ?_)
  rcases r with _ | ⟨i, state, next⟩ <;> rfl

end Arranged

/-! ### What a run handles, and where its drive ends -/

/-- The effects that a drive handles, in order, however the drive ends. -/
def handledBy (s : Settings) (offer : Offer) : Nat → Nat → Value → Value → World → List Effect :=
  fun fuel steps state next w =>
    match next with
    | .chain (.suspended e _) =>
      match fuel with
      | 0 => []
      | fuel + 1 =>
        match offer state e w with
        | .value (.handled state next) w =>
          match s.noteStep (steps + 1) e w with
          | .value _ w => e :: handledBy s offer fuel (steps + 1) state next w
          | _ => [e]
        | _ => []
    | _ => []
termination_by structural fuel => fuel

/-- A run, together with where its drive ended. -/
def runWithEnd (s : Settings) (call : Call) (c : Chain) (h : Handler) :
    Action (Drive × Value) := do
  checkProvided c h
  let state ← openRun call h
  let d ← drive s (h.offer call) s.maxSteps 0 state (.chain c)
  return (d, ← closeRun call h d)

/-- The effects that a run handles, in order, however the run ends. -/
def handledInRun (s : Settings) (call : Call) (c : Chain) (h : Handler) (w : World) :
    List Effect :=
  match (checkProvided c h >>= fun _ => openRun call h) w with
  | .value state w => handledBy s (h.offer call) s.maxSteps 0 state (.chain c) w
  | _ => []

theorem run_eq_runWithEnd (s : Settings) (call : Call) (c : Chain) (h : Handler) :
    run s call c h = runWithEnd s call c h >>= fun p => pure p.2 := by
  simp only [run, runBy, runWithEnd, bind_assoc, pure_bind, bind_pure]

section

variable {s : Settings} {offer : Offer} {fuel steps : Nat} {state next v : Value} {e : Effect}
  {r : CapabilitySet} {w w₁ w₂ : World}

theorem handledBy_done (s : Settings) (offer : Offer) (fuel steps : Nat) (state v : Value)
    (r : CapabilitySet) (w : World) :
    handledBy s offer fuel steps state (.chain (.done v r)) w = [] := by
  cases fuel <;> rfl

theorem handledBy_handled (hv : offer state e w = .value (.handled v next) w₁)
    (hnote : s.noteStep (steps + 1) e w₁ = .value () w₂) :
    handledBy s offer (fuel + 1) steps state (.chain (.suspended e r)) w
      = e :: handledBy s offer fuel (steps + 1) v next w₂ := by
  simp only [handledBy, hv, hnote]

/-- The last effect that is handled may be one whose record cannot be made. -/
theorem handledBy_unrecorded {f : Failure} (hv : offer state e w = .value (.handled v next) w₁)
    (hnote : s.noteStep (steps + 1) e w₁ = .failed f w₂) :
    handledBy s offer (fuel + 1) steps state (.chain (.suspended e r)) w = [e] := by
  simp only [handledBy, hv, hnote]

theorem handledBy_left (h : ∀ v next w', offer state e w ≠ .value (.handled v next) w') :
    handledBy s offer (fuel + 1) steps state (.chain (.suspended e r)) w = [] := by
  rw [handledBy]
  split
  · rename_i v next w' hv
    exact absurd hv (h v next w')
  · rfl

/-- A drive handles what a leaf takes, and then what it handles from there. -/
theorem Arranged.handledBy_taken [DecidableEq ι] {hs : ι → Handler} {t : Shape ι} {A : Handler}
    {call : Call} (hA : Arranged hs t A) (hn : t.leaves.Nodup) {σ : ι → Value} {i : ι}
    (htaken : offerEach call hs σ e t.leaves w = .value (some (i, state, next)) w₁)
    (hnote : s.noteStep (steps + 1) e w₁ = .value () w₂) :
    handledBy s (A.offer call) (fuel + 1) steps (t.nest σ) (.chain (.suspended e r)) w
      = e :: handledBy s (A.offer call) fuel (steps + 1) (t.nest (Function.update σ i state)) next
        w₂ :=
  handledBy_handled ((hA.offer_handled_iff hn).mpr ⟨i, state, htaken, rfl⟩) hnote

/-- A drive handles what a leaf takes, and nothing more if this cannot be recorded. -/
theorem Arranged.handledBy_unrecorded [DecidableEq ι] {hs : ι → Handler} {t : Shape ι}
    {A : Handler} {call : Call} (hA : Arranged hs t A) (hn : t.leaves.Nodup) {σ : ι → Value}
    {i : ι} {f : Failure}
    (htaken : offerEach call hs σ e t.leaves w = .value (some (i, state, next)) w₁)
    (hnote : s.noteStep (steps + 1) e w₁ = .failed f w₂) :
    handledBy s (A.offer call) (fuel + 1) steps (t.nest σ) (.chain (.suspended e r)) w = [e] :=
  EffectHandlers.handledBy_unrecorded ((hA.offer_handled_iff hn).mpr ⟨i, state, htaken, rfl⟩) hnote

/-- A drive handles nothing more if no leaf takes its effect. -/
theorem Arranged.handledBy_left [DecidableEq ι] {hs : ι → Handler} {t : Shape ι} {A : Handler}
    {call : Call} (hA : Arranged hs t A) (hn : t.leaves.Nodup) {σ : ι → Value}
    (h : ∀ r w', offerEach call hs σ e t.leaves w ≠ .value (some r) w') :
    handledBy s (A.offer call) (fuel + 1) steps (t.nest σ) (.chain (.suspended e r)) w = [] := by
  refine EffectHandlers.handledBy_left fun x next w' hx => ?_
  obtain ⟨i, state, htaken, -⟩ := (hA.offer_handled_iff hn).mp hx
  exact h _ _ htaken

end

end EffectHandlers
