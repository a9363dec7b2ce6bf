/-
EffectHandlers/Proofs/Variation/Worlds.lean

Worlds in which programs run that vary.

Two worlds are linked if what can be seen in one of them can be seen in the
other one, and every call of a program that the link mentions has a record
in both, of routines that vary and stand at the same place.  Identities that
were drawn on one side only, and records of calls on one side only, belong
to nothing on the other side.

Two computations are linked if they lead from linked worlds to linked worlds
and values, or to the same failure.  The pipeline of an effect that nobody
handled does not count.  Both computations may be bounded, and then one of
them may be exhausted before the other one.

Main statements: computations are linked if their parts are
(`Action.LinkedBy.bind`), and what reads and changes the world in one place
is linked.
-/
import EffectHandlers.Proofs.Twin
import EffectHandlers.Proofs.Variation.Values

namespace EffectHandlers

/-! ### Larger links -/

namespace Link

/-- One more pair of numbers that stand for each other. -/
def join (f : Nat ≃. Nat) (n n' : Nat) (h : f n = none) (h' : f.symm n' = none) : Nat ≃. Nat where
  toFun a := if a = n then some n' else f a
  invFun b := if b = n' then some n else f.symm b
  inv a b := by
    by_cases ha : a = n
    · subst ha
      by_cases hb : b = n'
      · simp [hb]
      · have hne : f.symm b ≠ some a := fun hs => by
          rw [PEquiv.eq_some_iff] at hs
          rw [h] at hs
          cases hs
        simp [hb, Ne.symm hb, hne]
    · by_cases hb : b = n'
      · subst hb
        have hne : f a ≠ some b := fun hs => by
          rw [← PEquiv.eq_some_iff, h'] at hs
          cases hs
        simp [ha, Ne.symm ha, hne]
      · simp only [if_neg ha, if_neg hb]
        exact PEquiv.eq_some_iff f

theorem join_self {f : Nat ≃. Nat} {n n' : Nat} (h : f n = none) (h' : f.symm n' = none) :
    join f n n' h h' n = some n' := if_pos rfl

theorem join_of_some {f : Nat ≃. Nat} {n n' k k' : Nat} (h : f n = none) (h' : f.symm n' = none)
    (hk : f k = some k') : join f n n' h h' k = some k' := by
  have hne : k ≠ n := fun hkn => by rw [hkn, h] at hk; cases hk
  exact (if_neg hne).trans hk

theorem join_cases {f : Nat ≃. Nat} {n n' k k' : Nat} (h : f n = none) (h' : f.symm n' = none)
    (hk : join f n n' h h' k = some k') : (k = n ∧ k' = n') ∨ f k = some k' := by
  by_cases hkn : k = n
  · exact .inl ⟨hkn, (Option.some.inj ((if_pos hkn).symm.trans hk)).symm⟩
  · exact .inr ((if_neg hkn).symm.trans hk)

/-- What a routine of a call yields: counterparts if everything about the call is the same. -/
def role (L : Link) (n : Nat) : Role := if L.plain n then .plain else .chain

end Link

/-! ### Routines -/

/-- Two parts of routines that are left to do and vary. -/
inductive Frame.Varies (loose : Bool) (L : Link) (Γ : Scope) (ρ : Role) : Frame → Frame → Prop
  | block {rest rest' : List Stmt} (h : stmtsVary loose Γ ρ rest rest') :
    Frame.Varies loose L Γ ρ (.block rest) (.block rest')
  | loop {τ : Role} {x : String} {items items' : List Value} {body body' : List Stmt}
      (hx : τ ≤ (Γ x).role) (hitems : List.Forall₂ (Varied loose L τ) items items')
      (h : stmtsVary loose Γ ρ body body') :
    Frame.Varies loose L Γ ρ (.loop x items body) (.loop x items' body')

/-- Two routines that vary stand in the same place. -/
inductive Position.Varies (loose : Bool) (L : Link) (ρ : Role) : Position → Position → Prop
  | entry {Γ : Scope} {body body' : List Stmt} {env env' : Env} (h : stmtsVary loose Γ ρ body body')
      (henv : EnvVaried loose L Γ env env') :
    Position.Varies loose L ρ (.entry body env) (.entry body' env')
  | parked {Γ : Scope} {target : Option String} {rest rest' : List Frame} {env env' : Env}
      (htarget : ∀ x ∈ target, .plain ≤ (Γ x).role)
      (hrest : List.Forall₂ (Frame.Varies loose L Γ ρ) rest rest')
      (henv : EnvVaried loose L Γ env env') :
    Position.Varies loose L ρ (.parked target rest env) (.parked target rest' env')
  | running : Position.Varies loose L ρ .running .running
  | finished : Position.Varies loose L ρ .finished .finished

/-- The records of two calls of routines that vary. -/
structure Invocation.Varies (loose : Bool) (L : Link) (ρ : Role) (i i' : Invocation) : Prop where
  routine : ∃ Γ, stmtsVary loose Γ ρ i.body i'.body ∧ EnvVaried loose L Γ i.env i'.env
  coroutines : List.Forall₂ (fun c c' => c.position.Varies loose L ρ c'.position)
    i.coroutines.toList i'.coroutines.toList
  histories : Counterpart L i.histories.toList i'.histories.toList
  live : i'.live = i.live

section

variable {loose : Bool} {L M : Link} {Γ : Scope} {ρ : Role}

theorem Frame.Varies.mono {f f' : Frame} (h : f.Varies loose L Γ ρ f') (hLM : L ≤ M) :
    f.Varies loose M Γ ρ f' := by
  cases h with
  | block h => exact .block h
  | loop hx hitems h => exact .loop hx (hitems.imp fun _ _ hv => hv.mono hLM) h

theorem Position.Varies.mono {p p' : Position} (h : p.Varies loose L ρ p') (hLM : L ≤ M) :
    p.Varies loose M ρ p' := by
  cases h with
  | entry h henv => exact .entry h (henv.mono hLM)
  | parked htarget hrest henv =>
    exact .parked htarget (hrest.imp fun _ _ hf => hf.mono hLM) (henv.mono hLM)
  | running => exact .running
  | finished => exact .finished

theorem Invocation.Varies.mono {i i' : Invocation} (h : i.Varies loose L ρ i') (hLM : L ≤ M) :
    i.Varies loose M ρ i' where
  routine :=
    let ⟨Γ, hbody, henv⟩ := h.routine
    ⟨Γ, hbody, henv.mono hLM⟩
  coroutines := h.coroutines.imp fun _ _ hp => hp.mono hLM
  histories := h.histories.mono hLM
  live := h.live

end

/-! ### Worlds -/

/-- Two events that an observer cannot tell apart. -/
inductive Event.LinkedBy (L : Link) : Event → Event → Prop
  | traced {v v' : Value} {cells cells' : Array Value} (hv : Counterpart L v v')
      (hcells : Counterpart L cells.toList cells'.toList) :
    Event.LinkedBy L (.traced v cells) (.traced v' cells')
  | wrote (line : String) : Event.LinkedBy L (.wrote line) (.wrote line)
  | emitted (level text : String) {c c' : Value} (h : Counterpart L c c') :
    Event.LinkedBy L (.emitted level c text) (.emitted level c' text)

theorem Event.LinkedBy.mono {L M : Link} {e e' : Event} (h : e.LinkedBy L e') (hLM : L ≤ M) :
    e.LinkedBy M e' := by
  cases h with
  | traced hv hcells => exact .traced (hv.mono hLM) (hcells.mono hLM)
  | wrote line => exact .wrote line
  | emitted level text h => exact .emitted level text (h.mono hLM)

/-- Two worlds that a link connects. -/
structure World.LinkedBy (loose : Bool) (L : Link) (w w' : World) : Prop where
  ids (n n' : Nat) : L.ids n = some n' → n < w.fresh ∧ n' < w'.fresh
  cells : Counterpart L w.cells.toList w'.cells.toList
  sources : w'.sources = w.sources
  journals : Counterpart L w.journals.toList w'.journals.toList
  events : List.Forall₂ (Event.LinkedBy L) (w.events.filter (·.isVisible))
    (w'.events.filter (·.isVisible))
  records (n n' : Nat) : L.calls n = some n' → ∃ i i', w.invocations[n]? = some i ∧
    w'.invocations[n']? = some i' ∧ i.Varies loose L (L.role n) i'

/-! ### Computations -/

/-- Which side of a comparison is bounded, and may be exhausted. -/
inductive Side
  | left | right

/-- How two computations are compared: whether values may be stored under two keys in either order,
and which side is bounded. -/
structure Comparing where
  loose : Bool
  bounded : Side

/-- The side that is not bounded can make two steps for each one of the other. -/
def Comparing.Enough (W : Comparing) (n m : Nat) : Prop :=
  match W.bounded with
  | .left => 2 * n ≤ m
  | .right => 2 * m ≤ n

namespace Comparing.Enough

variable {W : Comparing} {n m : Nat}

theorem cases (h : W.Enough n m) : (W.bounded = .left ∧ n = 0) ∨ (W.bounded = .right ∧ m = 0) ∨
    ∃ n' m', n = n' + 1 ∧ m = m' + 1 := by
  unfold Enough at h
  cases hW : W.bounded <;> rw [hW] at h <;> dsimp only at h
  · cases n with
    | zero => exact .inl ⟨rfl, rfl⟩
    | succ n => exact .inr (.inr ⟨n, m - 1, rfl, by omega⟩)
  · cases m with
    | zero => exact .inr (.inl ⟨rfl, rfl⟩)
    | succ m => exact .inr (.inr ⟨n - 1, m, by omega, rfl⟩)

/-- One step on either side. -/
theorem step (h : W.Enough (n + 1) (m + 1)) : W.Enough n m := by
  unfold Enough at h ⊢
  split at h <;> omega

/-- One step on the left, and two on the right unless it is exhausted. -/
theorem step_right (h : W.Enough (n + 1) (m + 1)) :
    (W.bounded = .right ∧ m = 0) ∨ ∃ m', m = m' + 1 ∧ W.Enough n m' := by
  unfold Enough at h ⊢
  cases m with
  | zero =>
    split at h
    · omega
    · rename_i hW
      exact .inl ⟨hW, rfl⟩
  | succ m =>
    refine .inr ⟨m, rfl, ?_⟩
    split at h <;> omega

/-- Two steps on the left unless it is exhausted, and one on the right. -/
theorem step_left (h : W.Enough (n + 1) (m + 1)) :
    (W.bounded = .left ∧ n = 0) ∨ ∃ n', n = n' + 1 ∧ W.Enough n' m := by
  unfold Enough at h ⊢
  cases n with
  | zero =>
    split at h
    · rename_i hW
      exact .inl ⟨hW, rfl⟩
    · omega
  | succ n =>
    refine .inr ⟨n, rfl, ?_⟩
    split at h <;> omega

end Comparing.Enough

/-- Settings for two programs: no step is recorded, and there are enough steps. -/
structure Comparing.Fits (W : Comparing) (s s' : Settings) : Prop where
  left : s.logSteps = false
  right : s'.logSteps = false
  enough : W.Enough s.maxSteps s'.maxSteps

/-- Linked values in linked worlds, or the same failure in linked worlds, unless the bounded side is
exhausted. -/
inductive Outcome.LinkedBy {α β : Type} (W : Comparing) (L : Link) (R : Link → α → β → Prop) :
    Outcome α → Outcome β → Prop
  | value {M : Link} {a : α} {b : β} {w w' : World} (hLM : L ≤ M) (hw : w.LinkedBy W.loose M w')
      (h : R M a b) : Outcome.LinkedBy W L R (.value a w) (.value b w')
  | failed {M : Link} {f f' : Failure} {w w' : World} (hLM : L ≤ M)
      (hw : w.LinkedBy W.loose M w') (h : Counterpart M f.outline f'.outline) :
    Outcome.LinkedBy W L R (.failed f w) (.failed f' w')
  | left (h : W.bounded = .left) (o : Outcome β) : Outcome.LinkedBy W L R .exhausted o
  | right (h : W.bounded = .right) (o : Outcome α) : Outcome.LinkedBy W L R o .exhausted

/-- If the first side is the bounded one, what it comes to the second side comes to, too. -/
theorem Outcome.LinkedBy.of_value {α β : Type} {W : Comparing} {L : Link} {R : Link → α → β → Prop}
    {a : α} {w : World} {o : Outcome β} (h : Outcome.LinkedBy W L R (.value a w) o)
    (hW : W.bounded = .left) :
    ∃ M b w', L ≤ M ∧ o = .value b w' ∧ w.LinkedBy W.loose M w' ∧ R M a b := by
  cases h with
  | value hLM hw h => exact ⟨_, _, _, hLM, rfl, hw, h⟩
  | right h =>
    rw [hW] at h
    cases h

/-- Two computations that come to linked outcomes from linked worlds. -/
def Action.LinkedBy {α β : Type} (W : Comparing) (L : Link) (R : Link → α → β → Prop)
    (x : Action α) (y : Action β) : Prop :=
  ∀ w w', w.LinkedBy W.loose L w' → (x w).LinkedBy W L R (y w')

/-- The same on both sides. -/
abbrev Equal (α : Type) : Link → α → α → Prop := fun _ a b => a = b

theorem Counterpart.outline {L : Link} {f f' : Failure} (h : Counterpart L f f') :
    Counterpart L f.outline f'.outline := by
  refine map Failure.outline (fun {N f m} hf => ?_) h
  obtain ⟨hnamed, rfl⟩ := hf
  cases f with
  | refused r =>
    cases r with
    | unhandledEffect e =>
      cases e with
      | mk r ss => exact ⟨⟨hnamed.1, trivial⟩, rfl⟩
    | _ => exact ⟨hnamed, rfl⟩
  | _ => exact ⟨hnamed, rfl⟩

/-- Texts that stand for each other are the same. -/
theorem Counterpart.text_eq {L : Link} {a b : String} (h : Counterpart L a b) : a = b := by
  obtain ⟨m, ⟨-, rfl⟩, -, h⟩ := h
  exact h.symm

namespace Action.LinkedBy

variable {W : Comparing} {L : Link} {α β γ δ : Type} {R : Link → α → β → Prop}
  {x : Action α} {y : Action β}

theorem pure {a : α} {b : β} (h : R L a b) : Action.LinkedBy W L R (pure a) (pure b) :=
  fun _ _ hw => .value (Link.le_refl L) hw h

theorem fail {f f' : Failure} (h : Counterpart L f f') :
    Action.LinkedBy W L R (Action.fail f) (Action.fail f') :=
  fun _ _ hw => .failed (Link.le_refl L) hw h.outline

theorem exhaustLeft (h : W.bounded = .left) (y : Action β) :
    Action.LinkedBy W L R Action.exhaust y :=
  fun _ w' _ => .left h (y w')

theorem exhaustRight (h : W.bounded = .right) (x : Action α) :
    Action.LinkedBy W L R x Action.exhaust :=
  fun w _ _ => .right h (x w)

theorem mono {R' : Link → α → β → Prop} (h : Action.LinkedBy W L R x y)
    (hR : ∀ M a b, L ≤ M → R M a b → R' M a b) : Action.LinkedBy W L R' x y := by
  intro w w' hw
  have hxy := h w w' hw
  generalize x w = o at hxy ⊢
  generalize y w' = o' at hxy ⊢
  cases hxy with
  | value hLM hw h => exact .value hLM hw (hR _ _ _ hLM h)
  | failed hLM hw h => exact .failed hLM hw h
  | left h => exact .left h _
  | right h => exact .right h _

/-- What the two computations came to may be used. -/
theorem bind_value {S : Link → γ → δ → Prop} {f : α → Action γ} {g : β → Action δ}
    (h : Action.LinkedBy W L R x y)
    (hnext : ∀ M a b, L ≤ M → R M a b → (∃ w w₁, x w = .value a w₁) →
      (∃ w w₁, y w = .value b w₁) → Action.LinkedBy W M S (f a) (g b)) :
    Action.LinkedBy W L S (x >>= f) (y >>= g) := by
  intro w w' hw
  have hxy := h w w' hw
  rw [Action.bind_apply, Action.bind_apply]
  generalize hx : x w = o at hxy ⊢
  generalize hy : y w' = o' at hxy ⊢
  cases hxy with
  | value hLM hv h =>
    rename_i M a b v v'
    have hfg := hnext M a b hLM h ⟨w, v, hx⟩ ⟨w', v', hy⟩ v v' hv
    dsimp only
    generalize f a v = o at hfg ⊢
    generalize g b v' = o' at hfg ⊢
    cases hfg with
    | value hMN hw h => exact .value (Link.le_trans hLM hMN) hw h
    | failed hMN hw h => exact .failed (Link.le_trans hLM hMN) hw h
    | left h => exact .left h _
    | right h => exact .right h _
  | failed hLM hw h => exact .failed hLM hw h
  | left h => exact .left h _
  | right h => exact .right h _

theorem bind {S : Link → γ → δ → Prop} {f : α → Action γ} {g : β → Action δ}
    (h : Action.LinkedBy W L R x y)
    (hnext : ∀ M a b, L ≤ M → R M a b → Action.LinkedBy W M S (f a) (g b)) :
    Action.LinkedBy W L S (x >>= f) (y >>= g) :=
  h.bind_value fun M a b hLM hab _ _ => hnext M a b hLM hab

/-- A computation whose value is put to some use. -/
theorem map {S : Link → γ → δ → Prop} {f : α → γ} {g : β → δ} (h : Action.LinkedBy W L R x y)
    (hnext : ∀ M a b, L ≤ M → R M a b → S M (f a) (g b)) :
    Action.LinkedBy W L S (x >>= fun a => Pure.pure (f a)) (y >>= fun b => Pure.pure (g b)) :=
  h.bind fun M a b hLM hab => .pure (hnext M a b hLM hab)

theorem ofExcept [Along α] {a b : Except Failure α} (h : Counterpart L a b) :
    Action.LinkedBy W L Counterpart (Action.ofExcept a) (Action.ofExcept b) := by
  cases counterpart_except.mp h with
  | ok hab => exact .pure hab
  | error hfg => exact .fail hfg

theorem text (t : Except TextFault String) :
    Action.LinkedBy W L (Equal String) (Action.text t) (Action.text t) := by
  cases t with
  | ok t => exact .pure rfl
  | error f => exact .fail (.failure fun _ => ⟨trivial, rfl⟩)

theorem require [Along α] {a b : Option α} (h : Counterpart L a b) {f : Failure}
    (hf : Counterpart L f f) :
    Action.LinkedBy W L Counterpart (Action.require f a) (Action.require f b) := by
  cases counterpart_option.mp h with
  | none => exact .fail hf
  | some hab => exact .pure hab

end Action.LinkedBy

/-! ### Lists in the world -/

section

variable {α β : Type} {R : α → β → Prop} {as : List α} {bs : List β}

theorem forall₂_getElem? (h : List.Forall₂ R as bs) (n : Nat) : Option.Rel R as[n]? bs[n]? := by
  induction h generalizing n with
  | nil => exact .none
  | cons hab _ ih =>
    cases n with
    | zero => exact .some hab
    | succ n => exact ih n

theorem forall₂_modify (h : List.Forall₂ R as bs) (n : Nat) {f : α → α} {g : β → β}
    (hfg : ∀ a b, R a b → R (f a) (g b)) : List.Forall₂ R (as.modify n f) (bs.modify n g) := by
  induction h generalizing n with
  | nil => cases n <;> exact .nil
  | cons hab h ih =>
    cases n with
    | zero => exact .cons (hfg _ _ hab) h
    | succ n => exact .cons hab (ih n)

end

section

variable {L : Link} {α : Type} [Along α] {xs xs' : List α}

theorem Counterpart.getElem? (h : Counterpart L xs xs') (n : Nat) :
    Counterpart L xs[n]? xs'[n]? :=
  counterpart_option.mpr (forall₂_getElem? (counterpart_list.mp h) n)

theorem Counterpart.modifyAt (h : Counterpart L xs xs') (n : Nat) {f g : α → α}
    (hfg : ∀ a b, Counterpart L a b → Counterpart L (f a) (g b)) :
    Counterpart L (xs.modify n f) (xs'.modify n g) :=
  counterpart_list.mpr (forall₂_modify (counterpart_list.mp h) n hfg)

theorem Counterpart.setAt (h : Counterpart L xs xs') (n : Nat) {v v' : α}
    (hv : Counterpart L v v') : Counterpart L (xs.set n v) (xs'.set n v') := by
  rw [List.set_eq_modify, List.set_eq_modify]
  exact h.modifyAt n fun _ _ _ => hv

end

/-! ### What is drawn and what is seen -/

section

variable {loose : Bool} {L : Link} {w w' : World}

/-- What has been linked is not drawn again. -/
theorem World.LinkedBy.undrawn (hw : w.LinkedBy loose L w') :
    L.ids w.fresh = none ∧ L.ids.symm w'.fresh = none := by
  refine ⟨Option.eq_none_iff_forall_ne_some.mpr fun n' h => ?_,
    Option.eq_none_iff_forall_ne_some.mpr fun n h => ?_⟩
  · exact Nat.lt_irrefl _ (hw.ids _ n' h).1
  · exact Nat.lt_irrefl _ (hw.ids n _ ((PEquiv.eq_some_iff _).mp h)).2

/-- Identities may be drawn that nothing is linked to. -/
theorem World.LinkedBy.drawn (hw : w.LinkedBy loose L w') {n n' : Nat} (hn : w.fresh ≤ n)
    (hn' : w'.fresh ≤ n') :
    World.LinkedBy loose L { w with fresh := n } { w' with fresh := n' } :=
  { hw with ids := fun k k' hk => ⟨Nat.lt_of_lt_of_le (hw.ids k k' hk).1 hn,
      Nat.lt_of_lt_of_le (hw.ids k k' hk).2 hn'⟩ }

/-- The link of the worlds in which one more identity has been drawn on either side. -/
theorem World.LinkedBy.exists_drawn (hw : w.LinkedBy loose L w') : ∃ M, L ≤ M ∧
    M.ids w.fresh = some w'.fresh ∧ World.LinkedBy loose M { w with fresh := w.fresh + 1 }
      { w' with fresh := w'.fresh + 1 } := by
  obtain ⟨hfresh, hfresh'⟩ := hw.undrawn
  have hLM : L ≤ { L with ids := Link.join L.ids w.fresh w'.fresh hfresh hfresh' } :=
    ⟨fun _ _ h => Link.join_of_some hfresh hfresh' h, fun _ _ h => h, fun _ _ _ => rfl⟩
  refine ⟨_, hLM, Link.join_self hfresh hfresh', ?_⟩
  constructor
  · intro n n' h
    obtain ⟨rfl, rfl⟩ | h := Link.join_cases hfresh hfresh' h
    · exact ⟨Nat.lt_succ_self _, Nat.lt_succ_self _⟩
    · exact ⟨Nat.lt_succ_of_lt (hw.ids n n' h).1, Nat.lt_succ_of_lt (hw.ids n n' h).2⟩
  · exact hw.cells.mono hLM
  · exact hw.sources
  · exact hw.journals.mono hLM
  · exact hw.events.imp fun _ _ he => he.mono hLM
  · intro n n' h
    obtain ⟨i, i', hi, hi', hii'⟩ := hw.records n n' h
    exact ⟨i, i', hi, hi', hii'.mono hLM⟩

end

namespace Action.LinkedBy

variable {W : Comparing} {L : Link}

theorem fresh : Action.LinkedBy W L (fun M n n' => M.ids n = some n') Action.fresh
    Action.fresh := by
  intro w w' hw
  obtain ⟨M, hLM, hn, hM⟩ := hw.exists_drawn
  exact .value hLM hM hn

/-- Values that are made while identities are drawn that nothing is linked to. -/
theorem of_drawn {α β : Type} {R : Link → α → β → Prop} {x : Action α} {y : Action β}
    (h : ∀ w w' : World, ∃ a b n n', w.fresh ≤ n ∧ w'.fresh ≤ n' ∧
      x w = .value a { w with fresh := n } ∧ y w' = .value b { w' with fresh := n' } ∧ R L a b) :
    Action.LinkedBy W L R x y := by
  intro w w' hw
  obtain ⟨a, b, n, n', hn, hn', hx, hy, hab⟩ := h w w'
  rw [hx, hy]
  exact .value (Link.le_refl L) (hw.drawn hn hn') hab

/-- What is done to the worlds. -/
theorem change {f g : World → World}
    (h : ∀ w w', w.LinkedBy W.loose L w' → (f w).LinkedBy W.loose L (g w')) :
    Action.LinkedBy W L (Equal Unit) (Action.change f) (Action.change g) :=
  fun w w' hw => .value (Link.le_refl L) (h w w' hw) rfl

theorem ask {α β : Type} {R : Link → α → β → Prop} {f : World → α} {g : World → β}
    (h : ∀ w w', w.LinkedBy W.loose L w' → R L (f w) (g w')) :
    Action.LinkedBy W L R (Action.ask f) (Action.ask g) :=
  fun w w' hw => .value (Link.le_refl L) hw (h w w' hw)

theorem emit {e e' : Event} (h : e.LinkedBy L e') :
    Action.LinkedBy W L (Equal Unit) (Action.emit e) (Action.emit e') := by
  refine change fun w w' hw => { hw with events := ?_ }
  cases h with
  | traced hv hcells => exact .cons (.traced hv hcells) hw.events
  | wrote line => exact .cons (.wrote line) hw.events
  | emitted level text hc => exact .cons (.emitted level text hc) hw.events

/-- Diagnostics are not compared. -/
theorem note (severity severity' : Severity) (text text' : String) :
    Action.LinkedBy W L (Equal Unit) (Action.note severity text) (Action.note severity' text') :=
  change fun _ _ hw => { hw with }

/-! ### Cells, sources and journals -/

section

variable {v v' : Value}

theorem showValue (hv : Counterpart L v v') :
    Action.LinkedBy W L (Equal Unit) (showValue v) (EffectHandlers.showValue v') :=
  change fun _ _ hw => { hw with events := .cons (.traced hv hw.cells) hw.events }

theorem newCell (hv : Counterpart L v v') :
    Action.LinkedBy W L Counterpart (newCell v) (EffectHandlers.newCell v') := by
  intro w w' hw
  have hsize : w'.cells.size = w.cells.size := hw.cells.length
  refine .value (Link.le_refl L) { hw with cells := ?_ } (hsize ▸ .cell _)
  simp only [Array.toList_push]
  exact hw.cells.append (.cons hv .nil)

theorem readCell (n : Nat) :
    Action.LinkedBy W L Counterpart (readCell n) (EffectHandlers.readCell n) := by
  refine ask fun w w' hw => ?_
  rw [← Array.getElem?_toList, ← Array.getElem?_toList]
  exact (hw.cells.getElem? n).getD

theorem writeCell (n : Nat) (hv : Counterpart L v v') :
    Action.LinkedBy W L (Equal Unit) (writeCell n v) (EffectHandlers.writeCell n v') := by
  refine change fun w w' hw => { hw with cells := ?_ }
  simp only [Array.toList_setIfInBounds]
  exact hw.cells.setAt n hv

theorem newSource (t : String) :
    Action.LinkedBy W L (Equal Nat) (newSource t) (EffectHandlers.newSource t) := by
  intro w w' hw
  refine .value (Link.le_refl L) { hw with sources := ?_ } ?_
  · exact congrArg (Array.push · t.toList) hw.sources
  · exact congrArg Array.size hw.sources.symm

theorem readLine (source : Nat) : Action.LinkedBy W L (Equal (List Char))
    (Handler.readLine source) (Handler.readLine source) := by
  intro w w' hw
  refine .value (Link.le_refl L) { hw with sources := ?_ } ?_
  · simp only [hw.sources]
  · simp only [hw.sources]

theorem newJournal : Action.LinkedBy W L (Equal Nat) newJournal newJournal := by
  intro w w' hw
  refine .value (Link.le_refl L) { hw with journals := ?_ } hw.journals.length.symm
  simp only [Array.toList_push]
  exact hw.journals.append (.cons .nil .nil)

theorem journalEntries (n : Nat) :
    Action.LinkedBy W L Counterpart (journalEntries n) (EffectHandlers.journalEntries n) := by
  refine ask fun w w' hw => ?_
  rw [← Array.getElem?_toList, ← Array.getElem?_toList]
  have hentries := hw.journals.getElem? n
  generalize w.journals.toList[n]? = o at hentries ⊢
  generalize w'.journals.toList[n]? = o' at hentries ⊢
  cases counterpart_option.mp hentries with
  | none => exact .nil
  | some h => exact h.reverse

theorem record (n : Nat) (name : String) (hv : Counterpart L v v') :
    Action.LinkedBy W L (Equal Unit) (Handler.record n name v) (Handler.record n name v') := by
  refine change fun w w' hw => { hw with journals := ?_ }
  simp only [Array.toList_modify]
  exact hw.journals.modifyAt n fun _ _ h => .cons (.tuple (.cons (.text name) (.cons hv .nil))) h

end

end Action.LinkedBy

end EffectHandlers
