/-
EffectHandlers/Proofs/Behaviour.lean

Chains that behave alike.

Two chains behave alike in their worlds if they declare the same and are
both finished, with values that are alike, or both wait for requests that
cannot be told apart; and if, answered alike in whatever later worlds, both
go on to chains that behave alike, or fail alike.  Nothing is said of their
pipelines, nor of the calls of programs in which they go on.

The relation is the greatest one with this property (`Behaves`).  To show
that two chains behave alike is to find a relation between chains in worlds
that is closed under answering (`Behaves.of_closed`).

Main results: the constructors of the library take chains that behave alike
to chains that behave alike (`Behaves.bind`, `Behaves.sequence`,
`Behaves.declare`, `Sameness.behaves_perform`).
-/
import EffectHandlers.Proofs.Sameness
import EffectHandlers.Proofs.Reference

namespace EffectHandlers

variable {s : Settings}

/-- A relation between chains in known worlds. -/
abbrev ChainRel (s : Settings) : Type := Known s → Chain → Known s → Chain → Prop

/-- What a pipeline can end in: chains that are related, or values of one type that are no
chains. -/
inductive ChainRel.Ends (R : ChainRel s) (w : Known s) : Value → Known s → Value → Prop
  | chain {c c' : Chain} {u : Known s} (h : R w c u c') : Ends R w (.chain c) u (.chain c')
  | other {v v' : Value} {u : Known s} (left : ∀ c, v ≠ .chain c) (right : ∀ c, v' ≠ .chain c)
      (type : v.typeName = v'.typeName) : Ends R w v u v'

theorem ChainRel.Ends.mono {R R' : ChainRel s} (h : ∀ w c u c', R w c u c' → R' w c u c')
    {w u : Known s} {v v' : Value} (hv : R.Ends w v u v') : R'.Ends w v u v' := by
  cases hv with
  | chain hc => exact .chain (h _ _ _ _ hc)
  | other left right type => exact .other left right type

/-! ### The relation -/

namespace Sameness

variable (L : Sameness s)

/-- Two chains look the same, and answers that are alike lead to outcomes that are related. -/
def Unfolds (R : ChainRel s) (w : Known s) (c : Chain) (u : Known s) (c' : Chain) : Prop :=
  match c, c' with
  | .done a r, .done b r' => r = r' ∧ L.same w a u b
  | .suspended e r, .suspended e' r' =>
    r = r' ∧ L.Asks w e.request u e'.request ∧
      ∀ w' u' a b, w.Later w' → u.Later u' → L.same w' a u' b →
        Concurs R.Ends w' (e.resume (Callable.meaning s) a) u' (e'.resume (Callable.meaning s) b)
  | _, _ => False

/-- Two chains behave alike. -/
def Behaves : ChainRel s := fun w c u c' =>
  ∃ R : ChainRel s, (∀ w c u c', R w c u c' → L.Unfolds R w c u c') ∧ R w c u c'

variable {L} {w w' u u' : Known s} {c c' : Chain}

theorem Unfolds.mono {R R' : ChainRel s} (hR : ∀ w c u c', R w c u c' → R' w c u c')
    (h : L.Unfolds R w c u c') : L.Unfolds R' w c u c' := by
  match c, c', h with
  | .done a r, .done b r', h => exact h
  | .suspended e r, .suspended e' r', ⟨hr, hasks, hresume⟩ =>
    refine ⟨hr, hasks, fun w' u' a b hw hu hab => ?_⟩
    exact (hresume w' u' a b hw hu hab).mono fun _ _ _ _ _ _ hv => hv.mono hR

theorem Unfolds.later {R : ChainRel s} (h : L.Unfolds R w c u c') (hw : w.Later w')
    (hu : u.Later u') : L.Unfolds R w' c u' c' := by
  match c, c', h with
  | .done a r, .done b r', ⟨hr, hab⟩ => exact ⟨hr, L.grow hab hw.grows hu.grows⟩
  | .suspended e r, .suspended e' r', ⟨hr, hasks, hresume⟩ =>
    refine ⟨hr, hasks.grow hw.grows hu.grows, fun w'' u'' a b hw' hu' hab => ?_⟩
    exact hresume w'' u'' a b (hw.trans hw') (hu.trans hu') hab

/-- What behaves alike looks the same and goes on to what behaves alike. -/
theorem Behaves.unfolds (h : L.Behaves w c u c') : L.Unfolds L.Behaves w c u c' := by
  obtain ⟨R, hR, hc⟩ := h
  exact (hR w c u c' hc).mono fun w c u c' hc => ⟨R, hR, hc⟩

/-- **Coinduction**: chains behave alike if a relation holds of them that goes on to chains it
holds of again, or that are known to behave alike. -/
theorem Behaves.of_closed {R : ChainRel s}
    (hR : ∀ w c u c', R w c u c' →
      L.Unfolds (fun w c u c' => R w c u c' ∨ L.Behaves w c u c') w c u c')
    (h : R w c u c') : L.Behaves w c u c' := by
  refine ⟨fun w c u c' => R w c u c' ∨ L.Behaves w c u c', ?_, .inl h⟩
  intro w c u c' h
  rcases h with h | h
  · exact hR w c u c' h
  · exact h.unfolds.mono fun _ _ _ _ => .inr

theorem Behaves.later (h : L.Behaves w c u c') (hw : w.Later w') (hu : u.Later u') :
    L.Behaves w' c u' c' := by
  let R : ChainRel s := fun w' c u' c' =>
    ∃ w u, Known.Later w w' ∧ Known.Later u u' ∧ L.Behaves w c u c'
  have hR : R w' c u' c' := ⟨w, u, hw, hu, h⟩
  refine Behaves.of_closed (R := R) ?_ hR
  rintro w' c u' c' ⟨w, u, hw, hu, h⟩
  exact (h.unfolds.later hw hu).mono fun _ _ _ _ => .inr

theorem Behaves.requires (h : L.Behaves w c u c') : c.requires = c'.requires := by
  have hunfolds := h.unfolds
  match c, c', hunfolds with
  | .done a r, .done b _, ⟨rfl, _⟩ => rfl
  | .suspended e r, .suspended e' _, ⟨rfl, _, _⟩ => rfl

theorem Ends.later {v v' : Value} (h : L.Behaves.Ends w v u v') (hw : w.Later w')
    (hu : u.Later u') : L.Behaves.Ends w' v u' v' := by
  cases h with
  | chain h => exact .chain (h.later hw hu)
  | other left right type => exact .other left right type

/-- What can be seen of two values is alike: they are chains that declare the same, both finished
with values that are alike or both waiting for requests that cannot be told apart, or they are no
chains and of one type. -/
inductive Seems (L : Sameness s) (w u : World) : Value → Value → Prop
  | done {a b : Value} {r : CapabilitySet} (value : L.same w a u b) :
      Seems L w u (.chain (.done a r)) (.chain (.done b r))
  | waiting {e e' : Effect} {r : CapabilitySet} (request : L.Asks w e.request u e'.request) :
      Seems L w u (.chain (.suspended e r)) (.chain (.suspended e' r))
  | other {v v' : Value} (left : ∀ c, v ≠ .chain c) (right : ∀ c, v' ≠ .chain c)
      (type : v.typeName = v'.typeName) : Seems L w u v v'

/-- What behaves alike seems alike. -/
theorem Ends.seems {v v' : Value} (h : L.Behaves.Ends w v u v') : L.Seems w u v v' := by
  cases h with
  | other left right type => exact .other left right type
  | @chain c c' _ h =>
    have hunfolds := h.unfolds
    match c, c', hunfolds with
    | .done a r, .done b _, ⟨rfl, hab⟩ => exact .done hab
    | .suspended e r, .suspended e' _, ⟨rfl, hasks, _⟩ => exact .waiting hasks

/-- What looks the same and goes on to what behaves alike behaves alike. -/
theorem Behaves.of_unfolds (h : L.Unfolds L.Behaves w c u c') : L.Behaves w c u c' := by
  let R : ChainRel s := fun w c u c' => L.Unfolds L.Behaves w c u c'
  refine Behaves.of_closed (R := R) ?_ h
  intro w c u c' h
  exact h.mono fun _ _ _ _ => .inr

/-! ### Single chains -/

theorem behaves_done {a b : Value} (h : L.same w a u b) (r : CapabilitySet) :
    L.Behaves w (.done a r) u (.done b r) := .of_unfolds ⟨rfl, h⟩

/-- What is alike is chains that are alike, or no chains. -/
theorem ends_of_same {v v' : Value} (h : L.same w v u v') :
    ChainRel.Ends (fun w c u c' => L.same w (.chain c) u (.chain c')) w v u v' := by
  by_cases hv : ∃ c, v = .chain c
  · obtain ⟨c, rfl⟩ := hv
    obtain ⟨c', rfl, -⟩ := L.chain h
    exact .chain h
  · refine .other (fun c hc => hv ⟨c, hc⟩) (fun c hc => ?_) (L.typeName h)
    subst hc
    obtain ⟨c', rfl, -⟩ := L.chain (L.symm h)
    exact hv ⟨c', rfl⟩

/-- Values that are alike, or chains that behave alike. -/
inductive Gives (L : Sameness s) (w : Known s) : Value → Known s → Value → Prop
  | same {v v' : Value} {u : Known s} (h : L.same w v u v') : Gives L w v u v'
  | chain {c c' : Chain} {u : Known s} (h : L.Behaves w c u c') :
      Gives L w (.chain c) u (.chain c')

theorem Gives.later {v v' : Value} (h : L.Gives w v u v') (hw : w.Later w') (hu : u.Later u') :
    L.Gives w' v u' v' := by
  cases h with
  | same h => exact .same (L.grow h hw.grows hu.grows)
  | chain h => exact .chain (h.later hw hu)

/-- Effects that are alike are resumed to what is alike. -/
theorem resume_ends {e e' : Effect} (h : L.same w (.effect e) u (.effect e')) {a b : Value}
    (hab : L.same w a u b) :
    Concurs (fun w v u v' => L.same w v u v') w (e.resume (Callable.meaning s) a) u
      (e'.resume (Callable.meaning s) b) :=
  Concurs.of_alike (L.resume h (.refl _) (.refl _) w.kept u.kept hab)
    (Reference.keeps_effectResume s e a) (Reference.keeps_effectResume s e' b)

/-- Chains that are alike behave alike. -/
theorem behaves_of_same (h : L.same w (.chain c) u (.chain c')) : L.Behaves w c u c' := by
  let R : ChainRel s := fun w c u c' => L.same w (.chain c) u (.chain c')
  refine Behaves.of_closed (R := R) ?_ h
  intro w c u c' h
  have hr := L.requires h
  obtain ⟨_, hc', hrel⟩ := L.chain h
  cases hc'
  match c, c', hrel with
  | .done a r, .done b r', hab => exact ⟨hr, hab⟩
  | .suspended e r, .suspended e' r', he =>
    refine ⟨hr, asks_of_same he, fun w' u' a b hw hu hab => ?_⟩
    refine (resume_ends (L.grow he hw.grows hu.grows) hab).mono ?_
    intro w v u v' _ _ hv
    exact (ends_of_same hv).mono fun _ _ _ _ => .inl

theorem Behaves.declare (h : L.Behaves w c u c') (caps : CapabilitySet) :
    L.Behaves w (c.declare caps) u (c'.declare caps) := by
  have hunfolds := h.unfolds
  match c, c', hunfolds with
  | .done a r, .done b _, ⟨rfl, hab⟩ => exact behaves_done hab _
  | .suspended e r, .suspended e' _, ⟨rfl, hasks, hresume⟩ =>
    exact .of_unfolds ⟨rfl, hasks, hresume⟩

theorem behaves_perform {e e' : Effect} (h : L.same w (.effect e) u (.effect e')) :
    L.Behaves w (.perform e) u (.perform e') := by
  have hasks := asks_of_same h
  refine .of_unfolds ⟨?_, hasks, fun w' u' a b hw hu hab => ?_⟩
  · exact congrArg CapabilitySet.single hasks.capability
  · rw [Effect.resume_map, Effect.resume_map]
    refine (resume_ends (L.grow h hw.grows hu.grows) hab).bind ?_
    intro w'' x u'' y _ _ hxy
    exact .ret (.chain (behaves_done hxy ∅))

/-! ### Continuing a chain -/

/-- Binders that are applied alike in all later worlds. -/
def Continues (L : Sameness s) (w : Known s) (b : Binder) (u : Known s) (b' : Binder) : Prop :=
  ∀ w' u' x y, w.Later w' → u.Later u' → L.same w' x u' y →
    Concurs L.Behaves w' (b.apply (Callable.meaning s) x) u' (b'.apply (Callable.meaning s) y)

theorem Continues.later {b b' : Binder} (h : L.Continues w b u b') (hw : w.Later w')
    (hu : u.Later u') : L.Continues w' b u' b' :=
  fun w'' u'' x y hw' hu' hxy => h w'' u'' x y (hw.trans hw') (hu.trans hu') hxy

/-- Two pending chains that behave alike, continued by binders that are applied alike. -/
inductive Pending (L : Sameness s) : ChainRel s
  | mk {w u : Known s} {e e' : Effect} {r : CapabilitySet} {b b' : Binder}
      (chains : L.Behaves w (.suspended e r) u (.suspended e' r))
      (binders : L.Continues w b u b') :
      Pending L w (.suspended (e.map (.bind b)) r) u (.suspended (e'.map (.bind b')) r)

/-- A chain that is continued is pending with the continuation, or is what the continuation
gives. -/
theorem bind_pending {b b' : Binder} (h : L.Behaves w c u c') (hb : L.Continues w b u b') :
    Concurs (fun w c u c' => L.Pending w c u c' ∨ L.Behaves w c u c') w
      (c.bind (Callable.meaning s) b) u (c'.bind (Callable.meaning s) b') := by
  have hunfolds := h.unfolds
  match c, c', hunfolds with
  | .done a r, .done a' _, ⟨rfl, hab⟩ =>
    rw [Chain.bind_done, Chain.bind_done]
    refine (hb w u a a' (.refl w) (.refl u) hab).bind fun w' d u' d' _ _ hd => ?_
    exact .ret (.inr (hd.declare r))
  | .suspended e r, .suspended e' _, ⟨rfl, _, _⟩ => exact .ret (.inl (.mk h hb))

/-- The stage of a binder. -/
theorem stage_bind {R : ChainRel s} {b b' : Binder} {v v' : Value}
    (h : L.Behaves.Ends w v u v')
    (hchain : ∀ c c', L.Behaves w c u c' →
      Concurs R w (c.bind (Callable.meaning s) b) u (c'.bind (Callable.meaning s) b')) :
    Concurs R.Ends w ((Stage.bind b).apply (Callable.meaning s) v) u
      ((Stage.bind b').apply (Callable.meaning s) v') := by
  cases h with
  | chain h =>
    refine (hchain _ _ h).bind fun w' d u' d' _ _ hd => ?_
    exact .ret (.chain hd)
  | other left right type =>
    have hfail (v : Value) (b : Binder) (hv : ∀ c, v ≠ .chain c) :
        (Stage.bind b).apply (Callable.meaning s) v
          = Action.fail (.notChain "bind" v.typeName) := by
      cases v with
      | chain c => exact absurd rfl (hv c)
      | _ => rfl
    rw [hfail v b left, hfail v' b' right, type]
    exact .fail (.refl _)

/-- Pending chains with a continuation behave alike. -/
theorem Pending.behaves (h : L.Pending w c u c') : L.Behaves w c u c' := by
  refine Behaves.of_closed (R := L.Pending) ?_ h
  intro w c u c' h
  cases h with
  | @mk _ _ e e' r b b' chains binders =>
    obtain ⟨-, hasks, hresume⟩ := chains.unfolds
    refine ⟨rfl, hasks, fun w' u' x y hw hu hxy => ?_⟩
    rw [Effect.resume_map, Effect.resume_map]
    refine (hresume w' u' x y hw hu hxy).bind fun w'' v u'' v' hw' hu' hv => ?_
    refine stage_bind hv fun d d' hd => ?_
    exact bind_pending hd (binders.later (hw.trans hw') (hu.trans hu'))

/-- **Chains that behave alike are continued alike.** -/
theorem Behaves.bind {b b' : Binder} (h : L.Behaves w c u c') (hb : L.Continues w b u b') :
    Concurs L.Behaves w (c.bind (Callable.meaning s) b) u
      (c'.bind (Callable.meaning s) b') := by
  refine (bind_pending h hb).mono fun w c u c' _ _ hc => ?_
  rcases hc with hc | hc
  · exact hc.behaves
  · exact hc

/-! ### Binders -/

theorem continues_always (h : L.Behaves w c u c') :
    L.Continues w (.always c) u (.always c') :=
  fun _ _ _ _ hw hu _ => .ret (h.later hw hu)

/-- A function that does alike is mapped alike. -/
theorem continues_map {f g : Callable}
    (h : ∀ w' u' x y, w.Later w' → u.Later u' → L.same w' x u' y →
      Concurs (fun w v u v' => L.same w v u v') w' (Callable.meaning s f [x]) u'
        (Callable.meaning s g [y])) :
    L.Continues w (.map f) u (.map g) := by
  intro w' u' x y hw hu hxy
  refine (h w' u' x y hw hu hxy).bind fun w'' a u'' b _ _ hab => ?_
  exact .ret (behaves_done hab ∅)

/-- What has to be a chain is one, or is refused alike. -/
theorem ofValue_concurs (role : String) {v v' : Value} (h : L.Behaves.Ends w v u v') :
    Concurs L.Behaves w (Chain.ofValue role v) u (Chain.ofValue role v') := by
  cases h with
  | chain hc => exact .ret hc
  | other left right type =>
    have hfail (v : Value) (hv : ∀ c, v ≠ .chain c) :
        Chain.ofValue role v = Action.fail (.notChainResult role v.typeName) := by
      cases v with
      | chain c => exact absurd rfl (hv c)
      | _ => rfl
    rw [hfail v left, hfail v' right, type]
    exact .fail (.refl _)

/-- A function whose results behave alike binds alike. -/
theorem continues_call {f g : Callable}
    (h : ∀ w' u' x y, w.Later w' → u.Later u' → L.same w' x u' y →
      Concurs L.Behaves.Ends w' (Callable.meaning s f [x]) u' (Callable.meaning s g [y])) :
    L.Continues w (.call f) u (.call g) := by
  intro w' u' x y hw hu hxy
  exact (h w' u' x y hw hu hxy).bind fun w'' v u'' v' _ _ hv => ofValue_concurs "binder" hv

/-! ### Sequences -/

theorem same_append {as bs : List Value} {a b : Value} (h : L.All w as u bs)
    (hab : L.same w a u b) : L.same w (.list (as ++ [a])) u (.list (bs ++ [b])) := by
  refine L.list ?_
  induction h with
  | nil => exact .cons hab .nil
  | cons hxy _ ih => exact .cons hxy ih

theorem continues_append {as bs : List Value} (h : L.All w as u bs) :
    L.Continues w (.append as) u (.append bs) :=
  fun _ _ _ _ hw hu hxy => .ret (behaves_done (same_append (h.grow hw.grows hu.grows) hxy) ∅)

/-- A chain whose value is added to a list. -/
theorem Behaves.gather (h : L.Behaves w c u c') {as bs : List Value} (hall : L.All w as u bs) :
    L.Behaves w (c.gather as) u (c'.gather bs) := by
  have hunfolds := h.unfolds
  match c, c', hunfolds with
  | .done a r, .done b _, ⟨rfl, hab⟩ => exact behaves_done (same_append hall hab) r
  | .suspended e r, .suspended e' _, ⟨rfl, _, _⟩ =>
    exact (Pending.mk h (continues_append hall)).behaves

theorem continues_gather (h : L.Behaves w c u c') :
    L.Continues w (.gather c) u (.gather c') := by
  intro w' u' x y hw hu hxy
  have hc := h.later hw hu
  by_cases hx : ∃ as, x = .list as
  · obtain ⟨as, rfl⟩ := hx
    obtain ⟨bs, rfl, hall⟩ := L.items hxy
    exact .ret (hc.gather hall)
  · have hy : ¬ ∃ bs, y = .list bs := by
      rintro ⟨bs, rfl⟩
      obtain ⟨as, rfl, -⟩ := L.items (L.symm hxy)
      exact hx ⟨as, rfl⟩
    have hfail (v : Value) (c : Chain) (hv : ¬ ∃ as, v = .list as) :
        (Binder.gather c).apply (Callable.meaning s) v
          = Action.fail (.noSum v.typeName "list") := by
      cases v with
      | list as => exact absurd ⟨as, rfl⟩ hv
      | _ => rfl
    rw [hfail x c hx, hfail y c' hy, L.typeName hxy]
    exact .fail (.refl _)

/-- Chains that behave alike, one by one. -/
def Behave (L : Sameness s) (w : Known s) (cs : List Chain) (u : Known s) (cs' : List Chain) :
    Prop :=
  List.Forall₂ (fun c c' => L.Behaves w c u c') cs cs'

theorem Behave.later {cs cs' : List Chain} (h : L.Behave w cs u cs') (hw : w.Later w')
    (hu : u.Later u') : L.Behave w' cs u' cs' := h.imp fun _ _ h => h.later hw hu

theorem Behaves.sequenceAfter {cs cs' : List Chain} (hcs : L.Behave w cs u cs')
    (h : L.Behaves w c u c') :
    Concurs L.Behaves w (Chain.sequenceAfter (Callable.meaning s) c cs) u
      (Chain.sequenceAfter (Callable.meaning s) c' cs') := by
  induction cs generalizing c c' cs' w u with
  | nil =>
    cases hcs
    exact .ret h
  | cons d cs ih =>
    cases hcs with
    | @cons _ d' _ cs' hd hcs =>
      refine (h.bind (continues_gather hd)).bind fun w' acc u' acc' hw hu hacc => ?_
      exact ih (Behave.later hcs hw hu) hacc

theorem Behave.sequence {cs cs' : List Chain} (hcs : L.Behave w cs u cs') :
    Concurs L.Behaves w (Chain.sequence (Callable.meaning s) cs) u
      (Chain.sequence (Callable.meaning s) cs') :=
  Behaves.sequenceAfter hcs (behaves_done (L.list .nil) ∅)

end Sameness

end EffectHandlers
