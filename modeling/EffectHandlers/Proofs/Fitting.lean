/-
EffectHandlers/Proofs/Fitting.lean

Pipelines whose stages fit together.

A bind stage is meant for a chain, and the stages that collect the values of
a sequence are meant for a chain whose value is a list.  Nothing in the type
of a pipeline says that they get one.  A stage fits after another if what
that one gives is what it is meant for:

    lift, bind           give a chain
    bind (append, gather)  give a chain whose value will be a list
    bind                 needs a chain before it
    bind (gather)        needs a chain whose value will be a list

A function of the program may stand anywhere, and nothing is known of what it
gives.

Main results, as for a typed program: a stage that fits leaves behind what
the next one needs (`Stage.Fits.preserves`), and in a pipeline whose stages
fit nothing fails but a call of one of its functions, or the check that such
a function gave a chain (`stagesFit.failed`).
-/
import EffectHandlers.Pipeline

namespace EffectHandlers

/-! ### What stages give and need -/

/-- Whether a binder gives a chain whose value will be a list. -/
def Binder.collects : Binder → Bool
  | .gather _ | .append _ => true
  | .call _ | .map _ | .always _ => false

/-- Whether a binder needs a list. -/
def Binder.gathers : Binder → Bool
  | .gather _ => true
  | .call _ | .map _ | .always _ | .append _ => false

/-- Whether a stage gives a chain whenever it gives something. -/
def Stage.givesChain : Stage → Bool
  | .lift | .bind _ => true
  | .call _ => false

/-- Whether a stage gives a chain whose value will be a list. -/
def Stage.collects : Stage → Bool
  | .bind b => b.collects
  | .call _ | .lift => false

theorem Stage.givesChain_of_collects {s : Stage} (h : s.collects = true) :
    s.givesChain = true := by
  cases s <;> first | rfl | cases h

/-- A stage that may stand after another one, or at the front. -/
def Stage.Fits (before : Option Stage) : Stage → Prop
  | .call _ | .lift => True
  | .bind b => ∃ t ∈ before, t.givesChain = true ∧ (b.gathers = true → t.collects = true)

/-- Every stage fits after the one before it. -/
def stagesFit (before : Option Stage) : List Stage → Prop
  | [] => True
  | s :: ss => s.Fits before ∧ stagesFit (some s) ss

/-- A chain whose value is a list, or will be one. -/
def Chain.Gathering : Chain → Prop
  | .done v _ => ∃ xs, v = .list xs
  | .suspended e _ => ∃ t ∈ e.pipeline.getLast?, t.collects = true

/-- What a stage leaves behind. -/
def Stage.Leaves (t : Stage) (v : Value) : Prop :=
  t.givesChain = true → ∃ c, v = .chain c ∧ (t.collects = true → c.Gathering)

/-- The functions of the program that a binder holds. -/
def Binder.functions : Binder → List Callable
  | .call f | .map f => [f]
  | .always _ | .gather _ | .append _ => []

/-- The functions of the program that a stage holds. -/
def Stage.functions : Stage → List Callable
  | .call f => [f]
  | .lift => []
  | .bind b => b.functions

/-- A failure, in a world, of a call of one of some functions. -/
def CallFails (call : Call) (fs : List Callable) (f : Failure) (w : World) : Prop :=
  ∃ g ∈ fs, ∃ v w', call g [v] w' = .failed f w

variable {call : Call} {w w' : World} {f : Failure}

theorem CallFails.mono {fs gs : List Callable} (h : CallFails call fs f w)
    (hsub : ∀ g ∈ fs, g ∈ gs) : CallFails call gs f w := by
  obtain ⟨g, hg, hcall⟩ := h
  exact ⟨g, hsub g hg, hcall⟩

/-! ### Stages that fit -/

@[simp] theorem stagesFit_nil {before : Option Stage} : stagesFit before [] := trivial

theorem stagesFit_append {before : Option Stage} {ss ts : List Stage} :
    stagesFit before (ss ++ ts) ↔
      stagesFit before ss ∧ stagesFit (ss.getLast?.or before) ts := by
  induction ss generalizing before with
  | nil => simp [stagesFit]
  | cons s ss ih =>
    have hlast : ((s :: ss).getLast?.or before) = ss.getLast?.or (some s) := by
      cases ss <;> simp [List.getLast?_cons]
    rw [List.cons_append, stagesFit, stagesFit, ih, hlast, and_assoc]

/-- A stage at the end of a pipeline. -/
theorem stagesFit_concat {ss : List Stage} {s : Stage} :
    stagesFit none (ss ++ [s]) ↔ stagesFit none ss ∧ s.Fits ss.getLast? := by
  rw [stagesFit_append, Option.or_none]
  simp [stagesFit]

/-- A stage in the middle of a pipeline. -/
theorem stagesFit.fits {pre post : List Stage} {s : Stage}
    (h : stagesFit none (pre ++ s :: post)) : s.Fits pre.getLast? := by
  have hrest := (stagesFit_append.mp h).2
  rw [Option.or_none] at hrest
  exact hrest.1

/-! ### What is left behind -/

theorem Chain.gathering_declare {c : Chain} (h : c.Gathering) (r : CapabilitySet) :
    (c.declare r).Gathering := by
  cases c <;> exact h

theorem Chain.gathering_gather (c : Chain) (collected : List Value) :
    (c.gather collected).Gathering := by
  cases c with
  | done v r => exact ⟨_, rfl⟩
  | suspended e r => exact ⟨_, by rw [Effect.pipeline_map, List.getLast?_concat]; rfl, rfl⟩

/-- A binder that collects gives a chain whose value will be a list. -/
theorem Binder.apply_gathering {b : Binder} (hb : b.collects = true) {v : Value} {c : Chain}
    (h : b.apply call v w = .value c w') : c.Gathering := by
  cases b with
  | gather d =>
    cases v with
    | list collected =>
      obtain ⟨rfl, -⟩ := Action.pure_eq_value.mp h
      exact Chain.gathering_gather d collected
    | _ => cases h
  | append collected =>
    obtain ⟨rfl, -⟩ := Action.pure_eq_value.mp h
    exact ⟨_, rfl⟩
  | _ => cases hb

/-- A chain that is continued by a binder that collects. -/
theorem Chain.bind_gathering {c d : Chain} {b : Binder} (hb : b.collects = true)
    (h : c.bind call b w = .value d w') : d.Gathering := by
  cases c with
  | done v r =>
    obtain ⟨d, w₁, hd, hpure⟩ := Action.bind_eq_value.mp h
    obtain ⟨rfl, -⟩ := Action.pure_eq_value.mp hpure
    exact Chain.gathering_declare (Binder.apply_gathering hb hd) r
  | suspended e r =>
    obtain ⟨rfl, -⟩ := Action.pure_eq_value.mp h
    exact ⟨.bind b, by rw [Effect.pipeline_map, List.getLast?_concat]; rfl, hb⟩

/-- A stage leaves behind what is said of it. -/
theorem Stage.apply_leaves {s : Stage} {v v' : Value} (h : s.apply call v w = .value v' w') :
    s.Leaves v' := by
  intro hs
  cases s with
  | call g => cases hs
  | lift =>
    obtain ⟨rfl, -⟩ := Action.pure_eq_value.mp h
    exact ⟨_, rfl, nofun⟩
  | bind b =>
    cases v with
    | chain c =>
      obtain ⟨d, w₁, hd, hpure⟩ := Action.bind_eq_value.mp h
      obtain ⟨rfl, -⟩ := Action.pure_eq_value.mp hpure
      exact ⟨d, rfl, fun hb => Chain.bind_gathering hb hd⟩
    | _ => cases h

/-- Stages leave behind what is said of the last one. -/
theorem applyStages_leaves {ss : List Stage} {v v' : Value}
    (h : applyStages call v ss w = .value v' w') : ∀ t ∈ ss.getLast?, t.Leaves v' := by
  induction ss generalizing v w with
  | nil => exact nofun
  | cons s ss ih =>
    rw [applyStages_cons] at h
    obtain ⟨u, w₁, hu, h⟩ := Action.bind_eq_value.mp h
    cases ss with
    | nil =>
      obtain ⟨rfl, rfl⟩ := Action.pure_eq_value.mp h
      intro t ht
      obtain rfl : s = t := by simpa using ht
      exact Stage.apply_leaves hu
    | cons t ts => simpa using ih h

/-! ### What may fail -/

/-- A failure of a binder that is given what it needs. -/
theorem Binder.apply_failed {b : Binder} {v : Value}
    (hv : b.gathers = true → ∃ xs, v = .list xs) (h : b.apply call v w = .failed f w') :
    CallFails call b.functions f w' ∨ ∃ found, f = .notChainResult "binder" found := by
  cases b with
  | call g =>
    obtain hcall | ⟨u, w₁, -, hof⟩ := Action.bind_eq_failed.mp h
    · exact .inl ⟨g, List.mem_singleton_self g, v, w, hcall⟩
    · cases u <;> cases hof <;> exact .inr ⟨_, rfl⟩
  | map g =>
    obtain hcall | ⟨u, w₁, -, hpure⟩ := Action.bind_eq_failed.mp h
    · exact .inl ⟨g, List.mem_singleton_self g, v, w, hcall⟩
    · cases hpure
  | gather d =>
    obtain ⟨xs, rfl⟩ := hv rfl
    cases h
  | always | append => cases h

/-- A failure of a chain that is continued by what fits. -/
theorem Chain.bind_failed {c : Chain} {b : Binder} (hc : b.gathers = true → c.Gathering)
    (h : c.bind call b w = .failed f w') :
    CallFails call b.functions f w' ∨ ∃ found, f = .notChainResult "binder" found := by
  cases c with
  | done v r =>
    obtain hb | ⟨d, w₁, -, hpure⟩ := Action.bind_eq_failed.mp h
    · exact Binder.apply_failed hc hb
    · cases hpure
  | suspended e r => cases h

/-- A failure of a stage that is given what it needs. -/
theorem Stage.apply_failed {s : Stage} {before : Option Stage} (hs : s.Fits before) {v : Value}
    (hv : ∀ t ∈ before, t.Leaves v) (h : s.apply call v w = .failed f w') :
    CallFails call s.functions f w' ∨ ∃ found, f = .notChainResult "binder" found := by
  cases s with
  | call g => exact .inl ⟨g, List.mem_singleton_self g, v, w, h⟩
  | lift => cases h
  | bind b =>
    obtain ⟨t, ht, hgives, hcollects⟩ := hs
    obtain ⟨c, rfl, hc⟩ := hv t ht hgives
    obtain hbind | ⟨d, w₁, -, hpure⟩ := Action.bind_eq_failed.mp h
    · exact Chain.bind_failed (fun hb => hc (hcollects hb)) hbind
    · cases hpure

/-- **A pipeline whose stages fit does not go wrong**: nothing fails but a call of one of its
functions, or the check that such a function gave a chain. -/
theorem stagesFit.failed {ss : List Stage} {before : Option Stage} (hss : stagesFit before ss)
    {v : Value} (hv : ∀ t ∈ before, t.Leaves v) (h : applyStages call v ss w = .failed f w') :
    CallFails call (ss.flatMap Stage.functions) f w' ∨
      ∃ found, f = .notChainResult "binder" found := by
  induction ss generalizing before v w with
  | nil => cases h
  | cons s ss ih =>
    rw [applyStages_cons] at h
    obtain hs | ⟨u, w₁, hu, hrest⟩ := Action.bind_eq_failed.mp h
    · refine (Stage.apply_failed hss.1 hv hs).imp (fun hcall => hcall.mono fun g hg => ?_) id
      exact List.mem_append_left _ hg
    · have hleaves : ∀ t ∈ some s, t.Leaves u := by
        rintro t ⟨⟩
        exact Stage.apply_leaves hu
      refine (ih hss.2 hleaves hrest).imp (fun hcall => hcall.mono fun g hg => ?_) id
      exact List.mem_append_right _ hg

/-- In a pipeline whose stages fit, a bind stage gets a chain. -/
theorem stagesFit.chain_of_bind {pre post : List Stage} {b : Binder}
    (h : stagesFit none (pre ++ .bind b :: post)) {v v' : Value}
    (hpre : applyStages call v pre w = .value v' w') : ∃ c, v' = .chain c := by
  obtain ⟨t, ht, hgives, -⟩ := h.fits
  obtain ⟨c, hc, -⟩ := applyStages_leaves hpre t ht hgives
  exact ⟨c, hc⟩

end EffectHandlers
