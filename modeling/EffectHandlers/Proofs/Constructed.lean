/-
EffectHandlers/Proofs/Constructed.lean

Chains made by the constructors of the library.

A program performs effects, binds chains and declares capabilities.  Every
pending effect that it gets in this way has a pipeline with an end of one
form: the answer is lifted to a finished chain, and only bind stages follow.
Only a program that puts a suspended chain together by hand can have
another one.

`Regime.constructed` is the regime of values in which no other suspended
chain occurs.  Main result: an effect of this form is resumed to a chain or
not at all (`Effect.EndsInChain.resume`).
-/
import EffectHandlers.Proofs.Regime

namespace EffectHandlers

/-- The pipeline lifts the answer to a chain and then continues that chain. -/
def Effect.EndsInChain (e : Effect) : Prop :=
  ∃ before binds : List Stage,
    e.pipeline = before ++ .lift :: binds ∧ ∀ s ∈ binds, s.isBind = true

namespace Effect.EndsInChain

theorem of_perform (e : Effect) : (e.map .lift).EndsInChain :=
  ⟨e.pipeline, [], rfl, by simp⟩

theorem map {e : Effect} (h : e.EndsInChain) (b : Binder) : (e.map (.bind b)).EndsInChain := by
  obtain ⟨before, binds, he, hbinds⟩ := h
  refine ⟨before, binds ++ [.bind b], ?_, fun s hs => ?_⟩
  · rw [Effect.pipeline_map, he, List.append_assoc, List.cons_append]
  · rcases List.mem_append.mp hs with hs | hs
    · exact hbinds s hs
    · rw [List.mem_singleton.mp hs]
      rfl

end Effect.EndsInChain

/-- Bind stages take chains to chains. -/
theorem applyStages_binds {call : Call} {binds : List Stage}
    (h : ∀ s ∈ binds, s.isBind = true) {c : Chain} {v : Value} {w w' : World}
    (hv : applyStages call (.chain c) binds w = .value v w') : ∃ d, v = .chain d := by
  induction binds generalizing c w with
  | nil =>
    obtain ⟨rfl, -⟩ := Action.pure_eq_value.mp hv
    exact ⟨c, rfl⟩
  | cons s binds ih =>
    have hs : s.isBind = true := h s List.mem_cons_self
    match s, hs with
    | .bind b, _ =>
      rw [applyStages_cons] at hv
      obtain ⟨u, w₁, hu, hv⟩ := Action.bind_eq_value.mp hv
      obtain ⟨d, w₂, -, hd⟩ := Action.bind_eq_value.mp hu
      obtain ⟨rfl, rfl⟩ := Action.pure_eq_value.mp hd
      exact ih (fun s hs => h s (List.mem_cons_of_mem _ hs)) hv

/-- Such an effect is resumed to a chain. -/
theorem Effect.EndsInChain.resume {e : Effect} (h : e.EndsInChain) {call : Call} {a v : Value}
    {w w' : World} (hv : e.resume call a w = .value v w') : ∃ c, v = .chain c := by
  obtain ⟨before, binds, he, hbinds⟩ := h
  rw [Effect.resume, resumeFrom_eq_applyStages, he, applyStages_append] at hv
  obtain ⟨u, w₁, -, hv⟩ := Action.bind_eq_value.mp hv
  rw [applyStages_cons] at hv
  obtain ⟨u', w₂, hlift, hv⟩ := Action.bind_eq_value.mp hv
  obtain ⟨rfl, rfl⟩ := Action.pure_eq_value.mp hlift
  exact applyStages_binds hbinds hv

/-- The regime of values in which every suspended chain was made by the library, and all
resumptions belong to certain calls. -/
def Regime.constructed (call : Nat → Prop) : Regime where
  call := call
  node e _ := e.EndsInChain
  op o := o ≠ .chain .suspended
  perform e := .of_perform e
  bind b h := h.map b
  declare _ h := h
  suspended h := absurd rfl h

end EffectHandlers
