/-
EffectHandlers/Pipeline.lean

Feeding an answer through the pipeline of an effect.

Each stage is applied to the value so far.  When a stage gives a suspended
chain, the bind stages that follow it are not applied one by one: binding a
suspended chain only adds the stage to its pipeline, so the whole run of
bind stages is moved there at once.  A node with many pending stages is
thus resumed in time linear in their number.

`applyStages` is the plain loop: a left fold that applies every stage in turn.

Main statements: moving a run of bind stages is what applying them one by
one comes to (`applyStages_suspended`), and so both loops are the same
action (`resumeFrom_eq_applyStages`).
-/
import EffectHandlers.Chain

namespace EffectHandlers

/-- Whether a stage is the continuation of a chain. -/
def Stage.isBind : Stage → Bool
  | .bind _ => true
  | .call _ | .lift => false

/-- What a stage makes of a value. -/
def Stage.apply (call : Call) (s : Stage) (v : Value) : Action Value :=
  match s with
  | .call f => call f [v]
  | .lift => pure (.chain (Chain.finished v))
  | .bind b =>
    match v with
    | .chain c => do return .chain (← c.bind call b)
    | other => Action.fail (.notChain "bind" other.typeName)

/-- The effect with stages added at the end of its pipeline. -/
def Effect.extend (e : Effect) (ss : List Stage) : Effect :=
  { e with pipeline := e.pipeline ++ ss }

@[simp] theorem Effect.extend_nil (e : Effect) : e.extend [] = e := by
  cases e
  simp [extend]

theorem Effect.extend_extend (e : Effect) (ss ts : List Stage) :
    (e.extend ss).extend ts = e.extend (ss ++ ts) := by
  simp [extend]

theorem Effect.map_eq_extend (e : Effect) (s : Stage) : e.map s = e.extend [s] := rfl

/-! ### Moving bind stages -/

/-- The run of bind stages at the front of a list of stages, and the rest.  A list of bind
stages only is its own run, which is then shared and not copied. -/
def splitBinds (ss : List Stage) : List Stage × List Stage :=
  if ss.all Stage.isBind then (ss, [])
  else (ss.takeWhile Stage.isBind, ss.dropWhile Stage.isBind)

theorem splitBinds_append (ss : List Stage) :
    (splitBinds ss).1 ++ (splitBinds ss).2 = ss := by
  unfold splitBinds
  split
  · exact List.append_nil ss
  · exact List.takeWhile_append_dropWhile

theorem isBind_of_mem_splitBinds {ss : List Stage} {s : Stage}
    (h : s ∈ (splitBinds ss).1) : s.isBind = true := by
  unfold splitBinds at h
  split at h
  · rename_i hall
    exact List.all_eq_true.mp hall s h
  · exact List.all_eq_true.mp List.all_takeWhile s h

theorem length_splitBinds_le (ss : List Stage) : (splitBinds ss).2.length ≤ ss.length := by
  have h := congrArg List.length (splitBinds_append ss)
  rw [List.length_append] at h
  omega

/-- A value with the bind stages that follow moved onto it if it is a suspended chain, and the
stages that are then left. -/
def splice (v : Value) (ss : List Stage) : Value × List Stage :=
  match v with
  | .chain (.suspended e r) =>
    let (binds, rest) := splitBinds ss
    (.chain (.suspended (e.extend binds) r), rest)
  | v => (v, ss)

theorem length_splice_le (v : Value) (ss : List Stage) :
    (splice v ss).2.length ≤ ss.length := by
  unfold splice
  split
  · exact length_splitBinds_le ss
  · exact Nat.le_refl _

/-! ### The loop -/

/-- Take a value through stages. -/
def resumeFrom (call : Call) (v : Value) (ss : List Stage) : Action Value :=
  match ss with
  | [] => pure v
  | s :: rest => do
    let v ← s.apply call v
    -- A suspended chain takes the bind stages that follow in one piece.
    resumeFrom call (splice v rest).1 (splice v rest).2
termination_by ss.length
decreasing_by exact Nat.lt_succ_of_le (length_splice_le v rest)

/-- Feed an answer through the pipeline of an effect. -/
def Effect.resume (call : Call) (e : Effect) (answer : Value) : Action Value :=
  resumeFrom call answer e.pipeline

/-! ### The plain loop -/

/-- Apply stages in turn. -/
def applyStages (call : Call) (v : Value) (ss : List Stage) : Action Value :=
  ss.foldlM (fun v s => s.apply call v) v

theorem applyStages_nil (call : Call) (v : Value) : applyStages call v [] = pure v := rfl

theorem applyStages_cons (call : Call) (v : Value) (s : Stage) (ss : List Stage) :
    applyStages call v (s :: ss) = s.apply call v >>= fun v => applyStages call v ss := rfl

theorem applyStages_append (call : Call) (v : Value) (ss ts : List Stage) :
    applyStages call v (ss ++ ts) = applyStages call v ss >>= fun v => applyStages call v ts :=
  List.foldlM_append

/-- A run of bind stages, applied to a suspended chain, only moves onto its pipeline. -/
theorem applyStages_suspended (call : Call) (e : Effect) (r : CapabilitySet)
    (binds rest : List Stage) (h : ∀ s ∈ binds, s.isBind = true) :
    applyStages call (.chain (.suspended e r)) (binds ++ rest)
      = applyStages call (.chain (.suspended (e.extend binds) r)) rest := by
  induction binds generalizing e with
  | nil => rw [Effect.extend_nil, List.nil_append]
  | cons s binds ih =>
    have hs : s.isBind = true := h s List.mem_cons_self
    match s, hs with
    | .bind b, _ =>
      have step : applyStages call (.chain (.suspended e r)) (.bind b :: binds ++ rest)
          = applyStages call (.chain (.suspended (e.map (.bind b)) r)) (binds ++ rest) := rfl
      rw [step, ih _ fun s hs => h s (List.mem_cons_of_mem _ hs), Effect.map_eq_extend,
        Effect.extend_extend, List.singleton_append]

/-- Moving the bind stages that follow changes nothing for the plain loop. -/
theorem applyStages_splice (call : Call) (v : Value) (ss : List Stage) :
    applyStages call (splice v ss).1 (splice v ss).2 = applyStages call v ss := by
  unfold splice
  split
  · rename_i e r
    have h := applyStages_suspended call e r (splitBinds ss).1 (splitBinds ss).2
      fun _ => isBind_of_mem_splitBinds
    rw [splitBinds_append] at h
    exact h.symm
  · rfl

/-- Both loops are the same action: they call the same functions on the same arguments in the
same order, and come to the same value or failure. -/
theorem resumeFrom_eq_applyStages (call : Call) (v : Value) (ss : List Stage) :
    resumeFrom call v ss = applyStages call v ss := by
  fun_induction resumeFrom call v ss with
  | case1 v => rfl
  | case2 v s rest ih =>
    exact congrArg (s.apply call v >>= ·) (funext fun v' => (ih v').trans
      (applyStages_splice call v' rest))

end EffectHandlers
