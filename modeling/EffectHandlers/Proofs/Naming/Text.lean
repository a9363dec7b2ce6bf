/-
EffectHandlers/Proofs/Naming/Text.lean

NamedAss have the same text.

Functions, cells and the identities of handlers leave nothing in a text.  The
one place where a text depends on more than the texts of the parts is a
keyed handler, whose keys are put in order first.  Sorting does the same to
two lists whose items are compared alike place by place (`sorted_relates`).

Main statements: `Value.form_along`, `Value.shown_along`,
`Value.truncated_along`.
-/
import Mathlib.Data.List.Forall2
import EffectHandlers.Proofs.Naming.Reading
import EffectHandlers.Run

namespace EffectHandlers

/-! ### Sorting -/

/-- The same failure, or values that are related. -/
inductive Except.Relates {ε α β : Type} (P : α → β → Prop) : Except ε α → Except ε β → Prop
  | ok {a : α} {b : β} (related : P a b) : Relates P (.ok a) (.ok b)
  | error (e : ε) : Relates P (.error e) (.error e)

section

variable {ε α β γ δ : Type} {P : α → β → Prop} {Q : γ → δ → Prop}

theorem Except.Relates.bind {x : Except ε α} {y : Except ε β} {f : α → Except ε γ}
    {g : β → Except ε δ} (h : Except.Relates P x y)
    (hnext : ∀ a b, P a b → Except.Relates Q (f a) (g b)) :
    Except.Relates Q (x >>= f) (y >>= g) := by
  cases h with
  | ok hab => exact hnext _ _ hab
  | error e => exact .error e

theorem getElem?_relates {xs : List α} {ys : List β} (h : List.Forall₂ P xs ys) (i : Nat) :
    Option.Rel P xs[i]? ys[i]? := by
  induction h generalizing i with
  | nil => exact .none
  | cons hab _ ih =>
    cases i with
    | zero => exact .some hab
    | succ i => exact ih i

variable {less : α → α → Except ε Bool} {less' : β → β → Except ε Bool}
  (hless : ∀ x x' y y', P x x' → P y y' → less x y = less' x' y')

include hless

theorem runAfter_relates (down : Bool) {x : α} {x' : β} (hx : P x x') {ys : List α} {ys' : List β}
    (hys : List.Forall₂ P ys ys') :
    Except.Relates (fun p q => List.Forall₂ P p.1 q.1 ∧ List.Forall₂ P p.2 q.2)
      (runAfter less down x ys) (runAfter less' down x' ys') := by
  induction hys generalizing x x' with
  | nil => exact .ok ⟨.nil, .nil⟩
  | cons hy hys ih =>
    unfold runAfter
    rw [hless _ _ _ _ hy hx]
    cases less' _ _ with
    | error e => exact .error e
    | ok b =>
      show Except.Relates _ (if (b == down) = true then _ else _)
        (if (b == down) = true then _ else _)
      split
      · refine (ih hy).bind fun p q hpq => ?_
        exact .ok ⟨.cons hy hpq.1, hpq.2⟩
      · exact .ok ⟨.nil, .cons hy hys⟩

theorem placeFor_relates {x : α} {x' : β} (hx : P x x') {xs : List α} {xs' : List β}
    (hxs : List.Forall₂ P xs xs') (fuel low high : Nat) :
    placeFor less x xs fuel low high = placeFor less' x' xs' fuel low high := by
  induction fuel generalizing low high with
  | zero => rfl
  | succ fuel ih =>
    have hat := getElem?_relates hxs (low + (high - low) / 2)
    simp only [placeFor]
    generalize xs[low + (high - low) / 2]? = o at hat ⊢
    generalize xs'[low + (high - low) / 2]? = o' at hat ⊢
    cases hat with
    | none => rfl
    | some hy => simp only [hless _ _ _ _ hx hy, ih]

theorem putIn_relates {x : α} {x' : β} (hx : P x x') {xs : List α} {xs' : List β}
    (hxs : List.Forall₂ P xs xs') :
    Except.Relates (List.Forall₂ P) (putIn less xs x) (putIn less' xs' x') := by
  unfold putIn
  rw [placeFor_relates hless hx hxs, hxs.length_eq]
  cases placeFor less' x' xs' xs'.length 0 xs'.length with
  | error e => exact .error e
  | ok place =>
    exact .ok (List.rel_append (List.forall₂_take place hxs)
      (.cons hx (List.forall₂_drop place hxs)))

/-- **Lists whose items are compared alike are put in order alike.** -/
theorem sorted_relates {xs : List α} {xs' : List β} (hxs : List.Forall₂ P xs xs') :
    Except.Relates (List.Forall₂ P) (sorted less xs) (sorted less' xs') := by
  have hfold {ys : List α} {ys' : List β} (hys : List.Forall₂ P ys ys') :
      ∀ {zs : List α} {zs' : List β}, List.Forall₂ P zs zs' →
        Except.Relates (List.Forall₂ P) (ys.foldlM (putIn less) zs)
          (ys'.foldlM (putIn less') zs') := by
    induction hys with
    | nil => exact fun hzs => .ok hzs
    | cons hy _ ih => exact fun hzs => (putIn_relates hless hy hzs).bind fun _ _ h => ih h
  rcases hxs with _ | ⟨hx, _ | ⟨hy, hzs⟩⟩
  · exact .ok .nil
  · exact .ok (.cons hx .nil)
  · simp only [sorted]
    rw [hless _ _ _ _ hy hx]
    cases less' _ _ with
    | error e => exact .error e
    | ok down =>
      refine (runAfter_relates hless down hy hzs).bind fun p q hpq => ?_
      have hrun := List.Forall₂.cons hx (.cons hy hpq.1)
      refine hfold hpq.2 ?_
      cases down
      · exact hrun
      · exact List.rel_reverse hrun

end

/-! ### Texts -/

variable {N : Naming}

theorem mapM_snd_eq {α β γ ε : Type} {P : α → β → Prop} {ps : List (α × Except ε γ)}
    {qs : List (β × Except ε γ)} (h : List.Forall₂ (fun p q => P p.1 q.1 ∧ q.2 = p.2) ps qs) :
    qs.mapM Prod.snd = ps.mapM Prod.snd := by
  induction h with
  | nil => rfl
  | cons hpq _ ih => rw [List.mapM_cons, List.mapM_cons, ih, hpq.2]

/-- The keys of a mapping with their texts. -/
theorem formKeys_relates {es : List (Value × Value)} (h : entriesNamed N es)
    (hform : ∀ e ∈ es, (e.1.along N).form = e.1.form) :
    List.Forall₂ (fun p q => NamedAs N p.1 q.1 ∧ q.2 = p.2)
      (formKeys es) (formKeys (entriesAlong N es)) := by
  induction es with
  | nil => exact .nil
  | cons e es ih =>
    obtain ⟨k, v⟩ := e
    exact .cons ⟨⟨h.1.1, rfl⟩, hform (k, v) List.mem_cons_self⟩
      (ih h.2 fun e he => hform e (List.mem_cons_of_mem _ he))

mutual

/-- **NamedAss have the same text.** -/
theorem Value.form_along : ∀ v : Value, v.Named N → (v.along N).form = v.form
  | .null, _ | .bool _, _ | .int _, _ | .text _, _ | .capability _, _ | .capabilities _, _
  | .function _, _ | .declined, _ | .cell _, _ => rfl
  | .list xs, h => congrArg (· >>= fun s => pure (bracketed "[" "]" s)) (formItems_along xs h)
  | .tuple xs, h => congrArg (· >>= fun s => pure (tupleForm s)) (formItems_along xs h)
  | .dict es, h =>
    congrArg (· >>= fun s => pure (bracketed "\x7b" "\x7d" s)) (formEntries_along es h)
  | .frozen es, h =>
    congrArg (· >>= fun s => pure ("frozendict.frozendict(" ++ bracketed "\x7b" "\x7d" s ++ ")"))
      (formEntries_along es h)
  | .effect e, h => Effect.form_along e h
  | .chain c, h => Chain.form_along c h
  | .handler a, h => Handler.form_along a h
  | .handled s n, h => by
    simp only [Value.along, Value.form, Value.form_along s h.1, Value.form_along n h.2]
  | .result v o, h => by
    simp only [Value.along, Value.form, Value.form_along v h.1, Value.form_along o h.2]
  | .refusal _ r, _ => by
    simp only [Value.along, Value.form, Refusal.typeName_along, Refusal.message_along]
termination_by structural v => v

theorem formItems_along : ∀ xs : List Value, valuesNamed N xs →
    formItems (valuesAlong N xs) = formItems xs
  | [], _ => rfl
  | x :: xs, h => by
    simp only [valuesAlong, formItems, Value.form_along x h.1, formItems_along xs h.2]
termination_by structural xs => xs

theorem formEntries_along : ∀ es : List (Value × Value), entriesNamed N es →
    formEntries (entriesAlong N es) = formEntries es
  | [], _ => rfl
  | (k, v) :: es, h => by
    simp only [entriesAlong, formEntries, Value.form_along k h.1.1, Value.form_along v h.1.2,
      formEntries_along es h.2]
termination_by structural es => es

theorem keyForms_along : ∀ es : List (Value × Value), entriesNamed N es →
    ∀ e ∈ es, (e.1.along N).form = e.1.form
  | (k, v) :: es, h, e, he => by
    rcases List.mem_cons.mp he with rfl | he
    · exact Value.form_along k h.1.1
    · exact keyForms_along es h.2 e he
termination_by structural es => es

theorem Effect.form_along : ∀ e : Effect, e.Named N → (e.along N).form = e.form
  | ⟨r, _⟩, h => by
    simp only [Effect.along, Effect.form, Request.kind_along, Request.formFields_along r h.1]
termination_by structural e => e

theorem Request.formFields_along : ∀ r : Request, r.Named N →
    (r.along N).formFields = r.formFields
  | .readLine, _ | .beep, _ => rfl
  | .log m, h | .writeLine m, h | .get m, h | .poke m, h | .tick m, h | .custom _ _ m, h => by
    simp only [Request.along, Request.formFields, Value.form_along m h]
  | .loudLog m v, h | .put m v, h | .modify m v, h => by
    simp only [Request.along, Request.formFields, Value.form_along m h.1, Value.form_along v h.2]
termination_by structural r => r

theorem Chain.form_along : ∀ c : Chain, c.Named N → (c.along N).form = c.form
  | .done v _, h => by simp only [Chain.along, Chain.form, Value.form_along v h]
  | .suspended e _, h => by simp only [Chain.along, Chain.form, Effect.form_along e h]
termination_by structural c => c

theorem Handler.form_along : ∀ a : Handler, a.Named N → (a.along N).form = a.form
  | .collector _, _ | .stream _ _, _ | .counter _, _ | .recorder _ _ _, _ => rfl
  | .emitter _ level _, h => by
    simp only [Handler.along, Handler.form, Value.form_along level h.2.1]
  | .transcript _ lines, _ => by
    simp only [Handler.along, Handler.form, valuesAlong_eq, List.length_map]
  | .store _ initial, h => by
    have hkeys := formKeys_relates h.2 (keyForms_along initial h.2)
    have hless (p p' q q' : Value × Except TextFault String)
        (hp : NamedAs N p.1 p'.1 ∧ p'.2 = p.2) (hq : NamedAs N q.1 q'.1 ∧ q'.2 = q.2) :
        p.1.less q.1 = p'.1.less q'.1 := by
      obtain ⟨⟨hp, hp'⟩, -⟩ := hp
      obtain ⟨⟨hq, hq'⟩, -⟩ := hq
      rw [← hp', ← hq']
      exact (Value.less_along p.1 q.1 hp hq).symm
    have hsorted := sorted_relates hless hkeys
    simp only [Handler.along, Handler.form]
    generalize sorted _ (formKeys initial) = x at hsorted ⊢
    generalize sorted _ (formKeys (entriesAlong N initial)) = y at hsorted ⊢
    cases hsorted with
    | error f => rfl
    | @ok keys keys' hpq =>
      show (keys'.mapM Prod.snd >>= _) = (keys.mapM Prod.snd >>= _)
      rw [mapM_snd_eq hpq]
  | .pair _ first second, h => by
    simp only [Handler.along, Handler.form, Handler.form_along first h.2.1,
      Handler.form_along second h.2.2]
  | .custom _ m, _ => by
    cases m
    rfl
termination_by structural a => a

end

theorem Value.shown_along {v : Value} (h : v.Named N) : (v.along N).shown = v.shown := by
  cases v
  case text => rfl
  case refusal id r => exact congrArg Except.ok r.message_along
  all_goals exact Value.form_along _ h

theorem Value.truncated_along {v : Value} (h : v.Named N) (limit : Int) :
    (v.along N).truncated limit = v.truncated limit :=
  congrArg (Except.map (EffectHandlers.truncated · limit)) (v.form_along h)

theorem Effect.recordText_along {e : Effect} (h : e.Named N) :
    (e.along N).recordText = e.recordText :=
  Value.truncated_along (v := .effect e) h 120

theorem Handler.capabilities_along : ∀ a : Handler, (a.along N).capabilities = a.capabilities
  | .collector _ | .emitter _ _ _ | .transcript _ _ | .stream _ _ | .store _ _ | .counter _ => rfl
  | .custom _ ⟨_, _, _, _, _, _, _, _⟩ => rfl
  | .recorder _ _ inner => Handler.capabilities_along inner
  | .pair _ first second =>
    congrArg₂ (· ∪ ·) (Handler.capabilities_along first) (Handler.capabilities_along second)
termination_by structural a => a

end EffectHandlers
