/-
EffectHandlers/Proofs/Naming/Reading.lean

What can be read off a value is the same on both sides of a link.

Numbers of calls cannot be read at all, and identities only by asking
whether two values are equal.  A link is one to one, so the counterparts of
two values are equal exactly if the values are.  Everything else that the
library reads off a value is the same for its counterpart: its type, its
truth, its number, why it cannot be a key, how it compares with others, and
its text.

Main statements: `Value.same_along`, `Value.keyFault?_along`,
`Value.form_along`.
-/
import EffectHandlers.Proofs.Naming
import EffectHandlers.Failure
import EffectHandlers.Value.Items

namespace EffectHandlers

variable {N : Naming}

/-! ### Collections -/

@[simp] theorem valuesAlong_eq (vs : List Value) : valuesAlong N vs = vs.map (Value.along N) := by
  induction vs with
  | nil => rfl
  | cons v vs ih => rw [valuesAlong, ih, List.map_cons]

@[simp] theorem entriesAlong_eq (es : List (Value × Value)) :
    entriesAlong N es = es.map (Prod.map (Value.along N) (Value.along N)) := by
  induction es with
  | nil => rfl
  | cons e es ih =>
    obtain ⟨k, v⟩ := e
    rw [entriesAlong, ih, List.map_cons]
    rfl

@[simp] theorem stagesAlong_eq (ss : List Stage) : stagesAlong N ss = ss.map (Stage.along N) := by
  induction ss with
  | nil => rfl
  | cons s ss ih => rw [stagesAlong, ih, List.map_cons]

@[simp] theorem valuesNamed_iff {vs : List Value} :
    valuesNamed N vs ↔ ∀ v ∈ vs, v.Named N := by
  induction vs with
  | nil => simp [valuesNamed]
  | cons v vs ih => simp [valuesNamed, ih]

@[simp] theorem entriesNamed_iff {es : List (Value × Value)} :
    entriesNamed N es ↔ ∀ e ∈ es, e.1.Named N ∧ e.2.Named N := by
  induction es with
  | nil => simp [entriesNamed]
  | cons e es ih =>
    obtain ⟨k, v⟩ := e
    simp [entriesNamed, ih]

@[simp] theorem stagesNamed_iff {ss : List Stage} :
    stagesNamed N ss ↔ ∀ s ∈ ss, s.Named N := by
  induction ss with
  | nil => simp [stagesNamed]
  | cons s ss ih => simp [stagesNamed, ih]

/-! ### Equality -/

theorem Callable.id_along : ∀ {f : Callable}, f.IsMade → f.Named N →
    (f.along N).id = N.idOf f.id ∧ N.HasId f.id
  | .closure _ _ _ _, _, h | .fixpoint _ _ _ _ _, _, h | .program _ _ _ _ _, _, h => ⟨rfl, h.1⟩

theorem Handler.id_along {h : Handler} (hh : h.Named N) :
    (h.along N).id = N.idOf h.id ∧ N.HasId h.id := by
  cases h
  case collector | counter | stream => exact ⟨rfl, hh⟩
  all_goals exact ⟨rfl, hh.1⟩

/-- Mappings agree if their counterparts do, where keys and values are compared alike. -/
theorem entriesAgree_along {xs ys : List (Value × Value)}
    (hx : ∀ e ∈ xs, ∀ k : Value, k.Named N →
      (e.1.along N).same (k.along N) = e.1.same k ∧ (e.2.along N).same (k.along N) = e.2.same k)
    (hy : ∀ e ∈ ys, e.1.Named N ∧ e.2.Named N) :
    (entriesWithin (entriesAlong N xs) (entriesAlong N ys)
        && (entriesAlong N ys).all (hasEntry (entriesAlong N xs)))
      = (entriesWithin xs ys && ys.all (hasEntry xs)) := by
  have hwithin : entriesWithin (entriesAlong N xs) (entriesAlong N ys) = entriesWithin xs ys := by
    induction xs with
    | nil => rfl
    | cons e xs ih =>
      obtain ⟨k, v⟩ := e
      have hany : (entriesAlong N ys).any (fun e => (k.along N).same e.1 && (v.along N).same e.2)
          = ys.any fun e => k.same e.1 && v.same e.2 := by
        rw [entriesAlong_eq, List.any_map, Bool.eq_iff_iff, List.any_eq_true, List.any_eq_true]
        refine exists_congr fun e => and_congr_right fun he => ?_
        have hkv := hx (k, v) List.mem_cons_self
        simp [(hkv e.1 (hy e he).1).1, (hkv e.2 (hy e he).2).2]
      have hrest := ih fun e he => hx e (List.mem_cons_of_mem _ he)
      exact congrArg₂ (· && ·) hany hrest
  have hhas (f : Value × Value) (hf : f ∈ ys) :
      hasEntry (entriesAlong N xs) (f.1.along N, f.2.along N) = hasEntry xs f := by
    clear hwithin
    induction xs with
    | nil => rfl
    | cons e xs ih =>
      obtain ⟨k, v⟩ := e
      have hkv := hx (k, v) List.mem_cons_self
      exact congrArg₂ (· || ·)
        (congrArg₂ (· && ·) (hkv f.1 (hy f hf).1).1 (hkv f.2 (hy f hf).2).2)
        (ih fun e he => hx e (List.mem_cons_of_mem _ he))
  rw [hwithin, entriesAlong_eq ys, List.all_map]
  refine congrArg (entriesWithin xs ys && ·) ?_
  rw [Bool.eq_iff_iff, List.all_eq_true, List.all_eq_true]
  exact forall₂_congr fun f hf => by
    rw [← hhas f hf]
    rfl

mutual

/-- **NamedAss are equal exactly if the values are.** -/
theorem Value.same_along : ∀ v w : Value, v.Named N → w.Named N →
    (v.along N).same (w.along N) = v.same w
  | .list xs, w, hv, hw => by
    cases w
    case list ys => exact sameItems_along xs ys hv hw
    all_goals rfl
  | .tuple xs, w, hv, hw => by
    cases w
    case tuple ys => exact sameItems_along xs ys hv hw
    case result v o => exact sameItems_along xs [v, o] hv ⟨hw.1, hw.2, trivial⟩
    all_goals rfl
  | .result v o, w, hv, hw => by
    cases w
    case tuple ys =>
      rcases ys with _ | ⟨y, _ | ⟨z, _ | _⟩⟩
      · rfl
      · rfl
      · exact congrArg₂ (· && ·) (Value.same_along v y hv.1 hw.1)
          (Value.same_along o z hv.2 hw.2.1)
      · rfl
    case result w p =>
      exact congrArg₂ (· && ·) (Value.same_along v w hv.1 hw.1) (Value.same_along o p hv.2 hw.2)
    all_goals rfl
  | .dict xs, w, hv, hw => by
    cases w
    case dict ys | frozen ys =>
      exact entriesAgree_along (entryAgrees_along xs hv) (entriesNamed_iff.mp hw)
    all_goals rfl
  | .frozen xs, w, hv, hw => by
    cases w
    case dict ys | frozen ys =>
      exact entriesAgree_along (entryAgrees_along xs hv) (entriesNamed_iff.mp hw)
    all_goals rfl
  | .effect e, w, hv, hw => by
    cases w
    case effect e' => exact Effect.same_along e e' hv hw
    all_goals rfl
  | .chain c, w, hv, hw => by
    cases w
    case chain c' => exact Chain.same_along c c' hv hw
    all_goals rfl
  | .function f, w, hv, hw => by
    cases w
    case function g =>
      obtain ⟨hf, hid⟩ := Callable.id_along hv.1 hv.2
      obtain ⟨hg, hid'⟩ := Callable.id_along hw.1 hw.2
      show ((f.along N).id == (g.along N).id) = (f.id == g.id)
      rw [hf, hg, Naming.idOf_beq hid hid']
    all_goals rfl
  | .handler a, w, hv, hw => by
    cases w
    case handler b =>
      obtain ⟨ha, hid⟩ := Handler.id_along hv
      obtain ⟨hb, hid'⟩ := Handler.id_along hw
      show ((a.along N).id == (b.along N).id) = (a.id == b.id)
      rw [ha, hb, Naming.idOf_beq hid hid']
    all_goals rfl
  | .handled s n, w, hv, hw => by
    cases w
    case handled t m =>
      exact congrArg₂ (· && ·) (Value.same_along s t hv.1 hw.1) (Value.same_along n m hv.2 hw.2)
    all_goals rfl
  | .refusal i _, w, hv, hw => by
    cases w
    case refusal j _ => exact Naming.idOf_beq hv.1 hw.1
    all_goals rfl
  | .null, w, _, _ | .bool _, w, _, _ | .int _, w, _, _ | .text _, w, _, _
  | .capability _, w, _, _ | .capabilities _, w, _, _ | .declined, w, _, _
  | .cell _, w, _, _ => by cases w <;> rfl
termination_by structural v => v

theorem sameItems_along : ∀ xs ys : List Value, valuesNamed N xs → valuesNamed N ys →
    sameItems (valuesAlong N xs) (valuesAlong N ys) = sameItems xs ys
  | [], ys, _, _ => by cases ys <;> rfl
  | x :: xs, ys, hx, hy => by
    cases ys with
    | nil => rfl
    | cons y ys =>
      exact congrArg₂ (· && ·) (Value.same_along x y hx.1 hy.1) (sameItems_along xs ys hx.2 hy.2)
termination_by structural xs => xs

theorem entryAgrees_along : ∀ es : List (Value × Value), entriesNamed N es →
    ∀ e ∈ es, ∀ k : Value, k.Named N →
      (e.1.along N).same (k.along N) = e.1.same k ∧ (e.2.along N).same (k.along N) = e.2.same k
  | (j, v) :: es, h, e, he, k, hk => by
    rcases List.mem_cons.mp he with rfl | he
    · exact ⟨Value.same_along j k h.1.1 hk, Value.same_along v k h.1.2 hk⟩
    · exact entryAgrees_along es h.2 e he k hk
termination_by structural es => es

theorem Effect.same_along : ∀ e e' : Effect, e.Named N → e'.Named N →
    (e.along N).same (e'.along N) = e.same e'
  | ⟨r, _⟩, ⟨r', _⟩, h, h' => Request.same_along r r' h.1 h'.1
termination_by structural e => e

theorem Request.same_along : ∀ r r' : Request, r.Named N → r'.Named N →
    (r.along N).same (r'.along N) = r.same r'
  | .log m, r', h, h' => by
    cases r'
    case log m' => exact Value.same_along m m' h h'
    all_goals rfl
  | .loudLog m v, r', h, h' => by
    cases r'
    case loudLog m' v' =>
      exact congrArg₂ (· && ·) (Value.same_along m m' h.1 h'.1) (Value.same_along v v' h.2 h'.2)
    all_goals rfl
  | .writeLine t, r', h, h' => by
    cases r'
    case writeLine t' => exact Value.same_along t t' h h'
    all_goals rfl
  | .get k, r', h, h' => by
    cases r'
    case get k' => exact Value.same_along k k' h h'
    all_goals rfl
  | .put k v, r', h, h' => by
    cases r'
    case put k' v' =>
      exact congrArg₂ (· && ·) (Value.same_along k k' h.1 h'.1) (Value.same_along v v' h.2 h'.2)
    all_goals rfl
  | .modify k f, r', h, h' => by
    cases r'
    case modify k' f' =>
      exact congrArg₂ (· && ·) (Value.same_along k k' h.1 h'.1) (Value.same_along f f' h.2 h'.2)
    all_goals rfl
  | .poke k, r', h, h' => by
    cases r'
    case poke k' => exact Value.same_along k k' h h'
    all_goals rfl
  | .tick n, r', h, h' => by
    cases r'
    case tick n' => exact Value.same_along n n' h h'
    all_goals rfl
  | .custom n c p, r', h, h' => by
    cases r'
    case custom n' c' p' =>
      exact congrArg ((n == n' && c == c') && ·) (Value.same_along p p' h h')
    all_goals rfl
  | .readLine, r', _, _ | .beep, r', _, _ => by cases r' <;> rfl
termination_by structural r => r

theorem Chain.same_along : ∀ c c' : Chain, c.Named N → c'.Named N →
    (c.along N).same (c'.along N) = c.same c'
  | .done v _, c', h, h' => by
    cases c' with
    | done v' _ => exact Value.same_along v v' h h'
    | suspended _ _ => rfl
  | .suspended e _, c', h, h' => by
    cases c' with
    | done _ _ => rfl
    | suspended e' _ => exact Effect.same_along e e' h h'
termination_by structural c => c

end

/-! ### Keys, truth and types -/

mutual

theorem Value.keyFault?_along : ∀ v : Value, (v.along N).keyFault? = v.keyFault?
  | .null | .bool _ | .int _ | .text _ | .list _ | .dict _ | .capability _ | .capabilities _
  | .function _ | .handler _ | .declined | .cell _ | .refusal _ _ => rfl
  | .tuple xs => itemsKeyFault?_along xs
  | .frozen es => entriesKeyFault?_along es
  | .effect e => Effect.keyFault?_along e
  | .chain c => Chain.keyFault?_along c
  | .handled s n =>
    congrArg₂ (· <|> ·) (Value.keyFault?_along s) (Value.keyFault?_along n)
  | .result v o =>
    congrArg₂ (· <|> ·) (Value.keyFault?_along v) (Value.keyFault?_along o)
termination_by structural v => v

theorem itemsKeyFault?_along : ∀ xs : List Value,
    itemsKeyFault? (valuesAlong N xs) = itemsKeyFault? xs
  | [] => rfl
  | x :: xs => congrArg₂ (· <|> ·) (Value.keyFault?_along x) (itemsKeyFault?_along xs)
termination_by structural xs => xs

theorem entriesKeyFault?_along : ∀ es : List (Value × Value),
    entriesKeyFault? (entriesAlong N es) = entriesKeyFault? es
  | [] => rfl
  | (k, v) :: es => congrArg₂ (· <|> ·) (Value.keyFault?_along k)
    (congrArg₂ (· <|> ·) (Value.keyFault?_along v) (entriesKeyFault?_along es))
termination_by structural es => es

theorem Effect.keyFault?_along : ∀ e : Effect, (e.along N).keyFault? = e.keyFault?
  | ⟨r, _⟩ => Request.keyFault?_along r
termination_by structural e => e

theorem Request.keyFault?_along : ∀ r : Request, (r.along N).keyFault? = r.keyFault?
  | .readLine | .beep => rfl
  | .log m => Value.keyFault?_along m
  | .loudLog m v => congrArg₂ (· <|> ·) (Value.keyFault?_along m) (Value.keyFault?_along v)
  | .writeLine t => Value.keyFault?_along t
  | .get k => Value.keyFault?_along k
  | .put k v => congrArg₂ (· <|> ·) (Value.keyFault?_along k) (Value.keyFault?_along v)
  | .modify k f => congrArg₂ (· <|> ·) (Value.keyFault?_along k) (Value.keyFault?_along f)
  | .poke k => Value.keyFault?_along k
  | .tick n => Value.keyFault?_along n
  | .custom _ _ p => Value.keyFault?_along p
termination_by structural r => r

theorem Chain.keyFault?_along : ∀ c : Chain, (c.along N).keyFault? = c.keyFault?
  | .done v _ => Value.keyFault?_along v
  | .suspended e _ => Effect.keyFault?_along e
termination_by structural c => c

end

theorem Value.isTrue_along (v : Value) : (v.along N).isTrue = v.isTrue := by
  cases v
  case list xs | tuple xs | dict xs | frozen xs => cases xs <;> rfl
  all_goals rfl

theorem Value.number?_along (v : Value) : (v.along N).number? = v.number? := by
  cases v <;> rfl

theorem Value.isText_along (v : Value) : (v.along N).isText = v.isText := by
  cases v <;> rfl

theorem Request.kind_along (r : Request) : (r.along N).kind = r.kind := by
  cases r <;> rfl

theorem Request.capability_along (r : Request) : (r.along N).capability = r.capability := by
  cases r <;> rfl

theorem Effect.request_along (e : Effect) : (e.along N).request = e.request.along N := by
  cases e
  rfl

theorem Effect.capability_along (e : Effect) : (e.along N).capability = e.capability := by
  rw [Effect.capability, Effect.request_along, Request.capability_along]
  rfl

theorem Handler.typeName_along (h : Handler) : (h.along N).typeName = h.typeName := by
  cases h
  case custom id m =>
    cases m
    rfl
  all_goals rfl

theorem Refusal.typeName_along (r : Refusal) : (r.along N).typeName = r.typeName := by
  cases r <;> rfl

theorem Value.typeName_along (v : Value) : (v.along N).typeName = v.typeName := by
  cases v
  case effect e =>
    show (e.along N).request.kind.name = e.request.kind.name
    rw [Effect.request_along, Request.kind_along]
  case chain c => cases c <;> rfl
  case handler h => exact h.typeName_along
  case refusal id r => exact r.typeName_along
  all_goals rfl

theorem Refusal.message_along (r : Refusal) : (r.along N).message = r.message := by
  cases r
  case unhandledEffect e =>
    unfold Refusal.message
    simp only [Refusal.along, Effect.capability_along, Effect.request_along, Request.kind_along]
  all_goals rw [Refusal.along]

/-! ### Order -/

mutual

theorem Value.less_along : ∀ v w : Value, v.Named N → w.Named N →
    (v.along N).less (w.along N) = v.less w
  | .tuple xs, w, hv, hw => by
    cases w
    case tuple ys => exact itemsLess_along xs ys hv hw
    case result v o => exact itemsLess_along xs [v, o] hv ⟨hw.1, hw.2, trivial⟩
    all_goals
      show Except.error (TextFault.notOrdered "tuple" (Value.along N _).typeName) = _
      rw [Value.typeName_along]
      rfl
  | .result v o, w, hv, hw => by
    have hpair (x y : Value) (rest : List Value) (hx : x.Named N) (hy : y.Named N) :
        (if (v.along N).same (x.along N) then
          if (o.along N).same (y.along N) then
            Except.ok !(valuesAlong N rest).isEmpty
          else (o.along N).less (y.along N)
        else (v.along N).less (x.along N))
          = if v.same x then if o.same y then .ok !rest.isEmpty else o.less y else v.less x := by
      rw [Value.same_along v x hv.1 hx, Value.same_along o y hv.2 hy,
        Value.less_along v x hv.1 hx, Value.less_along o y hv.2 hy]
      cases rest <;> rfl
    cases w
    case tuple ys =>
      rcases ys with _ | ⟨x, _ | ⟨y, rest⟩⟩
      · rfl
      · show (if (v.along N).same (x.along N) then Except.ok false
          else (v.along N).less (x.along N)) = if v.same x then .ok false else v.less x
        rw [Value.same_along v x hv.1 hw.1, Value.less_along v x hv.1 hw.1]
      · exact hpair x y rest hw.1 hw.2.1
    case result x y => exact hpair x y [] hw.1 hw.2
    all_goals
      show Except.error (TextFault.notOrdered "RunResult" (Value.along N _).typeName) = _
      rw [Value.typeName_along]
      rfl
  | .int _, w, _, _ | .bool _, w, _, _ | .text _, w, _, _ | .capabilities _, w, _, _ => by
    cases w
    case int | bool | text | capabilities => rfl
    all_goals
      show Except.error (TextFault.notOrdered _ (Value.along N _).typeName) = _
      rw [Value.typeName_along]
      rfl
  | .null, w, _, _ | .list _, w, _, _ | .dict _, w, _, _ | .frozen _, w, _, _
  | .capability _, w, _, _ | .effect _, w, _, _ | .chain _, w, _, _ | .function _, w, _, _
  | .handler _, w, _, _ | .handled _ _, w, _, _ | .declined, w, _, _ | .cell _, w, _, _
  | .refusal _ _, w, _, _ => by
    show Except.error
      (TextFault.notOrdered (Value.along N _).typeName (Value.along N _).typeName) = _
    rw [Value.typeName_along, Value.typeName_along]
    rfl
termination_by structural v => v

theorem itemsLess_along : ∀ xs ys : List Value, valuesNamed N xs → valuesNamed N ys →
    itemsLess (valuesAlong N xs) (valuesAlong N ys) = itemsLess xs ys
  | [], ys, _, _ => by cases ys <;> rfl
  | x :: xs, ys, hx, hy => by
    cases ys with
    | nil => rfl
    | cons y ys =>
      have hsame := Value.same_along x y hx.1 hy.1
      have hless := Value.less_along x y hx.1 hy.1
      have hrest := itemsLess_along xs ys hx.2 hy.2
      simp only [valuesAlong, itemsLess, hsame, hless, hrest]
termination_by structural xs => xs

end

end EffectHandlers
