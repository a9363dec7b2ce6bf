/-
EffectHandlers/Proofs/Naming/Items.lean

Values hold counterparts.

What the library takes out of a value, or puts together from several, has as
its counterpart what it takes out of the counterpart, or puts together from
the counterparts; where it fails, it fails with the counterpart of the
failure.  This goes for items and members, sums, look-ups in mappings and
environments, and for templates.
-/
import EffectHandlers.Proofs.Naming.Text
import EffectHandlers.Script.Data
import EffectHandlers.Value.Template

namespace EffectHandlers

variable {N : Naming}

/-! ### Failures -/

/-- A failure as it is in the other world. -/
def Failure.along (N : Naming) : Failure → Failure
  | .raised kind v => .raised kind (v.along N)
  | .refused r => .refused (r.along N)
  | .missingKey k => .missingKey (k.along N)
  | f => f

/-- Everything in a failure has a counterpart. -/
def Failure.Named (N : Naming) : Failure → Prop
  | .raised _ v => v.Named N
  | .refused r => r.Named N
  | .missingKey k => k.Named N
  | _ => True

theorem Failure.named_mono {M : Naming} (h : N ≤ M) (f : Failure) (hf : f.Named N) :
    f.Named M ∧ f.along M = f.along N := by
  cases f
  case raised kind v => exact (v.named_mono h hf).imp_right (congrArg (Failure.raised kind))
  case refused r => exact (r.named_mono h hf).imp_right (congrArg Failure.refused)
  case missingKey k => exact (k.named_mono h hf).imp_right (congrArg Failure.missingKey)
  all_goals exact ⟨trivial, rfl⟩

instance : Along Failure := ⟨Failure.Named, Failure.along, fun h f => f.named_mono h⟩

instance {ε α : Type} [Along ε] [Along α] : Along (Except ε α) where
  named N
    | .ok a => Along.named N a
    | .error f => Along.named N f
  along N
    | .ok a => .ok (Along.along N a)
    | .error f => .error (Along.along N f)
  mono h
    | .ok a => fun ha => (Along.mono h a ha).imp_right (congrArg Except.ok)
    | .error f => fun hf => (Along.mono h f hf).imp_right (congrArg Except.error)

namespace NamedAs

variable {α β ε : Type} [Along α] [Along β] [Along ε]

/-! ### Rules -/

theorem ok {a a' : α} (h : NamedAs N a a') :
    NamedAs N (Except.ok a : Except ε α) (.ok a') :=
  ⟨h.1, congrArg Except.ok h.2⟩

theorem error {f f' : ε} (h : NamedAs N f f') :
    NamedAs N (Except.error f : Except ε α) (.error f') :=
  ⟨h.1, congrArg Except.error h.2⟩

theorem bind {x x' : Except ε α} {g g' : α → Except ε β} (h : NamedAs N x x')
    (hnext : ∀ a a', NamedAs N a a' → NamedAs N (g a) (g' a')) :
    NamedAs N (x >>= g) (x' >>= g') := by
  obtain ⟨hx, rfl⟩ := h
  cases x with
  | ok a => exact hnext a _ ⟨hx, rfl⟩
  | error f => exact ⟨hx, rfl⟩

theorem some {a a' : α} (h : NamedAs N a a') : NamedAs N (some a) (some a') :=
  ⟨fun _ hb => Option.some.inj hb ▸ h.1, congrArg Option.some h.2⟩

theorem none : NamedAs N (none : Option α) none :=
  ⟨fun _ h => (Option.some_ne_none _ h.symm).elim, rfl⟩

theorem nil : NamedAs N ([] : List α) [] := ⟨nofun, rfl⟩

theorem cons {a a' : α} {as as' : List α} (h : NamedAs N a a') (hs : NamedAs N as as') :
    NamedAs N (a :: as) (a' :: as') :=
  ⟨List.forall_mem_cons.mpr ⟨h.1, hs.1⟩, congrArg₂ List.cons h.2 hs.2⟩

theorem append {as as' bs bs' : List α} (ha : NamedAs N as as') (hb : NamedAs N bs bs') :
    NamedAs N (as ++ bs) (as' ++ bs') :=
  ⟨fun x hx => (List.mem_append.mp hx).elim (ha.1 x) (hb.1 x),
    List.map_append.trans (congrArg₂ (· ++ ·) ha.2 hb.2)⟩

theorem reverse {as as' : List α} (h : NamedAs N as as') :
    NamedAs N as.reverse as'.reverse :=
  ⟨fun x hx => h.1 x (List.mem_reverse.mp hx),
    List.map_reverse.trans (congrArg List.reverse h.2)⟩

theorem mk {a a' : α} {b b' : β} (ha : NamedAs N a a') (hb : NamedAs N b b') :
    NamedAs N (a, b) (a', b') :=
  ⟨⟨ha.1, hb.1⟩, congrArg₂ Prod.mk ha.2 hb.2⟩

theorem getElem? {as as' : List α} (h : NamedAs N as as') (i : Nat) :
    NamedAs N as[i]? as'[i]? := by
  obtain ⟨hs, rfl⟩ := h
  exact ⟨fun a ha => hs a (List.mem_of_getElem? ha), (List.getElem?_map ..).symm⟩

end NamedAs

/-! ### Values -/

theorem named_values {vs : List Value} : Along.named N vs ↔ valuesNamed N vs :=
  valuesNamed_iff.symm

theorem named_entries {es : Mapping} : Along.named N es ↔ entriesNamed N es :=
  entriesNamed_iff.symm

theorem named_stages {ss : List Stage} : Along.named N ss ↔ stagesNamed N ss :=
  stagesNamed_iff.symm

theorem along_values (vs : List Value) : valuesAlong N vs = Along.along N vs := valuesAlong_eq vs

theorem along_entries (es : Mapping) : entriesAlong N es = Along.along N es := entriesAlong_eq es

theorem along_stages (ss : List Stage) : stagesAlong N ss = Along.along N ss := stagesAlong_eq ss

namespace NamedAs

variable {v v' w w' : Value} {vs vs' : List Value} {m m' : Mapping}

theorem list (h : NamedAs N vs vs') : NamedAs N (Value.list vs) (.list vs') :=
  ⟨named_values.mp h.1, congrArg Value.list ((along_values vs).trans h.2)⟩

theorem tuple (h : NamedAs N vs vs') : NamedAs N (Value.tuple vs) (.tuple vs') :=
  ⟨named_values.mp h.1, congrArg Value.tuple ((along_values vs).trans h.2)⟩

theorem dict (h : NamedAs N m m') : NamedAs N (Value.dict m) (.dict m') :=
  ⟨named_entries.mp h.1, congrArg Value.dict ((along_entries m).trans h.2)⟩

theorem frozen (h : NamedAs N m m') : NamedAs N (Value.frozen m) (.frozen m') :=
  ⟨named_entries.mp h.1, congrArg Value.frozen ((along_entries m).trans h.2)⟩

theorem result (hv : NamedAs N v v') (hw : NamedAs N w w') :
    NamedAs N (Value.result v w) (.result v' w') :=
  ⟨⟨hv.1, hw.1⟩, congrArg₂ Value.result hv.2 hw.2⟩

theorem handled (hv : NamedAs N v v') (hw : NamedAs N w w') :
    NamedAs N (Value.handled v w) (.handled v' w') :=
  ⟨⟨hv.1, hw.1⟩, congrArg₂ Value.handled hv.2 hw.2⟩

theorem effect {e e' : Effect} (h : NamedAs N e e') :
    NamedAs N (Value.effect e) (.effect e') := ⟨h.1, congrArg Value.effect h.2⟩

theorem chain {c c' : Chain} (h : NamedAs N c c') :
    NamedAs N (Value.chain c) (.chain c') := ⟨h.1, congrArg Value.chain h.2⟩

theorem handler {a a' : Handler} (h : NamedAs N a a') :
    NamedAs N (Value.handler a) (.handler a') := ⟨h.1, congrArg Value.handler h.2⟩

theorem function {f f' : Callable} (hf : f.IsMade) (h : NamedAs N f f') :
    NamedAs N (Value.function f) (.function f') := ⟨⟨hf, h.1⟩, congrArg Value.function h.2⟩

theorem null : NamedAs N Value.null .null := ⟨trivial, rfl⟩

theorem bool (b : Bool) : NamedAs N (Value.bool b) (.bool b) := ⟨trivial, rfl⟩

theorem int (n : Int) : NamedAs N (Value.int n) (.int n) := ⟨trivial, rfl⟩

theorem text (s : String) : NamedAs N (Value.text s) (.text s) := ⟨trivial, rfl⟩

/-- What can be read off counterparts. -/
theorem typeName (h : NamedAs N v v') : v'.typeName = v.typeName := h.2 ▸ v.typeName_along

theorem isTrue (h : NamedAs N v v') : v'.isTrue = v.isTrue := h.2 ▸ v.isTrue_along

theorem number? (h : NamedAs N v v') : v'.number? = v.number? := h.2 ▸ v.number?_along

theorem isText (h : NamedAs N v v') : v'.isText = v.isText := h.2 ▸ v.isText_along

theorem keyFault? (h : NamedAs N v v') : v'.keyFault? = v.keyFault? :=
  h.2 ▸ v.keyFault?_along

theorem same (hv : NamedAs N v v') (hw : NamedAs N w w') : v'.same w' = v.same w := by
  obtain ⟨hv, rfl⟩ := hv
  obtain ⟨hw, rfl⟩ := hw
  exact v.same_along w hv hw

theorem form (h : NamedAs N v v') : v'.form = v.form := h.2 ▸ v.form_along h.1

theorem shown (h : NamedAs N v v') : v'.shown = v.shown := h.2 ▸ Value.shown_along h.1

theorem truncated (h : NamedAs N v v') (limit : Int) :
    v'.truncated limit = v.truncated limit := h.2 ▸ Value.truncated_along h.1 limit

end NamedAs

/-! ### Mappings -/

section

variable {m m' : Mapping} {k k' v v' : Value}

theorem Mapping.lookup_namedAs (hm : NamedAs N m m') (hk : NamedAs N k k') :
    NamedAs N (m.lookup k) (m'.lookup k') := by
  obtain ⟨hm, rfl⟩ := hm
  induction m with
  | nil => exact .none
  | cons e m ih =>
    obtain ⟨he, hrest⟩ := List.forall_mem_cons.mp hm
    have hsame : (e.1.along N).same k' = e.1.same k :=
      NamedAs.same ⟨he.1, rfl⟩ hk
    show NamedAs N (if e.1.same k then some e.2 else lookup m k)
      (if (e.1.along N).same k' then some (e.2.along N) else lookup (Along.along N m) k')
    rw [hsame]
    split
    · exact .some ⟨he.2, rfl⟩
    · exact ih hrest

theorem Mapping.set_namedAs (hm : NamedAs N m m') (hk : NamedAs N k k')
    (hv : NamedAs N v v') : NamedAs N (m.set k v) (m'.set k' v') := by
  obtain ⟨hm, rfl⟩ := hm
  induction m with
  | nil => exact .cons (.mk hk hv) .nil
  | cons e m ih =>
    obtain ⟨he, hrest⟩ := List.forall_mem_cons.mp hm
    have hsame : (e.1.along N).same k' = e.1.same k :=
      NamedAs.same ⟨he.1, rfl⟩ hk
    show NamedAs N (if e.1.same k then (e.1, v) :: m else (e.1, e.2) :: set m k v)
      (if (e.1.along N).same k' then (e.1.along N, v') :: Along.along N m
        else (e.1.along N, e.2.along N) :: set (Along.along N m) k' v')
    rw [hsame]
    split
    · exact .cons (.mk ⟨he.1, rfl⟩ hv) ⟨hrest, rfl⟩
    · exact .cons ⟨he, rfl⟩ (ih hrest)

theorem NamedAs.getD (h : NamedAs N (m.lookup k) (m'.lookup k')) :
    NamedAs N ((m.lookup k).getD .null) ((m'.lookup k').getD .null) := by
  obtain ⟨hv, hv'⟩ := h
  rw [← hv']
  cases hlook : m.lookup k with
  | none => exact .null
  | some v => exact ⟨hv v hlook, rfl⟩

theorem addMappingEntry_namedAs (hm : NamedAs N m m') (hk : NamedAs N k k')
    (hv : NamedAs N v v') :
    NamedAs N (addMappingEntry m k v) (addMappingEntry m' k' v') := by
  unfold addMappingEntry
  rw [hk.keyFault?]
  split
  · exact .error ⟨trivial, rfl⟩
  · exact .ok (Mapping.set_namedAs hm hk hv)

/-! ### Environments -/

theorem bindingAlong_eq (env : Env) (x : String) :
    bindingAlong N env x = (env.lookup x).map (Value.along N) := by
  induction env with
  | nil => rfl
  | cons b env ih =>
    obtain ⟨n, v⟩ := b
    by_cases hn : n = x
    · simp only [bindingAlong, Env.lookup, if_pos hn, Option.map_some]
    · simp only [bindingAlong, Env.lookup, if_neg hn, ih]

theorem bindingNamed_iff {env : Env} {x : String} :
    bindingNamed N env x ↔ Along.named N (env.lookup x) := by
  induction env with
  | nil => exact ⟨fun _ => nofun, fun _ => trivial⟩
  | cons b env ih =>
    obtain ⟨n, v⟩ := b
    by_cases hn : n = x
    · simp only [bindingNamed, Env.lookup, if_pos hn]
      exact ⟨fun hv _ hw => Option.some.inj hw ▸ hv, fun h => h v rfl⟩
    · simp only [bindingNamed, Env.lookup, if_neg hn, ih]

end

/-! ### Items and members -/

section

variable {v v' w w' : Value}

theorem Value.items?_namedAs (h : NamedAs N v v') :
    NamedAs N v.items? v'.items? := by
  obtain ⟨hv, rfl⟩ := h
  cases v
  case list xs | tuple xs =>
    exact .some ⟨named_values.mpr hv, (along_values xs).symm⟩
  case result v o => exact .some (.cons ⟨hv.1, rfl⟩ (.cons ⟨hv.2, rfl⟩ .nil))
  case text s =>
    have hchars (cs : List Char) : NamedAs N (cs.map Value.char) (cs.map Value.char) := by
      induction cs with
      | nil => exact .nil
      | cons c cs ih => exact .cons (.text _) ih
    exact .some (hchars s.toList)
  case dict es | frozen es =>
    have hkeys : NamedAs N (es.map Prod.fst) ((entriesAlong N es).map Prod.fst) := by
      refine ⟨fun k hk => ?_, ?_⟩
      · obtain ⟨e, he, rfl⟩ := List.mem_map.mp hk
        exact (entriesNamed_iff.mp hv e he).1
      · rw [along_entries]
        show List.map _ _ = List.map _ (List.map _ _)
        rw [List.map_map, List.map_map]
        rfl
    exact .some hkeys
  case capabilities s =>
    have hcaps (cs : List Capability) :
        NamedAs N (cs.map Value.capability) (cs.map Value.capability) := by
      induction cs with
      | nil => exact .nil
      | cons c cs ih => exact .cons ⟨trivial, rfl⟩ ih
    exact .some (hcaps s.toList)
  all_goals exact .none

/-- What becomes of the items of a value, or of there being none. -/
theorem Value.items?_cases (h : NamedAs N v v') :
    v.items? = none ∧ v'.items? = none ∨
      ∃ xs xs', v.items? = some xs ∧ v'.items? = some xs' ∧ NamedAs N xs xs' := by
  obtain ⟨hxs, hxs'⟩ := Value.items?_namedAs h
  cases hv : v.items? with
  | none =>
    rw [hv] at hxs'
    exact .inl ⟨rfl, hxs'.symm⟩
  | some xs =>
    rw [hv] at hxs'
    exact .inr ⟨xs, _, rfl, hxs'.symm, hxs xs hv, rfl⟩

theorem Value.items_namedAs (h : NamedAs N v v') : NamedAs N v.items v'.items := by
  unfold Value.items
  rw [h.typeName]
  obtain ⟨hv, hv'⟩ | ⟨xs, xs', hv, hv', hxs⟩ := Value.items?_cases h
  · rw [hv, hv']
    exact .error ⟨trivial, rfl⟩
  · rw [hv, hv']
    exact .ok hxs

theorem Value.length_namedAs (h : NamedAs N v v') : NamedAs N v.length v'.length := by
  unfold Value.length
  rw [h.typeName]
  obtain ⟨hv, hv'⟩ | ⟨xs, xs', hv, hv', -, rfl⟩ := Value.items?_cases h
  · rw [hv, hv']
    exact .error ⟨trivial, rfl⟩
  · rw [hv, hv']
    exact .ok ⟨trivial, (List.length_map _).symm⟩

theorem Value.unpackTwo_namedAs (h : NamedAs N v v') :
    NamedAs N v.unpackTwo v'.unpackTwo := by
  unfold Value.unpackTwo
  rw [h.typeName]
  obtain ⟨hv, hv'⟩ | ⟨xs, xs', hv, hv', hxs, rfl⟩ := Value.items?_cases h
  · rw [hv, hv']
    exact .error ⟨trivial, rfl⟩
  · rw [hv, hv']
    rcases xs with _ | ⟨x, _ | ⟨y, _ | ⟨z, xs⟩⟩⟩
    · exact .error ⟨trivial, rfl⟩
    · exact .error ⟨trivial, rfl⟩
    · exact .ok (.mk ⟨hxs x (by simp), rfl⟩ ⟨hxs y (by simp), rfl⟩)
    · exact .error ⟨trivial, rfl⟩

theorem Value.reversed_namedAs (h : NamedAs N v v') :
    NamedAs N v.reversed v'.reversed := by
  have hitems := Value.items?_namedAs h
  obtain ⟨hv, rfl⟩ := h
  cases v
  case list xs | tuple xs =>
    exact .ok (NamedAs.reverse ⟨named_values.mpr hv, (along_values xs).symm⟩)
  case result v o => exact .ok (.cons ⟨hv.2, rfl⟩ (.cons ⟨hv.1, rfl⟩ .nil))
  case text s => exact .ok (NamedAs.reverse ⟨hitems.1 _ rfl, Option.some.inj hitems.2⟩)
  case dict es | frozen es =>
    exact .ok (NamedAs.reverse ⟨hitems.1 _ rfl, Option.some.inj hitems.2⟩)
  all_goals exact .error ⟨trivial, congrArg Failure.notReversible (Value.typeName_along _).symm⟩

theorem itemAt?_namedAs {xs xs' : List Value} (h : NamedAs N xs xs') (n : Int) :
    NamedAs N (itemAt? xs n) (itemAt? xs' n) := by
  have hlength : xs'.length = xs.length := by
    rw [← h.2]
    exact List.length_map _
  unfold itemAt?
  rw [hlength]
  generalize (if n < 0 then (xs.length : Int) + n else n) = place
  simp only
  split
  · exact .none
  · exact h.getElem? _

/-- The item at a place. -/
theorem itemPlace_namedAs {xs xs' : List Value} (h : NamedAs N xs xs') (n : Int)
    (t : String) : NamedAs N
      (match itemAt? xs n with
        | some x => .ok x
        | none => .error (.outOfRange t) : Except Failure Value)
      (match itemAt? xs' n with
        | some x => .ok x
        | none => .error (.outOfRange t)) := by
  obtain ⟨hx, hx'⟩ := itemAt?_namedAs h n
  rw [← hx']
  cases hat : itemAt? xs n with
  | none => exact .error ⟨trivial, rfl⟩
  | some x => exact .ok ⟨hx x hat, rfl⟩

/-- The value under a key, if it can be a key and is there. -/
theorem Mapping.item_namedAs {m m' : Mapping} {i i' : Value} (hm : NamedAs N m m')
    (hi : NamedAs N i i') : NamedAs N
      (match i.keyFault? with
        | some t => .error (.notKey t)
        | none => (match Mapping.lookup m i with
          | some x => .ok x
          | none => .error (.missingKey i)) : Except Failure Value)
      (match i'.keyFault? with
        | some t => .error (.notKey t)
        | none => (match Mapping.lookup m' i' with
          | some x => .ok x
          | none => .error (.missingKey i'))) := by
  rw [hi.keyFault?]
  cases i.keyFault? with
  | some t => exact .error ⟨trivial, rfl⟩
  | none =>
    obtain ⟨hx, hx'⟩ := Mapping.lookup_namedAs hm hi
    rw [← hx']
    cases hlook : m.lookup i with
    | none => exact .error ⟨hi.1, congrArg Failure.missingKey hi.2⟩
    | some x => exact .ok ⟨hx x hlook, rfl⟩

theorem Value.item_namedAs {i i' : Value} (hv : NamedAs N v v') (hi : NamedAs N i i') :
    NamedAs N (v.item i) (v'.item i') := by
  have hitems := Value.items?_namedAs hv
  obtain ⟨hv, rfl⟩ := hv
  cases v
  case dict es | frozen es =>
    exact Mapping.item_namedAs ⟨named_entries.mpr hv, (along_entries es).symm⟩ hi
  case list xs | tuple xs | result x o | text t =>
    simp only [Value.item, hi.number?, hi.typeName]
    cases i.number? with
    | none => exact .error ⟨trivial, rfl⟩
    | some n => exact itemPlace_namedAs ⟨hitems.1 _ rfl, Option.some.inj hitems.2⟩ n _
  all_goals exact .error ⟨trivial, congrArg Failure.notIndexable (Value.typeName_along _).symm⟩

theorem Effect.named_request (e : Effect) (h : e.Named N) : e.request.Named N := by
  cases e
  exact h.1

theorem Request.member_namedAs {r r' : Request} (h : NamedAs N r r') (name : String) :
    NamedAs N (r.member name) (r'.member name) := by
  obtain ⟨hr, rfl⟩ := h
  have hfind : (r.along N).fields.find? (fun f => f.1 == name)
      = (r.fields.find? fun f => f.1 == name).map fun f => (f.1, f.2.along N) := by
    have hfields : (r.along N).fields = r.fields.map fun f => (f.1, f.2.along N) := by
      cases r <;> rfl
    rw [hfields, List.find?_map]
    rfl
  have hnamed (f : String × Value) (hf : f ∈ r.fields) : f.2.Named N := by
    cases r
    case readLine | beep => cases hf
    case loudLog | put | modify =>
      rcases List.mem_pair.mp hf with rfl | rfl
      exacts [hr.1, hr.2]
    all_goals
      obtain rfl := List.mem_singleton.mp hf
      exact hr
  show NamedAs N (r.member name) ((r.along N).member name)
  unfold Request.member
  rw [hfind, Request.kind_along]
  cases hfound : r.fields.find? fun f => f.1 == name with
  | none => exact .error ⟨trivial, rfl⟩
  | some f => exact .ok ⟨hnamed f (List.mem_of_find?_eq_some hfound), rfl⟩

/-- The members of a value, by the type and then by the name. -/
theorem Value.member_eq (v : Value) (name : String) : v.member name = match v with
    | .capability c =>
      if name = "name" then .ok (.text c.name) else .error (.noMember v.typeName name)
    | .effect e =>
      if name = "capability" then .ok (.capability e.capability) else e.request.member name
    | .chain c =>
      match c with
      | .done x r =>
        if name = "value" then .ok x
        else if name = "requires" then .ok (.capabilities r)
        else .error (.noMember v.typeName name)
      | .suspended e r =>
        if name = "effect" then .ok (.effect e)
        else if name = "requires" then .ok (.capabilities r)
        else .error (.noMember v.typeName name)
    | .handled s n =>
      if name = "state" then .ok s
      else if name = "next" then .ok n else .error (.noMember v.typeName name)
    | .result x o =>
      if name = "value" then .ok x
      else if name = "output" then .ok o else .error (.noMember v.typeName name)
    | _ => .error (.noMember v.typeName name) := by
  unfold Value.member
  split <;> grind [Chain.requires]

theorem Value.member_namedAs (h : NamedAs N v v') (name : String) :
    NamedAs N (v.member name) (v'.member name) := by
  have hother : NamedAs N
      (.error (.noMember v.typeName name) : Except Failure Value)
      (.error (.noMember v'.typeName name)) := by
    rw [h.typeName]
    exact .error ⟨trivial, rfl⟩
  have htwo {p q : Prop} [Decidable p] [Decidable q] {x x' y y' : Value} (hx : NamedAs N x x')
      (hy : NamedAs N y y') : NamedAs N
        (if p then .ok x else if q then .ok y else .error (.noMember v.typeName name) :
          Except Failure Value)
        (if p then .ok x' else if q then .ok y' else .error (.noMember v'.typeName name)) := by
    split
    · exact .ok hx
    · split
      · exact .ok hy
      · exact hother
  rw [Value.member_eq v, Value.member_eq v']
  obtain ⟨hv, rfl⟩ := h
  cases v
  case capability c =>
    show NamedAs N (if name = "name" then _ else _) (if name = "name" then _ else _)
    split
    · exact .ok (.text _)
    · exact hother
  case effect e =>
    show NamedAs N (if name = "capability" then _ else _) (if name = "capability" then _ else _)
    rw [Effect.capability_along, Effect.request_along]
    split
    · exact .ok ⟨trivial, rfl⟩
    · exact Request.member_namedAs ⟨e.named_request hv, rfl⟩ _
  case chain c =>
    cases c with
    | done x r => exact htwo ⟨hv, rfl⟩ ⟨trivial, rfl⟩
    | suspended e r => exact htwo ⟨hv, rfl⟩ ⟨trivial, rfl⟩
  case handled s n => exact htwo ⟨hv.1, rfl⟩ ⟨hv.2, rfl⟩
  case result x o => exact htwo ⟨hv.1, rfl⟩ ⟨hv.2, rfl⟩
  all_goals exact hother

theorem addOp_namedAs (hv : NamedAs N v v') (hw : NamedAs N w w') :
    NamedAs N (addOp v w) (addOp v' w') := by
  obtain ⟨hv, rfl⟩ := hv
  obtain ⟨hw, rfl⟩ := hw
  have hjoin (xs ys : List Value) (hx : valuesNamed N xs) (hy : valuesNamed N ys) :
      NamedAs N (xs ++ ys) (valuesAlong N xs ++ valuesAlong N ys) :=
    .append ⟨named_values.mpr hx, (along_values xs).symm⟩
      ⟨named_values.mpr hy, (along_values ys).symm⟩
  cases v
  case int a =>
    cases w
    case int => exact .ok (.int _)
    all_goals exact .error ⟨trivial, rfl⟩
  case text a =>
    cases w
    case text => exact .ok (.text _)
    all_goals exact .error ⟨trivial, rfl⟩
  case list xs =>
    cases w
    case list ys => exact .ok (.list (hjoin _ _ hv hw))
    all_goals exact .error ⟨trivial, rfl⟩
  case tuple xs =>
    cases w
    case tuple ys => exact .ok (.tuple (hjoin _ _ hv hw))
    all_goals exact .error ⟨trivial, rfl⟩
  all_goals exact .error ⟨trivial, rfl⟩

/-- The sum of two numbers. -/
theorem Value.plusNumbers_namedAs (hv : NamedAs N v v') (hw : NamedAs N w w') : NamedAs N
      (match v.number?, w.number? with
        | some x, some y => .ok (.int (x + y))
        | _, _ => .error (.noSum v.typeName w.typeName) : Except Failure Value)
      (match v'.number?, w'.number? with
        | some x, some y => .ok (.int (x + y))
        | _, _ => .error (.noSum v'.typeName w'.typeName)) := by
  rw [hv.number?, hw.number?, hv.typeName, hw.typeName]
  split
  · exact .ok (.int _)
  · exact .error ⟨trivial, rfl⟩

theorem Value.plus_namedAs (hv : NamedAs N v v') (hw : NamedAs N w w') :
    NamedAs N (v.plus w) (v'.plus w') := by
  have htype := hw.typeName
  have hnumber := Value.plusNumbers_namedAs hv hw
  obtain ⟨hv, rfl⟩ := hv
  obtain ⟨hw, rfl⟩ := hw
  have hjoin (xs ys : List Value) (hx : valuesNamed N xs) (hy : valuesNamed N ys) :
      NamedAs N (xs ++ ys) (valuesAlong N xs ++ valuesAlong N ys) :=
    .append ⟨named_values.mpr hx, (along_values xs).symm⟩
      ⟨named_values.mpr hy, (along_values ys).symm⟩
  cases v
  case text a =>
    cases w
    case text => exact .ok (.text _)
    all_goals exact .error ⟨trivial, congrArg (Failure.noConcatenation "str") htype.symm⟩
  case list xs =>
    cases w
    case list ys => exact .ok (.list (hjoin _ _ hv hw))
    all_goals exact .error ⟨trivial, congrArg (Failure.noConcatenation "list") htype.symm⟩
  case tuple xs =>
    cases w
    case tuple ys => exact .ok (.tuple (hjoin _ _ hv hw))
    case result v o => exact .ok (.tuple (hjoin _ [v, o] hv ⟨hw.1, hw.2, trivial⟩))
    all_goals exact .error ⟨trivial, congrArg (Failure.noConcatenation "tuple") htype.symm⟩
  case result v o =>
    cases w
    case tuple ys => exact .ok (.tuple (hjoin [v, o] _ ⟨hv.1, hv.2, trivial⟩ hw))
    case result x p =>
      exact .ok (.tuple (hjoin [v, o] [x, p] ⟨hv.1, hv.2, trivial⟩
        ⟨hw.1, hw.2, trivial⟩))
    all_goals exact .error ⟨trivial, congrArg (Failure.noConcatenation "tuple") htype.symm⟩
  all_goals exact hnumber

end

end EffectHandlers
