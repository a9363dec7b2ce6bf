/-
EffectHandlers/Proofs/Link/Items.lean

What is done to counterparts.

Counterparts read the same: they have one type, one truth, one text, and
they are equal to each other exactly if their counterparts are.  And what is
taken out of counterparts, or made of them, are counterparts, or the failures
are.
-/
import EffectHandlers.Proofs.Link.Shapes

namespace EffectHandlers

variable {L : Link}

/-! ### Successes and failures -/

/-- Two results of one kind. -/
inductive Except.Pairs {ε α β : Type} (P : α → β → Prop) (Q : ε → ε → Prop) :
    Except ε α → Except ε β → Prop
  | ok {a : α} {b : β} (h : P a b) : Pairs P Q (.ok a) (.ok b)
  | error {f g : ε} (h : Q f g) : Pairs P Q (.error f) (.error g)

theorem counterpart_except {ε α : Type} [Along ε] [Along α] {x y : Except ε α} :
    Counterpart L x y ↔ Except.Pairs (Counterpart L) (Counterpart L) x y := by
  constructor
  · rintro ⟨m, ⟨hx, rfl⟩, hy, hm⟩
    cases x with
    | ok a =>
      cases y with
      | ok b => exact .ok ⟨_, ⟨hx, rfl⟩, hy, Except.ok.inj hm⟩
      | error g => cases hm
    | error f =>
      cases y with
      | ok b => cases hm
      | error g => exact .error ⟨_, ⟨hx, rfl⟩, hy, Except.error.inj hm⟩
  · intro h
    cases h with
    | ok h => obtain ⟨m, hl, hr⟩ := h; exact ⟨.ok m, .ok hl, .ok hr⟩
    | error h => obtain ⟨m, hl, hr⟩ := h; exact ⟨.error m, .error hl, .error hr⟩

namespace Counterpart

/-! ### Failures -/

/-- A failure that mentions no identity. -/
theorem failure {f : Failure} (h : ∀ N : Naming, f.Named N ∧ f.along N = f) :
    Counterpart L f f := of_plain fun {N} => h N

theorem raised (kind : RaisedClass) {v v' : Value} (h : Counterpart L v v') :
    Counterpart L (Failure.raised kind v) (.raised kind v') :=
  map (Failure.raised kind) (fun h => ⟨h.1, congrArg (Failure.raised kind) h.2⟩) h

theorem refused {r r' : Refusal} (h : Counterpart L r r') :
    Counterpart L (Failure.refused r) (.refused r') :=
  map Failure.refused (fun h => ⟨h.1, congrArg Failure.refused h.2⟩) h

theorem unhandledEffect {e e' : Effect} (h : Counterpart L e e') :
    Counterpart L (Refusal.unhandledEffect e) (.unhandledEffect e') :=
  map Refusal.unhandledEffect (fun h => ⟨h.1, congrArg Refusal.unhandledEffect h.2⟩) h

section

variable {v v' w w' x x' : Value} {xs xs' : List Value} {m m' : Mapping} {r r' : Request}
  {e e' : Effect} {a a' : Handler} {c c' : Chain}

/-! ### Readings -/

theorem typeName (h : Counterpart L v v') : v'.typeName = v.typeName :=
  same_of Value.typeName (fun h => h.typeName) h

theorem isTrue (h : Counterpart L v v') : v'.isTrue = v.isTrue :=
  same_of Value.isTrue (fun h => h.isTrue) h

theorem number? (h : Counterpart L v v') : v'.number? = v.number? :=
  same_of Value.number? (fun h => h.number?) h

theorem isText (h : Counterpart L v v') : v'.isText = v.isText :=
  same_of Value.isText (fun h => h.isText) h

theorem keyFault? (h : Counterpart L v v') : v'.keyFault? = v.keyFault? :=
  same_of Value.keyFault? (fun h => h.keyFault?) h

theorem form (h : Counterpart L v v') : v'.form = v.form :=
  same_of Value.form (fun h => h.form) h

theorem shown (h : Counterpart L v v') : v'.shown = v.shown :=
  same_of Value.shown (fun h => h.shown) h

theorem truncated (h : Counterpart L v v') (limit : Int) :
    v'.truncated limit = v.truncated limit :=
  same_of (Value.truncated · limit) (fun h => h.truncated limit) h

theorem same (hv : Counterpart L v v') (hw : Counterpart L w w') : v'.same w' = v.same w := by
  obtain ⟨m, hv, hv'⟩ := hv
  obtain ⟨n, hw, hw'⟩ := hw
  exact (hv'.same hw').symm.trans (hv.same hw)

theorem kind (h : Counterpart L r r') : r'.kind = r.kind := by
  cases Request.shape h <;> rfl

theorem requestCapability (h : Counterpart L r r') : r'.capability = r.capability := by
  cases Request.shape h <;> rfl

theorem effectCapability (h : Counterpart L e e') : e'.capability = e.capability :=
  h.request.requestCapability

theorem recordText (h : Counterpart L e e') : e'.recordText = e.recordText :=
  same_of Effect.recordText (fun h => h.2 ▸ Effect.recordText_along h.1) h

theorem requires (h : Counterpart L c c') : c'.requires = c.requires := by
  cases Chain.shape h <;> rfl

theorem isDone (h : Counterpart L c c') : c'.isDone = c.isDone := by
  cases Chain.shape h <;> rfl

theorem handlerCapabilities (h : Counterpart L a a') : a'.capabilities = a.capabilities :=
  same_of Handler.capabilities (fun h => h.2 ▸ Handler.capabilities_along _) h

theorem length {α : Type} [Along α] {as as' : List α} (h : Counterpart L as as') :
    as'.length = as.length := (counterpart_list.mp h).length_eq.symm

/-! ### Mappings -/

theorem lookup (hm : Counterpart L m m') (hv : Counterpart L v v') :
    Counterpart L (m.lookup v) (m'.lookup v') := map₂ Mapping.lookup Mapping.lookup_namedAs hm hv

theorem set (hm : Counterpart L m m') (hv : Counterpart L v v') (hw : Counterpart L w w') :
    Counterpart L (m.set v w) (m'.set v' w') := map₃ Mapping.set Mapping.set_namedAs hm hv hw

theorem addMappingEntry (hm : Counterpart L m m') (hv : Counterpart L v v')
    (hw : Counterpart L w w') :
    Counterpart L (addMappingEntry m v w) (EffectHandlers.addMappingEntry m' v' w') :=
  map₃ EffectHandlers.addMappingEntry addMappingEntry_namedAs hm hv hw

/-- What there is, or null. -/
theorem getD {o o' : Option Value} (h : Counterpart L o o') :
    Counterpart L (o.getD .null) (o'.getD .null) := by
  cases counterpart_option.mp h with
  | none => exact .null
  | some ho => exact ho

/-! ### Items and members -/

theorem items (h : Counterpart L v v') : Counterpart L v.items v'.items :=
  map Value.items Value.items_namedAs h

theorem valueLength (h : Counterpart L v v') : Counterpart L v.length v'.length :=
  map Value.length Value.length_namedAs h

theorem unpackTwo (h : Counterpart L v v') : Counterpart L v.unpackTwo v'.unpackTwo :=
  map Value.unpackTwo Value.unpackTwo_namedAs h

theorem reversed (h : Counterpart L v v') : Counterpart L v.reversed v'.reversed :=
  map Value.reversed Value.reversed_namedAs h

theorem item (hv : Counterpart L v v') (hw : Counterpart L w w') :
    Counterpart L (v.item w) (v'.item w') := map₂ Value.item Value.item_namedAs hv hw

theorem plus (hv : Counterpart L v v') (hw : Counterpart L w w') :
    Counterpart L (v.plus w) (v'.plus w') := map₂ Value.plus Value.plus_namedAs hv hw

theorem addOp (hv : Counterpart L v v') (hw : Counterpart L w w') :
    Counterpart L (addOp v w) (EffectHandlers.addOp v' w') :=
  map₂ EffectHandlers.addOp addOp_namedAs hv hw

theorem requestMember (h : Counterpart L r r') (name : String) :
    Counterpart L (r.member name) (r'.member name) :=
  map (Request.member · name) (fun h => Request.member_namedAs h name) h

/-! ### States and templates -/

theorem levelName (h : Counterpart L v v') :
    Counterpart L (Handler.levelName v) (Handler.levelName v') :=
  map Handler.levelName Handler.levelName_namedAs h

theorem nextLine (h : Counterpart L v v') :
    Counterpart L (Handler.nextLine v) (Handler.nextLine v') :=
  map Handler.nextLine Handler.nextLine_namedAs h

theorem entries (h : Counterpart L v v') :
    Counterpart L (Handler.entries v) (Handler.entries v') :=
  map Handler.entries (fun h => h.2 ▸ Handler.entries_namedAs _ h.1) h

theorem readKey (hv : Counterpart L v v') (hw : Counterpart L w w') :
    Counterpart L (Handler.readKey v w) (Handler.readKey v' w') :=
  map₂ Handler.readKey Handler.readKey_namedAs hv hw

theorem writeKey (hv : Counterpart L v v') (hw : Counterpart L w w') (hx : Counterpart L x x') :
    Counterpart L (Handler.writeKey v w x) (Handler.writeKey v' w' x') :=
  map₃ Handler.writeKey (fun h g k => Handler.writeKey_namedAs h g k) hv hw hx

theorem fillTemplate (template : String) (hxs : Counterpart L xs xs') (hm : Counterpart L m m') :
    Counterpart L (fillTemplate template xs m) (EffectHandlers.fillTemplate template xs' m') :=
  map₂ (EffectHandlers.fillTemplate template) (fillTemplate_namedAs template) hxs hm

/-! ### Effects and chains -/

theorem extend (h : Counterpart L e e') {ss ss' : List Stage} (hs : Counterpart L ss ss') :
    Counterpart L (e.extend ss) (e'.extend ss') := effectOf h.request (h.pipeline.append hs)

theorem mapStage (h : Counterpart L e e') {s s' : Stage} (hs : Counterpart L s s') :
    Counterpart L (e.map s) (e'.map s') := h.extend (.cons hs .nil)

theorem effectOfRequest (h : Counterpart L r r') : Counterpart L (Effect.of r) (.of r') :=
  effectOf h .nil

theorem finished (h : Counterpart L v v') : Counterpart L (Chain.finished v) (.finished v') :=
  done h ∅

theorem perform (h : Counterpart L e e') : Counterpart L (Chain.perform e) (.perform e') := by
  unfold Chain.perform
  rw [h.effectCapability]
  exact suspended (h.mapStage stageLift) _

theorem declare (h : Counterpart L c c') (s : CapabilitySet) :
    Counterpart L (c.declare s) (c'.declare s) := by
  cases Chain.shape h with
  | done r hv => exact done hv _
  | suspended r he => exact suspended he _

theorem gatherChain (h : Counterpart L c c') (hxs : Counterpart L xs xs') :
    Counterpart L (c.gather xs) (c'.gather xs') := by
  cases Chain.shape h with
  | done r hv => exact done (list (hxs.append (.cons hv .nil))) r
  | suspended r he => exact suspended (he.mapStage (stageBind (binderAppend hxs))) r

end

end Counterpart

end EffectHandlers
