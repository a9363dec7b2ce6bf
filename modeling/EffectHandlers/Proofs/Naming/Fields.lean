/-
EffectHandlers/Proofs/Naming/Fields.lean

States and templates with names.

What a handler of the library reads off its state, or puts into it, and what
a template is filled in with.

Main statements: `Handler.entries_namedAs`, `readKey_namedAs`,
`writeKey_namedAs` and `fillTemplate_namedAs`.
-/
import EffectHandlers.Proofs.Naming.Items

namespace EffectHandlers

variable {N : Naming}

/-! ### Plain data -/

instance : Along Int := .plain Int
instance : Along Text.Piece := .plain Text.Piece
instance : Along Numbering := .plain Numbering
instance : Along Text.TemplateFault := .plain Text.TemplateFault

theorem NamedAs.chars {cs cs' : List Char} : NamedAs N cs cs' ↔ cs' = cs := by
  have hsame : Along.along N cs = cs := List.map_id cs
  exact ⟨fun h => h.2.symm.trans hsame, fun h => ⟨fun _ _ => trivial, hsame.trans h.symm⟩⟩

/-- A failure in which no value is mentioned. -/
theorem NamedAs.fault {α : Type} [Along α] {f : Failure} (hnamed : f.Named N)
    (hf : f.along N = f) : NamedAs N (.error f : Except Failure α) (.error f) :=
  ⟨hnamed, congrArg Except.error hf⟩

/-- What holds no identities and cannot fail with a value is the same with names. -/
theorem NamedAs.mapError {α ε : Type} [Along α] {x : Except ε α} {g : ε → Failure}
    (hx : ∀ a : α, NamedAs N a a) (hg : ∀ e, NamedAs N (g e) (g e)) :
    NamedAs N (x.mapError g) (x.mapError g) := by
  cases x with
  | ok a => exact .ok (hx a)
  | error e => exact .error (hg e)

/-! ### States -/

section

variable {v v' w w' : Value}

/-- The name of a level that is no text. -/
theorem Handler.levelNumber_namedAs (h : NamedAs N v v') :
    NamedAs N
      (match v.number? with
        | some n => do
          let digits ← (decimal n).mapError .noText
          if n < 0 then .error (.negativeLevel n) else .ok ("Level " ++ digits)
        | none => .error (.invalidLevel v.typeName) : Except Failure String)
      (match v'.number? with
        | some n => do
          let digits ← (decimal n).mapError .noText
          if n < 0 then .error (.negativeLevel n) else .ok ("Level " ++ digits)
        | none => .error (.invalidLevel v'.typeName)) := by
  rw [h.number?, h.typeName]
  cases v.number? with
  | none => exact .error ⟨trivial, rfl⟩
  | some n =>
    dsimp only
    cases decimal n with
    | error f => exact .error ⟨trivial, rfl⟩
    | ok s =>
      show NamedAs N (if n < 0 then _ else _) (if n < 0 then _ else _)
      split
      · exact .error ⟨trivial, rfl⟩
      · exact .ok ⟨trivial, rfl⟩

theorem Handler.levelName_namedAs (h : NamedAs N v v') :
    NamedAs N (Handler.levelName v) (Handler.levelName v') := by
  have hother := Handler.levelNumber_namedAs h
  obtain ⟨hv, rfl⟩ := h
  cases v
  case text s =>
    show NamedAs N (if _ then _ else _) (if _ then _ else _)
    split
    · exact .ok ⟨trivial, rfl⟩
    · exact .error ⟨trivial, rfl⟩
  all_goals exact hother

theorem Handler.checkKey_namedAs (h : NamedAs N v v') :
    NamedAs N (Handler.checkKey v) (Handler.checkKey v') := by
  unfold Handler.checkKey
  rw [h.keyFault?]
  split
  · exact .error ⟨trivial, rfl⟩
  · exact .ok h

theorem Handler.readKey_namedAs (hv : NamedAs N v v') (hw : NamedAs N w w') :
    NamedAs N (Handler.readKey v w) (Handler.readKey v' w') := by
  have hunder {m m' : Mapping} (hm : NamedAs N m m') : NamedAs N
      (do let k ← Handler.checkKey w; return (Mapping.lookup m k).getD .null :
        Except Failure Value)
      (do let k ← Handler.checkKey w'; return (Mapping.lookup m' k).getD .null) :=
    (Handler.checkKey_namedAs hw).bind fun _ _ hk => .ok (Mapping.lookup_namedAs hm hk).getD
  have htype := hv.typeName
  obtain ⟨hv, rfl⟩ := hv
  cases v
  case frozen m | dict m => exact hunder ⟨named_entries.mpr hv, (along_entries m).symm⟩
  all_goals exact .error ⟨trivial, congrArg (Failure.noMember · "get") htype.symm⟩

theorem Handler.writeKey_namedAs (hv : NamedAs N v v') (hw : NamedAs N w w') {x x' : Value}
    (hx : NamedAs N x x') : NamedAs N (Handler.writeKey v w x) (Handler.writeKey v' w' x') := by
  have htype := hv.typeName
  obtain ⟨hv, rfl⟩ := hv
  cases v
  case frozen m =>
    refine (Handler.checkKey_namedAs hw).bind fun _ _ hk => .ok (.frozen ?_)
    exact Mapping.set_namedAs ⟨named_entries.mpr hv, (along_entries m).symm⟩ hk hx
  all_goals exact .error ⟨trivial, congrArg (Failure.noMember · "set") htype.symm⟩

/-- The first line that is left, and the rest. -/
theorem Handler.nextLine_namedAs (h : NamedAs N v v') :
    NamedAs N (Handler.nextLine v) (Handler.nextLine v') := by
  have htrue := h.isTrue
  have htype := h.typeName
  obtain ⟨hv, rfl⟩ := h
  have hother : NamedAs N
      (if v.isTrue then .error (.notIndexable v.typeName) else .ok none :
        Except Failure (Option (Value × Value)))
      (if (Along.along N v).isTrue then .error (.notIndexable (Along.along N v).typeName)
        else .ok none) := by
    rw [htrue, htype]
    split
    · exact .error ⟨trivial, rfl⟩
    · exact .ok .none
  cases v
  case tuple xs =>
    cases xs with
    | nil => exact hother
    | cons x xs =>
      exact .ok (.some (.mk ⟨hv.1, rfl⟩
        (.tuple ⟨named_values.mpr hv.2, (along_values xs).symm⟩)))
  case list xs =>
    cases xs with
    | nil => exact hother
    | cons x xs =>
      exact .ok (.some (.mk ⟨hv.1, rfl⟩
        (.list ⟨named_values.mpr hv.2, (along_values xs).symm⟩)))
  case text s =>
    show NamedAs N (Handler.nextLine (.text s)) (Handler.nextLine (.text s))
    unfold Handler.nextLine
    dsimp only
    cases s.toList with
    | nil => exact .ok .none
    | cons c cs => exact .ok (.some (.mk (.text _) (.text _)))
  case result x o => exact .ok (.some (.mk ⟨hv.1, rfl⟩ (.tuple (.cons ⟨hv.2, rfl⟩ .nil))))
  case dict es | frozen es =>
    cases es with
    | nil => exact hother
    | cons e es => exact .error ⟨trivial, rfl⟩
  all_goals exact hother

/-- One entry more, if the rest of the state is as it should be. -/
theorem NamedAs.map_cons {x x' : Except Failure (List Value)} (hv : NamedAs N v v')
    (hx : NamedAs N x x') : NamedAs N (x.map (v :: ·)) (x'.map (v' :: ·)) := by
  obtain ⟨hx, rfl⟩ := hx
  cases x with
  | ok xs => exact .ok (.cons hv ⟨hx, rfl⟩)
  | error f => exact .error ⟨hx, rfl⟩

/-- A value that is no nest of pairs. -/
theorem Handler.entries_fault {v : Value} (hv : ∃ f : Failure, Handler.entries v = .error f ∧
    Handler.entries (v.along N) = .error f ∧ f.Named N ∧ f.along N = f) :
    NamedAs N (Handler.entries v) (Handler.entries (v.along N)) := by
  obtain ⟨f, h, h', hnamed, hf⟩ := hv
  rw [h, h']
  exact .fault hnamed hf

theorem Handler.entries_text (s : String) :
    NamedAs N (Handler.entries (.text s)) (Handler.entries (.text s)) := by
  have hpair := Value.unpackTwo_namedAs (NamedAs.text (N := N) s)
  rw [Handler.entries]
  cases hunpack : (Value.text s).unpackTwo with
  | ok p => exact .fault (f := .tooFewItems 1) trivial rfl
  | error f =>
    rw [hunpack] at hpair
    exact .fault hpair.1 (Except.error.inj hpair.2)

theorem Handler.entries_capabilities (s : CapabilitySet) :
    NamedAs N (Handler.entries (.capabilities s)) (Handler.entries (.capabilities s)) := by
  have hpair : NamedAs N (Value.capabilities s).unpackTwo (Value.capabilities s).unpackTwo :=
    Value.unpackTwo_namedAs ⟨trivial, rfl⟩
  simp only [Handler.entries]
  cases hunpack : (Value.capabilities s).unpackTwo with
  | ok p => exact .fault (f := .notUnpackable p.2.typeName) trivial rfl
  | error f =>
    rw [hunpack] at hpair
    exact .fault hpair.1 (Except.error.inj hpair.2)

theorem Handler.entries_namedAs : ∀ v : Value, v.Named N →
    NamedAs N (Handler.entries v) (Handler.entries (v.along N))
  | .null, _ => .ok .nil
  | .tuple [_, log], h => .map_cons ⟨h.1, rfl⟩ (Handler.entries_namedAs log h.2.1)
  | .list [_, log], h => .map_cons ⟨h.1, rfl⟩ (Handler.entries_namedAs log h.2.1)
  | .result _ log, h => .map_cons ⟨h.1, rfl⟩ (Handler.entries_namedAs log h.2)
  | .dict [_, (log, _)], h => .map_cons ⟨h.1.1, rfl⟩ (Handler.entries_namedAs log h.2.1.1)
  | .frozen [_, (log, _)], h => .map_cons ⟨h.1.1, rfl⟩ (Handler.entries_namedAs log h.2.1.1)
  | .text s, _ => Handler.entries_text s
  | .capabilities s, _ => Handler.entries_capabilities s
  | .tuple [], _ | .list [], _ | .dict [], _ | .frozen [], _ | .tuple [_], _ | .list [_], _
  | .dict [_], _ | .frozen [_], _ | .tuple (_ :: _ :: _ :: _), _ | .list (_ :: _ :: _ :: _), _
  | .dict (_ :: _ :: _ :: _), _ | .frozen (_ :: _ :: _ :: _), _
  | .bool _, _ | .int _, _ | .capability _, _ | .function _, _ | .declined, _ | .cell _, _
  | .handled _ _, _ => Handler.entries_fault ⟨_, rfl, rfl, trivial, rfl⟩
  | .effect _, _ | .chain _, _ | .handler _, _ | .refusal _ _, _ =>
    .error ⟨trivial, congrArg Failure.notUnpackable (Value.typeName_along _).symm⟩
termination_by structural v => v

end

/-! ### Templates -/

section

variable {v v' : Value} {args args' : List Value} {m m' : Mapping}

theorem Numbering.step_namedAs (n : Numbering) (source : Text.Source) :
    NamedAs N (n.step source) (n.step source) := by
  have hplace (place : Option Nat) (n : Numbering) : NamedAs N (place, n) (place, n) := by
    cases place
    · exact .mk .none ⟨trivial, rfl⟩
    · exact .mk (.some ⟨trivial, rfl⟩) ⟨trivial, rfl⟩
  unfold Numbering.step
  split
  all_goals first | exact .ok (hplace _ _) | exact .error ⟨trivial, rfl⟩

theorem followLookups_namedAs (fuel : Nat) (cs : List Char) (h : NamedAs N v v') :
    NamedAs N (followLookups fuel cs v) (followLookups fuel cs v') := by
  induction fuel generalizing cs v v' with
  | zero => exact .ok h
  | succ fuel ih =>
    cases cs with
    | nil => exact .ok h
    | cons c cs =>
      unfold followLookups
      cases Text.readLookup (c :: cs) with
      | error f => exact .error ⟨trivial, rfl⟩
      | ok p =>
        obtain ⟨l, rest⟩ := p
        cases l with
        | member name => exact (Value.member_namedAs h name).bind fun _ _ hx => ih rest hx
        | index i => exact (Value.item_namedAs h (.int i)).bind fun _ _ hx => ih rest hx
        | key k => exact (Value.item_namedAs h (.text k)).bind fun _ _ hx => ih rest hx

theorem convertField_namedAs (h : NamedAs N v v') (conversion : Option Char) :
    NamedAs N (convertField v conversion) (convertField v' conversion) := by
  unfold convertField
  rw [h.form, h.shown]
  split
  · exact .ok h
  · cases v.form with
    | ok s => exact .ok (.text s)
    | error f => exact .error ⟨trivial, rfl⟩
  · cases v.shown with
    | ok s => exact .ok (.text s)
    | error f => exact .error ⟨trivial, rfl⟩
  · cases v.form with
    | ok s => exact .ok (.text _)
    | error f => exact .error ⟨trivial, rfl⟩
  · exact .error ⟨trivial, rfl⟩

theorem layValue_namedAs (h : NamedAs N v v') (layout : List Char) :
    NamedAs N (layValue v layout) (layValue v' layout) := by
  have hshown := h.shown
  have htype := h.typeName
  have hlaid (x : Except Text.SpecFault (List Char)) (t : String) :
      NamedAs N (x.mapError (Failure.layout · t)) (x.mapError (Failure.layout · t)) :=
    .mapError (fun cs => NamedAs.chars.mpr rfl) fun f => ⟨trivial, rfl⟩
  obtain ⟨hv, rfl⟩ := h
  unfold layValue
  rw [hshown]
  split
  · cases v.shown with
    | ok s => exact .ok (NamedAs.chars.mpr rfl)
    | error f => exact .error ⟨trivial, rfl⟩
  · cases v
    case text | int | bool => exact hlaid _ _
    all_goals exact .error ⟨trivial, congrArg Failure.noLayout htype.symm⟩

theorem fieldValue_namedAs (hargs : NamedAs N args args') (hm : NamedAs N m m')
    (name : List Char) (n : Numbering) :
    NamedAs N (fieldValue args m name n) (fieldValue args' m' name n) := by
  unfold fieldValue
  obtain ⟨first, lookups⟩ := Text.splitName name
  dsimp only
  cases Text.readSource first with
  | error f => exact .fault (f := .fieldName f) trivial rfl
  | ok source =>
    show NamedAs N (n.step source >>= _) (n.step source >>= _)
    have hstep := Numbering.step_namedAs (N := N) n source
    cases hsource : n.step source with
    | error f =>
      rw [hsource] at hstep
      exact .fault hstep.1 (Except.error.inj hstep.2)
    | ok p =>
      obtain ⟨place, n⟩ := p
      have hrest {v v' : Value} (hv : NamedAs N v v') : NamedAs N
          (followLookups lookups.length lookups v >>= fun v => .ok (v, n) :
            Except Failure (Value × Numbering))
          (followLookups lookups.length lookups v' >>= fun v => .ok (v, n)) :=
        (followLookups_namedAs _ _ hv).bind fun _ _ hx => .ok (.mk hx ⟨trivial, rfl⟩)
      cases place with
      | some i =>
        obtain ⟨harg, harg'⟩ := hargs.getElem? i
        dsimp only [Bind.bind, Except.bind]
        rw [← harg']
        cases hat : args[i]? with
        | none => exact .fault (f := .positionOutOfRange i) trivial rfl
        | some v => exact hrest ⟨harg v hat, rfl⟩
      | none =>
        cases source with
        | named k =>
          obtain ⟨harg, harg'⟩ := Mapping.lookup_namedAs hm (NamedAs.text k)
          dsimp only [Bind.bind, Except.bind]
          rw [← harg']
          cases hat : m.lookup (.text k) with
          | none => exact .fault (f := .missingKey (.text k)) trivial rfl
          | some v => exact hrest ⟨harg v hat, rfl⟩
        | next | position i => exact .fault (f := .positionOutOfRange 0) trivial rfl

/-- What is filled in, and how numbering goes on. -/
theorem NamedAs.filled {p p' : List Char × Numbering} : NamedAs N p p' ↔ p' = p := by
  have hsame : Along.along N p = p := Prod.ext (List.map_id p.1) rfl
  exact ⟨fun h => h.2.symm.trans hsame,
    fun h => ⟨⟨fun _ _ => trivial, trivial⟩, hsame.trans h.symm⟩⟩

/-- A value by a layout, and what follows it. -/
theorem laidOut_namedAs {x x' : Except Failure (List Char × Numbering)} (hv : NamedAs N v v')
    (hx : NamedAs N x x') (spec : List Char) : NamedAs N
      (do
        let s ← layValue v spec
        let (out, n) ← x
        return (s ++ out, n) : Except Failure (List Char × Numbering))
      (do
        let s ← layValue v' spec
        let (out, n) ← x'
        return (s ++ out, n)) := by
  refine (layValue_namedAs hv spec).bind fun s s' hs => ?_
  obtain rfl := NamedAs.chars.mp hs
  refine hx.bind fun p p' hp => ?_
  obtain rfl := NamedAs.filled.mp hp
  exact .ok (NamedAs.filled.mpr rfl)

theorem fillPieces_namedAs (hargs : NamedAs N args args') (hm : NamedAs N m m')
    {layout layout' : List Char → Numbering → Except Failure (List Char × Numbering)}
    (hlayout : ∀ cs n, NamedAs N (layout cs n) (layout' cs n)) (ps : List Text.Piece)
    (n : Numbering) :
    NamedAs N (fillPieces args m layout ps n) (fillPieces args' m' layout' ps n) := by
  induction ps generalizing n with
  | nil => exact .ok (NamedAs.filled.mpr rfl)
  | cons p ps ih =>
    cases p with
    | text s =>
      refine (ih n).bind fun p p' hp => ?_
      obtain rfl := NamedAs.filled.mp hp
      exact .ok (NamedAs.filled.mpr rfl)
    | field f =>
      refine (fieldValue_namedAs hargs hm f.name n).bind fun p p' hp => ?_
      obtain ⟨v, n⟩ := p
      obtain ⟨⟨hv, -⟩, rfl⟩ := hp
      refine (convertField_namedAs ⟨hv, rfl⟩ f.conversion).bind fun v v' hv => ?_
      have hrest (spec : List Char) (n : Numbering) := laidOut_namedAs hv (ih n) spec
      show NamedAs N (if f.layout.contains '\x7b' then _ else _)
        (if f.layout.contains '\x7b' then _ else _)
      split
      · refine (hlayout f.layout n).bind fun p p' hp => ?_
        obtain rfl := NamedAs.filled.mp hp
        exact hrest p'.1 p'.2
      · exact hrest f.layout n

theorem fillNested_namedAs (hargs : NamedAs N args args') (hm : NamedAs N m m') (depth : Nat)
    (cs : List Char) (n : Numbering) :
    NamedAs N (fillNested args m depth cs n) (fillNested args' m' depth cs n) := by
  induction depth generalizing cs n with
  | zero => exact .fault (f := .templateTooDeep) trivial rfl
  | succ depth ih =>
    unfold fillNested
    obtain ⟨ps, fault⟩ := Text.pieces cs
    refine (fillPieces_namedAs hargs hm ih ps n).bind fun p p' hp => ?_
    obtain rfl := NamedAs.filled.mp hp
    cases fault with
    | none => exact .ok (NamedAs.filled.mpr rfl)
    | some f => exact .fault (f := .template f) trivial rfl

/-- **A template is filled in with the same text.** -/
theorem fillTemplate_namedAs (template : String) (hargs : NamedAs N args args')
    (hm : NamedAs N m m') :
    NamedAs N (fillTemplate template args m) (fillTemplate template args' m') := by
  refine (fillNested_namedAs hargs hm 2 template.toList .unsettled).bind fun p p' hp => ?_
  obtain rfl := NamedAs.filled.mp hp
  exact .ok ⟨trivial, rfl⟩

end

end EffectHandlers
