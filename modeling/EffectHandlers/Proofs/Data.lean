/-
EffectHandlers/Proofs/Data.lean

Data that is alike.

Two values are alike as data if they differ in nothing but the functions in
them, and functions that stand in the same place are counterparts of each
other (`Value.Alike`).  Which functions are counterparts stays open, as long
as they do alike whenever they are called with data that is alike
(`Counterparts`): a function that a routine makes anew whenever it is
executed is not the same value each time, but it can be one that nobody can
tell from the one before.

Main result: this is a sameness (`Sameness.data`).
-/
import EffectHandlers.Proofs.Sameness

namespace EffectHandlers

/-! ### Forms of parts -/

theorem formItems_congr {as bs : List Value} (h : List.Forall₂ (fun a b => a.form = b.form) as bs) :
    formItems as = formItems bs := by
  induction h with
  | nil => rfl
  | cons hab _ ih =>
    unfold formItems
    rw [hab, ih]

/-- The forms of named values. -/
def formNamed : List (String × Value) → Except TextFault (List (String × String))
  | [] => .ok []
  | (name, v) :: fs => do return (name, ← v.form) :: (← formNamed fs)

theorem formNamed_congr {fs gs : List (String × Value)}
    (h : List.Forall₂ (fun f g => f.1 = g.1 ∧ f.2.form = g.2.form) fs gs) :
    formNamed fs = formNamed gs := by
  induction h with
  | nil => rfl
  | @cons f g _ _ hfg _ ih =>
    obtain ⟨name, v⟩ := f
    obtain ⟨_, v'⟩ := g
    obtain ⟨rfl, hv⟩ := hfg
    unfold formNamed
    rw [hv, ih]

/-- The fields of a request are shown in order. -/
theorem Request.formFields_eq (r : Request) : r.formFields = formNamed r.fields := by
  cases r with
  | readLine | beep => rfl
  | loudLog a b | put a b | modify a b =>
    simp only [Request.formFields, Request.fields, formNamed]
    cases a.form <;> [rfl; (cases b.form <;> rfl)]
  | log a | writeLine a | get a | poke a | tick a | custom _ _ a =>
    simp only [Request.formFields, Request.fields, formNamed]
    cases a.form <;> rfl

/-! ### Alike as data -/

/-- Two values are alike as data, given which functions are counterparts of each other: they are
the same plain data, lists of values that are alike, or effects whose answer goes through no stage,
of one kind, about equal keys and with fields that are alike; or they are counterparts. -/
inductive Value.Alike (F : Callable → Callable → Prop) : Value → Value → Prop
  | null : Alike F .null .null
  | bool (b : Bool) : Alike F (.bool b) (.bool b)
  | int (n : Int) : Alike F (.int n) (.int n)
  | text (t : String) : Alike F (.text t) (.text t)
  | list {as bs : List Value} (length : as.length = bs.length)
      (each : ∀ a b, (a, b) ∈ as.zip bs → Alike F a b) : Alike F (.list as) (.list bs)
  | effect {r r' : Request} (kind : r.kind = r'.kind)
      (names : List.Forall₂ (fun f g => f.1 = g.1) r.fields r'.fields)
      (keys : List.Forall₂ Value.SameKey r.keys r'.keys)
      (fields : ∀ f g, (f, g) ∈ r.fields.zip r'.fields → Alike F f.2 g.2) :
      Alike F (.effect (.of r)) (.effect (.of r'))
  | function {f g : Callable} (counterparts : F f g) : Alike F (.function f) (.function g)

namespace Value.Alike

variable {F : Callable → Callable → Prop} {a b c : Value} {r r' : Request}

theorem list_iff {as bs : List Value} :
    (Value.list as).Alike F (.list bs) ↔ List.Forall₂ (Value.Alike F) as bs := by
  constructor
  · rintro (_ | _ | _ | _ | ⟨length, each⟩)
    exact List.forall₂_iff_zip.mpr ⟨length, each _ _⟩
  · intro h
    exact .list h.length_eq fun a b hab => List.forall₂_zip h hab

theorem effect_iff :
    (Value.effect (.of r)).Alike F (.effect (.of r')) ↔
      r.Relates (Value.Alike F) r' ∧ List.Forall₂ Value.SameKey r.keys r'.keys := by
  constructor
  · intro h
    cases h with
    | effect kind names keys fields =>
      have hfields : List.Forall₂ (fun f g => f.2.Alike F g.2) r.fields r'.fields :=
        List.forall₂_iff_zip.mpr ⟨names.length_eq, fields _ _⟩
      exact ⟨⟨kind, names.mp (fun _ _ h h' => ⟨h, h'⟩) hfields⟩, keys⟩
  · rintro ⟨⟨kind, hfields⟩, keys⟩
    refine .effect kind (hfields.imp fun _ _ h => h.1) keys fun f g hfg => ?_
    exact (List.forall₂_zip hfields hfg).2

theorem symm (hF : ∀ f g, F f g → F g f) (h : a.Alike F b) : b.Alike F a := by
  induction h with
  | null => exact .null
  | bool b => exact .bool b
  | int n => exact .int n
  | text t => exact .text t
  | list length each ih =>
    have hall : List.Forall₂ (fun a b => Value.Alike F b a) _ _ :=
      List.forall₂_iff_zip.mpr ⟨length, ih _ _⟩
    exact list_iff.mpr hall.flip
  | @effect r r' kind names keys fields ih =>
    have hfields : List.Forall₂ (fun f g => g.1 = f.1 ∧ g.2.Alike F f.2) r.fields r'.fields :=
      names.mp (fun _ _ h h' => ⟨h.symm, h'⟩)
        (List.forall₂_iff_zip.mpr ⟨names.length_eq, ih _ _⟩)
    have hkeys : List.Forall₂ (fun j k => Value.SameKey k j) r.keys r'.keys :=
      keys.imp fun _ _ h => h.symm
    exact effect_iff.mpr ⟨⟨kind.symm, hfields.flip⟩, hkeys.flip⟩
  | function counterparts => exact .function (hF _ _ counterparts)

theorem trans (hF : ∀ f g h, F f g → F g h → F f h) (h : a.Alike F b) (h' : b.Alike F c) :
    a.Alike F c := by
  induction h generalizing c with
  | null | bool b | int n | text t => exact h'
  | @list as bs length each ih =>
    cases h' with
    | list length' each' =>
      have hfirst : List.Forall₂ (fun a b => ∀ {c}, Value.Alike F b c → Value.Alike F a c) as bs :=
        List.forall₂_iff_zip.mpr ⟨length, ih _ _⟩
      have hsecond := list_iff.mp (.list length' each')
      exact list_iff.mpr (forall₂_comp (fun _ _ _ h h' => h h') hfirst hsecond)
  | @effect r r' kind names keys fields ih =>
    cases h' with
    | effect kind' names' keys' fields' =>
      have hfirst : List.Forall₂ (fun f g => f.1 = g.1 ∧ ∀ {c}, g.2.Alike F c → f.2.Alike F c)
          r.fields r'.fields :=
        names.mp (fun _ _ h h' => ⟨h, h'⟩)
          (List.forall₂_iff_zip.mpr ⟨names.length_eq, ih _ _⟩)
      obtain ⟨⟨-, hsecond⟩, -⟩ := effect_iff.mp (.effect kind' names' keys' fields')
      refine effect_iff.mpr ⟨⟨kind.trans kind', ?_⟩, ?_⟩
      · exact forall₂_comp (fun _ _ _ h h' => ⟨h.1.trans h'.1, h.2 h'.2⟩) hfirst hsecond
      · exact forall₂_comp (fun _ _ _ h h' => h.trans h') keys keys'
  | function counterparts =>
    cases h' with
    | function counterparts' => exact .function (hF _ _ _ counterparts counterparts')

/-- Data that is alike is shown alike. -/
theorem form_eq (h : a.Alike F b) : a.form = b.form := by
  induction h with
  | null | bool b | int n | text t | function counterparts => rfl
  | @list as bs length each ih =>
    have hitems : formItems as = formItems bs :=
      formItems_congr (List.forall₂_iff_zip.mpr ⟨length, ih _ _⟩)
    simp only [Value.form, hitems]
  | @effect r r' kind names keys fields ih =>
    have hfields : List.Forall₂ (fun f g => f.2.form = g.2.form) r.fields r'.fields :=
      List.forall₂_iff_zip.mpr ⟨names.length_eq, ih _ _⟩
    have hforms : r.formFields = r'.formFields := by
      rw [r.formFields_eq, r'.formFields_eq]
      exact formNamed_congr (names.mp (fun _ _ h h' => ⟨h, h'⟩) hfields)
    simp only [Value.form, Effect.of, Effect.form, kind, hforms]

end Value.Alike

/-! ### The sameness -/

/-- Functions that are counterparts of each other: called with data that is alike, they come to
data that is alike. -/
structure Counterparts (s : Settings) where
  rel : Callable → Callable → Prop
  symm (f g : Callable) : rel f g → rel g f
  trans (f g h : Callable) : rel f g → rel g h → rel f h
  apply {f g : Callable} : rel f g → ∀ (w u : World) (as bs : List Value), Kept s w → Kept s u →
    List.Forall₂ (Value.Alike rel) as bs →
      (Callable.meaning s f as w).Alike (fun _ a _ b => a.Alike rel b) (Callable.meaning s g bs u)

/-- Data that is alike cannot be told apart. -/
def Sameness.data {s : Settings} (F : Counterparts s) : Sameness s where
  same _ a _ b := a.Alike F.rel b
  symm h := h.symm F.symm
  trans h h' := h.trans F.trans h'
  grow h _ _ := h
  typeName h := by
    cases h with
    | effect kind => exact congrArg Kind.name kind
    | _ => rfl
  chain h := by cases h
  effect {_ _ e v} h := by
    cases h with
    | effect kind names keys fields =>
      exact ⟨_, rfl, (Value.Alike.effect_iff.mp (.effect kind names keys fields)).1⟩
  resume {_ w _ u _ _ a b} h _ _ _ _ hab := by
    cases h
    rw [Effect.resume_of, Effect.resume_of]
    exact .value hab
  null _ _ := .null
  int _ _ n := .int n
  number h := by cases h <;> rfl
  list h := Value.Alike.list_iff.mpr h
  items {_ _ as _} h := by
    cases h with
    | @list _ bs length each => exact ⟨bs, rfl, Value.Alike.list_iff.mp (.list length each)⟩
  requires h := by cases h
  keys h := by
    cases h with
    | effect _ _ keys _ => exact keys
  fault {_ _ e e'} h := by
    have hform : (Value.effect e).form = (Value.effect e').form := h.form_eq
    cases h
    unfold Request.fault? Effect.recordText Value.truncated
    exact congrArg (fun text => match Except.map (truncated · 120) text with
      | .ok _ => none
      | .error f => some f) hform
  apply {_ _ f _} h := by
    cases h with
    | @function _ g counterparts =>
      exact ⟨g, rfl, fun w u as bs hw hu _ _ hall => F.apply counterparts w u as bs hw hu hall⟩

end EffectHandlers
