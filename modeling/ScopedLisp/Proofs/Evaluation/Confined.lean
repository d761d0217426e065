import ScopedLisp.Proofs.Evaluation.BuiltinSteps
import ScopedLisp.Proofs.Form.Reading

-- Where values and names come from. Steps hand on values that they have been given, and otherwise
-- only make numbers, texts, truth values, and procedures from the forms at hand. So what holds of
-- procedures that are found and made holds of all that are bound, called, and returned. Names are
-- bound only after a check that they are no keywords.
-- Main statement: `Steps.confined_ofForm`.

namespace ScopedLisp

-- The value is neither a symbol nor a list, and if it is a procedure, then one of the kind.
def Value.IsResult (P : Procedure → Prop) : Value → Prop
  | procedure p => P p
  | symbol _ | list _ => False
  | nil | integer _ | text _ | boolean _ => True

theorem Value.IsResult.mono {P P' : Procedure → Prop} {v : Value} (h : v.IsResult P)
    (hP : ∀ p, P p → P' p) : v.IsResult P' := by
  cases v
  case procedure p => exact hP p h
  all_goals exact h

-- A kind of forms, and a kind of procedures. Items are of the kind, and so are procedures that
-- stand in place of forms.
structure Confines (F : Form → Prop) (P : Procedure → Prop) : Prop where
  items     : ∀ items, F (.list items) → ∀ item ∈ items, F item
  procedure : ∀ p, F (.procedure p) → P p

-- Names that the parameters of a procedure may have: each one once, and none that is reserved.
structure ProperParameters (reserved : String → Bool) (parameters : List String) : Prop where
  distinct : parameters.Nodup
  free     : ∀ name ∈ parameters, ¬reserved name

namespace Steps

-- The steps ask for forms of a kind only, and if all procedures that they are given are of a kind,
-- then so are those that they bind, call and return. The kind of procedures may grow on the way.
-- What is reserved is not bound, and names no parameter.
def Confined (F : Form → Prop) (r : String → Bool) : Steps → (Procedure → Prop) → Prop
  | done v, P             => v.IsResult P
  | failed _, _           => True
  | look _ next, P        =>
    ∀ P', (∀ p, P p → P' p) → ∀ v?, (∀ v ∈ v?, v.IsResult P') → (next v?).Confined F r P'
  | evaluate form next, P =>
    F form ∧ ∀ P', (∀ p, P p → P' p) → ∀ v, v.IsResult P' → (next v).Confined F r P'
  | define name v next, P =>
    ¬r name ∧ v.IsResult P ∧ ∀ P', (∀ p, P p → P' p) → next.Confined F r P'
  | procedure ps body, _  => ProperParameters r ps ∧ F body
  | apply p values, P     => P p ∧ ∀ v ∈ values, v.IsResult P
  | nest body, P          => ∀ P', (∀ p, P p → P' p) → body.Confined F r P'
  | write _, _            => True

variable {F : Form → Prop} {r : String → Bool} {P : Procedure → Prop} {keyword : String}
  {args : List Form}

theorem confined_check {α : Type} {x : Except Failure α} {next : α → Steps}
    (h : ∀ a, x = .ok a → (next a).Confined F r P) : (check x next).Confined F r P := by
  cases x
  case error => trivial
  case ok a  => exact h a rfl

theorem confined_evaluate_done {form : Form} (h : F form) : (evaluate form done).Confined F r P :=
  ⟨h, fun _ _ _ hv => hv⟩

theorem confined_evaluateAll {next : List Value → Steps} (hF : ∀ arg ∈ args, F arg)
    (h : ∀ P', (∀ p, P p → P' p) → ∀ vs, (∀ v ∈ vs, v.IsResult P') → (next vs).Confined F r P') :
    (evaluateAll args next).Confined F r P := by
  induction args generalizing next P
  case nil => exact h P (fun _ => id) [] nofun
  case cons hd tl hi =>
    rw [List.forall_mem_cons] at hF
    refine ⟨hF.left, fun P₁ hP₁ v hv => hi hF.right fun P₂ hP₂ vs hvs => ?_⟩
    exact h P₂ (fun p hp => hP₂ p (hP₁ p hp)) _ (List.forall_mem_cons.mpr ⟨hv.mono hP₂, hvs⟩)

theorem confined_evaluateBody {last : Value} (hF : ∀ arg ∈ args, F arg) (hl : last.IsResult P) :
    (evaluateBody last args).Confined F r P := by
  induction args generalizing last P
  case nil => exact hl
  case cons hd tl hi =>
    rw [List.forall_mem_cons] at hF
    exact ⟨hF.left, fun _ _ _ hv => hi hF.right hv⟩

theorem confined_evaluateBoolean {form : Form} {next : Bool → Steps} (hF : F form)
    (h : ∀ P' b, (next b).Confined F r P') :
    (evaluateBoolean keyword form next).Confined F r P := by
  refine ⟨hF, fun _ _ v _ => ?_⟩
  cases v <;> try trivial
  exact h _ _

theorem confined_evaluateInteger {form : Form} {next : Integer → Steps} (hF : F form)
    (h : ∀ P' i, (next i).Confined F r P') :
    (evaluateInteger keyword form next).Confined F r P := by
  refine ⟨hF, fun _ _ v _ => ?_⟩
  cases v <;> try trivial
  exact h _ _

theorem confined_evaluateIntegers {next : List Integer → Steps} (hF : ∀ arg ∈ args, F arg)
    (h : ∀ P' is, (next is).Confined F r P') :
    (evaluateIntegers keyword args next).Confined F r P := by
  induction args generalizing next P
  case nil => exact h P []
  case cons hd tl hi =>
    rw [List.forall_mem_cons] at hF
    exact confined_evaluateInteger hF.left fun _ _ => hi hF.right fun _ _ => h _ _

theorem confined_settle {deciding : Bool} (hF : ∀ arg ∈ args, F arg) :
    (settle keyword deciding args).Confined F r P := by
  induction args generalizing P
  case nil => trivial
  case cons hd tl hi =>
    rw [List.forall_mem_cons] at hF
    refine confined_evaluateBoolean hF.left fun _ b => ?_
    split
    case isTrue  => trivial
    case isFalse => exact hi hF.right

theorem confined_call {p : Procedure} (hp : P p) (hF : ∀ arg ∈ args, F arg) :
    (call p args).Confined F r P := by
  unfold call
  split
  case isTrue  => exact confined_evaluateAll hF fun _ hP _ hvs => ⟨hP p hp, hvs⟩
  case isFalse => trivial

section Keywords

variable (hi : ∀ items, F (.list items) → ∀ item ∈ items, F item)
  (hF : ∀ arg ∈ args, F arg)

theorem itemsOf_eq_ok {role : String} {form : Form} {items : List Form}
    (h : itemsOf keyword role form = .ok items) : form = .list items := by
  unfold itemsOf at h
  split at h
  case h_1 => rw [Except.ok.inj h]
  case h_2 => cases h

theorem not_reserved_of_bindable {form : Form} {name : String}
    (h : bindable r keyword form = .ok name) : ¬r name := by
  obtain ⟨other, _, h⟩ := bind_eq_ok_iff.mp h
  split at h
  case isTrue    => cases h
  case isFalse n => exact Except.ok.inj h ▸ n

theorem properParameters_of_eq_ok {forms : List Form} {seen names : List String}
    (hs : ProperParameters r seen) (h : Keywords.parameters r seen forms = .ok names) :
    ProperParameters r names := by
  induction forms generalizing seen
  case nil => exact Except.ok.inj h ▸ hs
  case cons form forms hi =>
    obtain ⟨name, _, h⟩ := bind_eq_ok_iff.mp h
    split at h
    case isTrue => cases h
    split at h
    case isTrue => cases h
    case isFalse hr hn =>
      refine hi ⟨?_, ?_⟩ h
      case refine_1 =>
        refine List.nodup_append.mpr ⟨hs.distinct, by simp, fun a ha b hb he => ?_⟩
        exact hn (List.mem_singleton.mp hb ▸ he ▸ ha)
      case refine_2 =>
        exact List.forall_mem_append.mpr ⟨hs.free, List.forall_mem_singleton.mpr hr⟩

include hF in
theorem confined_definition : (definition r args).Confined F r P := by
  unfold definition
  split
  case h_1 =>
    exact confined_check fun _ hn => ⟨hF _ (by simp), fun _ _ _ hv =>
      ⟨not_reserved_of_bindable hn, hv, fun _ hP => hv.mono hP⟩⟩
  case h_2 => trivial

include hF in
theorem confined_closure : (closure r args).Confined F r P := by
  unfold closure
  split
  case h_1 =>
    exact confined_check fun _ _ => confined_check fun _ hn =>
      ⟨properParameters_of_eq_ok ⟨.nil, nofun⟩ hn, hF _ (by simp)⟩
  case h_2 => trivial

include hi in
theorem confined_bindOne {binding : Form} {next : Steps} (hb : F binding)
    (h : ∀ P', next.Confined F r P') : (bindOne r binding next).Confined F r P := by
  unfold bindOne
  refine confined_check fun items he => ?_
  have hitems := hi items (itemsOf_eq_ok he ▸ hb)
  split
  case h_1 =>
    exact confined_check fun _ hn => ⟨hitems _ (by simp), fun _ _ _ hv =>
      ⟨not_reserved_of_bindable hn, hv, fun _ _ => h _⟩⟩
  case h_2 => trivial

include hi in
theorem confined_bindAll {bindings : List Form} {next : Steps} (hb : ∀ b ∈ bindings, F b)
    (h : ∀ P', next.Confined F r P') : (bindAll r bindings next).Confined F r P := by
  induction bindings generalizing P
  case nil => exact h P
  case cons hd tl ih =>
    rw [List.forall_mem_cons] at hb
    exact confined_bindOne hi hb.left fun _ => ih hb.right

include hi hF in
theorem confined_localBindings : (localBindings r args).Confined F r P := by
  unfold localBindings
  split
  case h_1 =>
    refine confined_check fun items he _ _ => ?_
    have hitems := hi items (itemsOf_eq_ok he ▸ hF _ (by simp))
    exact confined_bindAll hi hitems fun _ => confined_evaluate_done (hF _ (by simp))
  case h_2 => trivial

include hF in
theorem confined_conditional : (conditional args).Confined F r P := by
  unfold conditional
  split
  case h_1 =>
    refine confined_evaluateBoolean (hF _ (by simp)) fun _ b => ?_
    cases b
    case false => trivial
    case true  => exact confined_evaluate_done (hF _ (by simp))
  case h_2 =>
    refine confined_evaluateBoolean (hF _ (by simp)) fun _ b => ?_
    cases b
    all_goals exact confined_evaluate_done (hF _ (by simp))
  case h_3 => trivial

include hF in
theorem confined_negation : (negation args).Confined F r P := by
  unfold negation
  split
  case h_1 => exact confined_evaluateBoolean (hF _ (by simp)) fun _ _ => trivial
  case h_2 => trivial

include hF in
theorem confined_division : (division args).Confined F r P := by
  unfold division
  split
  case isTrue  => trivial
  case isFalse => exact confined_evaluateIntegers hF fun _ _ => confined_check fun _ _ => trivial

include hF in
theorem confined_comparison {holds : Integer → Integer → Bool} :
    (comparison keyword holds args).Confined F r P := by
  unfold comparison
  split
  case h_1 =>
    exact confined_evaluateInteger (hF _ (by simp)) fun _ _ =>
      confined_evaluateInteger (hF _ (by simp)) fun _ _ => trivial
  case h_2 => trivial

include hF in
theorem confined_equality : (equality args).Confined F r P := by
  unfold equality
  split
  case h_1 => exact ⟨hF _ (by simp), fun _ _ _ _ => ⟨hF _ (by simp), fun _ _ _ _ => trivial⟩⟩
  case h_2 => trivial

theorem isResult_of_sumOf {values : List Value} {v : Value} (h : Keywords.sumOf values = .ok v) :
    v.IsResult P := by
  unfold Keywords.sumOf at h
  split at h
  all_goals
    obtain ⟨_, _, rfl⟩ := map_eq_ok_iff.mp h
    trivial

include hi hF in
theorem confined_steps (b : Builtin) : (b.steps r args).Confined F r P := by
  cases b
  case define      => exact confined_definition hF
  case group       => exact confined_evaluateBody hF trivial
  case procedure   => exact confined_closure hF
  case bindLocally => exact confined_localBindings hi hF
  case conditional => exact confined_conditional hF
  case disjunction => exact confined_settle hF
  case conjunction => exact confined_settle hF
  case negation    => exact confined_negation hF
  case print       => exact confined_evaluateAll hF fun _ _ _ _ => trivial
  case divide      => exact confined_division hF
  case less        => exact confined_comparison hF
  case greater     => exact confined_comparison hF
  case equal       => exact confined_equality hF
  case add         =>
    exact confined_evaluateAll hF fun _ _ _ _ => confined_check fun _ => isResult_of_sumOf
  case subtract    =>
    exact confined_evaluateIntegers hF fun _ _ => confined_check fun _ _ => trivial
  case multiply    =>
    exact confined_evaluateIntegers hF fun _ _ => confined_check fun _ _ => trivial

end Keywords

-- What a form leads to is confined to the kinds, if the form is of its kind.
theorem confined_ofForm (builtin? : String → Option Builtin) {form : Form} (h : Confines F P)
    (hF : F form) :
    (ofForm builtin? form).Confined F (fun name => (builtin? name).isSome) P := by
  match form with
  | .list (.symbol name :: args) =>
    have ha := (List.forall_mem_cons.mp (h.items _ hF)).right
    simp only [ofForm]
    cases builtin? name
    case some b => exact confined_steps h.items ha b
    case none =>
      intro P' _ v? hv
      rcases v? with _ | _ | _ | _ | _ | _ | _ | p <;> try trivial
      exact confined_call (hv _ rfl) ha
  | .list (.list items :: args) =>
    have hi := List.forall_mem_cons.mp (h.items _ hF)
    refine ⟨hi.left, fun P' _ v hv => ?_⟩
    cases v <;> try trivial
    exact confined_call hv hi.right
  | .symbol name =>
    intro P' _ v? hv
    cases v?
    case none   => trivial
    case some v => exact hv v rfl
  | .procedure p => exact h.procedure p hF
  | .list [] | .list (.nil :: _) | .list (.integer _ :: _) | .list (.text _ :: _)
  | .list (.boolean _ :: _) | .list (.procedure _ :: _)
  | .nil | .integer _ | .text _ | .boolean _ => trivial

end Steps
end ScopedLisp
