import ScopedLisp.Proofs.Evaluation.Alike

-- Builtins that are given forms which match take steps which are alike. So evaluation does not
-- depend on where frames and procedures live.
-- Main statement: `Evaluator.evaluate_alike`.

namespace ScopedLisp

open Evaluation

-- What is reserved on one side is reserved under its spelling on the other side. All else is
-- spelled the same on both.
structure Spelling.Respects (N : Spelling) (r₁ r₂ : String → Bool) : Prop where
  reserved : ∀ {a b}, N a b → r₁ a = r₂ b
  fixes    : ∀ {a b}, N a b → r₁ a = false → a = b ∧ N.Fixes a

-- Checks that find the same, or the same fault.
inductive ChecksAlike {α β : Type} (N : Spelling) (R : α → β → Prop) :
    Except Failure α → Except Failure β → Prop
  | ok {a : α} {b : β} (h : R a b) : ChecksAlike N R (.ok a) (.ok b)
  | error {f g : Failure} (h : f.Alike N g) : ChecksAlike N R (.error f) (.error g)

variable {ρ ρ' : Pairing} {N : Spelling} {r₁ r₂ : String → Bool} {form₁ form₂ : Form}
  {args₁ args₂ : List Form}

theorem Failure.Alike.of_cause {c d : Cause} (hk : c.kind = d.kind) (h : N.Faithful → c = d) :
    Failure.Alike N c d where
  kind := hk
  eq   := fun hN => by rw [h hN]

theorem Procedure.Alike.mono {p q : Procedure} (h : p.Alike ρ N q) (hρ : ρ.Grows ρ') :
    p.Alike ρ' N q where
  identity   := hρ.procedures _ _ h.identity
  parameters := h.parameters
  fixed      := h.fixed
  body       := Value.related_mono hρ h.body
  home       := h.home.mono hρ

-- Forms with a fault show as they are spelled.
theorem Value.display_of_matches (h : form₁.Matches ρ N form₂) (hN : N.Faithful) :
    form₁.display = form₂.display :=
  display_of_alike <| alike_of_matches hN h

abbrev FormsMatch (ρ : Pairing) (N : Spelling) : List Form → List Form → Prop :=
  List.Forall₂ (Value.Matches ρ N)

abbrev ValuesAlike (ρ : Pairing) (N : Spelling) : List Value → List Value → Prop :=
  List.Forall₂ (Value.Alike ρ N)

theorem FormsMatch.mono (h : FormsMatch ρ N args₁ args₂) (hρ : ρ.Grows ρ') :
    FormsMatch ρ' N args₁ args₂ :=
  h.imp fun _ _ => Value.related_mono hρ

theorem FormsMatch.wrongCount (h : FormsMatch ρ N args₁ args₂) (form : String) (expected : Nat) :
    Failure.Alike N (Cause.wrongCount form expected args₁)
      (Cause.wrongCount form expected args₂) := by
  refine .of_cause rfl fun hN => ?_
  have hd := Value.display_of_matches (Value.related_list.mpr ⟨_, rfl, h⟩) hN
  simp only [Cause.wrongCount, h.length_eq, hd]

namespace ChecksAlike

variable {α β : Type} {R : α → β → Prop}

theorem bind {γ δ : Type} {S : γ → δ → Prop} {x : Except Failure α} {y : Except Failure β}
    {f : α → Except Failure γ} {g : β → Except Failure δ} (h : ChecksAlike N R x y)
    (hf : ∀ a b, R a b → ChecksAlike N S (f a) (g b)) : ChecksAlike N S (x >>= f) (y >>= g) := by
  cases h
  case ok h    => exact hf _ _ h
  case error h => exact .error h

theorem map_self {γ : Type} {S : γ → γ → Prop} {f : α → γ} (hf : ∀ a, S (f a) (f a))
    (x : Except Failure α) : ChecksAlike N S (f <$> x) (f <$> x) := by
  cases x
  case error => exact .error (.refl ..)
  case ok a  => exact .ok (hf a)

theorem nameOf (h : form₁.Matches ρ N form₂) (keyword role : String) :
    ChecksAlike N N (nameOf keyword role form₁) (nameOf keyword role form₂) := by
  have hd := Value.display_of_matches h
  cases form₁
  case symbol =>
    obtain ⟨_, rfl, h⟩ := h
    exact .ok h
  case nil | integer | text | boolean =>
    obtain rfl := h
    exact .error (.refl ..)
  case list | procedure =>
    obtain ⟨_, rfl, _⟩ := h
    exact .error <| .of_cause rfl fun hN => by rw [hd hN]

theorem itemsOf (h : form₁.Matches ρ N form₂) (keyword role : String) :
    ChecksAlike N (FormsMatch ρ N) (itemsOf keyword role form₁) (itemsOf keyword role form₂) := by
  have hd := Value.display_of_matches h
  cases form₁
  case list =>
    rw [Value.Matches, Value.related_list] at h
    obtain ⟨_, rfl, h⟩ := h
    exact .ok h
  case nil | integer | text | boolean =>
    obtain rfl := h
    exact .error (.refl ..)
  case symbol | procedure =>
    obtain ⟨_, rfl, _⟩ := h
    exact .error <| .of_cause rfl fun hN => by rw [hd hN]

theorem bindable (hr : N.Respects r₁ r₂) (h : form₁.Matches ρ N form₂) (keyword : String) :
    ChecksAlike N (fun a b => a = b ∧ N.Fixes a) (Steps.bindable r₁ keyword form₁)
      (Steps.bindable r₂ keyword form₂) := by
  refine bind (nameOf h keyword "binding name") fun a b hn => ?_
  rw [← hr.reserved hn]
  cases ha : r₁ a
  case true  => exact .error <| .of_cause rfl fun hN => by rw [hN a b hn]
  case false => exact .ok (hr.fixes hn ha)

theorem parameters (hr : N.Respects r₁ r₂) (h : FormsMatch ρ N args₁ args₂) {seen : List String}
    (hs : ∀ name ∈ seen, N.Fixes name) :
    ChecksAlike N (fun ps qs => ps = qs ∧ ∀ name ∈ ps, N.Fixes name)
      (Keywords.parameters r₁ seen args₁) (Keywords.parameters r₂ seen args₂) := by
  induction h generalizing seen
  case nil => exact .ok ⟨rfl, hs⟩
  case cons hf _ hi =>
    refine bind (nameOf hf "fn" "parameter") fun a b hn => ?_
    rw [← hr.reserved hn]
    cases ha : r₁ a
    case true  => exact .error <| .of_cause rfl fun hN => by rw [hN a b hn]
    case false =>
      obtain ⟨rfl, hfix⟩ := hr.fixes hn ha
      by_cases hm : a ∈ seen
      case pos =>
        simp only [Bool.false_eq_true, if_false, if_pos hm]
        exact .error (.refl ..)
      case neg =>
        simp only [Bool.false_eq_true, if_false, if_neg hm]
        refine hi fun name h => ?_
        rcases List.mem_append.mp h with h | h
        case inl => exact hs name h
        case inr => exact List.mem_singleton.mp h ▸ hfix

end ChecksAlike

namespace Keywords

variable {vs ws : List Value}

theorem concatenation_congr (h : ValuesAlike ρ N vs ws) (start : String) :
    concatenation start vs = concatenation start ws := by
  unfold concatenation
  induction h generalizing start
  case nil => rfl
  case cons v w _ _ hv _ hi =>
    have hk := Value.kind_of_related hv
    have hl := Value.literal_of_alike hv
    rw [List.foldlM_cons, List.foldlM_cons]
    cases v
    case text => obtain rfl := hv; exact hi _
    case nil | integer | boolean => obtain rfl := hv; rfl
    all_goals
      obtain ⟨_, rfl, _⟩ := hv
      simp only [hk, hl]
      rfl

theorem sum_congr (h : ValuesAlike ρ N vs ws) : sum vs = sum ws := by
  unfold sum
  generalize (0 : Integer) = total
  induction h generalizing total
  case nil => rfl
  case cons v w _ _ hv _ hi =>
    have hk := Value.kind_of_related hv
    have hl := Value.literal_of_alike hv
    rw [List.foldlM_cons, List.foldlM_cons]
    cases v
    case integer => obtain rfl := hv; exact bind_congr hi
    case nil | text | boolean => obtain rfl := hv; rfl
    all_goals
      obtain ⟨_, rfl, _⟩ := hv
      simp only [hk, hl]
      rfl

theorem sumOf_alike (h : ValuesAlike ρ N vs ws) :
    ChecksAlike N (Value.Alike ρ N) (sumOf vs) (sumOf ws) := by
  have hs := sum_congr h
  cases h
  case nil => exact .map_self Value.alike_integer _
  case cons v w vs ws hv hvs =>
    cases v
    case text s =>
      obtain rfl := hv
      simp only [sumOf]
      rw [concatenation_congr hvs]
      exact .map_self Value.alike_text _
    all_goals
      first | obtain rfl := hv | obtain ⟨_, rfl, _⟩ := hv
      simp only [sumOf]
      rw [hs]
      exact .map_self Value.alike_integer _

theorem line_congr (h : ValuesAlike ρ N vs ws) : line vs = line ws := by
  have : vs.map Value.display = ws.map Value.display := by
    induction h
    case nil => rfl
    case cons hv _ hi => rw [List.map_cons, List.map_cons, Value.display_of_alike hv, hi]
  rw [line, line, this]

end Keywords
namespace Steps

section Alike

variable {α β : Type} {R : α → β → Prop} {keyword : String}

theorem alike_check {x : Except Failure α} {y : Except Failure β} (h : ChecksAlike N R x y)
    {next₁ : α → Steps} {next₂ : β → Steps}
    (hn : ∀ a b, R a b → Alike N ρ (next₁ a) (next₂ b)) :
    Alike N ρ (check x next₁) (check y next₂) := by
  cases h
  case ok h    => exact hn _ _ h
  case error h => exact .failed h

-- What is computed from integers alone is the same anyway.
theorem alike_computed (x : Except Failure Integer) :
    Alike N ρ (check x fun i => done (.integer i)) (check x fun i => done (.integer i)) := by
  cases x
  case error => exact .failed (.refl ..)
  case ok i  => exact .done <| Value.alike_integer i

theorem alike_evaluate_done (h : form₁.Matches ρ N form₂) :
    Alike N ρ (evaluate form₁ done) (evaluate form₂ done) :=
  .evaluate h fun _ _ _ _ => .done

theorem alike_evaluateAll (h : FormsMatch ρ N args₁ args₂) {next₁ next₂ : List Value → Steps}
    (hn : ∀ ρ' vs ws, ρ.Grows ρ' → ValuesAlike ρ' N vs ws → Alike N ρ' (next₁ vs) (next₂ ws)) :
    Alike N ρ (evaluateAll args₁ next₁) (evaluateAll args₂ next₂) := by
  induction args₁ generalizing ρ args₂ next₁ next₂
  case nil =>
    cases h
    exact hn _ _ _ (.refl ρ) .nil
  case cons hi =>
    cases h
    case cons hf h =>
    refine .evaluate hf fun ρ₁ v w hρ hv => hi (FormsMatch.mono h hρ) fun ρ₂ vs ws hρ' hvs => ?_
    exact hn ρ₂ _ _ (hρ.trans hρ') (.cons (Value.related_mono hρ' hv) hvs)

theorem alike_evaluateBody (h : FormsMatch ρ N args₁ args₂) {v w : Value} (hv : v.Alike ρ N w) :
    Alike N ρ (evaluateBody v args₁) (evaluateBody w args₂) := by
  induction args₁ generalizing ρ args₂ v w
  case nil =>
    cases h
    exact .done hv
  case cons hi =>
    cases h
    case cons hf h => exact .evaluate hf fun ρ' v w hρ hv => hi (FormsMatch.mono h hρ) hv

theorem alike_evaluateBoolean (h : form₁.Matches ρ N form₂) {next₁ next₂ : Bool → Steps}
    (hn : ∀ ρ' b, ρ.Grows ρ' → Alike N ρ' (next₁ b) (next₂ b)) :
    Alike N ρ (evaluateBoolean keyword form₁ next₁) (evaluateBoolean keyword form₂ next₂) := by
  refine .evaluate h fun ρ' v w hρ hv => ?_
  have hk := Value.kind_of_related hv
  have hl := Value.literal_of_alike hv
  cases v
  case boolean => obtain rfl := hv; exact hn ρ' _ hρ
  all_goals
    first | obtain rfl := hv | obtain ⟨_, rfl, _⟩ := hv
    exact .failed <| .of_cause rfl fun _ => by rw [hk, hl]

theorem alike_evaluateInteger (h : form₁.Matches ρ N form₂) {next₁ next₂ : Integer → Steps}
    (hn : ∀ ρ' i, ρ.Grows ρ' → Alike N ρ' (next₁ i) (next₂ i)) :
    Alike N ρ (evaluateInteger keyword form₁ next₁) (evaluateInteger keyword form₂ next₂) := by
  refine .evaluate h fun ρ' v w hρ hv => ?_
  have hk := Value.kind_of_related hv
  have hl := Value.literal_of_alike hv
  cases v
  case integer => obtain rfl := hv; exact hn ρ' _ hρ
  all_goals
    first | obtain rfl := hv | obtain ⟨_, rfl, _⟩ := hv
    exact .failed <| .of_cause rfl fun _ => by rw [hk, hl]

theorem alike_evaluateIntegers (h : FormsMatch ρ N args₁ args₂)
    {next₁ next₂ : List Integer → Steps}
    (hn : ∀ ρ' is, ρ.Grows ρ' → Alike N ρ' (next₁ is) (next₂ is)) :
    Alike N ρ (evaluateIntegers keyword args₁ next₁) (evaluateIntegers keyword args₂ next₂) := by
  induction args₁ generalizing ρ args₂ next₁ next₂
  case nil =>
    cases h
    exact hn _ _ (.refl ρ)
  case cons hi =>
    cases h
    case cons hf h =>
    refine alike_evaluateInteger hf fun ρ₁ i hρ => hi (FormsMatch.mono h hρ) fun ρ₂ is hρ' => ?_
    exact hn ρ₂ _ (hρ.trans hρ')

theorem alike_settle (h : FormsMatch ρ N args₁ args₂) (deciding : Bool) :
    Alike N ρ (settle keyword deciding args₁) (settle keyword deciding args₂) := by
  induction args₁ generalizing ρ args₂
  case nil =>
    cases h
    exact .done <| Value.alike_boolean _
  case cons hi =>
    cases h
    case cons hf h =>
    refine alike_evaluateBoolean hf fun ρ' b hρ => ?_
    split
    case isTrue  => exact .done <| Value.alike_boolean _
    case isFalse => exact hi (FormsMatch.mono h hρ)

theorem alike_call {p q : Procedure} (hp : p.Alike ρ N q) (h : FormsMatch ρ N args₁ args₂) :
    Alike N ρ (call p args₁) (call q args₂) := by
  have ha : p.arity = q.arity := congrArg List.length hp.parameters
  unfold call
  rw [← ha, ← h.length_eq]
  split
  case isTrue  => exact alike_evaluateAll h fun ρ' vs ws hρ hvs => .apply (hp.mono hρ) hvs
  case isFalse => exact .failed (.refl ..)

variable (hr : N.Respects r₁ r₂)

include hr in
theorem alike_definition (h : FormsMatch ρ N args₁ args₂) :
    Alike N ρ (definition r₁ args₁) (definition r₂ args₂) := by
  match args₁, args₂, h with
  | _, _, .cons hn (.cons hf .nil) =>
    refine alike_check (.bindable hr hn "def") fun name _ ⟨he, hfix⟩ => he ▸ ?_
    exact .evaluate hf fun ρ' v w _ hv => .define hfix hv (.done hv)
  | _, _, h@.nil | _, _, h@(.cons _ .nil) | _, _, h@(.cons _ (.cons _ (.cons _ _))) =>
    exact .failed (FormsMatch.wrongCount h "def" 2)

include hr in
theorem alike_closure (h : FormsMatch ρ N args₁ args₂) :
    Alike N ρ (closure r₁ args₁) (closure r₂ args₂) := by
  match args₁, args₂, h with
  | _, _, .cons hp (.cons hb .nil) =>
    refine alike_check (.itemsOf hp "fn" "parameters") fun _ _ hf => ?_
    refine alike_check (.parameters hr hf (by simp)) fun ps _ ⟨he, hps⟩ => he ▸ ?_
    exact .procedure hps hb
  | _, _, h@.nil | _, _, h@(.cons _ .nil) | _, _, h@(.cons _ (.cons _ (.cons _ _))) =>
    exact .failed (FormsMatch.wrongCount h "fn" 2)

include hr in
theorem alike_bindOne (h : form₁.Matches ρ N form₂) {next₁ next₂ : Steps}
    (hn : ∀ ρ', ρ.Grows ρ' → Alike N ρ' next₁ next₂) :
    Alike N ρ (bindOne r₁ form₁ next₁) (bindOne r₂ form₂ next₂) := by
  refine alike_check (.itemsOf h "let" "binding") fun parts₁ parts₂ h => ?_
  match parts₁, parts₂, h with
  | _, _, .cons hb (.cons hf .nil) =>
    refine alike_check (.bindable hr hb "let") fun name _ ⟨he, hfix⟩ => he ▸ ?_
    exact .evaluate hf fun ρ' v w hρ hv => .define hfix hv (hn ρ' hρ)
  | _, _, h@.nil | _, _, h@(.cons _ .nil) | _, _, h@(.cons _ (.cons _ (.cons _ _))) =>
    exact .failed (FormsMatch.wrongCount h "let binding" 2)

include hr in
theorem alike_bindAll (h : FormsMatch ρ N args₁ args₂) {next₁ next₂ : Steps}
    (hn : ∀ ρ', ρ.Grows ρ' → Alike N ρ' next₁ next₂) :
    Alike N ρ (bindAll r₁ args₁ next₁) (bindAll r₂ args₂ next₂) := by
  induction args₁ generalizing ρ args₂
  case nil =>
    cases h
    exact hn ρ (.refl ρ)
  case cons hi =>
    cases h
    case cons hf h =>
    refine alike_bindOne hr hf fun ρ₁ hρ => hi (FormsMatch.mono h hρ) fun ρ₂ hρ' => ?_
    exact hn ρ₂ (hρ.trans hρ')

include hr in
theorem alike_localBindings (h : FormsMatch ρ N args₁ args₂) :
    Alike N ρ (localBindings r₁ args₁) (localBindings r₂ args₂) := by
  match args₁, args₂, h with
  | _, _, .cons hbs (.cons hb .nil) =>
    refine alike_check (.itemsOf hbs "let" "bindings") fun _ _ hf => .nest fun ρ₁ hρ => ?_
    refine alike_bindAll hr (FormsMatch.mono hf hρ) fun ρ₂ hρ' => ?_
    exact alike_evaluate_done <| Value.related_mono (hρ.trans hρ') hb
  | _, _, h@.nil | _, _, h@(.cons _ .nil) | _, _, h@(.cons _ (.cons _ (.cons _ _))) =>
    exact .failed (FormsMatch.wrongCount h "let" 2)

theorem alike_conditional (h : FormsMatch ρ N args₁ args₂) :
    Alike N ρ (conditional args₁) (conditional args₂) := by
  match args₁, args₂, h with
  | _, _, .cons hp (.cons hf .nil) =>
    refine alike_evaluateBoolean hp fun ρ' b hρ => ?_
    cases b
    case false => exact .done Value.alike_nil
    case true  => exact alike_evaluate_done <| Value.related_mono hρ hf
  | _, _, .cons hp (.cons hf (.cons hg .nil)) =>
    refine alike_evaluateBoolean hp fun ρ' b hρ => ?_
    cases b
    case false => exact alike_evaluate_done <| Value.related_mono hρ hg
    case true  => exact alike_evaluate_done <| Value.related_mono hρ hf
  | _, _, .nil | _, _, .cons _ .nil => exact .failed (.refl ..)
  | _, _, h@(.cons _ (.cons _ (.cons _ (.cons _ _)))) =>
    exact .failed <| .of_cause rfl fun _ => by rw [List.Forall₂.length_eq h]

theorem alike_negation (h : FormsMatch ρ N args₁ args₂) :
    Alike N ρ (negation args₁) (negation args₂) := by
  match args₁, args₂, h with
  | _, _, .cons hf .nil =>
    exact alike_evaluateBoolean hf fun _ _ _ => .done <| Value.alike_boolean _
  | _, _, h@.nil | _, _, h@(.cons _ (.cons _ _)) =>
    exact .failed (FormsMatch.wrongCount h "not" 1)

theorem alike_division (h : FormsMatch ρ N args₁ args₂) :
    Alike N ρ (division args₁) (division args₂) := by
  unfold division
  rw [← h.length_eq]
  split
  case isTrue  => exact .failed (.refl ..)
  case isFalse => exact alike_evaluateIntegers h fun _ _ _ => alike_computed _

theorem alike_comparison (h : FormsMatch ρ N args₁ args₂) (holds : Integer → Integer → Bool) :
    Alike N ρ (comparison keyword holds args₁) (comparison keyword holds args₂) := by
  match args₁, args₂, h with
  | _, _, .cons hf (.cons hg .nil) =>
    refine alike_evaluateInteger hf fun ρ₁ a hρ => ?_
    refine alike_evaluateInteger (Value.related_mono hρ hg) fun ρ₂ b hρ' => ?_
    exact .done <| Value.alike_boolean _
  | _, _, h@.nil | _, _, h@(.cons _ .nil) | _, _, h@(.cons _ (.cons _ (.cons _ _))) =>
    exact .failed (h.wrongCount keyword 2)

theorem alike_equality (h : FormsMatch ρ N args₁ args₂) :
    Alike N ρ (equality args₁) (equality args₂) := by
  match args₁, args₂, h with
  | _, _, .cons hf (.cons hg .nil) =>
    refine .evaluate hf fun ρ₁ v₁ v₂ hρ hv => ?_
    refine .evaluate (Value.related_mono hρ hg) fun ρ₂ w₁ w₂ hρ' hw => ?_
    rw [Value.same_of_alike (Value.related_mono hρ' hv) hw]
    exact .done <| Value.alike_boolean _
  | _, _, h@.nil | _, _, h@(.cons _ .nil) | _, _, h@(.cons _ (.cons _ (.cons _ _))) =>
    exact .failed (FormsMatch.wrongCount h "=" 2)

-- Builtins take steps which are alike.
include hr in
theorem alike_steps (h : FormsMatch ρ N args₁ args₂) (b : Builtin) :
    Alike N ρ (b.steps r₁ args₁) (b.steps r₂ args₂) := by
  cases b
  case define      => exact alike_definition hr h
  case group       => exact alike_evaluateBody h Value.alike_nil
  case procedure   => exact alike_closure hr h
  case bindLocally => exact alike_localBindings hr h
  case conditional => exact alike_conditional h
  case disjunction => exact alike_settle h true
  case conjunction => exact alike_settle h false
  case negation    => exact alike_negation h
  case print       =>
    refine alike_evaluateAll h fun ρ' vs ws hρ hvs => ?_
    rw [Keywords.line_congr hvs]
    exact .write _
  case add         =>
    exact alike_evaluateAll h fun ρ' vs ws hρ hvs =>
      alike_check (Keywords.sumOf_alike hvs) fun _ _ => .done
  case subtract    => exact alike_evaluateIntegers h fun _ _ _ => alike_computed _
  case multiply    => exact alike_evaluateIntegers h fun _ _ _ => alike_computed _
  case divide      => exact alike_division h
  case less        => exact alike_comparison h _
  case greater     => exact alike_comparison h _
  case equal       => exact alike_equality h

end Alike
end Steps

-- The spelling translates one table of builtins to the other.
structure Spelling.Translates (N : Spelling) (b₁ b₂ : String → Option Builtin) : Prop where
  builtin : ∀ {a b}, N a b → b₁ a = b₂ b
  fixes   : ∀ {a b}, N a b → b₁ a = none → a = b ∧ N.Fixes a

theorem Spelling.translates_eq (builtin? : String → Option Builtin) :
    Spelling.Translates Eq builtin? builtin? where
  builtin h := by rw [h]
  fixes h _ := ⟨h, fixes_eq _⟩

variable {b₁ b₂ : String → Option Builtin}

theorem Spelling.Translates.respects (hN : N.Translates b₁ b₂) :
    N.Respects (fun name => (b₁ name).isSome) (fun name => (b₂ name).isSome) where
  reserved h   := by rw [hN.builtin h]
  fixes h hr   := hN.fixes h (by simpa using hr)

namespace Steps

-- A name and its translation stand for the same builtin, or for what the same binding says.
theorem alike_named (hN : N.Translates b₁ b₂) {name name' : String} (hn : N name name')
    {args args' : List Form} (hargs : FormsMatch ρ N args args') :
    Alike N ρ (ofForm b₁ (.list (.symbol name :: args)))
      (ofForm b₂ (.list (.symbol name' :: args'))) := by
  simp only [ofForm]
  rw [← hN.builtin hn]
  cases hb : b₁ name
  case some b => exact alike_steps hN.respects hargs b
  case none =>
    obtain ⟨rfl, _⟩ := hN.fixes hn hb
    refine .look hn fun v? w? hv => ?_
    cases hv
    case none => exact .failed (.refl ..)
    case some v w hv =>
      cases v
      case procedure =>
        obtain ⟨q, rfl, hp⟩ := Value.related_procedure.mp hv
        exact alike_call hp hargs
      all_goals
        first | obtain rfl := hv | obtain ⟨_, rfl, _⟩ := hv
        exact .failed (.refl ..)

theorem alike_headed {items items' : List Form}
    (hl : (Value.list items).Matches ρ N (.list items')) {args args' : List Form}
    (hargs : FormsMatch ρ N args args') :
    Alike N ρ (ofForm b₁ (.list (.list items :: args)))
      (ofForm b₂ (.list (.list items' :: args'))) := by
  have hd := Value.display_of_matches hl
  refine .evaluate hl fun ρ' v w hρ hv => ?_
  cases v
  case procedure =>
    obtain ⟨q, rfl, hp⟩ := Value.related_procedure.mp hv
    exact alike_call hp (FormsMatch.mono hargs hρ)
  all_goals
    first | obtain rfl := hv | obtain ⟨_, rfl, _⟩ := hv
    exact .failed <| .of_cause rfl fun hN => hd hN ▸ rfl

theorem alike_ofForm (hN : N.Translates b₁ b₂) (h : form₁.Matches ρ N form₂) :
    Alike N ρ (ofForm b₁ form₁) (ofForm b₂ form₂) := by
  have hd := Value.display_of_matches h
  match form₁ with
  | .list (.symbol name :: args) =>
    obtain ⟨_, rfl, hs⟩ := Value.related_list.mp h
    cases hs
    case cons hn hargs =>
    obtain ⟨name', rfl, hn⟩ := hn
    exact alike_named hN hn hargs
  | .list (.list items :: args) =>
    obtain ⟨_, rfl, hs⟩ := Value.related_list.mp h
    cases hs
    case cons hhead hargs =>
    have hl := hhead
    obtain ⟨_, rfl, _⟩ := hhead
    exact alike_headed hl hargs
  | .symbol name =>
    obtain ⟨name', rfl, hn⟩ := h
    refine .look hn fun v? w? hv => ?_
    cases hv
    case none    => exact .failed <| .of_cause rfl fun hN => by rw [hN _ _ hn]
    case some hv => exact .done hv
  | .list [] =>
    obtain ⟨_, rfl, hs⟩ := Value.related_list.mp h
    cases hs
    exact .failed (.refl ..)
  | .list (.nil :: _) | .list (.integer _ :: _) | .list (.text _ :: _) | .list (.boolean _ :: _) =>
    obtain ⟨_, rfl, hs⟩ := Value.related_list.mp h
    cases hs
    case cons hhead _ =>
    obtain rfl := hhead
    exact .failed <| .of_cause rfl fun hN => by rw [hd hN]
  | .list (.procedure _ :: _) =>
    obtain ⟨_, rfl, hs⟩ := Value.related_list.mp h
    cases hs
    case cons hhead _ =>
    obtain ⟨_, rfl, _⟩ := hhead
    exact .failed <| .of_cause rfl fun hN => by rw [hd hN]
  | .nil | .integer _ | .text _ | .boolean _ =>
    obtain rfl := h
    exact .done rfl
  | .procedure p =>
    obtain ⟨q, rfl, hp⟩ := Value.related_procedure.mp h
    exact .done <| Value.related_procedure.mpr ⟨q, rfl, hp⟩

end Steps

namespace Evaluator

variable {grouping₁ grouping₂ : String} {entries₁ entries₂ : List (String × Builtin)}

-- Forms that match are evaluated alike in scopes that correspond to each other.
theorem evaluate_alike
    (hN : N.Translates (Builtin.find? entries₁) (Builtin.find? entries₂)) (sink : Sink)
    (retention : Retention) (depth : Nat) {s t : Scope} {m₁ m₂ : Machine} (hs : s.Alike ρ t)
    (hf : form₁.Matches ρ N form₂) (hm : m₁.Alike ρ N m₂) :
    RunsAlike ρ N m₁.store.frames.size
      (((ofBuiltins grouping₁ entries₁ sink retention).evaluate depth s form₁).run m₁)
      (((ofBuiltins grouping₂ entries₂ sink retention).evaluate depth t form₂).run m₂) := by
  induction depth generalizing ρ s t form₁ form₂ m₁ m₂
  case zero => exact ⟨Nat.le_refl _, ρ, .refl .., .error .tooDeep, hm⟩
  case succ depth hi =>
    rw [evaluate_succ_eq_run, evaluate_succ_eq_run]
    have hc : Context.Alike N ((ofBuiltins grouping₁ entries₁ sink retention).context depth)
        ((ofBuiltins grouping₂ entries₂ sink retention).context depth) :=
      { evaluate := hi, sink := rfl, retention := rfl }
    exact (Steps.alike_ofForm hN hf).run hc hs hm

end Evaluator
end ScopedLisp
