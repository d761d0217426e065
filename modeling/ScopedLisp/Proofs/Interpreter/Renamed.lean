import ScopedLisp.Proofs.Evaluation.Renamed
import ScopedLisp.Proofs.Interpreter.FirstOrder
import ScopedLisp.Proofs.Interpreter.Isolation

-- Interpreters for the same language with other words. Programs are given as forms here, because
-- the new names need not be such that a text can spell them. If all programs are renamed, one finds
-- the same as before: values, kinds of failures, printed text, and the names that are bound.
-- Main statement: `Interpreter.findings_renamed`.

namespace ScopedLisp

open Evaluation

-- What can be asked of an interpreter in forms. Without a session, a form is evaluated in the root.
inductive Inquiry
  | session
  | evaluate (session? : Option Nat) (form : Form)

-- What one finds out by an inquiry: how the evaluation ends, if there is one, what it prints, and
-- the names that the root and each session bind afterwards.
structure Finding where
  outcome? : Option (Except Stop Value)
  printed  : String
  names    : List (List String)

namespace Interpreter

-- An interpreter with a library that is given as a form.
def buildOf (e : Evaluator) (depth : Nat) (library : Form) : Evaluation Interpreter :=
  buildWith e fun root => e.evaluate depth root library

theorem build_eq_buildOf {e : Evaluator} {source : String} {library : Form}
    (h : e.read source = .ok library) (depth : Nat) :
    build e depth source = buildOf e depth library := by
  have hr : e.run depth source = fun root => e.evaluate depth root library := by
    unfold Evaluator.run
    rw [h]
    rfl
  exact congrArg (buildWith e) hr

variable (i : Interpreter) (depth : Nat)

-- The names that are bound in the root, and in each session.
def boundNames (v : Service) : List (List String) :=
  (i.root :: v.sessions.map (·.scope)).map fun s => (v.machine.store.locals s).names

-- What is found by the inquiry, and what it leads to.
def reply (v : Service) : Inquiry → Finding × Service
  | .session =>
    let v := (i.answer depth v .session).2
    (⟨none, "", i.boundNames v⟩, v)
  | .evaluate session? form =>
    match i.scope? v session? with
    | some s =>
      let (outcome, m) := (i.evaluate depth form s).run { v.machine with printed := "" }
      let v := { v with machine := m }
      (⟨some outcome, m.printed, i.boundNames v⟩, v)
    | none => (⟨none, "", i.boundNames v⟩, v)

theorem reply_evaluate {v : Service} {session? : Option Nat} {s : Scope} (form : Form)
    (h : i.scope? v session? = some s) :
    i.reply depth v (.evaluate session? form) =
      let (outcome, m) := (i.evaluate depth form s).run { v.machine with printed := "" }
      let v := { v with machine := m }
      (⟨some outcome, m.printed, i.boundNames v⟩, v) := by
  simp [reply, h]

theorem reply_evaluate_of_none {v : Service} {session? : Option Nat} (form : Form)
    (h : i.scope? v session? = none) :
    i.reply depth v (.evaluate session? form) = (⟨none, "", i.boundNames v⟩, v) := by
  simp [reply, h]

-- What is found by the inquiries, one after another.
def findings (v : Service) : List Inquiry → List Finding
  | [] => []
  | inquiry :: inquiries =>
    let (finding, v) := i.reply depth v inquiry
    finding :: findings v inquiries

end Interpreter

namespace Inquiry

def form? : Inquiry → Option Form
  | session => none
  | evaluate _ form => some form

def renamed (f : String → String) : Inquiry → Inquiry
  | session => session
  | evaluate session? form => evaluate session? (form.renamed f)

end Inquiry

-- The same inquiry, in forms that match.
inductive Inquiry.Matches (N : Spelling) : Inquiry → Inquiry → Prop
  | session : Matches N session session
  | evaluate (session? : Option Nat) {form₁ form₂ : Form} (h : ∀ ρ, form₁.Matches ρ N form₂) :
    Matches N (evaluate session? form₁) (evaluate session? form₂)

-- The same is found, up to where procedures live and how names are spelled in them.
structure Finding.Alike (ρ : Pairing) (N : Spelling) (f g : Finding) : Prop where
  outcome : Option.Rel (OutcomesAlike ρ N) f.outcome? g.outcome?
  printed : f.printed = g.printed
  names   : f.names = g.names

variable {ρ ρ' : Pairing} {N : Spelling}

theorem OutcomesAlike.mono {o₁ o₂ : Except Stop Value} (h : OutcomesAlike ρ N o₁ o₂)
    (hρ : ρ.Grows ρ') : OutcomesAlike ρ' N o₁ o₂ := by
  cases h
  case ok h    => exact .ok <| Value.related_mono hρ h
  case error h => exact .error h

theorem Finding.Alike.mono {f g : Finding} (h : f.Alike ρ N g) (hρ : ρ.Grows ρ') :
    f.Alike ρ' N g where
  outcome := by
    have ho := h.outcome
    generalize f.outcome? = o₁, g.outcome? = o₂ at ho
    cases ho
    case none    => exact .none
    case some ho => exact .some <| ho.mono hρ
  printed := h.printed
  names   := h.names

theorem NameMap.Alike.names_eq {m₁ m₂ : NameMap Value} (h : m₁.Alike ρ N m₂) :
    m₁.names = m₂.names := by
  suffices m₁.entries.map Prod.fst = m₂.entries.map Prod.fst by rw [names, names, this]
  unfold Alike at h
  generalize m₁.entries = es₁, m₂.entries = es₂ at h
  induction h
  case nil => rfl
  case cons he _ hi => rw [List.map_cons, List.map_cons, he.left, hi]

namespace Interpreter

-- Two interpreters that have been asked the same, in the spelling of each.
structure Twins (i j : Interpreter) (ρ : Pairing) (N : Spelling) (v w : Service) : Prop where
  store    : v.machine.store.Alike ρ N w.machine.store
  root     : i.root.Alike ρ j.root
  sessions : List.Forall₂ (fun a b => a.scope.Alike ρ b.scope) v.sessions w.sessions

namespace Twins

variable {i j : Interpreter} {v w : Service}

-- Scopes that are there on one side are there on the other.
theorem scope?_cases (h : Twins i j ρ N v w) (session? : Option Nat) :
    (i.scope? v session? = none ∧ j.scope? w session? = none) ∨
      ∃ s t, i.scope? v session? = some s ∧ j.scope? w session? = some t ∧ s.Alike ρ t := by
  cases session?
  case none => exact .inr ⟨_, _, rfl, rfl, h.root⟩
  case some k =>
    unfold Interpreter.scope?
    have hs := h.sessions
    generalize v.sessions = vs, w.sessions = ws at hs
    induction hs generalizing k
    case nil => exact .inl ⟨rfl, rfl⟩
    case cons hs _ hi =>
      cases k
      case zero   => exact .inr ⟨_, _, rfl, rfl, hs⟩
      case succ k => exact hi k

theorem after (h : Twins i j ρ N v w) (hρ : ρ.Grows ρ') {m₁ m₂ : Machine}
    (hσ : m₁.store.Alike ρ' N m₂.store) :
    Twins i j ρ' N { v with machine := m₁ } { w with machine := m₂ } where
  store    := hσ
  root     := h.root.mono hρ
  sessions := h.sessions.imp fun _ _ hs => hs.mono hρ

theorem boundNames_eq (h : Twins i j ρ N v w) : i.boundNames v = j.boundNames w := by
  have hs : List.Forall₂ (Scope.Alike ρ) (i.root :: v.sessions.map (·.scope))
      (j.root :: w.sessions.map (·.scope)) :=
    .cons h.root <| List.forall₂_map_left_iff.mpr <| List.forall₂_map_right_iff.mpr h.sessions
  unfold boundNames
  generalize i.root :: v.sessions.map (·.scope) = ss, j.root :: w.sessions.map (·.scope) = ts at hs
  induction hs
  case nil => rfl
  case cons hst _ hi =>
    have hb := (h.store.frames _ _ hst.frame).bindings.names_eq
    rw [List.map_cons, List.map_cons, hi]
    exact congrArg (· :: _) hb

section

variable {grouping₁ grouping₂ : String} {entries₁ entries₂ : List (String × Builtin)} {sink : Sink}
  {retention : Retention} (depth : Nat)
  (hi : i.evaluator = .ofBuiltins grouping₁ entries₁ sink retention)
  (hj : j.evaluator = .ofBuiltins grouping₂ entries₂ sink retention)
  (hN : N.Translates (Builtin.find? entries₁) (Builtin.find? entries₂))

include hi hj hN

-- An inquiry that is made of both is answered alike, and they stay twins.
theorem reply (h : Twins i j ρ N v w) {inquiry₁ inquiry₂ : Inquiry}
    (hm : inquiry₁.Matches N inquiry₂) :
    let r₁ := i.reply depth v inquiry₁
    let r₂ := j.reply depth w inquiry₂
    ∃ ρ', ρ.Grows ρ' ∧ r₁.1.Alike ρ' N r₂.1 ∧ Twins i j ρ' N r₁.2 r₂.2 := by
  cases hm
  case session =>
    have ⟨ρ', hρ, hs, hσ⟩ := h.store.child h.root (.empty ρ N)
    have ht : Twins i j ρ' N (i.answer depth v .session).2 (j.answer depth w .session).2 := {
      store    := hσ
      root     := h.root.mono hρ.toGrows
      sessions := List.rel_append (h.sessions.imp fun _ _ hs => hs.mono hρ.toGrows) (.cons hs .nil)
    }
    exact ⟨ρ', hρ.toGrows, ⟨.none, rfl, ht.boundNames_eq⟩, ht⟩
  case evaluate session? form₁ form₂ hf =>
    rcases h.scope?_cases session? with ⟨hs, ht⟩ | ⟨s, t, hs, ht, hst⟩
    case inl =>
      rw [reply_evaluate_of_none _ _ _ hs, reply_evaluate_of_none _ _ _ ht]
      exact ⟨ρ, .refl ρ, ⟨.none, rfl, h.boundNames_eq⟩, h⟩
    case inr =>
      rw [reply_evaluate _ _ _ hs, reply_evaluate _ _ _ ht]
      have hm : Machine.Alike ρ N { v.machine with printed := "" }
        { w.machine with printed := "" } := ⟨h.store, rfl⟩
      have hr : RunsAlike ρ N v.machine.store.frames.size
          ((i.evaluate depth form₁ s).run { v.machine with printed := "" })
          ((j.evaluate depth form₂ t).run { w.machine with printed := "" }) := by
        unfold Interpreter.evaluate
        rw [hi, hj]
        exact Evaluator.evaluate_alike hN sink retention depth hst (hf ρ) hm
      have ⟨_, ρ', hρ, ho, hm'⟩ := hr
      have ht := h.after hρ.toGrows hm'.store
      exact ⟨ρ', hρ.toGrows, ⟨.some ho, hm'.printed, ht.boundNames_eq⟩, ht⟩

theorem findings (h : Twins i j ρ N v w) {inquiries₁ inquiries₂ : List Inquiry}
    (hm : List.Forall₂ (Inquiry.Matches N) inquiries₁ inquiries₂) :
    ∃ ρ', ρ.Grows ρ' ∧ List.Forall₂ (Finding.Alike ρ' N) (i.findings depth v inquiries₁)
      (j.findings depth w inquiries₂) := by
  induction hm generalizing ρ v w
  case nil => exact ⟨ρ, .refl ρ, .nil⟩
  case cons hm _ hind =>
    have ⟨ρ', hρ, hf, ht⟩ := h.reply depth hi hj hN hm
    have ⟨ρ'', hρ', hfs⟩ := hind ht
    exact ⟨ρ'', hρ.trans hρ', .cons (hf.mono hρ') hfs⟩

end

end Twins

section

variable (grouping₁ grouping₂ : String) {entries₁ entries₂ : List (String × Builtin)}
  (hN : N.Translates (Builtin.find? entries₁) (Builtin.find? entries₂)) (sink : Sink)
  (retention : Retention) (depth : Nat)

-- Libraries that match fail alike, or they lead to twins.
include hN in
theorem buildOf_alike {library₁ library₂ : Form} (hl : ∀ ρ, library₁.Matches ρ N library₂)
    (σ₁ σ₂ : Store) :
    let e₁ := Evaluator.ofBuiltins grouping₁ entries₁ sink retention
    let e₂ := Evaluator.ofBuiltins grouping₂ entries₂ sink retention
    let built₁ := (buildOf e₁ depth library₁).run { store := σ₁ }
    let built₂ := (buildOf e₂ depth library₂).run { store := σ₂ }
    built₁.2.printed = built₂.2.printed ∧
    ((∃ s t, built₁.1 = .error s ∧ built₂.1 = .error t ∧ s.Alike N t) ∨
      ∃ i j ρ, built₁.1 = .ok i ∧ built₂.1 = .ok j ∧ i.evaluator = e₁ ∧ j.evaluator = e₂ ∧
        Twins i j ρ N { machine := built₁.2 } { machine := built₂.2 }) := by
  intro e₁ e₂ built₁ built₂
  have ⟨hp, hb⟩ := buildWith_alike e₁ e₂ (e₁.evaluate depth · library₁)
    (e₂.evaluate depth · library₂) σ₁ σ₂ fun {ρ} _ _ _ _ hs hm =>
      Evaluator.evaluate_alike hN sink retention depth hs (hl ρ) hm
  refine ⟨hp, hb.imp id fun ⟨i, j, ρ, hi, hj, hei, hej, hroot, hσ⟩ => ?_⟩
  exact ⟨i, j, ρ, hi, hj, hei, hej, hσ, hroot, .nil⟩

end

theorem matches_renamed {r : Renaming} {inquiries : List Inquiry}
    (h : ∀ inquiry ∈ inquiries, ∀ form ∈ inquiry.form?, r.Admits form) :
    List.Forall₂ (Inquiry.Matches r.Spells) inquiries (inquiries.map (·.renamed r.apply)) := by
  rw [List.forall₂_map_right_iff, List.forall₂_same]
  intro inquiry hm
  cases inquiry
  case session  => exact .session
  case evaluate => exact .evaluate _ (h _ hm _ rfl).matches_renamed

-- The keywords may have any other names, as long as these are different, and are not in use for
-- something else in the library and the programs: one finds the same. That holds of libraries in
-- texts, too, if there are texts that spell both forms of it.
theorem findings_renamed (r : Renaming) (sink : Sink) (retention : Retention) (depth : Nat)
    {library : Form} (hl : r.Admits library) (σ₁ σ₂ : Store) :
    let e : Evaluator := { keywords := .standard, sink, retention }
    let e' : Evaluator := { keywords := r.keywords, sink, retention }
    let library' := library.renamed r.apply
    let built := (buildOf e depth library).run { store := σ₁ }
    let built' := (buildOf e' depth library').run { store := σ₂ }
    (∀ source, e.read source = .ok library → build e depth source = buildOf e depth library) ∧
    (∀ source, e'.read source = .ok library' → build e' depth source = buildOf e' depth library') ∧
    built.2.printed = built'.2.printed ∧
    ((∃ s t, built.1 = .error s ∧ built'.1 = .error t ∧ s.Alike r.Spells t) ∨
      ∃ i j, built.1 = .ok i ∧ built'.1 = .ok j ∧
        ∀ depth inquiries, (∀ inquiry ∈ inquiries, ∀ form ∈ inquiry.form?, r.Admits form) →
          ∃ ρ, List.Forall₂ (Finding.Alike ρ r.Spells)
            (i.findings depth { machine := built.2 } inquiries)
            (j.findings depth { machine := built'.2 } (inquiries.map (·.renamed r.apply)))) := by
  intro e e' library' built built'
  have ⟨hp, hb⟩ := buildOf_alike "do" (r.name .group) r.translates sink retention depth
    hl.matches_renamed σ₁ σ₂
  refine ⟨fun _ h => build_eq_buildOf h depth, fun _ h => build_eq_buildOf h depth, hp, ?_⟩
  refine hb.imp id fun ⟨i, j, ρ, hbi, hbj, hi, hj, ht⟩ => ⟨i, j, hbi, hbj, fun depth _ hm => ?_⟩
  have ⟨ρ', _, hf⟩ := ht.findings depth hi hj r.translates (matches_renamed hm)
  exact ⟨ρ', hf⟩

end Interpreter

-- Plus and minus, the other way around.
def Builtin.opposite : Builtin → Builtin
  | add      => subtract
  | subtract => add
  | b        => b

theorem Builtin.opposite_opposite (b : Builtin) : b.opposite.opposite = b := by
  cases b <;> rfl

def Renaming.opposite : Renaming where
  name b    := b.opposite.keyword
  injective := Function.Injective.comp (fun _ _ => Builtin.keyword_injective)
    (Function.Involutive.injective Builtin.opposite_opposite)

-- The new names are those of keywords, so that no other name is taken.
theorem Renaming.admits_opposite {form : Form} (h : form.IsCode) : opposite.Admits form where
  code   := h
  avoids := fun _ _ ⟨hk, b, hb⟩ => hk b.opposite hb

namespace Interpreter

-- A library with a procedure that adds, and a session in which it is called and shown.
theorem findings_renamed_opposite :
    let r := Renaming.opposite
    let e : Evaluator := {}
    let e' : Evaluator := { keywords := r.keywords }
    let library : Form := .list [.symbol "do", .list [.symbol "def", .symbol "inc",
      .list [.symbol "fn", .list [.symbol "n"], .list [.symbol "+", .symbol "n", .integer 1]]]]
    let inquiries := [.session, .evaluate (some 0) (.list [.symbol "inc", .integer 1]),
      .evaluate (some 0) (.symbol "inc")]
    let built := (build e 9 "(def inc (fn (n) (+ n 1)))").run {}
    let built' := (build e' 9 "(def inc (fn (n) (- n 1)))").run {}
    r.Admits library ∧ (∀ inquiry ∈ inquiries, ∀ form ∈ inquiry.form?, r.Admits form) ∧
      e.read "(def inc (fn (n) (+ n 1)))" = .ok library ∧
      e'.read "(def inc (fn (n) (- n 1)))" = .ok (library.renamed r.apply) ∧
      ∃ i j ρ, built.1 = .ok i ∧ built'.1 = .ok j ∧
        List.Forall₂ (Finding.Alike ρ r.Spells) (i.findings 9 { machine := built.2 } inquiries)
          (j.findings 9 { machine := built'.2 } (inquiries.map (·.renamed r.apply))) := by
  intro r e e' library inquiries built built'
  have hread : e.read "(def inc (fn (n) (+ n 1)))" = .ok library := by
    unfold e library
    rfl
  have hread' : e'.read "(def inc (fn (n) (- n 1)))" = .ok (library.renamed r.apply) := by
    unfold e' library r
    rfl
  have hl : r.Admits library := Renaming.admits_opposite <| Value.isCode_of_read hread
  have hc : r.Admits (.list [.symbol "inc", .integer 1]) := Renaming.admits_opposite <| .list <|
    List.forall_mem_cons.mpr ⟨.symbol _, List.forall_mem_singleton.mpr <| .integer _⟩
  have hi : r.Admits (.symbol "inc") := Renaming.admits_opposite <| .symbol _
  have hinquiries : ∀ inquiry ∈ inquiries, ∀ form ∈ inquiry.form?, r.Admits form := by
    simp [inquiries, Inquiry.form?, hc, hi]
  have ⟨hb, hb', _, h⟩ := findings_renamed r {} .whenCaptured 9 hl {} {}
  simp only [← hb _ hread, ← hb' _ hread'] at h
  have hn : built.1.toOption.isSome := by decide +kernel
  rcases h with ⟨_, _, hs, _⟩ | ⟨i, j, hi, hj, hf⟩
  case inl =>
    have hs : built.1 = _ := hs
    rw [hs] at hn
    cases hn
  case inr =>
    have ⟨ρ, hf⟩ := hf 9 inquiries hinquiries
    exact ⟨hl, hinquiries, hread, hread', i, j, ρ, hi, hj, hf⟩

end Interpreter
end ScopedLisp
