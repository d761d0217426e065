import ScopedLisp.Proofs.Evaluation.FirstOrder
import ScopedLisp.Proofs.Interpreter.Retention

-- Programs that give no procedures to calls. They do not notice that finished scopes give up their
-- bindings.
-- Main statement: `Evaluator.observations_eq_of_firstOrder`.

namespace ScopedLisp

open Evaluation Store

-- Forms that have been read hold no procedures.
theorem Value.isCode_of_read {grouping source : String} {reserved : String → Bool} {form : Form}
    (h : Program.read grouping reserved source = .ok form) : form.IsCode := by
  have ha {token : String} {form : Form} (h : Atom.read reserved token = .ok form) :
      form.IsCode := by
    rcases Atom.read_eq_ok h with ⟨i, rfl⟩ | ⟨s, rfl⟩ | ⟨b, rfl⟩ | rfl
    case inl         => exact .integer i
    case inr.inl     => exact .text s
    case inr.inr.inl => exact .boolean b
    case inr.inr.inr => exact .symbol token
  exact Program.forall_read (fun _ => ha) (fun _ _ _ => ha) (fun _ => .list) h

section

variable (grouping : String) (entries : List (String × Builtin)) (sink : Sink) (depth : Nat)

theorem Evaluator.orderly_run (source : String) {L : Layout} {past : History} {s : Scope}
    {m : Machine} (hd : L.Describes past m.store) (hs : s.InOrder L past) :
    let e := ofBuiltins grouping entries sink .whenCaptured
    (e.programMoments entries depth source s m).FirstOrder →
      ∃ L', Orderly L L' past s ((e.run depth source s).run m)
        (e.programMoments entries depth source s m) := by
  intro e hf
  unfold programMoments at hf ⊢
  rw [run_run]
  cases hr : e.read source
  case error => exact ⟨L, .of_describes hd nofun⟩
  case ok form =>
    rw [hr] at hf
    exact orderly_evaluate grouping entries sink depth hd hs (Value.isCode_of_read hr) hf

-- The machine is laid out, and so are the scopes in which programs are run.
structure Service.InOrder (v : Service) (i : Interpreter) (L : Layout) (past : History) :
    Prop where
  describes : L.Describes past v.machine.store
  root      : i.root.InOrder L past
  sessions  : ∀ session ∈ v.sessions, session.scope.InOrder L past

namespace Service.InOrder

variable {i : Interpreter} {v : Service} {L : Layout} {past : History}

theorem scope (hv : v.InOrder i L past) {session? : Option Nat} {s : Scope}
    (h : i.scope? v session? = some s) : s.InOrder L past := by
  cases session?
  case none => exact Option.some.inj h ▸ hv.root
  case some k =>
    obtain ⟨session, hk, rfl⟩ := Option.map_eq_some_iff.mp h
    exact hv.sessions session (List.mem_of_getElem? hk)

theorem answer_session (hv : v.InOrder i L past) :
    ∃ L', (i.answer depth v .session).2.InOrder i L' past := by
  let frame := v.machine.store.frames.size
  let place : Place := ⟨i.root.chain, true⟩
  have hL := Layout.extends_update hv.describes.eq_none place
  have hs {s : Scope} (h : s.InOrder L past) :
      s.InOrder (Function.update L frame (some place)) past := ⟨h.fits.mono hL, h.kept⟩
  have hr := hs hv.root
  have hd : Layout.Describes _ past (v.machine.store.child i.root {}).2 :=
    hv.describes.child i.root place nofun
  refine ⟨_, hd, hr, ?_⟩
  rw [Interpreter.answer_session]
  refine List.forall_mem_append.mpr ⟨fun session h => hs (hv.sessions session h), ?_⟩
  refine List.forall_mem_singleton.mpr ⟨.cons (Function.update_self ..) hr.fits, ?_⟩
  exact List.forall_mem_cons.mpr ⟨hv.describes.fresh _ (Nat.le_refl _), hv.root.kept⟩

variable (he : i.evaluator = .ofBuiltins grouping entries sink .whenCaptured)

include he in
theorem answer (hv : v.InOrder i L past) (request : Request)
    (hf : (i.answerMoments entries depth v request).FirstOrder) :
    let h := i.answerMoments entries depth v request
    ¬past.AnyMissed h ∧ ∃ L', (i.answer depth v request).2.InOrder i L' (past ++ h) := by
  intro h
  cases request
  case session =>
    refine ⟨id, ?_⟩
    rw [show h = [] from rfl, List.append_nil]
    exact answer_session depth hv
  case run session? source =>
    cases hs : i.scope? v session?
    case none =>
      have hh : h = [] := i.answerMoments_run_of_none entries depth source hs
      rw [hh, Interpreter.answer_run_of_none _ _ _ hs, List.append_nil]
      exact ⟨id, L, hv⟩
    case some s =>
      have hh : h = _ := i.answerMoments_run entries depth source hs
      have ho := Evaluator.orderly_run grouping entries sink depth source
        (m := { v.machine with printed := "" }) hv.describes (hv.scope hs)
      rw [← he] at ho
      obtain ⟨L', ho⟩ := ho (hh ▸ hf)
      rw [hh, Interpreter.answer_run _ _ _ hs]
      refine ⟨ho.found, L', ho.describes, hv.root.after ho.grows ho.known, fun session hm => ?_⟩
      exact (hv.sessions session hm).after ho.grows ho.known

include he in
theorem not_anyMissed (hv : v.InOrder i L past) (requests : List Request)
    (hf : (i.history entries depth v requests).FirstOrder) :
    ¬past.AnyMissed (i.history entries depth v requests) := by
  induction requests generalizing L past v
  case nil => exact id
  case cons request requests hi =>
    have hf := History.firstOrder_append.mp hf
    have ⟨hm, L', hv'⟩ := hv.answer grouping entries sink depth he request hf.left
    exact fun ha => (History.anyMissed_append.mp ha).elim hm (hi hv' hf.right)

end Service.InOrder

-- At the beginning, nothing is known but the new root.
theorem Layout.exists_describes_root (σ : Store) :
    ∃ L : Layout, L.Describes [] σ.root.2 ∧ σ.root.1.InOrder L [] := by
  let place : Place := ⟨[], true⟩
  have hn : Layout.Describes (fun _ => none) [] σ := ⟨nofun, fun _ _ => rfl, nofun, nofun⟩
  have hd : Layout.Describes _ [] σ.root.2 := hn.child σ.root.1 place nofun
  have hp : Function.update (fun _ => none) σ.frames.size (some place) σ.frames.size = some place :=
    Function.update_self ..
  exact ⟨_, hd, .cons hp .nil, fun _ _ => rfl⟩

theorem Evaluator.not_anyMissed_life (library : String) (requests : List Request) (m : Machine) :
    let life := (ofBuiltins grouping entries sink .whenCaptured).life entries depth library
      requests m
    life.history.FirstOrder → ¬History.AnyMissed [] life.history := by
  intro life hf
  let e := ofBuiltins grouping entries sink .whenCaptured
  let root := m.store.root.1
  let opened : Machine := { m with store := m.store.root.2 }
  let building := e.programMoments entries depth library root opened
  obtain ⟨L, hd, hs⟩ := Layout.exists_describes_root m.store
  obtain ⟨rest, hl⟩ : ∃ rest, life.history = _ := exists_history_life e entries requests
  have hb := (History.firstOrder_append.mp (hl ▸ hf)).left
  obtain ⟨L', ho⟩ := orderly_run grouping entries sink depth library (m := opened) hd hs hb
  rcases hr : (e.run depth library root).run opened with ⟨stop | v, after⟩
  case error =>
    have hl : life = _ := life_of_error e entries requests hr
    rw [hl]
    exact ho.found
  case ok =>
    have hl : life = _ := life_of_ok e entries requests hr
    rw [hl] at hf ⊢
    let i : Interpreter := ⟨e, root⟩
    let start : Service := { machine := { after with store := after.store.freeze root } }
    have ha : after = _ := (congrArg Prod.snd hr).symm
    have hd' : L'.Describes ([] ++ building) after.store := ha ▸ ho.describes
    have hv : start.InOrder i L' ([] ++ building) := by
      refine ⟨hd'.of_bindings_eq (size_modify ..) fun id => ?_, hs.after ho.grows ho.known, nofun⟩
      change ((after.store.modify root _).frame id).bindings = _
      rw [frame_modify]
      split <;> rfl
    have hm := hv.not_anyMissed grouping entries sink depth rfl requests
      (History.firstOrder_append.mp hf).right
    exact fun h => (History.anyMissed_append.mp h).elim ho.found hm

-- So the evaluator that keeps the bindings of all scopes does the same.
theorem Evaluator.observations_life_of_firstOrder (library : String) (requests : List Request)
    (m : Machine) :
    let life := (ofBuiltins grouping entries sink .whenCaptured).life entries depth library
      requests m
    let life' := (ofBuiltins grouping entries sink .always).life entries depth library requests m
    life.history.FirstOrder → life.observations = life'.observations := by
  intro life life' hf
  rcases together_life grouping entries sink depth library requests m with ⟨_, ho⟩ | hp
  case inl => exact ho
  case inr =>
    exact absurd hp.missed (not_anyMissed_life grouping entries sink depth library requests m hf)

end

section Library

namespace Steps

variable {c : Context} {moments : Scope → Form → Machine → History} {s : Scope} {m : Machine}

theorem firstOrder_check {α : Type} {x : Except Failure α} {next : α → Steps}
    (h : ∀ a, History.FirstOrder ((next a).moments c moments s m)) :
    History.FirstOrder ((check x next).moments c moments s m) := by
  cases x
  case error => exact History.firstOrder_nil
  case ok a  => exact h a

theorem firstOrder_evaluate {form : Form} {next : Value → Steps}
    (h : (moments s form m).FirstOrder)
    (hn : ∀ v m, History.FirstOrder ((next v).moments c moments s m)) :
    History.FirstOrder ((evaluate form next).moments c moments s m) := by
  rw [Steps.moments]
  refine History.firstOrder_append.mpr ⟨h, ?_⟩
  rcases (c.evaluate s form).run m with ⟨_ | v, m'⟩
  case error => exact History.firstOrder_nil
  case ok    => exact hn v m'

theorem firstOrder_closure {reserved : String → Bool} {args : List Form} :
    History.FirstOrder ((closure reserved args).moments c moments s m) := by
  unfold closure
  split
  case h_1 =>
    exact firstOrder_check fun _ => firstOrder_check fun _ => History.firstOrder_nil
  case h_2 => exact History.firstOrder_nil

theorem firstOrder_definition {reserved : String → Bool} {name expr : Form}
    (h : (moments s expr m).FirstOrder) :
    History.FirstOrder ((definition reserved [name, expr]).moments c moments s m) := by
  refine firstOrder_check fun name => firstOrder_evaluate h fun v m => ?_
  rw [Steps.moments]
  refine History.firstOrder_cons.mpr ⟨Bool.false_ne_true, ?_⟩
  cases m.store.define s name v
  all_goals exact History.firstOrder_nil

theorem firstOrder_evaluateBody {forms : List Form}
    (h : ∀ form ∈ forms, ∀ m, (moments s form m).FirstOrder) (last : Value) :
    History.FirstOrder ((evaluateBody last forms).moments c moments s m) := by
  induction forms generalizing last m
  case nil => exact History.firstOrder_nil
  case cons form forms hi =>
    have ⟨hform, hforms⟩ := List.forall_mem_cons.mp h
    exact firstOrder_evaluate (hform m) fun v m => hi hforms v

end Steps

variable (e : Evaluator) (entries : List (String × Builtin)) (depth : Nat)

namespace Value

-- The form makes a procedure.
def isClosure : Form → Bool
  | list (symbol name :: _) => Builtin.find? entries name = some .procedure
  | _ => false

-- The form binds a name to a procedure that it makes.
def isDefinition : Form → Bool
  | list [symbol name, _, expr] =>
    Builtin.find? entries name = some .define && expr.isClosure entries
  | _ => false

-- A program of such definitions.
def isLibrary : Form → Bool
  | list (symbol name :: forms) =>
    Builtin.find? entries name = some .group && forms.all (isDefinition entries)
  | _ => false

end Value

namespace Evaluator

variable {entries} {form : Form} {s : Scope} {m : Machine}

theorem firstOrder_of_isClosure (h : form.isClosure entries) :
    History.FirstOrder (e.moments entries depth s form m) := by
  unfold Value.isClosure at h
  split at h
  case h_2 => cases h
  case h_1 =>
    cases depth
    case zero => exact History.firstOrder_nil
    case succ =>
      simp only [moments, Steps.ofForm, of_decide_eq_true h, Builtin.steps]
      exact Steps.firstOrder_closure

theorem firstOrder_of_isDefinition (h : form.isDefinition entries) :
    History.FirstOrder (e.moments entries depth s form m) := by
  unfold Value.isDefinition at h
  split at h
  case h_2 => cases h
  case h_1 =>
    have ⟨hd, hc⟩ := Bool.and_eq_true_iff.mp h
    cases depth
    case zero => exact History.firstOrder_nil
    case succ depth =>
      simp only [moments, Steps.ofForm, of_decide_eq_true hd, Builtin.steps]
      exact Steps.firstOrder_definition (firstOrder_of_isClosure e depth hc)

-- No call is made while such a program runs.
theorem firstOrder_of_isLibrary (h : form.isLibrary entries) :
    History.FirstOrder (e.moments entries depth s form m) := by
  unfold Value.isLibrary at h
  split at h
  case h_2 => cases h
  case h_1 =>
    have ⟨hg, hd⟩ := Bool.and_eq_true_iff.mp h
    cases depth
    case zero => exact History.firstOrder_nil
    case succ depth =>
      simp only [moments, Steps.ofForm, of_decide_eq_true hg, Builtin.steps]
      exact Steps.firstOrder_evaluateBody (fun form hf _ =>
        firstOrder_of_isDefinition e depth (List.all_eq_true.mp hd form hf)) _

-- This is said of any text, so that the text of a library need not be decoded to see it.
theorem firstOrder_programMoments {source : String}
    (h : ∀ form, e.read source = .ok form → form.isLibrary entries) (s : Scope) (m : Machine) :
    (e.programMoments entries depth source s m).FirstOrder := by
  unfold programMoments
  cases hr : e.read source
  case ok form => exact firstOrder_of_isLibrary e depth (h form hr)
  case error   => exact History.firstOrder_nil

end Evaluator

end Library

-- What happens while an interpreter answers requests, without what its library has done before.
def Evaluator.uses (e : Evaluator) (entries : List (String × Builtin)) (depth : Nat)
    (library : String) (requests : List Request) (m : Machine) : History :=
  match (Interpreter.build e depth library).run m with
  | (.ok i, m') => i.history entries depth { machine := m' } requests
  | (.error _, _) => []

theorem Evaluator.history_life (e : Evaluator) (entries : List (String × Builtin)) (depth : Nat)
    (library : String) (requests : List Request) (m : Machine) :
    (e.life entries depth library requests m).history =
      e.programMoments entries depth library m.store.root.1 { m with store := m.store.root.2 } ++
        e.uses entries depth library requests m := by
  unfold life uses
  rcases (Interpreter.build e depth library).run m with ⟨_ | i, m'⟩
  case error => exact (List.append_nil _).symm
  case ok    => rfl

-- The table of the language.
def Builtin.entries : List (String × Builtin) :=
  all.map fun b => (b.keyword, b)

set_option maxRecDepth 20000 in
theorem Program.isLibrary_of_read_standard {form : Form}
    (h : read Keywords.standard.grouping Keywords.standard.reserves standardLibrary = .ok form) :
    form.isLibrary Builtin.entries := by
  have hl : standardLibrary = String.ofList _ := rfl
  have hs : Token.scan standardLibrary = _ := (congrArg Token.scan hl).trans (Token.scan_ofList _)
  have hr : (read Keywords.standard.grouping Keywords.standard.reserves
      standardLibrary).toOption.all (·.isLibrary Builtin.entries) = true := by
    clear hl h
    generalize standardLibrary = library at hs ⊢
    rw [read, hs]
    decide +kernel
  rwa [h] at hr

theorem Evaluator.read_standard (sink : Sink) (retention : Retention) (source : String) :
    ({ sink, retention } : Evaluator).read source =
      Program.read Keywords.standard.grouping Keywords.standard.reserves source :=
  rfl

-- The standard library defines procedures, and calls none.
theorem Evaluator.firstOrder_standardLibrary (sink : Sink) (retention : Retention) (depth : Nat)
    (s : Scope) (m : Machine) :
    (({ sink, retention } : Evaluator).programMoments Builtin.entries depth standardLibrary s
      m).FirstOrder := by
  refine firstOrder_programMoments _ depth (fun form h => ?_) s m
  rw [read_standard] at h
  exact Program.isLibrary_of_read_standard h

-- What one sees of an interpreter of the language does not depend on whether finished scopes give
-- up their bindings, if no program in use gives a procedure to a call.
theorem Evaluator.observations_eq_of_firstOrder (sink : Sink) (depth : Nat)
    (requests : List Request) (m : Machine)
    (hf : (({ sink } : Evaluator).uses Builtin.entries depth standardLibrary requests
      m).FirstOrder) :
    (({ sink } : Evaluator).life Builtin.entries depth standardLibrary requests m).observations =
      (({ sink, retention := .always } : Evaluator).life Builtin.entries depth standardLibrary
        requests m).observations := by
  apply observations_life_of_firstOrder "do" Builtin.entries sink depth standardLibrary requests m
  change History.FirstOrder (({ sink } : Evaluator).life _ _ _ _ _).history
  rw [history_life]
  exact History.firstOrder_append.mpr ⟨firstOrder_standardLibrary sink .whenCaptured depth _ _, hf⟩

-- A procedure that sees the scopes of a call and a `let` is returned twice, and then called.
set_option maxRecDepth 20000 in
theorem Evaluator.observations_eq_of_firstOrder_closure :
    let requests := [.session,
      .run (some 0) "(def k ((fn (n) (let ((m (* n 2))) (fn (x) (+ x m)))) 5))",
      .run (some 0) "(def get (fn () k))", .run (some 0) "((get) 1)"]
    (({} : Evaluator).uses Builtin.entries 100 standardLibrary requests {}).FirstOrder ∧
      (({} : Evaluator).life Builtin.entries 100 standardLibrary requests {}).observations =
        (({ retention := .always } : Evaluator).life Builtin.entries 100 standardLibrary
          requests {}).observations := by
  intro requests
  have hl : standardLibrary = String.ofList _ := rfl
  have hs : Token.scan standardLibrary = _ := (congrArg Token.scan hl).trans (Token.scan_ofList _)
  have hf : (({} : Evaluator).uses Builtin.entries 100 standardLibrary requests {}).FirstOrder := by
    clear hl
    generalize standardLibrary = library at hs ⊢
    rw [uses, Interpreter.run_build, run_run, read, Program.read, hs]
    decide +kernel
  exact ⟨hf, observations_eq_of_firstOrder {} 100 requests {} hf⟩

end ScopedLisp
