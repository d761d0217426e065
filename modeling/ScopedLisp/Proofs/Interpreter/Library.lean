import ScopedLisp.Proofs.Evaluation.Let
import ScopedLisp.Proofs.Interpreter.FirstOrder

-- What a library of definitions leaves in the root of an interpreter: each name stands for the
-- procedure of its definition, whose home is the root. The standard library is such a library.
-- Main statement: `Interpreter.provides_standard`.

namespace ScopedLisp

open Evaluation Store

-- A procedure under its name.
structure Definition where
  name       : String
  parameters : List String
  body       : Form

namespace Definition

-- `(def name (fn (parameters...) body))`
def form (d : Definition) : Form :=
  .list [.symbol "def", .symbol d.name,
    .list [.symbol "fn", .list (d.parameters.map .symbol), d.body]]

-- The procedure that the definition makes in the scope.
def procedure (d : Definition) (identity : Nat) (home : Scope) : Procedure :=
  ⟨identity, d.parameters, d.body, home⟩

-- No keyword is taken for a name.
structure IsProper (reserved : String → Bool) (d : Definition) : Prop where
  name       : ¬reserved d.name
  parameters : ProperParameters reserved d.parameters

end Definition

-- `(do definition...)`
def Value.library (definitions : List Definition) : Form :=
  list (symbol "do" :: definitions.map Definition.form)

namespace Definition

-- The use of a name.
def use (name : String) (args : List Form) : Form :=
  .list (.symbol name :: args)

def dec : Definition :=
  ⟨"dec", ["n"], use "-" [.symbol "n", .integer 1]⟩

def abs : Definition :=
  ⟨"abs", ["n"], use "if" [use "<" [.symbol "n", .integer 0], use "-" [.symbol "n"], .symbol "n"]⟩

def zero : Definition :=
  ⟨"zero", ["n"], use "=" [.symbol "n", .integer 0]⟩

-- What `even` and `odd` have in common: an answer for zero, and the other one of the two.
def parity (name : String) (ofZero : Bool) (other : String) : Definition :=
  ⟨name, ["n"], use "if" [use "zero" [.symbol "n"], .boolean ofZero,
    use other [use "dec" [use "abs" [.symbol "n"]]]]⟩

def even : Definition :=
  parity "even" true "odd"

def odd : Definition :=
  parity "odd" false "even"

-- The standard library.
def standard : List Definition :=
  [⟨"identity", ["x"], .symbol "x"⟩,
    ⟨"inc", ["n"], use "+" [.symbol "n", .integer 1]⟩,
    dec,
    ⟨"neg", ["n"], use "-" [.symbol "n"]⟩,
    ⟨"square", ["n"], use "*" [.symbol "n", .symbol "n"]⟩,
    abs,
    ⟨"min", ["a", "b"], use "if" [use "<" [.symbol "b", .symbol "a"], .symbol "b", .symbol "a"]⟩,
    ⟨"max", ["a", "b"], use "if" [use ">" [.symbol "b", .symbol "a"], .symbol "b", .symbol "a"]⟩,
    zero,
    even,
    odd,
    ⟨"compose", ["f", "g"],
      use "fn" [.list [.symbol "x"], use "f" [use "g" [.symbol "x"]]]⟩]

end Definition

-- The scope has no other scopes around it, and binds each name to its procedure.
structure Store.Provides (σ : Store) (root : Scope) (definitions : List Definition) : Prop where
  around : root.around = []
  made   : root.frame < σ.frames.size
  bound  : ∀ d ∈ definitions, ∃ identity,
    (σ.locals root).find? d.name = some (.procedure (d.procedure identity root))

theorem Keywords.parameters_symbols {reserved : String → Bool} {names : List String}
    (seen : List String) (h : ProperParameters reserved (seen ++ names)) :
    parameters reserved seen (names.map .symbol) = .ok (seen ++ names) := by
  induction names generalizing seen
  case nil => simp [parameters]
  case cons name names hi =>
    have hr : ¬reserved name := h.free name (by simp)
    have hs : name ∉ seen := fun hs => by
      have hd := (List.nodup_append.mp h.distinct).right.right
      exact hd name hs name (by simp) rfl
    have ha : seen ++ name :: names = seen ++ [name] ++ names := by simp
    rw [List.map_cons, parameters, nameOf]
    simp only [bind, Except.bind, if_neg hr, if_neg hs]
    rw [hi _ (ha ▸ h), ha]

namespace Definition

variable {e : Evaluator} (he : e.keywords = .standard) {s : Scope} {d : Definition}
  {definitions : List Definition} {m m' : Machine} {v : Value}

include he in
theorem ends_closure (h : ProperParameters Keywords.standard.reserves d.parameters) :
    e.Ends s (.list [.symbol "fn", .list (d.parameters.map .symbol), d.body]) =
      (Steps.procedure d.parameters d.body).Ends e s := by
  rw [Evaluator.ends_standard s he "fn" .procedure rfl, Builtin.steps, Steps.closure, itemsOf,
    Steps.check]
  simp only [Keywords.parameters_symbols [] h, Steps.check, List.nil_append]

include he in
-- A definition that succeeds binds its name to a new procedure.
theorem define_eq_of_ends (hd : d.IsProper Keywords.standard.reserves)
    (h : e.Ends s d.form m (.ok v) m') :
    (m.store.procedure d.parameters d.body s).2.define s d.name
      (.procedure (d.procedure m.store.procedures s)) = .ok m'.store := by
  rw [form, Evaluator.ends_definition he, Steps.bindable_symbol, if_neg hd.name] at h
  simp only [ends_closure he hd.parameters] at h
  rcases h with ⟨_, hf, _⟩ | ⟨w, between, hp, hw⟩
  case inl => cases hf
  case inr =>
    obtain ⟨hv, rfl⟩ := (Steps.ends_procedure_iff s).mp hp
    obtain rfl := Except.ok.inj hv
    rcases hw with ⟨_, hf, _⟩ | ⟨_, last, hdef, _, rfl⟩
    case inl => cases hf
    case inr =>
      unfold Behavior.define at hdef
      split at hdef
      case h_1 hok => exact hdef.right ▸ hok
      case h_2     => cases hdef.left

end Definition

theorem Store.locals_define {σ σ' : Store} {s : Scope} {name : String} {v : Value}
    (h : σ.define s name v = .ok σ') (hs : s.frame < σ.frames.size) :
    σ'.locals s = (σ.locals s).insert name v := by
  obtain ⟨_, rfl⟩ := define_eq_ok h
  simp [locals, frame_modify, hs]

namespace Definition

variable {e : Evaluator} (he : e.keywords = .standard) {s : Scope} {d : Definition}
  {definitions : List Definition} {m m' : Machine} {v : Value}

-- Definitions one after the other. Each name stays bound as it is, if it is not defined again.
include he in
theorem bound_of_ends (hs : s.frame < m.store.frames.size)
    (hp : ∀ d ∈ definitions, d.IsProper Keywords.standard.reserves) {last : Value}
    (h : (Steps.evaluateBody last (definitions.map form)).Ends e s m (.ok v) m') :
    m.store.frames.size = m'.store.frames.size ∧
      (∀ name, (∀ d ∈ definitions, d.name ≠ name) →
        (m'.store.locals s).find? name = (m.store.locals s).find? name) ∧
      ((definitions.map name).Nodup → ∀ d ∈ definitions, ∃ identity,
        (m'.store.locals s).find? d.name = some (.procedure (d.procedure identity s))) := by
  induction definitions generalizing m last
  case nil =>
    obtain ⟨_, rfl⟩ := Steps.ends_done (e := e) s last ▸ h
    exact ⟨rfl, fun _ _ => rfl, nofun⟩
  case cons d definitions hi =>
    obtain ⟨hd, hp⟩ := List.forall_mem_cons.mp hp
    rw [List.map_cons, Steps.evaluateBody,
      Steps.ends_evaluate s (Evaluator.steady_standard he)] at h
    rcases h with ⟨_, hf, _⟩ | ⟨w, between, hw, h⟩
    case inl => cases hf
    case inr =>
      have hdef := define_eq_of_ends he hd hw
      have hsize : between.store.frames.size = m.store.frames.size := (size_define hdef).trans rfl
      have hlocals := locals_define hdef hs
      obtain ⟨hn, hkept, hbound⟩ := hi (hsize ▸ hs) hp h
      refine ⟨hsize ▸ hn, fun name hname => ?_, fun hnodup => ?_⟩
      case refine_1 =>
        obtain ⟨hne, hname⟩ := List.forall_mem_cons.mp hname
        rw [hkept name hname, hlocals, NameMap.find?_insert, if_neg (Ne.symm hne)]
        rfl
      case refine_2 =>
        obtain ⟨hnot, hnodup⟩ := List.nodup_cons.mp hnodup
        refine List.forall_mem_cons.mpr ⟨⟨m.store.procedures, ?_⟩, hbound hnodup⟩
        rw [hkept d.name fun d' hd' hn => hnot (List.mem_map.mpr ⟨d', hd', hn⟩), hlocals,
          NameMap.find?_insert, if_pos rfl]

end Definition

namespace Store.Provides

variable {σ σ' : Store} {root : Scope} {definitions : List Definition}

-- All that counts is the frame of the scope.
theorem of_frame_eq (h : σ.Provides root definitions) (hr : root.frame < σ'.frames.size)
    (hf : (σ'.frame root.frame).bindings = (σ.frame root.frame).bindings) :
    σ'.Provides root definitions where
  around := h.around
  made   := hr
  bound  := fun d hd => by
    rw [locals, hf]
    exact h.bound d hd

end Store.Provides

namespace Value

mutual

-- Code has no identity: it is the same only if it is equal.
theorem eq_of_same {v w : Value} (hv : v.IsCode) (h : v.same w) : v = w := by
  cases hv
  case list hitems =>
    cases w
    case list => rw [eq_of_sameItems hitems h]
    all_goals cases h
  all_goals cases w <;> simp_all [same]

theorem eq_of_sameItems {vs ws : List Value} (hv : ∀ v ∈ vs, v.IsCode) (h : sameItems vs ws) :
    vs = ws := by
  rcases vs with _ | ⟨v, vs⟩ <;> rcases ws with _ | ⟨w, ws⟩
  case nil.nil              => rfl
  case nil.cons | cons.nil  => cases h
  case cons.cons =>
    have ⟨hv, hvs⟩ := List.forall_mem_cons.mp hv
    have ⟨h, hs⟩ := Bool.and_eq_true_iff.mp h
    rw [eq_of_same hv h, eq_of_sameItems hvs hs]

end

end Value

set_option maxRecDepth 20000 in
theorem Program.read_standardLibrary :
    read Keywords.standard.grouping Keywords.standard.reserves standardLibrary =
      .ok (Value.library Definition.standard) := by
  have hl : standardLibrary = String.ofList _ := rfl
  have hs : Token.scan standardLibrary = _ := (congrArg Token.scan hl).trans (Token.scan_ofList _)
  have hr : (read Keywords.standard.grouping Keywords.standard.reserves
      standardLibrary).toOption.any (·.same (Value.library Definition.standard)) = true := by
    clear hl
    generalize standardLibrary = library at hs ⊢
    rw [read, hs]
    decide +kernel
  cases h : read Keywords.standard.grouping Keywords.standard.reserves standardLibrary
  case error =>
    rw [h] at hr
    cases hr
  case ok form =>
    rw [h] at hr
    rw [Value.eq_of_same (Value.isCode_of_read h) hr]

theorem Definition.isProper_standard :
    ∀ d ∈ standard, d.IsProper Keywords.standard.reserves := by
  have h : ∀ d ∈ standard, Keywords.standard.reserves d.name = false ∧ d.parameters.Nodup ∧
      ∀ name ∈ d.parameters, Keywords.standard.reserves name = false := by
    decide +kernel
  intro d hd
  have ⟨hn, hp, hf⟩ := h d hd
  exact ⟨by simp [hn], hp, fun name hm => by simp [hf name hm]⟩

namespace Interpreter

variable {e : Evaluator} {depth : Nat} {library : String} {m m' : Machine} {i : Interpreter}

theorem exists_run_of_build (h : (build e depth library).run m = (.ok i, m')) :
    ∃ v after, (e.run depth library m.store.root.1).run { m with store := m.store.root.2 } =
      (.ok v, after) ∧ i = ⟨e, m.store.root.1⟩ ∧
      m' = { after with store := after.store.freeze m.store.root.1 } := by
  rw [run_build] at h
  rcases hr : (e.run depth library m.store.root.1).run { m with store := m.store.root.2 } with
    ⟨(failure | _) | v, after⟩
  all_goals
    simp only [hr] at h
    cases h
  exact ⟨v, after, rfl, rfl, rfl⟩

theorem provides_of_build (he : e.keywords = .standard) {definitions : List Definition}
    (hr : e.read library = .ok (Value.library definitions))
    (hp : ∀ d ∈ definitions, d.IsProper Keywords.standard.reserves)
    (hn : (definitions.map Definition.name).Nodup)
    (h : (build e depth library).run m = (.ok i, m')) :
    m'.store.Provides i.root definitions := by
  obtain ⟨v, after, hv, rfl, rfl⟩ := exists_run_of_build h
  rw [Evaluator.run_run, hr] at hv
  have hs : m.store.root.1.frame < m.store.root.2.frames.size := by simp [Store.root]
  have hends : e.Ends m.store.root.1 (Value.library definitions) _ (.ok v) after := ⟨depth, hv⟩
  rw [Value.library, Evaluator.ends_standard _ he "do" .group rfl] at hends
  obtain ⟨hsize, _, hbound⟩ := Definition.bound_of_ends he hs hp hends
  have hprovides : after.store.Provides m.store.root.1 definitions := ⟨rfl, hsize ▸ hs, hbound hn⟩
  refine hprovides.of_frame_eq ?_ ?_
  case refine_1 => exact (size_modify ..).symm ▸ hprovides.made
  case refine_2 =>
    rw [freeze, frame_modify]
    split <;> rfl

theorem provides_standard {sink : Sink} {retention : Retention}
    (h : (build { sink, retention } depth).run m = (.ok i, m')) :
    m'.store.Provides i.root Definition.standard := by
  have hr := (Evaluator.read_standard sink retention standardLibrary).trans
    Program.read_standardLibrary
  exact provides_of_build rfl hr Definition.isProper_standard (by decide +kernel) h

end Interpreter
end ScopedLisp
