import ScopedLisp.Proofs.Evaluation.BuiltinsAlike
import ScopedLisp.Proofs.Interpreter.Root

-- Sessions do not see each other. What one sees in a session is what one would see if the
-- interpreter had been built for that session alone.
-- Main statement: `Interpreter.sights_alone`.

namespace ScopedLisp

open Evaluation Store

-- What tells observations apart if identities of procedures are not looked at.
structure Sight where
  source   : String
  outcome  : Except Stop Value
  printed  : String
  bindings : List (String × Value)

def Observation.sight (o : Observation) : Sight where
  source   := o.source
  outcome  := o.outcome.map Value.anonymous
  printed  := o.printed
  bindings := o.bindings.entries.map (Prod.map id Value.anonymous)

variable {ρ : Pairing}

theorem OutcomesAlike.map_anonymous {o₁ o₂ : Except Stop Value} (h : OutcomesAlike ρ Eq o₁ o₂) :
    o₁.map Value.anonymous = o₂.map Value.anonymous := by
  cases h
  case ok h => exact congrArg Except.ok <| Value.anonymous_of_alike h
  case error h =>
    cases h
    case failed h => rw [h.eq fun _ _ => id]
    case tooDeep  => rfl

theorem NameMap.Alike.map_anonymous {m₁ m₂ : NameMap Value} (h : m₁.Alike ρ Eq m₂) :
    m₁.entries.map (Prod.map id Value.anonymous) =
      m₂.entries.map (Prod.map id Value.anonymous) := by
  unfold Alike at h
  generalize m₁.entries = es₁, m₂.entries = es₂ at h
  induction h
  case nil => rfl
  case cons he _ hi =>
    obtain ⟨hn, _, hv⟩ := he
    simp only [List.map_cons, hi, Prod.map, id, hn, Value.anonymous_of_alike hv]

-- What the left store does with frames that correspond to none on the right does not matter.
theorem Store.Alike.of_left {N : Spelling} {σ₁ σ₁' σ₂ : Store} (h : σ₁.Alike ρ N σ₂)
    (hs : σ₁.frames.size ≤ σ₁'.frames.size) (hp : σ₁.procedures ≤ σ₁'.procedures)
    (hf : ∀ a b, ρ.frames a b → σ₁'.frame a = σ₁.frame a) : σ₁'.Alike ρ N σ₂ where
  bounds a b hab     := (h.bounds a b hab).imp (Nat.lt_of_lt_of_le · hs) id
  frames a b hab     := hf a b hab ▸ h.frames a b hab
  procedures a b hab := (h.procedures a b hab).imp (Nat.lt_of_lt_of_le · hp) id

theorem Failure.Alike.within {N : Spelling} {f g : Failure} (h : f.Alike N g) (place : Place) :
    (f.within place).Alike N (g.within place) where
  kind := h.kind
  eq   := fun hN => by rw [h.eq hN]

-- If libraries are run alike, both are refused, or the interpreters correspond to each other.
theorem Interpreter.buildWith_alike {N : Spelling} (e₁ e₂ : Evaluator)
    (library₁ library₂ : Scope → Evaluation Value) (σ₁ σ₂ : Store)
    (hl : ∀ {ρ : Pairing} {s t : Scope} {m₁ m₂ : Machine}, s.Alike ρ t → m₁.Alike ρ N m₂ →
      RunsAlike ρ N m₁.store.frames.size ((library₁ s).run m₁) ((library₂ t).run m₂)) :
    let built₁ := (buildWith e₁ library₁).run { store := σ₁ }
    let built₂ := (buildWith e₂ library₂).run { store := σ₂ }
    built₁.2.printed = built₂.2.printed ∧
    ((∃ s t, built₁.1 = .error s ∧ built₂.1 = .error t ∧ s.Alike N t) ∨
      ∃ i j ρ, built₁.1 = .ok i ∧ built₂.1 = .ok j ∧ i.evaluator = e₁ ∧ j.evaluator = e₂ ∧
        i.root.Alike ρ j.root ∧ built₁.2.store.Alike ρ N built₂.2.store) := by
  have h₀ : σ₁.Alike .none N σ₂ := ⟨nofun, nofun, nofun⟩
  obtain ⟨ρ, _, hroot, hσ⟩ := h₀.root
  have hm : Machine.Alike ρ N { store := σ₁.root.2 } { store := σ₂.root.2 } := ⟨hσ, rfl⟩
  have hr := hl hroot hm
  rw [run_buildWith, run_buildWith]
  generalize (library₁ σ₁.root.1).run { store := σ₁.root.2 } = r₁,
    (library₂ σ₂.root.1).run { store := σ₂.root.2 } = r₂ at hr
  obtain ⟨o₁, m₁⟩ := r₁
  obtain ⟨o₂, m₂⟩ := r₂
  obtain ⟨-, ρ', hρ, ho, hm⟩ := hr
  cases ho
  case ok =>
    have hroot' := hroot.mono hρ.toGrows
    exact ⟨hm.printed, .inr ⟨_, _, ρ', rfl, rfl, rfl, rfl, hroot', hm.store.freeze hroot'⟩⟩
  case error hs =>
    cases hs
    case failed hf => exact ⟨hm.printed, .inl ⟨_, _, rfl, rfl, .failed <| hf.within _⟩⟩
    case tooDeep   => exact ⟨hm.printed, .inl ⟨_, _, rfl, rfl, .tooDeep⟩⟩

section

variable (grouping : String) (entries : List (String × Builtin)) (sink : Sink)
  (retention : Retention) (depth : Nat)

theorem Evaluator.run_alike (source : String) {s t : Scope} {m₁ m₂ : Machine} (hs : s.Alike ρ t)
    (hm : m₁.Alike ρ Eq m₂) :
    RunsAlike ρ Eq m₁.store.frames.size
      (((ofBuiltins grouping entries sink retention).run depth source s).run m₁)
      (((ofBuiltins grouping entries sink retention).run depth source t).run m₂) := by
  rw [run_run, run_run]
  cases h : (ofBuiltins grouping entries sink retention).read source
  case error f => exact .failed (.refl ..) hm
  case ok form =>
    have hf := Value.matches_self_of_read (fun _ => rfl) h ρ
    exact evaluate_alike (Spelling.translates_eq _) sink retention depth hs hf hm

namespace Interpreter

-- Interpreters that are built alike correspond to each other, however many others there are.
theorem build_alike {library : String} {σ₁ : Store} {i : Interpreter} {m₁ : Machine}
    (h : (build (.ofBuiltins grouping entries sink retention) depth library).run
      { store := σ₁ } = (.ok i, m₁)) (σ₂ : Store) :
    ∃ j m₂, (build (.ofBuiltins grouping entries sink retention) depth library).run
        { store := σ₂ } = (.ok j, m₂) ∧
      ∃ ρ : Pairing, i.root.Alike ρ j.root ∧ m₁.store.Alike ρ Eq m₂.store := by
  let e := Evaluator.ofBuiltins grouping entries sink retention
  have ⟨_, hb⟩ := buildWith_alike e e (e.run depth library) (e.run depth library) σ₁ σ₂
    (Evaluator.run_alike grouping entries sink retention depth library)
  rcases hb with ⟨s, _, hs, _⟩ | ⟨i', j, ρ, hi, hj, _, _, hroot, hσ⟩
  case inl => cases (congrArg Prod.fst h).symm.trans hs
  case inr =>
    obtain rfl := Except.ok.inj <| (congrArg Prod.fst h).symm.trans hi
    refine ⟨j, _, Prod.ext hj rfl, ρ, hroot, ?_⟩
    exact congrArg (·.2.store) h ▸ hσ

end Interpreter

end

namespace Interpreter

-- Two interpreters with corresponding roots. Apart from the session with the number, the sessions
-- of the first one have frames that correspond to nothing.
structure Beside (i j : Interpreter) (k : Nat) (ρ : Pairing) (v w : Service) : Prop where
  serves : i.Serves v
  store  : v.machine.store.Alike ρ Eq w.machine.store
  root   : i.root.Alike ρ j.root
  apart  : ∀ {k' session}, k' ≠ k → v.sessions[k']? = some session →
    ∀ b, ¬ρ.frames session.scope.frame b

namespace Beside

variable {i j : Interpreter} {k : Nat} {v w : Service}

-- Nothing changes by what happens elsewhere.
theorem frame_eq (h : Beside i j k ρ v w) {session? : Option Nat} (hk : session? ≠ some k)
    {s : Scope} (hs : i.scope? v session? = some s) {σ : Store}
    (hσ : KeepsAround s v.machine.store σ) {a b : FrameId} (hab : ρ.frames a b) :
    σ.frame a = v.machine.store.frame a := by
  have ha := (h.store.bounds a b hab).left
  cases session?
  case none =>
    obtain rfl := Option.some.inj hs
    exact (hσ.keeps h.serves.frozen).frames a ha
  case some k' =>
    obtain ⟨session, hm, rfl⟩ := Option.map_eq_some_iff.mp hs
    refine hσ.others a ha ?_
    rintro rfl
    exact h.apart (fun he => hk (congrArg some he)) hm b hab

theorem apart_append (h : Beside i j k ρ v w) {k' : Nat} {new session : Session} (hk : k' ≠ k)
    (hn : ∀ b, ¬ρ.frames new.scope.frame b)
    (hs : (v.sessions ++ [new])[k']? = some session) : ∀ b, ¬ρ.frames session.scope.frame b := by
  rcases Nat.lt_trichotomy k' v.sessions.length with hlt | rfl | hgt
  case inl =>
    rw [List.getElem?_append_left hlt] at hs
    exact h.apart hk hs
  case inr.inl =>
    simp only [List.getElem?_concat_length, Option.some.injEq] at hs
    exact hs ▸ hn
  case inr.inr =>
    rw [List.getElem?_eq_none (by simp; omega)] at hs
    cases hs

-- Frames that come to correspond to each other are new, so that sessions stay apart.
theorem apart_of_grows (h : Beside i j k ρ v w) {ρ' : Pairing}
    (hρ : ρ.GrowsAbove v.machine.store.frames.size ρ') {k' : Nat} {session : Session}
    (hk : k' ≠ k) (hs : v.sessions[k']? = some session) :
    ∀ b, ¬ρ'.frames session.scope.frame b := by
  intro b hb
  obtain ⟨frame, he, _, hf⟩ := h.serves.sessions session (List.mem_of_getElem? hs)
  rcases hρ.above _ b hb with hb | hn
  case inl => exact h.apart hk hs b hb
  case inr => exact Nat.not_lt.mpr hn (he ▸ hf)

variable {grouping : String} {entries : List (String × Builtin)} {sink : Sink}
  {retention : Retention} (depth : Nat)
  (hi : i.evaluator = .ofBuiltins grouping entries sink retention)
  (hj : j.evaluator = .ofBuiltins grouping entries sink retention)

include hi in
theorem keepsAround_start (h : Beside i j k ρ v w) {session? : Option Nat} {s : Scope}
    (hs : i.scope? v session? = some s) (source : String) :
    KeepsAround s v.machine.store (i.start depth source s v.machine).2.store := by
  unfold start Interpreter.run
  rw [hi]
  exact Evaluator.keepsAround_run grouping entries sink retention depth source
    (m := { v.machine with printed := "" }) (h.serves.scope_lt hs)

-- Runs in other sessions or in the root are not seen, and leave all as it is.
include hi in
theorem run_elsewhere (h : Beside i j k ρ v w) {session? : Option Nat} (hk : session? ≠ some k)
    (source : String) :
    let after := i.answer depth v (.run session? source)
    after.1.toList.filter (·.session? = some k) = [] ∧ after.2.sessions = v.sessions ∧
      Beside i j k ρ after.2 w := by
  cases hs : i.scope? v session?
  case none => simpa [answer_run_of_none _ _ _ hs] using h
  case some s =>
    have hσ := h.keepsAround_start depth hi hs source
    rw [answer_run _ _ _ hs]
    refine ⟨by simp [hk], rfl, ?_⟩
    constructor
    case serves => exact h.serves.of_frame_eq hσ.size (h.serves.frame_root hs hσ)
    case store  => exact h.store.of_left hσ.size hσ.procedures fun _ _ => h.frame_eq hk hs hσ
    case root   => exact h.root
    case apart  => exact h.apart

include hi in
theorem session_elsewhere (h : Beside i j k ρ v w) :
    Beside i j k ρ (i.answer depth v .session).2 w where
  serves := (serves_answer grouping entries sink retention depth hi h.serves .session).left
  store  :=
    have hc := Keeps.child v.machine.store i.root {}
    h.store.of_left hc.size hc.procedures fun a b hab => hc.frames a (h.store.bounds a b hab).left
  root   := h.root
  apart  := fun hk' hs =>
    h.apart_append hk' (fun b hb => Nat.lt_irrefl _ (h.store.bounds _ b hb).left) hs

include hi in
theorem session_both (h : Beside i j k ρ v w) (hk : v.sessions.length = k) :
    ∃ ρ', Beside i j k ρ' (i.answer depth v .session).2 (j.answer depth w .session).2 ∧
      (i.root.child v.machine.store.frames.size).Alike ρ'
        (j.root.child w.machine.store.frames.size) := by
  obtain ⟨ρ', hρ, hs, hσ⟩ := h.store.child h.root (.empty ρ Eq)
  refine ⟨ρ', ?_, hs⟩
  constructor
  case serves => exact (serves_answer grouping entries sink retention depth hi h.serves _).left
  case store  => exact hσ
  case root   => exact h.root.mono hρ.toGrows
  case apart  =>
    intro k' session hk' hs'
    rw [answer_session] at hs'
    have hlt : k' < v.sessions.length := by
      have := (List.getElem?_eq_some_iff.mp hs').1
      simp at this
      omega
    rw [List.getElem?_append_left hlt] at hs'
    exact h.apart_of_grows hρ hk' hs'

include hi hj in
theorem run_both (h : Beside i j k ρ v w) {s t : Scope} (hs : i.scope? v (some k) = some s)
    (hst : s.Alike ρ t) (source : String) :
    let r₁ := i.start depth source s v.machine
    let r₂ := j.start depth source t w.machine
    ∃ ρ', OutcomesAlike ρ' Eq r₁.1 r₂.1 ∧ r₁.2.Alike ρ' Eq r₂.2 ∧ s.Alike ρ' t ∧
      Beside i j k ρ' { v with machine := r₁.2 } { w with machine := r₂.2 } := by
  intro r₁ r₂
  have hk : KeepsAround s v.machine.store r₁.2.store := h.keepsAround_start depth hi hs source
  have hr : RunsAlike ρ Eq v.machine.store.frames.size r₁ r₂ := by
    have hm : Machine.Alike ρ Eq { v.machine with printed := "" }
      { w.machine with printed := "" } := ⟨h.store, rfl⟩
    have hr := Evaluator.run_alike grouping entries sink retention depth source hst hm
    unfold r₁ r₂ start Interpreter.run
    rw [hi, hj]
    exact hr
  obtain ⟨_, ρ', hρ, ho, hm⟩ := hr
  refine ⟨ρ', ho, hm, hst.mono hρ.toGrows, ?_⟩
  constructor
  case serves => exact h.serves.of_frame_eq hk.size (h.serves.frame_root hs hk)
  case store  => exact hm.store
  case root   => exact h.root.mono hρ.toGrows
  case apart  => exact h.apart_of_grows hρ

end Beside

variable {i j : Interpreter} {k : Nat} {v w : Service} {grouping : String}
  {entries : List (String × Builtin)} {sink : Sink} {retention : Retention} {depth : Nat}
  (hi : i.evaluator = .ofBuiltins grouping entries sink retention)
  (hj : j.evaluator = .ofBuiltins grouping entries sink retention)

theorem scope?_session {s : Scope} (h : i.scope? v (some k) = some s) :
    i.scope? (i.answer depth v .session).2 (some k) = some s := by
  obtain ⟨session, hs, he⟩ := Option.map_eq_some_iff.mp h
  have hk := (List.getElem?_eq_some_iff.mp hs).1
  rw [answer_session, scope?, List.getElem?_append_left hk, hs]
  exact congrArg some he

-- What is seen in a session is seen in the corresponding one, if the same programs are run there.
include hi hj in
theorem sights_of_session (requests : List Request) (h : Beside i j k ρ v w) {s t : Scope}
    (hs : i.scope? v (some k) = some s) (ht : j.scope? w (some 0) = some t)
    (hst : s.Alike ρ t) :
    let seen := (i.serve depth v requests).1.filter (·.session? = some k)
    let alone := (j.serve depth w (seen.map fun o => .run (some 0) o.source)).1
    seen.map Observation.sight = alone.map Observation.sight := by
  induction requests generalizing ρ v w
  case nil => rfl
  case cons request requests hr =>
    cases request
    case session =>
      rw [serve_cons]
      exact hr (h.session_elsewhere depth hi) (scope?_session hs) ht hst
    case run session? source =>
      rw [serve_cons]
      by_cases hk : session? = some k
      case pos =>
        subst hk
        obtain ⟨ρ', ho, hm, hst', h'⟩ := h.run_both depth hi hj hs hst source
        have hb := (hm.store.frames _ _ hst'.frame).bindings
        have hs' := answer_run i depth source hs
        have ht' := answer_run j depth source ht
        simp only [hs', ht', Option.toList_some, List.singleton_append, List.filter_cons,
          decide_true, if_true, List.map_cons, serve_cons]
        refine congr_arg₂ _ ?_ (hr h' hs ht hst')
        simp only [Observation.sight, ho.map_anonymous, hm.printed, locals, hb.map_anonymous]
      case neg =>
        obtain ⟨hn, hv, h'⟩ := h.run_elsewhere depth hi hk source
        have hs' : i.scope? (i.answer depth v (.run session? source)).2 (some k) = some s := by
          rw [scope?, hv]
          exact hs
        simp only [List.filter_append, hn, List.nil_append]
        exact hr h' hs' ht hst

-- The same, before the session is there.
include hi hj in
theorem sights_of_new_session (requests : List Request) (h : Beside i j k ρ v w)
    (hk : v.sessions.length ≤ k) (hw : w.sessions = []) :
    let seen := (i.serve depth v requests).1.filter (·.session? = some k)
    let alone := (j.serve depth w (.session :: seen.map fun o => .run (some 0) o.source)).1
    seen.map Observation.sight = alone.map Observation.sight := by
  induction requests generalizing v
  case nil => rfl
  case cons request requests hr =>
    cases request
    case session =>
      rw [serve_cons]
      by_cases hk' : v.sessions.length = k
      case neg =>
        refine hr (h.session_elsewhere depth hi) ?_
        rw [answer_session, List.length_append]
        exact Nat.lt_of_le_of_ne hk hk'
      case pos =>
        obtain ⟨ρ', h', ha⟩ := h.session_both depth hi hk'
        refine sights_of_session hi hj requests h' ?_ ?_ ha
        case refine_1 => simp [answer_session, scope?, ← hk']
        case refine_2 => simp [scope?, hw]
    case run session? source =>
      rw [serve_cons]
      by_cases hs : session? = some k
      case pos =>
        have hn : i.scope? v session? = none := by
          rw [hs, scope?, List.getElem?_eq_none hk]
          rfl
        rw [answer_run_of_none _ _ _ hn]
        exact hr h hk
      case neg =>
        obtain ⟨hn, hv, h'⟩ := h.run_elsewhere depth hi hs source
        simp only [List.filter_append, hn, List.nil_append]
        exact hr h' (hv ▸ hk)

-- What one sees in a session is what one sees in the only session of an interpreter that is built
-- the same way, wherever on a machine that may be, if the same programs are run there in the same
-- order.
theorem sights_alone (grouping : String) (entries : List (String × Builtin)) (sink : Sink)
    (retention : Retention) (depth : Nat) {library : String} {σ₁ : Store} {i : Interpreter}
    {m₁ : Machine} (h : (build (.ofBuiltins grouping entries sink retention) depth library).run
      { store := σ₁ } = (.ok i, m₁)) (σ₂ : Store) :
    ∃ j m₂, (build (.ofBuiltins grouping entries sink retention) depth library).run
        { store := σ₂ } = (.ok j, m₂) ∧
      ∀ (depth : Nat) (requests : List Request) (k : Nat),
        let seen := (i.serve depth { machine := m₁ } requests).1.filter (·.session? = some k)
        let programs := seen.map (·.source)
        let alone := (j.serve depth { machine := m₂ }
          (.session :: programs.map fun source => .run (some 0) source)).1
        seen.map Observation.sight = alone.map Observation.sight := by
  obtain ⟨j, m₂, h₂, ρ, hr, hσ⟩ := build_alike grouping entries sink retention depth h σ₂
  refine ⟨j, m₂, h₂, fun depth requests k => ?_⟩
  have ⟨hi, hv⟩ := serves_build grouping entries sink retention _ h
  have ⟨hj, _⟩ := serves_build grouping entries sink retention _ h₂
  simp only [List.map_map]
  exact sights_of_new_session hi hj requests ⟨hv, hσ, hr, fun _ => by simp⟩ (Nat.zero_le k) rfl

-- Two sessions that take turns and use the same name, against a session on a store which has a
-- frame in use already.
theorem sights_alone_turns :
    let e := Evaluator.ofBuiltins "do" [("do", .group), ("def", .define)]
    let i : Interpreter := ⟨e, ⟨0, []⟩⟩
    let m : Machine := { store := { frames := #[{ frozen := true }] } }
    (build e 3 "").run {} = (.ok i, m) ∧
      let seen := (i.serve 3 { machine := m } [.session, .session, .run (some 0) "(def x 1)",
        .run (some 1) "(def x 2)", .run (some 0) "x"]).1.filter (·.session? = some 0)
      let programs := seen.map (·.source)
      programs = ["(def x 1)", "x"] ∧
        ∃ j m', (build e 3 "").run { store := { frames := #[{}] } } = (.ok j, m') ∧
          let alone := (j.serve 3 { machine := m' }
            (.session :: programs.map fun source => .run (some 0) source)).1
          seen.map Observation.sight = alone.map Observation.sight :=
  have ⟨j, m', hb, hs⟩ := @sights_alone "do" [("do", .group), ("def", .define)] {} .whenCaptured 3
    "" {} ⟨_, ⟨0, []⟩⟩ { store := { frames := #[{ frozen := true }] } } rfl { frames := #[{}] }
  ⟨rfl, by decide +kernel, j, m', hb, hs 3 _ 0⟩

end Interpreter
end ScopedLisp
