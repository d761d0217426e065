import ScopedLisp.Proofs.Evaluation.Pure
import ScopedLisp.Proofs.Interpreter.Library
import ScopedLisp.Proofs.Interpreter.Root

-- The procedures of the standard library that decide whether an integer is even or odd. They call
-- each other with integers that come closer and closer to zero, and find each other in the root, so
-- that it makes no difference which names a session has bound. For the least integer, which has no
-- opposite, they fail.
-- Main statement: `Interpreter.settles_parity`.

namespace ScopedLisp

open Evaluation Store

-- The use of a procedure outside of programs.
def Evaluator.Invokes (e : Evaluator) (p : Procedure) (args : List Form) (caller : Scope) :
    Behavior Value := fun m outcome m' =>
  ∃ depth, ((e.context depth).call p args caller).run m = (outcome.mapError .failed, m')

theorem Evaluator.invokes_eq (e : Evaluator) (p : Procedure) (args : List Form) (caller : Scope) :
    e.Invokes p args caller = (Steps.call p args).Ends e caller := by
  unfold Invokes Steps.Ends
  simp only [Steps.run_call]
  rfl

-- Steps end in one way at most.
theorem Steps.Ends.unique {e : Evaluator} (he : e.Steady) {steps : Steps} {s : Scope}
    {m m₁ m₂ : Machine} {o₁ o₂ : Except Failure Value} (h₁ : steps.Ends e s m o₁ m₁)
    (h₂ : steps.Ends e s m o₂ m₂) : o₁ = o₂ ∧ m₁ = m₂ := by
  obtain ⟨d₁, h₁⟩ := h₁
  obtain ⟨d₂, h₂⟩ := h₂
  have h₁ := ((he.context (Nat.le_max_left d₁ d₂)).run steps s m).eq h₁
  have h₂ := ((he.context (Nat.le_max_right d₁ d₂)).run steps s m).eq h₂
  obtain ⟨ho, hm⟩ := Prod.mk.inj (h₁.symm.trans h₂)
  exact ⟨mapError_failed_injective ho, hm⟩

-- The truth value, except for the least integer: that one has no absolute value.
def Decides (b : Bool) (n : Integer) : Except Failure Value → Prop
  | .ok v => n.toInt ≠ -0x8000000000000000 ∧ v = .boolean b
  | .error failure => n.toInt = -0x8000000000000000 ∧ failure.kind = .arithmetic

-- The scope is that of a call from the root. Its own frame binds `n`, and nothing else.
structure Store.InCall (σ : Store) (root s : Scope) (v : Value) : Prop where
  provides : σ.Provides root Definition.standard
  livesIn  : s.LivesIn σ
  argument : σ.find? s "n" = some v
  others   : ∀ name ≠ "n", σ.find? s name = (σ.locals root).find? name

namespace Store.Provides

variable {σ σ' : Store} {root : Scope} {definitions : List Definition}

theorem keeps (h : σ.Provides root definitions) (hk : σ.Keeps σ') :
    σ'.Provides root definitions :=
  h.of_frame_eq (Nat.lt_of_lt_of_le h.made hk.size) (by rw [hk.frames _ h.made])

theorem inCall (h : σ.Provides root Definition.standard) (v : Value) :
    (σ.child root (NameMap.insert {} "n" v)).2.InCall root (root.child σ.frames.size) v where
  provides := h.keeps (.child ..)
  livesIn  := by
    intro id hid
    rw [Scope.chain_child, Scope.chain, h.around] at hid
    rw [size_child]
    rcases List.mem_cons.mp hid with rfl | hid
    case inl => exact Nat.lt_succ_self _
    case inr => exact List.mem_singleton.mp hid ▸ Nat.lt_succ_of_lt h.made
  argument := by simp [find?, Scope.chain_child, frame_child, NameMap.find?_insert]
  others   := fun name hn => by
    have hne : root.frame ≠ σ.frames.size := Nat.ne_of_lt h.made
    have hroot : root.chain = [root.frame] := congrArg _ h.around
    simp [find?, locals, Scope.chain_child, hroot, frame_child, NameMap.find?_insert, hn, hne]

end Store.Provides

namespace Definition

variable {e : Evaluator} {root s : Scope} {d : Definition} {v : Value} {σ : Store}
  {outcome : Except Failure Value}

-- Wherever the root provides the standard library, the procedure gives the outcome.
def Answers (d : Definition) (e : Evaluator) (root : Scope) (v : Value)
    (outcome : Except Failure Value) : Prop :=
  ∀ identity σ, Provides σ root standard → (d.procedure identity root).Answers e σ v outcome

theorem answers_of_body (hd : d.parameters = ["n"])
    (h : ∀ σ s, InCall σ root s v → (e.Ends s d.body).Gives σ outcome) :
    d.Answers e root v outcome :=
  fun _ _ hσ => Procedure.answers_of_body hd fun _ hk => h _ _ ((hσ.keeps hk).inCall v)

-- One of the procedures of the library that take an integer.
structure IsUnary (d : Definition) : Prop where
  mem        : d ∈ standard
  parameters : d.parameters = ["n"]

theorem name_of_mem_standard (hd : d ∈ standard) :
    d.name ≠ "n" ∧ Keywords.standard.find? d.name = none := by
  have hn : ∀ d ∈ standard, d.name ≠ "n" := by decide
  refine ⟨hn d hd, Option.not_isSome_iff_eq_none.mp ?_⟩
  exact (isProper_standard d hd).name

section Use

variable (he : e.keywords = .standard) (hs : InCall σ root s v) (hd : d.IsUnary) {arg : Form}

include he hs hd

theorem gives_use_of_call (h : ∀ identity,
    ((Steps.call (d.procedure identity root) [arg]).Ends e s).Gives σ outcome) :
    (e.Ends s (use d.name [arg])).Gives σ outcome := by
  have ⟨hn, hk⟩ := name_of_mem_standard hd.mem
  have ⟨identity, hb⟩ := hs.provides.bound d hd.mem
  exact Evaluator.gives_named (he ▸ hk) hs.livesIn ((hs.others d.name hn).trans hb) (h identity)

theorem Answers.gives_use {w : Value} (h : d.Answers e root w outcome)
    (ha : (e.Ends s arg).Gives σ (.ok w)) : (e.Ends s (use d.name [arg])).Gives σ outcome :=
  gives_use_of_call he hs hd fun identity =>
    (h identity σ hs.provides).gives_call (Evaluator.steady_standard he)
      (congrArg List.length hd.parameters) ha

theorem gives_use_error {failure : Failure} (ha : (e.Ends s arg).Gives σ (.error failure)) :
    (e.Ends s (use d.name [arg])).Gives σ (.error failure) :=
  gives_use_of_call he hs hd fun _ =>
    Procedure.gives_call_error (Evaluator.steady_standard he)
      (congrArg List.length hd.parameters) ha

end Use

section Procedures

variable (he : e.keywords = .standard) (n : Integer)

theorem gives_argument {n : Integer} (hs : InCall σ root s (.integer n)) :
    (e.Ends s (.symbol "n")).Gives σ (.ok (.integer n)) :=
  Evaluator.gives_symbol hs.livesIn hs.argument

variable (root)

include he

theorem zero_answers : zero.Answers e root (.integer n) (.ok (.boolean (n == 0))) :=
  answers_of_body rfl fun _ _ hs =>
    Evaluator.gives_equality he (gives_argument hs) (Evaluator.gives_integer 0)

theorem dec_answers :
    dec.Answers e root (.integer n) (.integer <$> Keywords.differenceOf [n, 1]) :=
  answers_of_body rfl fun _ _ hs =>
    Evaluator.gives_subtract he <|
      .cons (gives_argument hs) <| .cons (Evaluator.gives_integer 1) .nil

theorem abs_answers :
    abs.Answers e root (.integer n)
      (if n < 0 then .integer <$> Keywords.differenceOf [n] else .ok (.integer n)) := by
  refine answers_of_body rfl fun _ _ hs => ?_
  refine Evaluator.gives_conditional he
    (Evaluator.gives_less he (gives_argument hs) (Evaluator.gives_integer 0)) ?_
  by_cases hn : n < 0
  case pos =>
    simp only [hn, decide_true, if_true]
    exact Evaluator.gives_subtract he <| .cons (gives_argument hs) .nil
  case neg =>
    simp only [hn, decide_false, Bool.false_eq_true, if_false]
    exact gives_argument hs

-- The absolute value, as far as there is one.
theorem exists_abs_answers (hn : n.toInt ≠ -0x8000000000000000) :
    ∃ a : Integer, a.toInt = n.toInt.natAbs ∧
      abs.Answers e root (.integer n) (.ok (.integer a)) := by
  have ha := abs_answers root he n
  by_cases h : n < 0
  case neg =>
    rw [if_neg h] at ha
    have hz : ¬n.toInt < 0 := by simpa [Int64.lt_iff_toInt_lt] using h
    exact ⟨n, by omega, ha⟩
  case pos =>
    rw [if_pos h] at ha
    have hz : n.toInt < 0 := by simpa [Int64.lt_iff_toInt_lt] using h
    have hx := Keywords.exact_negation n
    cases hd : Keywords.differenceOf [n]
    case error => exact absurd hn (hd ▸ hx).left
    case ok a =>
      rw [hd] at hx ha
      exact ⟨a, by rw [hx.right]; omega, ha⟩

theorem exists_abs_answers_error (hn : n.toInt = -0x8000000000000000) :
    ∃ failure : Failure, failure.kind = .arithmetic ∧
      abs.Answers e root (.integer n) (.error failure) := by
  have ha := abs_answers root he n
  have h : n < 0 := by simp [Int64.lt_iff_toInt_lt, hn]
  have hx := Keywords.exact_negation n
  rw [if_pos h] at ha
  cases hd : Keywords.differenceOf [n]
  case ok i => exact absurd hn (hd ▸ hx).left
  case error failure =>
    rw [hd] at hx ha
    exact ⟨failure, hx.right, ha⟩

theorem exists_dec_answers (hn : 0 ≤ n.toInt) :
    ∃ r : Integer, r.toInt = n.toInt - 1 ∧ dec.Answers e root (.integer n) (.ok (.integer r)) := by
  have hr := dec_answers root he n
  have ⟨_, hu⟩ := Integer.inRange_toInt n
  have hd : Keywords.differenceOf [n, 1] =
      Keywords.orOverflow "-" (Integer.ofInt? (n.toInt - 1)) := bind_pure _
  have hx := Exact.orOverflow "-" (n.toInt - 1)
  rw [hd] at hr
  cases hi : Keywords.orOverflow "-" (Integer.ofInt? (n.toInt - 1))
  case error => exact absurd ⟨by omega, by omega⟩ (hi ▸ hx).left
  case ok r =>
    rw [hi] at hx hr
    exact ⟨r, hx.right, hr⟩

end Procedures

section Parity

variable (he : e.keywords = .standard) {n : Integer} {name : String} {b : Bool}

theorem isUnary_dec : dec.IsUnary := ⟨by simp [standard], rfl⟩

theorem isUnary_abs : abs.IsUnary := ⟨by simp [standard], rfl⟩

theorem isUnary_zero : zero.IsUnary := ⟨by simp [standard], rfl⟩

theorem isUnary_even : even.IsUnary := ⟨by simp [standard], rfl⟩

theorem isUnary_odd : odd.IsUnary := ⟨by simp [standard], rfl⟩

include he

-- What is left to do for an integer depends on whether it is zero.
theorem parity_answers_of_body (h : ∀ σ s, InCall σ root s (.integer n) →
    (e.Ends s (if n == 0 then .boolean b
      else use d.name [use "dec" [use "abs" [.symbol "n"]]])).Gives σ outcome) :
    (parity name b d.name).Answers e root (.integer n) outcome :=
  answers_of_body rfl fun _ _ hs =>
    Evaluator.gives_conditional he
      ((zero_answers root he n).gives_use he hs isUnary_zero (gives_argument hs)) (h _ _ hs)

theorem parity_answers_zero :
    (parity name b d.name).Answers e root (.integer 0) (.ok (.boolean b)) :=
  parity_answers_of_body he fun _ _ _ => Evaluator.gives_boolean b

variable (hd : d.IsUnary) (hn : n ≠ 0)

include hd hn

-- The other procedure is asked about an integer that is closer to zero.
theorem parity_answers {a r : Integer} (ha : abs.Answers e root (.integer n) (.ok (.integer a)))
    (hr : dec.Answers e root (.integer a) (.ok (.integer r)))
    (h : d.Answers e root (.integer r) outcome) :
    (parity name b d.name).Answers e root (.integer n) outcome := by
  refine parity_answers_of_body he fun σ s hs => ?_
  rw [if_neg (by simpa using hn)]
  have ha := ha.gives_use he hs isUnary_abs (gives_argument hs)
  exact h.gives_use he hs hd <| hr.gives_use he hs isUnary_dec ha

theorem parity_answers_error {failure : Failure}
    (ha : abs.Answers e root (.integer n) (.error failure)) :
    (parity name b d.name).Answers e root (.integer n) (.error failure) := by
  refine parity_answers_of_body he fun σ s hs => ?_
  rw [if_neg (by simpa using hn)]
  have ha := ha.gives_use he hs isUnary_abs (gives_argument hs)
  exact gives_use_error he hs hd <| gives_use_error he hs isUnary_dec ha

end Parity

variable (root)

-- By induction on the absolute value, for both at once.
theorem even_odd_answers (he : e.keywords = .standard) (n : Integer)
    (hn : n.toInt ≠ -0x8000000000000000) :
    even.Answers e root (.integer n) (.ok (.boolean (n.toInt % 2 = 0))) ∧
      odd.Answers e root (.integer n) (.ok (.boolean (n.toInt % 2 = 1))) := by
  induction h : n.toInt.natAbs using Nat.strongRecOn generalizing n
  case ind k hi =>
    by_cases hz : n = 0
    case pos =>
      subst hz
      exact ⟨parity_answers_zero he (d := odd), parity_answers_zero he (d := even)⟩
    case neg =>
      have hne : n.toInt ≠ 0 := fun hne => hz (Int64.toInt_inj.mp hne)
      obtain ⟨a, hat, ha⟩ := exists_abs_answers root he n hn
      obtain ⟨r, hrt, hr⟩ := exists_dec_answers root he a (by omega)
      have ⟨heven, hodd⟩ := hi r.toInt.natAbs (by omega) r (by omega) rfl
      constructor
      case left =>
        have hp : decide (n.toInt % 2 = 0) = decide (r.toInt % 2 = 1) :=
          decide_eq_decide.mpr (by omega)
        rw [hp]
        exact parity_answers he isUnary_odd hz ha hr hodd
      case right =>
        have hp : decide (n.toInt % 2 = 1) = decide (r.toInt % 2 = 0) :=
          decide_eq_decide.mpr (by omega)
        rw [hp]
        exact parity_answers he isUnary_even hz ha hr heven

theorem exists_even_odd_answers (he : e.keywords = .standard) (n : Integer) :
    (∃ outcome, Decides (n.toInt % 2 = 0) n outcome ∧ even.Answers e root (.integer n) outcome) ∧
      ∃ outcome, Decides (n.toInt % 2 = 1) n outcome ∧ odd.Answers e root (.integer n) outcome := by
  by_cases hn : n.toInt = -0x8000000000000000
  case neg =>
    have ⟨heven, hodd⟩ := even_odd_answers root he n hn
    exact ⟨⟨.ok _, ⟨hn, rfl⟩, heven⟩, ⟨.ok _, ⟨hn, rfl⟩, hodd⟩⟩
  case pos =>
    have hz : n ≠ 0 := fun hz => absurd hn (by rw [hz]; decide)
    obtain ⟨failure, hk, ha⟩ := exists_abs_answers_error root he n hn
    exact ⟨⟨.error failure, ⟨hn, hk⟩, parity_answers_error he isUnary_odd hz ha⟩,
      ⟨.error failure, ⟨hn, hk⟩, parity_answers_error he isUnary_even hz ha⟩⟩

end Definition

namespace Interpreter

-- If the procedure is used on the integer in the session, there is one end to it, which is the
-- truth value or the failure. Nothing is printed, and nothing changes for the session and the root.
def Settles (i : Interpreter) (v : Service) (session : Session) (p : Procedure) (b : Bool)
    (n : Integer) : Prop :=
  ∃ outcome after, Decides b n outcome ∧
    (∀ o m', i.evaluator.Invokes p [.integer n] session.scope v.machine o m' ↔
      o = outcome ∧ m' = after) ∧
    after.printed = v.machine.printed ∧
    after.store.environment session.scope = v.machine.store.environment session.scope ∧
    after.store.environment i.root = v.machine.store.environment i.root

variable {i : Interpreter} {v : Service} {session : Session}

theorem settles_of_answers (he : i.evaluator.keywords = .standard)
    (hp : v.machine.store.Provides i.root Definition.standard) (hv : i.Serves v)
    (hs : session ∈ v.sessions) {d : Definition} (hd : d.IsUnary) (identity : Nat) {b : Bool}
    {n : Integer} {outcome : Except Failure Value} (ho : Decides b n outcome)
    (h : d.Answers i.evaluator i.root (.integer n) outcome) :
    i.Settles v session (d.procedure identity i.root) b n := by
  have hst : i.evaluator.Steady := Evaluator.steady_standard he
  have ⟨after, hends, hu⟩ := (h identity _ hp).gives_call hst (congrArg List.length hd.parameters)
    (Evaluator.gives_integer n) (s := session.scope) v.machine (.refl _)
  refine ⟨outcome, after, ho, fun o m' => ?_, hu.printed, ?_, ?_⟩
  case refine_1 =>
    rw [Evaluator.invokes_eq]
    refine ⟨fun h => h.unique hst hends, ?_⟩
    rintro ⟨rfl, rfl⟩
    exact hends
  case refine_2 =>
    obtain ⟨frame, hscope, _, hf⟩ := hv.sessions session hs
    exact environment_congr <| hu.store.frames _ (by rw [hscope]; exact hf)
  case refine_3 => exact environment_congr <| hu.store.frames _ hv.root

-- Whatever an interpreter has been asked to do, and whatever its sessions have bound, the
-- procedures of the root tell even integers from odd ones.
theorem settles_parity (sink : Sink) (retention : Retention) {buildDepth : Nat} {m m' : Machine}
    {i : Interpreter} (h : (build { sink, retention } buildDepth).run m = (.ok i, m'))
    (depth : Nat) (requests : List Request) :
    let v := (i.serve depth { machine := m' } requests).2
    ∃ even odd : Procedure,
      (v.machine.store.locals i.root).find? "even" = some (.procedure even) ∧
      (v.machine.store.locals i.root).find? "odd" = some (.procedure odd) ∧
      ∀ session ∈ v.sessions, ∀ n : Integer,
        i.Settles v session even (n.toInt % 2 = 0) n ∧
          i.Settles v session odd (n.toInt % 2 = 1) n := by
  intro v
  have hp := provides_standard h
  rw [show ({ sink, retention } : Evaluator) = .ofBuiltins "do" Builtin.entries sink retention
    from rfl] at h
  have ⟨he, hv⟩ := serves_build "do" Builtin.entries sink retention buildDepth h
  have ⟨hserves, hroot⟩ := serves_serve "do" Builtin.entries sink retention depth he hv requests
  have hp : v.machine.store.Provides i.root Definition.standard :=
    hp.of_frame_eq hserves.root (congrArg Frame.bindings hroot)
  obtain ⟨even, heven⟩ := hp.bound _ Definition.isUnary_even.mem
  obtain ⟨odd, hodd⟩ := hp.bound _ Definition.isUnary_odd.mem
  refine ⟨_, _, heven, hodd, fun session hs n => ?_⟩
  have hk : i.evaluator.keywords = .standard := congrArg Evaluator.keywords he
  have ⟨⟨_, hde, hae⟩, ⟨_, hdo, hao⟩⟩ := Definition.exists_even_odd_answers i.root hk n
  exact ⟨settles_of_answers hk hp hserves hs Definition.isUnary_even even hde hae,
    settles_of_answers hk hp hserves hs Definition.isUnary_odd odd hdo hao⟩

-- A session that gives other meanings to the names, and three integers: an odd one with a minus, an
-- even one, and the one that fails.
set_option maxRecDepth 20000 in
theorem settles_parity_redefined :
    let requests := [.session, .run (some 0) "(def zero (fn (n) true)) (def abs neg)",
      .run (some 0) "(def dec identity) (def odd (fn (n) 1)) (def even odd)"]
    ∃ i m', (build {} 9).run {} = (.ok i, m') ∧
      let v := (i.serve 9 { machine := m' } requests).2
      ∃ even odd : Procedure, ∃ session ∈ v.sessions,
        (∀ name ∈ ["zero", "abs", "dec", "even", "odd"],
          (v.machine.store.locals session.scope).contains name) ∧
        i.Settles v session even false (-7) ∧ i.Settles v session odd false 12 ∧
        i.Settles v session even true Int64.minValue := by
  intro requests
  have hl : standardLibrary = String.ofList _ := rfl
  have hs : Token.scan standardLibrary = _ := (congrArg Token.scan hl).trans (Token.scan_ofList _)
  have hrun : (((build {} 9).run {}).1.toOption.map fun i =>
      let v := (i.serve 9 { machine := ((build {} 9).run {}).2 } requests).2
      v.sessions.map fun session => ["zero", "abs", "dec", "even", "odd"].all
        (v.machine.store.locals session.scope).contains) = some [true] := by
    clear hl
    generalize standardLibrary = library at hs ⊢
    rw [run_build, Evaluator.run_run, Evaluator.read, Program.read, hs]
    decide +kernel
  clear hl hs
  rcases hb : (build {} 9).run {} with ⟨_ | i, m'⟩
  case error =>
    rw [hb] at hrun
    cases hrun
  case ok =>
    rw [hb] at hrun
    obtain ⟨session, hm, hnames⟩ := List.map_eq_singleton_iff.mp (Option.some.inj hrun)
    have hmem : session ∈ (i.serve 9 { machine := m' } requests).2.sessions := by simp [hm]
    obtain ⟨even, odd, _, _, h⟩ := settles_parity {} .whenCaptured hb 9 requests
    have h := h session hmem
    exact ⟨i, m', rfl, even, odd, session, hmem, List.all_eq_true.mp hnames, (h (-7)).left,
      (h 12).right, (h Int64.minValue).left⟩

end Interpreter
end ScopedLisp
