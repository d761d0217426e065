import Mathlib.Algebra.Ring.Int.Defs
import ScopedLisp.Proofs.Evaluation.Behavior

-- What the arithmetic keywords compute, if their arguments yield integers. The result is that of
-- the whole numbers, or else a failure, and the failure arises at the first step that does not fit.
-- Main statement: `Evaluator.ends_arithmetic`.

namespace ScopedLisp

open Integer

-- The outcome is the number if the condition is met, and an arithmetic failure if it is not.
def Exact (n : Int) (p : Prop) : Except Failure Integer → Prop
  | .ok i => p ∧ i.toInt = n
  | .error failure => ¬p ∧ failure.kind = .arithmetic

namespace Exact

variable {n : Int} {p q : Prop}

theorem congr {r : Except Failure Integer} (h : Exact n p r) (hpq : p ↔ q) : Exact n q r :=
  propext hpq ▸ h

-- The range is all that matters to a single operation.
theorem orOverflow (keyword : String) (n : Int) :
    Exact n (InRange n) (Keywords.orOverflow keyword (ofInt? n)) := by
  cases h : ofInt? n
  case none   => exact ⟨ofInt?_eq_none_iff.mp h, rfl⟩
  case some i =>
    have hi := ofInt?_eq_some_iff.mp h
    exact ⟨hi ▸ inRange_toInt i, hi⟩

end Exact

-- A condition on all steps along a list, for the first step and the others.
theorem forall_step_cons {P : List Int → Int → Prop} {x : Int} {xs : List Int} :
    (∀ p d, p ++ [d] <+: x :: xs → P p d) ↔ P [] x ∧ ∀ p d, p ++ [d] <+: xs → P (x :: p) d := by
  constructor
  case mp =>
    refine fun h => ⟨h [] x (by simp), fun p d hp => h (x :: p) d ?_⟩
    exact List.cons_prefix_cons.mpr ⟨rfl, hp⟩
  case mpr =>
    rintro ⟨hn, hc⟩ (_ | ⟨y, p⟩) d hp
    case nil =>
      obtain ⟨rfl, _⟩ := List.cons_prefix_cons.mp hp
      exact hn
    case cons =>
      have ⟨hy, hp⟩ := List.cons_prefix_cons.mp hp
      exact hy ▸ hc p d hp

-- A condition on all beginnings, if it is met by the empty one.
theorem forall_step_iff_forall_prefix {P : List Int → Prop} (hn : P []) {xs : List Int} :
    (∀ p d, p ++ [d] <+: xs → P (p ++ [d])) ↔ ∀ p, p <+: xs → P p := by
  constructor
  case mp =>
    intro h p hp
    rcases p.eq_nil_or_concat with rfl | ⟨p, d, rfl⟩
    case inl => exact hn
    case inr =>
      rw [List.concat_eq_append] at hp ⊢
      exact h p d hp
  case mpr => exact fun h p d hp => h _ hp

namespace Exact

variable {op : Int → Int → Int} {step : Integer → Integer → Except Failure Integer}

-- Steps that are exact, one after the other. The first one that fails is the end.
theorem foldlM (fits : Int → Int → Prop)
    (h : ∀ a b : Integer, Exact (op a.toInt b.toInt) (fits a.toInt b.toInt) (step a b))
    (first : Integer) (is : List Integer) :
    let xs := is.map Int64.toInt
    Exact (xs.foldl op first.toInt)
      (∀ p d, p ++ [d] <+: xs → fits (p.foldl op first.toInt) d) (is.foldlM step first) := by
  induction is generalizing first
  case nil => exact ⟨by simp, rfl⟩
  case cons i is hi =>
    intro xs
    have hs := h first i
    rw [List.foldlM_cons]
    cases hr : step first i
    case error failure =>
      rw [hr] at hs
      exact ⟨fun hf => hs.left (forall_step_cons.mp hf).left, hs.right⟩
    case ok next =>
      rw [hr] at hs
      have hn := hi next
      rw [hs.right] at hn
      refine congr hn ?_
      exact Iff.trans (by simp [hs.left]) forall_step_cons.symm

-- Operations that fail only if the result does not fit.
theorem foldlM_orOverflow {keyword : String}
    (h : ∀ a b : Integer,
      step a b = Keywords.orOverflow keyword (ofInt? (op a.toInt b.toInt)))
    (first : Integer) (is : List Integer) :
    let xs := is.map Int64.toInt
    Exact (xs.foldl op first.toInt) (∀ p, p <+: xs → InRange (p.foldl op first.toInt))
      (is.foldlM step first) := by
  intro xs
  have hs (a b : Integer) : Exact (op a.toInt b.toInt) (InRange (op a.toInt b.toInt)) (step a b) :=
    h a b ▸ orOverflow keyword _
  refine congr (foldlM (fun a b => InRange (op a b)) hs first is) ?_
  have hp (p : List Int) (d : Int) :
      InRange (op (p.foldl op first.toInt) d) ↔ InRange ((p ++ [d]).foldl op first.toInt) := by
    rw [List.foldl_append, List.foldl_cons, List.foldl_nil]
  simp only [hp]
  exact forall_step_iff_forall_prefix (P := fun p => InRange (p.foldl op first.toInt))
    (inRange_toInt first)

end Exact

-- A quotient is no greater than the dividend. It is as great only if the divisor is one, with
-- either sign, and the sign matters to a single dividend.
theorem Integer.inRange_tdiv_iff (a b : Integer) :
    InRange (a.toInt.tdiv b.toInt) ↔ ¬(a.toInt = -0x8000000000000000 ∧ b.toInt = -1) := by
  have ⟨hl, hu⟩ := inRange_toInt a
  constructor
  case mp =>
    rintro ⟨_, hlt⟩ ⟨ha, hb⟩
    rw [ha, hb] at hlt
    exact absurd hlt (by decide)
  case mpr =>
    intro hn
    by_cases hb : b.toInt = -1
    case pos =>
      have ha : a.toInt ≠ -0x8000000000000000 := fun ha => hn ⟨ha, hb⟩
      rw [hb, Int.tdiv_neg, Int.tdiv_one]
      constructor <;> omega
    case neg =>
      have hq : (a.toInt.tdiv b.toInt).natAbs = a.toInt.natAbs / b.toInt.natAbs :=
        Int.natAbs_tdiv ..
      have hle := Int.natAbs_tdiv_le_natAbs a.toInt b.toInt
      suffices a.toInt.tdiv b.toInt ≠ 0x8000000000000000 by constructor <;> omega
      intro he
      by_cases h2 : 2 ≤ b.toInt.natAbs
      case pos =>
        have hh : a.toInt.natAbs / b.toInt.natAbs ≤ a.toInt.natAbs / 2 :=
          Nat.div_le_div_left h2 (by decide)
        omega
      case neg =>
        rcases (by omega : b.toInt = 0 ∨ b.toInt = 1) with h | h
        case inl =>
          rw [h, Int.tdiv_zero] at he
          cases he
        case inr =>
          rw [h, Int.tdiv_one] at he
          omega

namespace Keywords

theorem exact_sum (is : List Integer) :
    let xs := is.map Int64.toInt
    Exact xs.sum (∀ p, p <+: xs → InRange p.sum) (sum (is.map .integer)) := by
  intro xs
  have h : Exact _ _ (is.foldlM (fun total i => orOverflow "+" (add? total i)) 0) :=
    Exact.foldlM_orOverflow (fun _ _ => rfl) 0 is
  simp only [List.sum_eq_foldl]
  rw [sum, List.foldlM_map]
  exact h

theorem exact_productOf (is : List Integer) :
    let xs := is.map Int64.toInt
    Exact xs.prod (∀ p, p <+: xs → InRange p.prod) (productOf is) := by
  intro xs
  simp only [List.prod_eq_foldl]
  exact Exact.foldlM_orOverflow (fun _ _ => rfl) 1 is

theorem exact_negation (i : Integer) :
    Exact (-i.toInt) (i.toInt ≠ -0x8000000000000000) (differenceOf [i]) := by
  have ⟨hl, hu⟩ := inRange_toInt i
  refine (Exact.orOverflow "-" (-i.toInt)).congr ⟨fun h => ?_, fun h => ⟨?_, ?_⟩⟩
  case refine_1 => exact fun he => absurd h.right (by omega)
  all_goals omega

theorem exact_differenceOf (i : Integer) {is : List Integer} (hn : is ≠ []) :
    let xs := is.map Int64.toInt
    Exact (xs.foldl (· - ·) i.toInt) (∀ p, p <+: xs → InRange (p.foldl (· - ·) i.toInt))
      (differenceOf (i :: is)) := by
  obtain ⟨j, is, rfl⟩ := List.exists_cons_of_ne_nil hn
  exact Exact.foldlM_orOverflow (fun _ _ => rfl) i (j :: is)

theorem exact_quotient (a b : Integer) :
    Exact (a.toInt.tdiv b.toInt)
      (b.toInt ≠ 0 ∧ ¬(a.toInt = -0x8000000000000000 ∧ b.toInt = -1)) (quotient a b) := by
  have hz : b = 0 ↔ b.toInt = 0 := Int64.toInt_inj.symm
  unfold quotient
  by_cases hb : b = 0
  case pos =>
    rw [if_pos hb]
    exact ⟨fun h => h.left (hz.mp hb), rfl⟩
  case neg =>
    rw [if_neg hb, div?, if_neg hb]
    refine (Exact.orOverflow "/" _).congr <| (inRange_tdiv_iff a b).trans ?_
    exact (and_iff_right fun h => hb (hz.mpr h)).symm

theorem exact_quotientOf (i : Integer) (is : List Integer) :
    let xs := is.map Int64.toInt
    Exact (xs.foldl Int.tdiv i.toInt)
      (∀ p d, p ++ [d] <+: xs →
        d ≠ 0 ∧ ¬(p.foldl Int.tdiv i.toInt = -0x8000000000000000 ∧ d = -1))
      (quotientOf (i :: is)) :=
  Exact.foldlM (fun a b => b ≠ 0 ∧ ¬(a = -0x8000000000000000 ∧ b = -1)) exact_quotient i is

end Keywords

-- The forms yield the integers, one after the other.
inductive Evaluator.Yields (e : Evaluator) (s : Scope) :
    Machine → List Form → List Integer → Machine → Prop
  | nil (m : Machine) : Yields e s m [] [] m
  | cons {m m₁ m' : Machine} {form : Form} {i : Integer} {forms : List Form} {is : List Integer} :
    e.Ends s form m (.ok (.integer i)) m₁ → Yields e s m₁ forms is m' →
      Yields e s m (form :: forms) (i :: is) m'

namespace Evaluator.Yields

variable {e : Evaluator} {s : Scope} {m m' : Machine} {args : List Form} {is : List Integer}

theorem length_eq (h : e.Yields s m args is m') : args.length = is.length := by
  induction h
  case nil         => rfl
  case cons _ _ hi => rw [List.length_cons, List.length_cons, hi]

variable (he : e.Steady) {outcome : Except Failure Value} {m'' : Machine}

include he in
theorem evaluateAll (h : e.Yields s m args is m') {next : List Value → Steps}
    (hn : (next (is.map .integer)).Ends e s m' outcome m'') :
    (Steps.evaluateAll args next).Ends e s m outcome m'' := by
  induction h generalizing next
  case nil => exact hn
  case cons hf _ hi =>
    rw [Steps.evaluateAll, Steps.ends_evaluate s he]
    exact .inr ⟨_, _, hf, hi hn⟩

include he in
theorem evaluateIntegers (h : e.Yields s m args is m') (keyword : String)
    {next : List Integer → Steps} (hn : (next is).Ends e s m' outcome m'') :
    (Steps.evaluateIntegers keyword args next).Ends e s m outcome m'' := by
  induction h generalizing next
  case nil => exact hn
  case cons hf _ hi =>
    rw [Steps.evaluateIntegers, Steps.ends_evaluateInteger s he]
    exact .inr ⟨_, _, hf, hi hn⟩

end Evaluator.Yields

theorem Steps.ends_check_done (e : Evaluator) (s : Scope) (x : Except Failure Value)
    (m : Machine) : (check x done).Ends e s m x m := by
  cases x
  case ok v    => exact ⟨0, rfl⟩
  case error f => exact ⟨0, rfl⟩

theorem Steps.ends_check_integer (e : Evaluator) (s : Scope) (x : Except Failure Integer)
    (m : Machine) : (check x fun i => done (.integer i)).Ends e s m (.integer <$> x) m := by
  cases x
  case ok i    => exact ⟨0, rfl⟩
  case error f => exact ⟨0, rfl⟩

theorem Keywords.sumOf_integers (is : List Integer) :
    sumOf (is.map .integer) = .integer <$> sum (is.map .integer) := by
  cases is <;> rfl

namespace Evaluator

variable {e : Evaluator} (he : e.keywords = .standard) {s : Scope} {m m' : Machine}
  {args : List Form} {is : List Integer}

include he

theorem Yields.ends_add (h : e.Yields s m args is m') :
    e.Ends s (.list (.symbol "+" :: args)) m (.integer <$> Keywords.sum (is.map .integer)) m' := by
  rw [ends_standard s he "+" .add rfl]
  refine h.evaluateAll (steady_standard he) ?_
  rw [Keywords.sumOf_integers]
  exact Steps.ends_check_done e s _ m'

theorem Yields.ends_multiply (h : e.Yields s m args is m') :
    e.Ends s (.list (.symbol "*" :: args)) m (.integer <$> Keywords.productOf is) m' := by
  rw [ends_standard s he "*" .multiply rfl]
  exact h.evaluateIntegers (steady_standard he) "*" (Steps.ends_check_integer e s _ m')

theorem Yields.ends_subtract (h : e.Yields s m args is m') :
    e.Ends s (.list (.symbol "-" :: args)) m (.integer <$> Keywords.differenceOf is) m' := by
  rw [ends_standard s he "-" .subtract rfl]
  exact h.evaluateIntegers (steady_standard he) "-" (Steps.ends_check_integer e s _ m')

theorem Yields.ends_divide (h : e.Yields s m args is m') (hn : 2 ≤ is.length) :
    e.Ends s (.list (.symbol "/" :: args)) m (.integer <$> Keywords.quotientOf is) m' := by
  rw [ends_standard s he "/" .divide rfl, Builtin.steps, Steps.division,
    if_neg (Nat.not_lt.mpr (h.length_eq ▸ hn))]
  exact h.evaluateIntegers (steady_standard he) "/" (Steps.ends_check_integer e s _ m')

end Evaluator

-- If all arguments yield integers, then the arithmetic keywords compute as with whole numbers, or
-- end in an arithmetic failure if a result on the way does not fit. Divisions fail at the divisor
-- zero, and for the one quotient that does not fit. In any case, all arguments have been evaluated,
-- and nothing else has happened.
theorem Evaluator.ends_arithmetic (sink : Sink) (retention : Retention) {s : Scope}
    {m m' : Machine} {args : List Form} {is : List Integer}
    (h : ({ sink, retention } : Evaluator).Yields s m args is m') :
    let Computes := fun keyword n p => ∃ r, Exact n p r ∧
      ({ sink, retention } : Evaluator).Ends s (.list (.symbol keyword :: args)) m
        (.integer <$> r) m'
    let xs := is.map Int64.toInt
    Computes "+" xs.sum (∀ p, p <+: xs → InRange p.sum) ∧
      Computes "*" xs.prod (∀ p, p <+: xs → InRange p.prod) ∧
      (∀ x, xs = [x] → Computes "-" (-x) (x ≠ -0x8000000000000000)) ∧
      ∀ x ys, xs = x :: ys → ys ≠ [] →
        Computes "-" (ys.foldl (· - ·) x) (∀ p, p <+: ys → InRange (p.foldl (· - ·) x)) ∧
          Computes "/" (ys.foldl Int.tdiv x)
            (∀ p d, p ++ [d] <+: ys →
              d ≠ 0 ∧ ¬(p.foldl Int.tdiv x = -0x8000000000000000 ∧ d = -1)) := by
  intro Computes xs
  refine ⟨⟨_, Keywords.exact_sum is, h.ends_add rfl⟩,
    ⟨_, Keywords.exact_productOf is, h.ends_multiply rfl⟩, fun x hx => ?_, fun x ys hx hn => ?_⟩
  case refine_1 =>
    obtain ⟨i, rfl, rfl⟩ := List.map_eq_singleton_iff.mp hx
    exact ⟨_, Keywords.exact_negation i, h.ends_subtract rfl⟩
  case refine_2 =>
    obtain ⟨i, others, rfl, rfl, rfl⟩ := List.map_eq_cons_iff.mp hx
    have hn : others ≠ [] := fun he => hn (he ▸ rfl)
    have hl : 2 ≤ (i :: others).length := Nat.succ_le_succ (List.length_pos_iff.mpr hn)
    exact ⟨⟨_, Keywords.exact_differenceOf i hn, h.ends_subtract rfl⟩,
      ⟨_, Keywords.exact_quotientOf i others, h.ends_divide rfl hl⟩⟩

-- The greatest integer twice, and then its opposite. The sum is in range, but that of the first two
-- is not. What the first argument has bound stays bound.
theorem Evaluator.ends_arithmetic_overflowing :
    let e : Evaluator := {}
    let s : Scope := ⟨0, []⟩
    let greatest : Integer := 0x7fffffffffffffff
    let before : Machine := { store := { frames := #[{}] } }
    let bindings := NameMap.insert {} "x" (.integer greatest)
    let after : Machine := { store := { frames := #[{ bindings }] } }
    let args : List Form := [.list [.symbol "def", .symbol "x", .integer greatest], .symbol "x",
      .list [.symbol "-", .symbol "x"]]
    let is := [greatest, greatest, -greatest]
    e.Yields s before args is after ∧ (is.map Int64.toInt).sum = 0x7fffffffffffffff ∧
      ∃ failure : Failure, failure.kind = .arithmetic ∧
        e.Ends s (.list (.symbol "+" :: args)) before (.error failure) after := by
  intro e s greatest before bindings after args is
  have hy : e.Yields s before args is after :=
    .cons ⟨2, rfl⟩ <| .cons ⟨1, rfl⟩ <| .cons ⟨2, rfl⟩ <| .nil after
  refine ⟨hy, by decide, ?_⟩
  have ⟨⟨r, hr, h⟩, _⟩ := ends_arithmetic {} .whenCaptured hy
  cases r
  case ok => exact absurd (hr.left [greatest.toInt, greatest.toInt] (by decide)) (by decide)
  case error failure => exact ⟨failure, hr.right, h⟩

end ScopedLisp
