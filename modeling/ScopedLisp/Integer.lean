-- Integers of 64 bits with sign. Arithmetic is that of the whole numbers, except that a result that
-- does not fit is no result.

namespace ScopedLisp

abbrev Integer := Int64

namespace Integer

-- From -2⁶³ up to, but not including, 2⁶³.
def InRange (n : Int) : Prop :=
  -0x8000000000000000 ≤ n ∧ n < 0x8000000000000000

instance (n : Int) : Decidable (InRange n) :=
  inferInstanceAs (Decidable (_ ∧ _))

def ofInt? (n : Int) : Option Integer :=
  if InRange n then some (Int64.ofInt n) else none

theorem inRange_toInt (i : Integer) : InRange i.toInt :=
  ⟨i.le_toInt, i.toInt_lt⟩

theorem ofInt?_eq_some_iff {n : Int} {i : Integer} : ofInt? n = some i ↔ i.toInt = n := by
  simp only [ofInt?]
  split
  case isTrue h =>
    have ht := Int64.toInt_ofInt_of_le h.1 h.2
    simp only [Option.some.injEq]
    exact ⟨(· ▸ ht), fun hi => Int64.toInt_inj.mp (ht.trans hi.symm)⟩
  case isFalse h =>
    simp only [reduceCtorEq, false_iff]
    exact fun hi => h (hi ▸ inRange_toInt i)

theorem ofInt?_eq_none_iff {n : Int} : ofInt? n = none ↔ ¬InRange n := by
  simp [ofInt?]

@[simp] theorem ofInt?_toInt (i : Integer) : ofInt? i.toInt = some i :=
  ofInt?_eq_some_iff.mpr rfl

def add? (a b : Integer) : Option Integer := ofInt? (a.toInt + b.toInt)

def sub? (a b : Integer) : Option Integer := ofInt? (a.toInt - b.toInt)

def mul? (a b : Integer) : Option Integer := ofInt? (a.toInt * b.toInt)

def neg? (a : Integer) : Option Integer := ofInt? (-a.toInt)

-- The quotient, cut off toward zero. Besides the divisor zero, only the quotient 2⁶³ is left out.
def div? (a b : Integer) : Option Integer :=
  if b = 0 then none else ofInt? (a.toInt.tdiv b.toInt)

-- The value of a row of decimal digits.
def ofDigits (digits : List Char) : Nat :=
  digits.foldl (fun n c => 10 * n + (c.toNat - '0'.toNat)) 0

-- A numeral is an optional minus in front of one digit or more.
def numeral? : List Char → Option (Bool × List Char)
  | '-' :: digits => if digits ≠ [] ∧ digits.all Char.isDigit then some (true, digits) else none
  | digits => if digits ≠ [] ∧ digits.all Char.isDigit then some (false, digits) else none

def valueOf (negative : Bool) (digits : List Char) : Int :=
  if negative then -(ofDigits digits : Int) else ofDigits digits

-- The numeral of an integer, without needless digits.
def written (i : Integer) : List Char :=
  let digits := Nat.toDigits 10 i.toInt.natAbs
  if i.toInt < 0 then '-' :: digits else digits

end Integer
end ScopedLisp
