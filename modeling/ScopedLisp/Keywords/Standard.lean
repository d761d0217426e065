import ScopedLisp.Keywords.Arithmetic
import ScopedLisp.Keywords.Binding
import ScopedLisp.Keywords.Logic
import ScopedLisp.Keywords.Printing
import ScopedLisp.Keywords.Table

-- The keywords of the language.

namespace ScopedLisp

-- What the language has a keyword for.
inductive Builtin
  | define | group | procedure | bindLocally
  | conditional | disjunction | conjunction | negation
  | print
  | add | subtract | multiply | divide
  | less | greater | equal
deriving DecidableEq

namespace Builtin

def all : List Builtin :=
  [define, group, procedure, bindLocally, conditional, disjunction, conjunction, negation, print,
    add, subtract, multiply, divide, less, greater, equal]

def keyword : Builtin → String
  | define      => "def"
  | group       => "do"
  | procedure   => "fn"
  | bindLocally => "let"
  | conditional => "if"
  | disjunction => "or"
  | conjunction => "and"
  | negation    => "not"
  | print       => "print"
  | add         => "+"
  | subtract    => "-"
  | multiply    => "*"
  | divide      => "/"
  | less        => "<"
  | greater     => ">"
  | equal       => "="

def handler : Builtin → Handler
  | define      => Keywords.define
  | group       => Keywords.group
  | procedure   => Keywords.procedure
  | bindLocally => Keywords.bindLocally
  | conditional => Keywords.conditional
  | disjunction => Keywords.disjunction
  | conjunction => Keywords.conjunction
  | negation    => Keywords.negation
  | print       => Keywords.print
  | add         => Keywords.add
  | subtract    => Keywords.subtract
  | multiply    => Keywords.multiply
  | divide      => Keywords.divide
  | less        => Keywords.less
  | greater     => Keywords.greater
  | equal       => Keywords.equal

def ofKeyword? (keyword : String) : Option Builtin :=
  all.find? (·.keyword = keyword)

theorem mem_all (b : Builtin) : b ∈ all := by
  cases b <;> decide

theorem keyword_injective {b₁ b₂ : Builtin} (h : b₁.keyword = b₂.keyword) : b₁ = b₂ := by
  revert h
  cases b₁ <;> cases b₂ <;> decide

end Builtin

namespace Keywords

-- A table of builtins under names of one's choice.
def ofBuiltins (grouping : String) (entries : List (String × Builtin)) : Keywords :=
  Keywords.extend { grouping } (entries.map fun (name, b) => (name, b.handler))

-- The table of the language, in which `do` groups the forms of a program.
def standard : Keywords :=
  ofBuiltins "do" (Builtin.all.map fun b => (b.keyword, b))

end Keywords
end ScopedLisp
