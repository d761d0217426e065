import ScopedLisp.Evaluation.Context

-- Tables of keywords.

namespace ScopedLisp

-- The handlers of the keywords, and the word that groups the forms of a program.
structure Keywords where
  grouping : String
  handlers : NameMap Handler := {}

namespace Keywords

def find? (k : Keywords) (name : String) : Option Handler :=
  k.handlers.find? name

-- The name is a keyword, and cannot be bound.
def reserves (k : Keywords) (name : String) : Bool :=
  k.handlers.contains name

-- Adds keywords, or replaces their handlers.
def extend (k : Keywords) (entries : List (String × Handler)) : Keywords :=
  { k with handlers := k.handlers.insertAll entries }

-- The keywords in the order of their code points.
def names (k : Keywords) : List String :=
  k.handlers.names

-- The table as it is inspected: handlers do not show.
def inspected (k : Keywords) : String :=
  "Keywords \x7b grouping: " ++ quoted k.grouping ++ ", names: " ++ quotedList k.names ++ " \x7d"

end Keywords
end ScopedLisp
