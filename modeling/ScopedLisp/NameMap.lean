-- Finite maps from names. The bindings of a frame are such a map, and so are the keywords.

namespace ScopedLisp

-- Names with what they stand for. No name occurs twice.
structure NameMap (α : Type) where
  entries  : List (String × α) := []
  distinct : (entries.map Prod.fst).Nodup := by exact List.nodup_nil

namespace NameMap

variable {α : Type}

instance : Inhabited (NameMap α) := ⟨{}⟩

def find? (m : NameMap α) (name : String) : Option α :=
  m.entries.lookup name

def contains (m : NameMap α) (name : String) : Bool :=
  (m.find? name).isSome

-- Lets the name stand for the value, whatever it stood for before.
def insert (m : NameMap α) (name : String) (a : α) : NameMap α where
  entries := (name, a) :: m.entries.filter (·.1 != name)
  distinct := by
    simp only [List.map_cons, List.nodup_cons]
    constructor
    · simp
    · exact m.distinct.sublist <| List.filter_sublist.map _

-- Later entries win over earlier ones of the same name.
def insertAll (m : NameMap α) (entries : List (String × α)) : NameMap α :=
  entries.foldl (fun m (name, a) => m.insert name a) m

def size (m : NameMap α) : Nat :=
  m.entries.length

-- The names in the order of their code points.
def names (m : NameMap α) : List String :=
  (m.entries.map Prod.fst).mergeSort (· ≤ ·)

@[simp] theorem find?_empty (name : String) : ({} : NameMap α).find? name = none :=
  rfl

theorem lookup_cons {name other : String} {a : α} {entries : List (String × α)} :
    ((name, a) :: entries).lookup other =
      if other = name then some a else entries.lookup other := by
  by_cases h : other = name <;> simp [List.lookup_cons, h, beq_eq_false_iff_ne.mpr]

theorem lookup_filter_ne {name other : String} {entries : List (String × α)} (h : other ≠ name) :
    (entries.filter (·.1 != name)).lookup other = entries.lookup other := by
  induction entries
  case nil => rfl
  case cons hd tl hi =>
    obtain ⟨n, a⟩ := hd
    by_cases hn : n = name
    case pos => simp [hn, hi, lookup_cons, h]
    case neg => simp [hn, hi, lookup_cons]

theorem find?_insert (m : NameMap α) (name other : String) (a : α) :
    (m.insert name a).find? other = if other = name then some a else m.find? other := by
  by_cases h : other = name
  case pos => simp [find?, insert, h]
  case neg => simp [find?, insert, lookup_cons, h, lookup_filter_ne]

theorem mem_names_iff {m : NameMap α} {name : String} : name ∈ m.names ↔ m.contains name := by
  simp only [names, List.mem_mergeSort, contains, find?]
  induction m.entries
  case nil => simp
  case cons hd tl hi =>
    obtain ⟨n, a⟩ := hd
    by_cases h : name = n
    case pos => simp [h]
    case neg => simp [lookup_cons, h, ←hi]

end NameMap
end ScopedLisp
