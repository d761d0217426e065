import ScopedLisp.Proofs.Evaluation.BuiltinsAlike
import ScopedLisp.Proofs.Evaluation.Extended
import ScopedLisp.Proofs.Evaluation.FirstOrder

-- Keywords under other names. A renaming says which name each builtin gets. Programs go along: what
-- stands for a builtin in one table stands for it in the other one, too.

namespace ScopedLisp

-- New names for the keywords, a different one for each.
structure Renaming where
  name      : Builtin → String
  injective : Function.Injective name

namespace Value

mutual

-- The form with other names. Procedures stay what they are.
def renamed (f : String → String) : Value → Value
  | symbol name => symbol (f name)
  | list items => list (renamedAll f items)
  | v => v

def renamedAll (f : String → String) : List Value → List Value
  | [] => []
  | v :: vs => v.renamed f :: renamedAll f vs

end

theorem renamedAll_eq_map (f : String → String) (vs : List Value) :
    renamedAll f vs = vs.map (renamed f) := by
  induction vs
  case nil => rfl
  case cons hi => rw [renamedAll, hi, List.map_cons]

end Value

namespace Renaming

variable (r : Renaming)

-- What becomes of a name in a program.
def apply (name : String) : String :=
  match Builtin.ofKeyword? name with
  | some b => r.name b
  | none => name

def entries : List (String × Builtin) :=
  Builtin.all.map fun b => (r.name b, b)

-- The table of the language under the new names. Also the word that groups programs is renamed.
def keywords : Keywords :=
  .ofBuiltins (r.name .group) r.entries

-- The name is no keyword, but one of the new names.
def Takes (name : String) : Prop :=
  (∀ b : Builtin, b.keyword ≠ name) ∧ ∃ b, r.name b = name

-- Programs that may be renamed: no name is mixed up with a keyword.
structure Admits (form : Form) : Prop where
  code   : form.IsCode
  avoids : form.Avoids r.Takes

-- Keywords are spelled by their new names. Other names stay, unless they are taken.
inductive Spells : String → String → Prop
  | keyword (b : Builtin) : Spells b.keyword (r.name b)
  | name {name : String} (hk : ∀ b : Builtin, b.keyword ≠ name) (hn : ∀ b, r.name b ≠ name) :
    Spells name name

end Renaming

namespace Builtin

theorem ofKeyword?_keyword (b : Builtin) : ofKeyword? b.keyword = some b := by
  cases b <;> decide

theorem ofKeyword?_eq_none {name : String} (h : ∀ b : Builtin, b.keyword ≠ name) :
    ofKeyword? name = none :=
  List.find?_eq_none.mpr fun b _ hb => h b (of_decide_eq_true hb)

variable {name : Builtin → String}

-- Different names do not get in each other's way.
theorem find?_insertAll (hi : Function.Injective name) {bs : List Builtin} {b : Builtin}
    (hb : b ∈ bs) (m : NameMap Builtin) :
    (m.insertAll (bs.map fun b => (name b, b))).find? (name b) = some b := by
  induction bs generalizing m
  case nil => cases hb
  case cons c cs ih =>
    by_cases hm : b ∈ cs
    case pos => exact ih hm _
    case neg =>
      obtain rfl := (List.mem_cons.mp hb).resolve_right hm
      change ((m.insert (name b) b).insertAll (cs.map fun b => (name b, b))).find? _ = _
      have hn : ∀ entry ∈ cs.map fun b => (name b, b), entry.1 ≠ name b :=
        List.forall_mem_map.mpr fun c hc he => hm <| hi he ▸ hc
      rw [NameMap.find?_insertAll_of_not_mem hn, NameMap.find?_insert, if_pos rfl]

theorem find?_map (hi : Function.Injective name) (b : Builtin) :
    find? (all.map fun b => (name b, b)) (name b) = some b :=
  find?_insertAll hi b.mem_all {}

theorem find?_map_eq_none {other : String} (h : ∀ b, name b ≠ other) :
    find? (all.map fun b => (name b, b)) other = none :=
  NameMap.find?_insertAll_of_not_mem <| List.forall_mem_map.mpr fun b _ => h b

theorem find?_keyword (b : Builtin) : find? (all.map fun b => (b.keyword, b)) b.keyword = some b :=
  find?_map (fun _ _ => keyword_injective) b

end Builtin

namespace Renaming

variable {r : Renaming}

-- What is no keyword under either name stays what it is.
theorem fixes {name : String} (hk : ∀ b : Builtin, b.keyword ≠ name) (hn : ∀ b, r.name b ≠ name) :
    Spelling.Fixes r.Spells name := by
  refine fun other => ⟨fun h => ?_, fun h => ?_⟩
  all_goals cases h
  case refine_1.keyword b => exact absurd rfl (hk b)
  case refine_2.keyword b => exact absurd rfl (hn b)
  all_goals rfl

-- What a keyword stands for in the table of the language, its new name stands for in the renamed one.
theorem translates (r : Renaming) :
    Spelling.Translates r.Spells (Builtin.find? (Builtin.all.map fun b => (b.keyword, b)))
      (Builtin.find? r.entries) where
  builtin h := by
    cases h
    case keyword b  => exact (Builtin.find?_keyword b).trans (Builtin.find?_map r.injective b).symm
    case name hk hn => exact (Builtin.find?_map_eq_none hk).trans (Builtin.find?_map_eq_none hn).symm
  fixes h hb := by
    cases h
    case keyword b  => exact absurd ((Builtin.find?_keyword b).symm.trans hb) nofun
    case name hk hn => exact ⟨rfl, fixes hk hn⟩

theorem spells_apply {name : String} (h : ¬r.Takes name) : r.Spells name (r.apply name) := by
  unfold apply
  by_cases hk : ∃ b : Builtin, b.keyword = name
  case pos =>
    have ⟨b, hb⟩ := hk
    rw [← hb, Builtin.ofKeyword?_keyword]
    exact .keyword b
  case neg =>
    have hk := not_exists.mp hk
    rw [Builtin.ofKeyword?_eq_none hk]
    exact .name hk fun b hb => h ⟨hk, b, hb⟩

-- A form and the renamed one match, whatever corresponds to each other.
theorem Admits.matches_renamed {form : Form} (h : r.Admits form) (ρ : Pairing) :
    form.Matches ρ r.Spells (form.renamed r.apply) := by
  have ⟨hc, ha⟩ := h
  clear h
  induction hc
  case nil | integer | text | boolean => rfl
  case symbol name => exact ⟨_, rfl, spells_apply <| Value.avoids_symbol.mp ha⟩
  case list items _ hi =>
    have ha := Value.avoids_list.mp ha
    refine Value.related_list.mpr ⟨_, rfl, ?_⟩
    rw [Value.renamedAll_eq_map, List.forall₂_map_right_iff, List.forall₂_same]
    exact fun item hm => hi item hm (ha item hm)

end Renaming
end ScopedLisp
