import Mathlib.Data.List.Forall2
import ScopedLisp.Proofs.Form.Reading
import ScopedLisp.Value.Written

-- Values that are the same up to where they live. Two evaluations that make their frames and
-- procedures in different orders get values like these. What programs can tell of a value does not
-- depend on where it lives.

namespace ScopedLisp

-- Which frames and procedures of two stores correspond to each other.
structure Pairing where
  frames         : FrameId → FrameId → Prop
  procedures     : Nat → Nat → Prop
  frames_iff     : ∀ {a₁ a₂ b₁ b₂}, frames a₁ a₂ → frames b₁ b₂ → (a₁ = b₁ ↔ a₂ = b₂)
  procedures_iff : ∀ {a₁ a₂ b₁ b₂}, procedures a₁ a₂ → procedures b₁ b₂ → (a₁ = b₁ ↔ a₂ = b₂)

namespace Pairing

-- Nothing corresponds to anything.
def none : Pairing where
  frames         := fun _ _ => False
  procedures     := fun _ _ => False
  frames_iff     := False.elim
  procedures_iff := False.elim

-- The second pairing goes on from the first one.
structure Grows (ρ ρ' : Pairing) : Prop where
  frames     : ∀ a b, ρ.frames a b → ρ'.frames a b
  procedures : ∀ a b, ρ.procedures a b → ρ'.procedures a b

variable {ρ₁ ρ₂ ρ₃ : Pairing}

theorem Grows.refl (ρ : Pairing) : ρ.Grows ρ where
  frames     := fun _ _ => id
  procedures := fun _ _ => id

theorem Grows.trans (h₁ : ρ₁.Grows ρ₂) (h₂ : ρ₂.Grows ρ₃) : ρ₁.Grows ρ₃ where
  frames     := fun a b h => h₂.frames a b (h₁.frames a b h)
  procedures := fun a b h => h₂.procedures a b (h₁.procedures a b h)

end Pairing

-- How the names of one program are spelled in another one.
abbrev Spelling := String → String → Prop

-- The name is spelled the same in both programs, and no other name is spelled like it.
def Spelling.Fixes (N : Spelling) (name : String) : Prop :=
  ∀ other, (N name other → other = name) ∧ (N other name → other = name)

-- No name changes.
def Spelling.Faithful (N : Spelling) : Prop :=
  ∀ a b, N a b → a = b

theorem Spelling.fixes_eq (name : String) : Spelling.Fixes Eq name :=
  fun _ => ⟨Eq.symm, id⟩

def Scope.Alike (ρ : Pairing) (s₁ s₂ : Scope) : Prop :=
  List.Forall₂ ρ.frames s₁.chain s₂.chain

namespace Value

-- Induction over the items of lists and the bodies of procedures.
theorem induct {P : Value → Prop} (nil : P nil) (integer : ∀ i, P (integer i))
    (text : ∀ s, P (text s)) (boolean : ∀ b, P (boolean b)) (symbol : ∀ name, P (symbol name))
    (list : ∀ items, (∀ v ∈ items, P v) → P (list items))
    (procedure : ∀ identity parameters body home, P body →
      P (procedure ⟨identity, parameters, body, home⟩)) (v : Value) : P v :=
  @Value.rec P (fun p => P (.procedure p)) (fun vs => ∀ v ∈ vs, P v) nil integer text boolean
    symbol list (fun _ h => h) procedure (fun _ h => nomatch h)
    (fun _ _ hv hvs => List.forall_mem_cons.mpr ⟨hv, hvs⟩) v

mutual

-- Values that correspond to each other. The spelling `O` is that of the symbols that are seen, and
-- `N` that of the symbols in programs, which are the bodies of procedures.
def Related (ρ : Pairing) (N O : Spelling) : Value → Value → Prop
  | nil, w         => w = nil
  | integer i, w   => w = integer i
  | text s, w      => w = text s
  | boolean b, w   => w = boolean b
  | symbol a, w    => ∃ b, w = symbol b ∧ O a b
  | list vs, w     => ∃ ws, w = list ws ∧ AllRelated ρ N O vs ws
  | procedure p, w => ∃ q, w = procedure q ∧ ProcedureRelated ρ N p q

def AllRelated (ρ : Pairing) (N O : Spelling) : List Value → List Value → Prop
  | [], ws      => ws = []
  | v :: vs, ws => ∃ w ws', ws = w :: ws' ∧ v.Related ρ N O w ∧ AllRelated ρ N O vs ws'

def ProcedureRelated (ρ : Pairing) (N : Spelling) : Procedure → Procedure → Prop
  | ⟨identity, parameters, body, home⟩, q =>
    ρ.procedures identity q.identity ∧ parameters = q.parameters ∧
      (∀ name ∈ parameters, N.Fixes name) ∧ body.Related ρ N N q.body ∧ home.Alike ρ q.home

end

-- The values of two evaluations.
abbrev Alike (ρ : Pairing) (N : Spelling) : Value → Value → Prop :=
  Related ρ N Eq

-- The forms that two evaluations are about.
abbrev Matches (ρ : Pairing) (N : Spelling) : Form → Form → Prop :=
  Related ρ N N

end Value

-- Procedures that do the same, each with its own home.
structure Procedure.Alike (ρ : Pairing) (N : Spelling) (p q : Procedure) : Prop where
  identity   : ρ.procedures p.identity q.identity
  parameters : p.parameters = q.parameters
  fixed      : ∀ name ∈ p.parameters, N.Fixes name
  body       : p.body.Matches ρ N q.body
  home       : p.home.Alike ρ q.home

namespace Value

variable {ρ ρ' : Pairing} {N O : Spelling} {v w v' w' : Value}

theorem allRelated_iff {vs ws : List Value} :
    AllRelated ρ N O vs ws ↔ List.Forall₂ (Related ρ N O) vs ws := by
  induction vs generalizing ws
  case nil => simp [AllRelated]
  case cons v vs hi => cases ws <;> simp [AllRelated, hi]

theorem related_list {vs : List Value} :
    (list vs).Related ρ N O w ↔ ∃ ws, w = list ws ∧ List.Forall₂ (Related ρ N O) vs ws := by
  simp [Related, allRelated_iff]

theorem related_procedure {p : Procedure} :
    (procedure p).Related ρ N O w ↔ ∃ q, w = procedure q ∧ p.Alike ρ N q := by
  obtain ⟨identity, parameters, body, home⟩ := p
  simp only [Related, ProcedureRelated]
  constructor
  case mp  => exact fun ⟨q, he, hi, hp, hf, hb, hh⟩ => ⟨q, he, hi, hp, hf, hb, hh⟩
  case mpr => exact fun ⟨q, he, h⟩ => ⟨q, he, h.identity, h.parameters, h.fixed, h.body, h.home⟩

theorem alike_nil : nil.Alike ρ N nil :=
  rfl

theorem alike_integer (i : Integer) : (integer i).Alike ρ N (integer i) :=
  rfl

theorem alike_text (s : String) : (text s).Alike ρ N (text s) :=
  rfl

theorem alike_boolean (b : Bool) : (boolean b).Alike ρ N (boolean b) :=
  rfl

theorem related_mono (hρ : ρ.Grows ρ') : v.Related ρ N O w → v.Related ρ' N O w := by
  induction v using Value.induct generalizing O w
  case nil | integer | text | boolean | symbol => exact id
  case list vs hi =>
    simp only [related_list]
    rintro ⟨ws, rfl, h⟩
    exact ⟨ws, rfl, (List.forall₂_and_left _ _).mpr ⟨hi, h⟩ |>.imp fun _ _ h => h.left h.right⟩
  case procedure hi =>
    simp only [related_procedure]
    rintro ⟨q, rfl, h⟩
    exact ⟨q, rfl, hρ.procedures _ _ h.identity, h.parameters, h.fixed, hi h.body,
      h.home.imp hρ.frames⟩

theorem related_imp {O' : Spelling} (hO : ∀ a b, O a b → O' a b) :
    v.Related ρ N O w → v.Related ρ N O' w := by
  induction v using Value.induct generalizing w
  case nil | integer | text | boolean => exact id
  case symbol => exact fun ⟨b, he, h⟩ => ⟨b, he, hO _ _ h⟩
  case list vs hi =>
    simp only [related_list]
    rintro ⟨ws, rfl, h⟩
    exact ⟨ws, rfl, (List.forall₂_and_left _ _).mpr ⟨hi, h⟩ |>.imp fun _ _ h => h.left h.right⟩
  case procedure => exact fun h => related_procedure.mpr <| related_procedure.mp h

theorem alike_of_matches (hN : N.Faithful) (h : v.Matches ρ N w) : v.Alike ρ N w :=
  related_imp hN h

theorem kind_of_related (h : v.Related ρ N O w) : v.kind = w.kind := by
  cases v
  case nil | integer | text | boolean => exact h ▸ rfl
  case symbol | list | procedure =>
    obtain ⟨_, rfl, _⟩ := h
    rfl

theorem written_list (vs : List Value) : (list vs).written = '(' :: writtenItems vs ++ [')'] :=
  rfl

theorem written_procedure (p : Procedure) :
    (procedure p).written = "<fn (".toList ++ writtenNames p.parameters ++ ")>".toList :=
  rfl

theorem writtenItems_cons_cons (v w : Value) (vs : List Value) :
    writtenItems (v :: w :: vs) = v.written ++ ' ' :: writtenItems (w :: vs) :=
  rfl

-- Procedures do not show where they live.
theorem written_of_alike : v.Alike ρ N w → v.written = w.written := by
  induction v using Value.induct generalizing w
  case nil | integer | text | boolean => exact fun h => h ▸ rfl
  case symbol => rintro ⟨_, rfl, rfl⟩; rfl
  case procedure =>
    rw [Alike, related_procedure]
    rintro ⟨q, rfl, h⟩
    rw [written_procedure, written_procedure, h.parameters]
  case list vs hi =>
    rw [Alike, related_list]
    rintro ⟨ws, rfl, h⟩
    suffices writtenItems vs = writtenItems ws by rw [written_list, written_list, this]
    induction h
    case nil => rfl
    case cons hv hvs hs =>
      rw [List.forall_mem_cons] at hi
      have hv := hi.left hv
      have hs := hs hi.right
      cases hvs
      case nil  => exact hv
      case cons => rw [writtenItems_cons_cons, writtenItems_cons_cons, hv, hs]

theorem literal_of_alike (h : v.Alike ρ N w) : v.literal = w.literal := by
  rw [literal, literal, written_of_alike h]

theorem display_of_alike (h : v.Alike ρ N w) : v.display = w.display := by
  have hl := literal_of_alike h
  cases v
  case text => exact h ▸ rfl
  case nil | integer | boolean => exact h ▸ rfl
  case symbol | list | procedure =>
    obtain ⟨_, rfl, _⟩ := h
    exact hl

end Value

-- Lists correspond at most one way, and so do their ends.
theorem Pairing.forall₂_iff (ρ : Pairing) {ids₁ ids₂ other₁ other₂ : List FrameId}
    (h : List.Forall₂ ρ.frames ids₁ ids₂) (ho : List.Forall₂ ρ.frames other₁ other₂) :
    ids₁ = other₁ ↔ ids₂ = other₂ := by
  induction h generalizing other₁ other₂
  case nil => cases ho <;> simp
  case cons h _ hi =>
    cases ho
    case nil => simp
    case cons h' ho => simp [ρ.frames_iff h h', hi ho]

namespace Scope

variable {ρ : Pairing} {s t outer outer' : Scope}

theorem liesIn_of_alike (hs : s.Alike ρ t) (ho : outer.Alike ρ outer') :
    s.liesIn outer = t.liesIn outer' := by
  rw [Bool.eq_iff_iff, liesIn_iff, liesIn_iff]
  unfold Alike at hs
  generalize s.chain = ids₁, t.chain = ids₂ at hs
  induction hs
  case nil => 
    simp only [List.suffix_nil]
    exact ρ.forall₂_iff ho .nil
  case cons h hs hi =>
    rw [List.suffix_cons_iff, List.suffix_cons_iff, hi, ρ.forall₂_iff ho (.cons h hs)]

end Scope

namespace Value

variable {ρ : Pairing} {N O : Spelling} {v w v' w' : Value}

theorem same_of_kind_ne (h : v.kind ≠ w.kind) : v.same w = false := by
  cases v <;> cases w <;> first | rfl | exact absurd rfl h

theorem same_of_alike_of_kind_ne (hv : v.Alike ρ N v') (hw : w.Alike ρ N w')
    (h : v.kind ≠ w.kind) : v.same w = v'.same w' := by
  have h' := h
  rw [kind_of_related hv, kind_of_related hw] at h'
  rw [same_of_kind_ne h, same_of_kind_ne h']

theorem same_of_alike (hv : v.Alike ρ N v') (hw : w.Alike ρ N w') : v.same w = v'.same w' := by
  induction v using Value.induct generalizing w v' w'
  case nil | integer | text | boolean =>
    cases w <;> try (refine same_of_alike_of_kind_ne hv hw ?_; simp [kind]; done)
    obtain rfl := hv
    obtain rfl := hw
    rfl
  case symbol =>
    cases w <;> try (refine same_of_alike_of_kind_ne hv hw ?_; simp [kind]; done)
    obtain ⟨_, rfl, rfl⟩ := hv
    obtain ⟨_, rfl, rfl⟩ := hw
    rfl
  case procedure =>
    cases w <;> try (refine same_of_alike_of_kind_ne hv hw ?_; simp [kind]; done)
    obtain ⟨p', rfl, hp⟩ := related_procedure.mp hv
    obtain ⟨q', rfl, hq⟩ := related_procedure.mp hw
    simpa [same, beq_eq_beq] using ρ.procedures_iff hp.identity hq.identity
  case list vs hi =>
    cases w <;> try (refine same_of_alike_of_kind_ne hv hw ?_; simp [kind]; done)
    rename_i ws
    obtain ⟨vs', rfl, hvs⟩ := related_list.mp hv
    obtain ⟨ws', rfl, hws⟩ := related_list.mp hw
    suffices sameItems vs ws = sameItems vs' ws' from this
    clear hv hw
    induction hvs generalizing ws ws'
    case nil => cases hws <;> rfl
    case cons hv _ hs =>
      rw [List.forall_mem_cons] at hi
      cases hws
      case nil => rfl
      case cons hw hws => exact congr_arg₂ and (hi.left hv hw) (hs hi.right _ _ hws)

theorem captures_of_related {s t : Scope} (h : v.Related ρ N O w) (hs : s.Alike ρ t) :
    v.captures s = w.captures t := by
  induction v using Value.induct generalizing w
  case nil | integer | text | boolean => obtain rfl := h; rfl
  case symbol => obtain ⟨_, rfl, _⟩ := h; rfl
  case procedure =>
    rw [related_procedure] at h
    obtain ⟨q, rfl, h⟩ := h
    exact Scope.liesIn_of_alike h.home hs
  case list vs hi =>
    rw [related_list] at h
    obtain ⟨ws, rfl, h⟩ := h
    suffices anyCaptures s vs = anyCaptures t ws from this
    induction h
    case nil => rfl
    case cons hv _ hs =>
      rw [List.forall_mem_cons] at hi
      exact congr_arg₂ or (hi.left hv) (hs hi.right)

-- Forms without procedures match themselves, whatever corresponds to each other.
theorem matches_self_of_read (hN : ∀ name, N name name) {reserved : String → Bool}
    {grouping source : String} {form : Form}
    (h : Program.read grouping reserved source = .ok form) (ρ : Pairing) :
    form.Matches ρ N form := by
  have ha {token : String} {form : Form} (h : Atom.read reserved token = .ok form) :
      form.Matches ρ N form := by
    rcases Atom.read_eq_ok h with ⟨_, rfl⟩ | ⟨_, rfl⟩ | ⟨_, rfl⟩ | rfl
    case inr.inr.inr => exact ⟨token, rfl, hN token⟩
    all_goals rfl
  refine Program.forall_read (P := fun form => form.Matches ρ N form) (fun _ => ha)
    (fun _ _ _ => ha) (fun items h => ?_) h
  exact related_list.mpr ⟨items, rfl, List.forall₂_same.mpr h⟩

mutual

-- The value without what sets its procedures apart from others that look the same.
def anonymous : Value → Value
  | list vs => list (anonymousAll vs)
  | procedure ⟨_, parameters, body, _⟩ => procedure ⟨0, parameters, body.anonymous, ⟨0, []⟩⟩
  | v => v

def anonymousAll : List Value → List Value
  | [] => []
  | v :: vs => v.anonymous :: anonymousAll vs

end

theorem anonymousAll_eq_map (vs : List Value) : anonymousAll vs = vs.map anonymous := by
  induction vs
  case nil => rfl
  case cons hi => rw [anonymousAll, hi, List.map_cons]

theorem anonymous_of_alike : v.Alike ρ Eq w → v.anonymous = w.anonymous := by
  induction v using Value.induct generalizing w
  case nil | integer | text | boolean => rintro rfl; rfl
  case symbol => rintro ⟨_, rfl, rfl⟩; rfl
  case list vs hi =>
    rw [Alike, related_list]
    rintro ⟨ws, rfl, h⟩
    suffices vs.map anonymous = ws.map anonymous by
      rw [anonymous, anonymous, anonymousAll_eq_map, anonymousAll_eq_map, this]
    induction h
    case nil => rfl
    case cons hv _ hs =>
      rw [List.forall_mem_cons] at hi
      rw [List.map_cons, List.map_cons, hi.left hv, hs hi.right]
  case procedure identity parameters body home hi =>
    rw [Alike, related_procedure]
    rintro ⟨⟨_, _, body', _⟩, rfl, h⟩
    obtain rfl := h.parameters
    have hb : body.anonymous = body'.anonymous := hi h.body
    simp only [anonymous, hb]

end Value
end ScopedLisp
