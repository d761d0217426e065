import ScopedLisp.Form.Program

-- How forms are made of tokens. Reading keeps the pieces of the tokens in order: at any time, the
-- lists that are open hold all of what has been read so far.

namespace ScopedLisp

-- What a token means by itself.
inductive Piece
  | opening
  | closing
  | atom (form : Form)

def Token.piece (reserved : String → Bool) (t : Token) : Except Cause Piece :=
  if t.text = "(" then .ok .opening
  else if t.text = ")" then .ok .closing
  else .atom <$> Atom.read reserved t.text

-- The token is no parenthesis, and it does not stand for a form.
def Token.IsRejected (reserved : String → Bool) (t : Token) : Prop :=
  ∃ cause, t.piece reserved = .error cause

namespace Value

mutual

-- The pieces of a form, from left to right.
def pieces : Value → List Piece
  | list items => .opening :: piecesAll items ++ [.closing]
  | v => [.atom v]

def piecesAll : List Value → List Piece
  | [] => []
  | v :: vs => v.pieces ++ piecesAll vs

end

theorem piecesAll_append (vs ws : List Value) :
    piecesAll (vs ++ ws) = piecesAll vs ++ piecesAll ws := by
  induction vs
  case nil => rfl
  case cons hi => simp [piecesAll, hi]

theorem piecesAll_singleton (v : Value) : piecesAll [v] = v.pieces :=
  List.append_nil _

-- An atom in front is a form of its own.
theorem piecesAll_eq_atom_cons {vs : List Value} {form : Form} {ps : List Piece}
    (h : piecesAll vs = .atom form :: ps) : ∃ ws, vs = form :: ws ∧ piecesAll ws = ps := by
  cases vs
  case nil => cases h
  case cons v ws =>
    cases v
    case list => simp [piecesAll, pieces] at h
    all_goals
      simp only [piecesAll, pieces, List.singleton_append, List.cons.injEq, Piece.atom.injEq] at h
      exact ⟨ws, by rw [h.left], h.right⟩

end Value

section Map

variable {ε α β : Type} {f : α → β} {x : Except ε α}

theorem map_eq_ok_iff {b : β} : f <$> x = .ok b ↔ ∃ a, x = .ok a ∧ f a = b := by
  cases x <;> simp [Functor.map, Except.map]

theorem map_eq_error_iff {e : ε} : f <$> x = .error e ↔ x = .error e := by
  cases x <;> simp [Functor.map, Except.map]

theorem bind_eq_ok_iff {g : α → Except ε β} {b : β} :
    x >>= g = .ok b ↔ ∃ a, x = .ok a ∧ g a = .ok b := by
  cases x <;> simp [bind, Except.bind]

end Map

namespace Atom

theorem integer_eq_ok {token : String} {negative : Bool} {digits : List Char} {form : Form}
    (h : integer token negative digits = .ok form) : ∃ i, form = .integer i := by
  unfold integer at h
  split at h
  case h_1 i _ => exact ⟨i, (Except.ok.inj h).symm⟩
  case h_2     => cases h

theorem text_eq_ok {body : List Char} {form : Form} (h : text body = .ok form) :
    ∃ s, form = .text s := by
  obtain ⟨content, _, rfl⟩ := map_eq_ok_iff.mp h
  exact ⟨_, rfl⟩

theorem read_eq_ok {reserved : String → Bool} {token : String} {form : Form}
    (h : read reserved token = .ok form) :
    (∃ i, form = .integer i) ∨ (∃ s, form = .text s) ∨ (∃ b, form = .boolean b) ∨
      form = .symbol token := by
  unfold read at h
  split at h
  case h_1 => exact .inl <| integer_eq_ok h
  case h_2 => exact .inr <| .inl <| text_eq_ok h
  case h_3 =>
    split at h
    case isTrue => exact .inr <| .inr <| .inl ⟨_, (Except.ok.inj h).symm⟩
    split at h
    case isTrue => exact .inr <| .inr <| .inl ⟨_, (Except.ok.inj h).symm⟩
    split at h
    case isTrue  => exact .inr <| .inr <| .inr (Except.ok.inj h).symm
    case isFalse => cases h

theorem read_congr {reserved reserved' : String → Bool} {token : String}
    (h : reserved token = reserved' token) : read reserved token = read reserved' token := by
  unfold read
  rw [h]

-- Atoms are no lists, so that they are pieces of their own.
theorem pieces_of_read {reserved : String → Bool} {token : String} {form : Form}
    (h : read reserved token = .ok form) : form.pieces = [.atom form] := by
  rcases read_eq_ok h with ⟨_, rfl⟩ | ⟨_, rfl⟩ | ⟨_, rfl⟩ | rfl <;> rfl

theorem kind_of_decode {body : List Char} {cause : Cause}
    (h : Literal.decode body = .error cause) : cause.kind = .lexical := by
  fun_induction Literal.decode body
  case case1 => cases h
  all_goals first
    | exact Except.error.inj h ▸ rfl
    | rename_i hi
      exact hi <| map_eq_error_iff.mp h

theorem kind_of_fault (token : String) : (fault token).kind = .lexical := by
  unfold fault
  split
  · split <;> rfl
  · rfl

-- Tokens are rejected for the characters that they consist of.
theorem kind_of_read {reserved : String → Bool} {token : String} {cause : Cause}
    (h : read reserved token = .error cause) : cause.kind = .lexical := by
  unfold read at h
  split at h
  case h_1 =>
    unfold integer at h
    split at h
    case h_1 => cases h
    case h_2 => exact Except.error.inj h ▸ rfl
  case h_2 => exact kind_of_decode <| map_eq_error_iff.mp h
  case h_3 =>
    split at h
    case isTrue => cases h
    split at h
    case isTrue => cases h
    split at h
    case isTrue => cases h
    case isFalse => exact Except.error.inj h ▸ kind_of_fault token

end Atom

-- The pieces of the lists that are open, innermost first. They have not been closed yet.
def OpenList.pieces : List OpenList → List Piece
  | [] => []
  | inner :: lists => pieces lists ++ .opening :: Value.piecesAll inner.items.reverse

-- What a piece does to the number of open lists.
def Piece.depth (depth : Nat) : Piece → Nat
  | opening => depth + 1
  | closing => depth - 1
  | atom _  => depth

namespace Form

variable {reserved : String → Bool} {t : Token} {rest : List Token} {lists : List OpenList}

theorem readIn_of_error {cause : Cause} (h : t.piece reserved = .error cause) :
    readIn reserved lists (t :: rest) = (.error ⟨cause, [.position t.position]⟩, rest) := by
  unfold Token.piece at h
  split at h
  case isTrue => cases h
  case isFalse ho =>
    split at h
    case isTrue => cases h
    case isFalse hc => simp [readIn, ho, hc, map_eq_error_iff.mp h, Failure.within]

-- One token further. Nothing is left of the lists when the outermost one is closed.
theorem readIn_of_ok {p : Piece} (h : t.piece reserved = .ok p) (hl : lists ≠ [])
    (hp : 1 ≤ p.depth lists.length) :
    ∃ lists', readIn reserved lists (t :: rest) = readIn reserved lists' rest ∧
      OpenList.pieces lists' = OpenList.pieces lists ++ [p] ∧
      lists'.length = p.depth lists.length := by
  obtain ⟨inner, lists, rfl⟩ := List.exists_cons_of_ne_nil hl
  unfold Token.piece at h
  split at h
  case isTrue ho =>
    obtain rfl := Except.ok.inj h
    refine ⟨⟨t.position, []⟩ :: inner :: lists, by simp [readIn, ho], ?_, rfl⟩
    simp [OpenList.pieces, Value.piecesAll]
  case isFalse ho =>
    split at h
    case isTrue hc =>
      obtain rfl := Except.ok.inj h
      cases lists
      case nil => simp [Piece.depth] at hp
      case cons outer lists =>
        let outer' := { outer with items := .list inner.items.reverse :: outer.items }
        refine ⟨outer' :: lists, by simp [readIn, hc, outer'], ?_, rfl⟩
        simp [OpenList.pieces, outer', Value.piecesAll_append, Value.piecesAll_singleton,
          Value.pieces]
    case isFalse hc =>
      obtain ⟨form, hr, rfl⟩ := map_eq_ok_iff.mp h
      let inner' := { inner with items := form :: inner.items }
      refine ⟨inner' :: lists, by simp [readIn, ho, hc, hr, inner'], ?_, rfl⟩
      simp [OpenList.pieces, inner', Value.piecesAll_append, Value.piecesAll_singleton,
        Atom.pieces_of_read hr]

-- What holds of atoms, and of lists if it holds of their items, holds of all forms that are read.
theorem forall_readIn {P : Form → Prop} {ts : List Token}
    (ha : ∀ t ∈ ts, t.text ≠ "(" → t.text ≠ ")" → ∀ form,
      Atom.read reserved t.text = .ok form → P form)
    (hl : ∀ items, (∀ item ∈ items, P item) → P (.list items))
    (h : ∀ l ∈ lists, ∀ item ∈ l.items, P item) {form : Form}
    (hr : (readIn reserved lists ts).1 = .ok form) : P form := by
  fun_induction readIn reserved lists ts
  case case1 | case3 | case6 => cases hr
  case case2 hi =>
    exact hi (List.forall_mem_cons.mp ha).right (List.forall_mem_cons.mpr ⟨by simp, h⟩) hr
  case case4 outermost =>
    obtain rfl := Except.ok.inj hr
    exact hl _ fun item hm => h outermost (by simp) item (List.mem_reverse.mp hm)
  case case5 hi =>
    simp only [List.forall_mem_cons] at h
    have ⟨hinner, houter, hlists⟩ := h
    refine hi (List.forall_mem_cons.mp ha).right
      (List.forall_mem_cons.mpr ⟨List.forall_mem_cons.mpr ⟨?_, houter⟩, hlists⟩) hr
    exact hl _ fun item hm => hinner item (List.mem_reverse.mp hm)
  case case7 ho hc _ hread =>
    obtain rfl := Except.ok.inj hr
    exact (List.forall_mem_cons.mp ha).left ho hc _ hread
  case case8 ho hc _ _ _ hread hi =>
    have ⟨hinner, hlists⟩ := List.forall_mem_cons.mp h
    have ⟨hp, ha⟩ := List.forall_mem_cons.mp ha
    exact hi ha (List.forall_mem_cons.mpr
      ⟨List.forall_mem_cons.mpr ⟨hp ho hc _ hread, hinner⟩, hlists⟩) hr

-- Reading only asks of the tokens that are no parentheses whether they are reserved.
theorem readIn_congr {reserved' : String → Bool} {ts : List Token}
    (h : ∀ t ∈ ts, t.text ≠ "(" → t.text ≠ ")" →
      Atom.read reserved t.text = Atom.read reserved' t.text) :
    readIn reserved lists ts = readIn reserved' lists ts := by
  induction ts generalizing lists
  case nil => rfl
  case cons t ts hi =>
    have ⟨ht, hts⟩ := List.forall_mem_cons.mp h
    by_cases ho : t.text = "("
    case pos => simp [readIn, ho, hi hts]
    by_cases hc : t.text = ")"
    case pos => rcases lists with _ | ⟨_, _ | _⟩ <;> simp [readIn, hc, hi hts]
    case neg => cases lists <;> simp [readIn, ho, hc, ht ho hc, hi hts]

end Form

-- The tokens that are read as atoms are those of the text, and the grouping word.
theorem Program.forall_wrapped {P : String → Prop} {grouping : String} {ts : List Token}
    (hg : P grouping) (h : ∀ t ∈ ts, P t.text) :
    ∀ t ∈ wrapped grouping ts, t.text ≠ "(" → t.text ≠ ")" → P t.text := by
  refine List.forall_mem_append.mpr ⟨?_, List.forall_mem_singleton.mpr fun _ hc => absurd rfl hc⟩
  refine List.forall_mem_cons.mpr ⟨fun ho => absurd rfl ho, ?_⟩
  exact List.forall_mem_cons.mpr ⟨fun _ _ => hg, fun t ht _ _ => h t ht⟩

theorem Program.forall_read {reserved : String → Bool} {P : Form → Prop} {grouping source : String}
    (hg : ∀ form, Atom.read reserved grouping = .ok form → P form)
    (ha : ∀ t ∈ Token.scan source, ∀ form, Atom.read reserved t.text = .ok form → P form)
    (hl : ∀ items, (∀ item ∈ items, P item) → P (.list items)) {form : Form}
    (h : read grouping reserved source = .ok form) : P form := by
  unfold read ofTokens at h
  split at h
  case h_1 => cases h
  case h_2 =>
    exact Form.forall_readIn
      (forall_wrapped (P := fun text => ∀ form, Atom.read reserved text = .ok form → P form) hg ha)
      hl (by simp) h

theorem Program.read_congr {reserved reserved' : String → Bool} {grouping source : String}
    (hg : reserved grouping = reserved' grouping)
    (h : ∀ t ∈ Token.scan source, reserved t.text = reserved' t.text) :
    read grouping reserved source = read grouping reserved' source := by
  have hw := forall_wrapped (P := fun text => Atom.read reserved text = Atom.read reserved' text)
    (Atom.read_congr hg) fun t ht => Atom.read_congr (h t ht)
  unfold read ofTokens Form.read
  rw [Form.readIn_congr hw]

end ScopedLisp
