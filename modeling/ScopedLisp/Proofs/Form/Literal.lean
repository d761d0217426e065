import ScopedLisp.Proofs.Form.Balance
import ScopedLisp.Proofs.Token.Scan
import ScopedLisp.Proofs.Value.Alike
import ScopedLisp.Proofs.Value.Written

-- Values are read back from what is written for them.
-- Main statement: `Program.read_literal`.

namespace ScopedLisp

section OneLine

variable {cs : List Char}

theorem onOneLine_eq (h : '\n' ∉ cs) : onOneLine cs = cs := by
  have hi : ∀ c ∈ cs, (if c = '\n' then ' ' else c) = id c := fun c hc =>
    if_neg fun he : c = '\n' => h (he ▸ hc)
  exact (List.map_congr_left hi).trans (List.map_id _)

theorem lineFeed_not_mem_onOneLine (cs : List Char) : '\n' ∉ onOneLine cs := by
  intro h
  obtain ⟨c, _, hc⟩ := List.mem_map.mp h
  split at hc
  case isTrue    => exact absurd hc (by decide)
  case isFalse h => exact h hc

theorem inside_onOneLine (h : Inside cs) : Inside (onOneLine cs) := by
  induction h
  case nil         => exact .nil
  case escape hi   => exact .escape hi
  case char hq hb _ hi =>
    rw [onOneLine, List.map_cons]
    split
    case isTrue  => exact .char (by decide) (by decide) hi
    case isFalse => exact .char hq hb hi

theorem word_onOneLine (h : Word cs) : Word (onOneLine cs) := by
  induction h
  case nil => exact .nil
  case plain c cs hc _ hi =>
    have hn := Scanner.ne_lineFeed_of_not_blank (Scanner.isPlain_iff.mp hc).left
    rw [onOneLine, List.map_cons, if_neg hn]
    exact .plain hc hi
  case span body cs hb _ hi =>
    have h := Word.span (inside_onOneLine hb) hi
    simpa [onOneLine] using h

theorem unclosedWord_onOneLine (h : UnclosedWord cs) : UnclosedWord (onOneLine cs) := by
  obtain ⟨word, body, last, hw, hb, hl, rfl⟩ := h
  refine ⟨_, _, last, word_onOneLine hw, inside_onOneLine hb, hl, ?_⟩
  rcases hl with rfl | rfl <;> simp [onOneLine]

theorem ofList_ne_parenthesis (h : ¬IsParenthesis cs) :
    String.ofList cs ≠ "(" ∧ String.ofList cs ≠ ")" :=
  ⟨fun he => h (.inl (String.ofList_injective he)), fun he => h (.inr (String.ofList_injective he))⟩

end OneLine

namespace Value

mutual

-- The parts of what is written for the value, with the gap behind it.
def parts (gap : List Char) : Value → List Part
  | list items => ⟨['('], []⟩ :: (partsAll items ++ [⟨[')'], gap⟩])
  | v => [⟨v.written, gap⟩]

def partsAll : List Value → List Part
  | [] => []
  | [v] => v.parts []
  | v :: w :: vs => v.parts [' '] ++ partsAll (w :: vs)

end

-- All atoms of the value read back.
inductive Legible (reserved : String → Bool) : Value → Prop
  | atom {v : Value} (h : v.ReadsBack reserved) : Legible reserved v
  | list {items : List Value} (h : ∀ item ∈ items, Legible reserved item) :
    Legible reserved (list items)

-- Integers, texts, truth values, symbols with names that can be read, and lists of such values.
inductive Readable (reserved : String → Bool) : Value → Prop
  | integer (i : Integer) : Readable reserved (integer i)
  | text (s : String) : Readable reserved (text s)
  | boolean (b : Bool) : Readable reserved (boolean b)
  | symbol {name : String} (h : Atom.ReadableName reserved name) : Readable reserved (symbol name)
  | list {items : List Value} (h : ∀ item ∈ items, Readable reserved item) :
    Readable reserved (list items)

variable {reserved : String → Bool} {v : Value}

theorem Readable.legible (h : v.Readable reserved) : v.Legible reserved := by
  induction h
  case integer i => exact .atom (Atom.readsBack_integer i)
  case text s    => exact .atom (Atom.readsBack_text s)
  case boolean b => exact .atom (Atom.readsBack_boolean b)
  case symbol h  => exact .atom (Atom.readsBack_symbol h)
  case list hi   => exact .list hi

end Value

namespace Part

theorem textOf_append (ps qs : List Part) : textOf (ps ++ qs) = textOf ps ++ textOf qs :=
  List.flatMap_append

theorem textOf_singleton (p : Part) : textOf [p] = p.text :=
  List.append_nil _

theorem tokens_append (before : List Char) (ps qs : List Part) :
    tokens before (ps ++ qs) = tokens before ps ++ tokens (before ++ textOf ps) qs := by
  induction ps generalizing before
  case nil => simp [tokens, textOf]
  case cons p ps hi => simp [tokens, textOf, hi]

end Part

-- Tokens that are read as forms, wherever they stand in a list.
structure Token.Spells (reserved : String → Bool) (ts : List Token) (forms : List Form) : Prop where
  readIn : ∀ inner lists rest, Form.readIn reserved (inner :: lists) (ts ++ rest) =
    Form.readIn reserved ({ inner with items := forms.reverse ++ inner.items } :: lists) rest
  unmatched? : ∀ depth rest, Program.unmatched? depth (ts ++ rest) = Program.unmatched? depth rest

namespace Token.Spells

variable {reserved : String → Bool} {t : Token} {ts us : List Token} {forms items : List Form}

theorem nil : Spells reserved [] [] where
  readIn     := fun _ _ _ => rfl
  unmatched? := fun _ _ => rfl

theorem append (h₁ : Spells reserved ts forms) (h₂ : Spells reserved us items) :
    Spells reserved (ts ++ us) (forms ++ items) where
  readIn     := fun inner lists rest => by
    rw [List.append_assoc, h₁.readIn, h₂.readIn, List.reverse_append, List.append_assoc]
  unmatched? := fun depth rest => by rw [List.append_assoc, h₁.unmatched?, h₂.unmatched?]

theorem atom {form : Form} (ho : t.text ≠ "(") (hc : t.text ≠ ")")
    (h : Atom.read reserved t.text = .ok form) : Spells reserved [t] [form] where
  readIn     := fun inner lists rest => by simp [Form.readIn, ho, hc, h]
  unmatched? := fun depth rest => by simp [Program.unmatched?, ho, hc]

theorem list (h : Spells reserved ts items) {opening closing : Token} (ho : opening.text = "(")
    (hc : closing.text = ")") : Spells reserved (opening :: (ts ++ [closing])) [.list items] where
  readIn     := fun inner lists rest => by
    have hs : Form.readIn reserved (inner :: lists) (opening :: (ts ++ closing :: rest)) =
        Form.readIn reserved (⟨opening.position, []⟩ :: inner :: lists)
          (ts ++ closing :: rest) := by
      simp [Form.readIn, ho]
    rw [List.cons_append, List.append_assoc, List.singleton_append, hs, h.readIn]
    simp [Form.readIn, hc]
  unmatched? := fun depth rest => by
    have hs : Program.unmatched? depth (opening :: (ts ++ closing :: rest)) =
        Program.unmatched? (depth + 1) (ts ++ closing :: rest) := by
      simp [Program.unmatched?, ho]
    rw [List.cons_append, List.append_assoc, List.singleton_append, hs, h.unmatched?]
    simp [Program.unmatched?, hc]

end Token.Spells

namespace Value

variable {reserved : String → Bool} {v : Value} {items : List Value}

theorem ReadsBack.parts_eq (h : v.ReadsBack reserved) (gap : List Char) :
    v.parts gap = [⟨v.written, gap⟩] := by
  cases v
  case list items =>
    have ⟨c, cs, hc, hs⟩ := Scanner.exists_startsWord h.word h.ne_nil
    obtain rfl : '(' = c := (List.cons.inj hc).left
    exact absurd hs (by decide)
  all_goals rfl

theorem textOf_partsAll (h : ∀ v ∈ items, ∀ gap, Part.textOf (v.parts gap) = v.written ++ gap) :
    Part.textOf (partsAll items) = writtenItems items := by
  induction items
  case nil => rfl
  case cons v vs hi =>
    have ⟨hv, hvs⟩ := List.forall_mem_cons.mp h
    cases vs
    case nil  => exact (hv []).trans (List.append_nil _)
    case cons => simp [partsAll, Part.textOf_append, hv, hi hvs, writtenItems_cons_cons]

theorem Legible.textOf_parts (h : v.Legible reserved) (gap : List Char) :
    Part.textOf (v.parts gap) = v.written ++ gap := by
  induction h generalizing gap
  case atom h => rw [h.parts_eq, Part.textOf_singleton, Part.text]
  case list items _ hi =>
    have hp : Part.textOf ((Value.list items).parts gap) =
        '(' :: (Part.textOf (partsAll items) ++ ')' :: gap) := by
      simp [parts, Part.textOf, Part.text]
    rw [hp, textOf_partsAll hi, written_list]
    simp

-- The parts may stand in front of others. Without a gap in between, the next one has to be a
-- parenthesis.
def FitsInFront (v : Value) : Prop :=
  ∀ gap rest, Part.Proper rest → Gap (Part.textOf rest) gap →
    (gap = [] → ∀ q ∈ rest.head?, IsParenthesis q.lexeme) → Part.Proper (v.parts gap ++ rest)

theorem proper_partsAll_append (h : ∀ v ∈ items, v.FitsInFront) {p : Part} {rest : List Part}
    (hl : IsParenthesis p.lexeme) (hp : Part.Proper (p :: rest)) :
    Part.Proper (partsAll items ++ p :: rest) := by
  induction items
  case nil => exact hp
  case cons v vs hi =>
    have ⟨hv, hvs⟩ := List.forall_mem_cons.mp h
    cases vs
    case nil  => exact hv [] _ hp .nil fun _ q hq => Option.some.inj hq ▸ hl
    case cons w vs =>
      rw [partsAll, List.append_assoc]
      exact hv [' '] _ (hi hvs) (.blank (by decide) .nil) nofun

theorem Legible.fitsInFront (h : v.Legible reserved) : v.FitsInFront := by
  induction h
  case atom h =>
    intro gap rest hp hg ha
    rw [h.parts_eq]
    exact .cons (.inr ⟨h.ne_nil, h.word⟩) hg (fun hn q hq => .inr (ha hn q hq)) hp
  case list items _ hi =>
    intro gap rest hp hg _
    have hc : Part.Proper (⟨[')'], gap⟩ :: rest) :=
      .cons (.inl (.inr rfl)) hg (fun _ _ _ => .inl (.inr rfl)) hp
    rw [parts, List.cons_append, List.append_assoc]
    exact .cons (.inl (.inl rfl)) .nil (fun _ _ _ => .inl (.inl rfl)) <|
      proper_partsAll_append hi (.inr rfl) hc

theorem spells_partsAll
    (h : ∀ v ∈ items, ∀ before gap, Token.Spells reserved (Part.tokens before (v.parts gap)) [v])
    (before : List Char) : Token.Spells reserved (Part.tokens before (partsAll items)) items := by
  induction items generalizing before
  case nil => exact .nil
  case cons v vs hi =>
    have ⟨hv, hvs⟩ := List.forall_mem_cons.mp h
    cases vs
    case nil  => exact hv before []
    case cons w vs =>
      rw [partsAll, Part.tokens_append]
      exact (hv before [' ']).append <| hi hvs _

theorem Legible.spells_parts (h : v.Legible reserved) (before gap : List Char) :
    Token.Spells reserved (Part.tokens before (v.parts gap)) [v] := by
  induction h generalizing before gap
  case atom h =>
    have hp := Scanner.not_isParenthesis <| Scanner.exists_startsWord h.word h.ne_nil
    have ⟨ho, hc⟩ := ofList_ne_parenthesis hp
    rw [h.parts_eq, Part.tokens, Part.token, onOneLine_eq h.oneLine]
    exact .atom ho hc h.read
  case list items _ hi =>
    rw [parts, Part.tokens, Part.tokens_append]
    exact .list (spells_partsAll hi _) rfl rfl

end Value

namespace Program

variable {reserved : String → Bool} {grouping : String} {g : Form}

section

variable (hg : Atom.read reserved grouping = .ok g) (ho : grouping ≠ "(") (hc : grouping ≠ ")")

include hg ho hc

theorem ofTokens_of_spells {ts : List Token} {forms : List Form}
    (h : Token.Spells reserved ts forms) :
    ofTokens grouping reserved ts = .ok (.list (g :: forms)) := by
  have hu : unmatched? 0 ts = none := by
    have := h.unmatched? 0 []
    rwa [List.append_nil] at this
  have hs : Token.Spells reserved (⟨grouping, .start⟩ :: ts) (g :: forms) :=
    .append (.atom ho hc hg) h
  have hn := unmatched?_eq_none_iff_not_overclosed.mp hu
  rw [ofTokens_eq_readIn hn, hs.readIn]
  simp [Form.readIn]

-- The value is read from its literal, if its parts are those of a text, and their tokens spell it.
theorem read_of_proper {v : Value} {parts : List Part} (hp : Part.Proper parts)
    (ht : Part.textOf parts = v.written) (h : Token.Spells reserved (Part.tokens [] parts) [v]) :
    read grouping reserved v.literal = .ok (.list [g, v]) := by
  have hs := Division.scan_text (d := ⟨[], parts⟩) ⟨.nil, hp⟩
  rw [Division.text, List.nil_append, ht] at hs
  rw [read, Value.literal, hs]
  exact ofTokens_of_spells hg ho hc h

theorem read_of_legible {v : Value} (h : v.Legible reserved) :
    read grouping reserved v.literal = .ok (.list [g, v]) := by
  have hp := h.fitsInFront [] [] .nil .nil fun _ _ hq => nomatch hq
  have ht := h.textOf_parts []
  rw [List.append_nil] at hp ht
  exact read_of_proper hg ho hc hp ht (h.spells_parts [] [])

end
end Program

-- The piece is a parenthesis, or an atom that reads back.
def Piece.Legible (reserved : String → Bool) : Piece → Prop
  | atom form => form.ReadsBack reserved
  | _ => True

namespace Value

variable {reserved : String → Bool}

mutual

theorem legible_of_pieces {v : Value} (h : ∀ p ∈ v.pieces, p.Legible reserved) :
    v.Legible reserved := by
  cases v
  case list items =>
    rw [pieces] at h
    exact .list <| legible_of_piecesAll fun p hp => h p (by simp [hp])
  all_goals exact .atom <| h (.atom _) (by simp [pieces])

theorem legible_of_piecesAll {items : List Value} (h : ∀ p ∈ piecesAll items, p.Legible reserved) :
    ∀ v ∈ items, v.Legible reserved := by
  cases items
  case nil => nofun
  case cons v vs =>
    rw [piecesAll, List.forall_mem_append] at h
    exact List.forall_mem_cons.mpr ⟨legible_of_pieces h.left, legible_of_piecesAll h.right⟩

end

-- An atom behind all else is a form of its own.
theorem piecesAll_eq_append_atom {vs : List Value} {form : Form} {ps : List Piece}
    (h : piecesAll vs = ps ++ [.atom form]) : ∃ ws, vs = ws ++ [form] ∧ piecesAll ws = ps := by
  rcases List.eq_nil_or_concat' vs with rfl | ⟨ws, v, rfl⟩
  case inl => simp [piecesAll] at h
  case inr =>
    rw [piecesAll_append, piecesAll_singleton] at h
    cases v
    case list items =>
      rw [pieces, ← List.append_assoc] at h
      cases List.append_inj_right' h rfl
    all_goals
      have ⟨hws, hv⟩ := List.append_inj' h rfl
      obtain rfl := Piece.atom.inj <| List.singleton_inj.mp hv
      exact ⟨ws, rfl, hws⟩

end Value

section Tokens

variable {reserved : String → Bool}

theorem Token.piece_eq_ok {t : Token} {p : Piece} (h : t.piece reserved = .ok p) :
    t.text = "(" ∧ p = .opening ∨ t.text = ")" ∧ p = .closing ∨
      t.text ≠ "(" ∧ t.text ≠ ")" ∧ ∃ form, Atom.read reserved t.text = .ok form ∧
        p = .atom form := by
  unfold piece at h
  split at h
  case isTrue ho => exact .inl ⟨ho, (Except.ok.inj h).symm⟩
  split at h
  case isTrue hc => exact .inr <| .inl ⟨hc, (Except.ok.inj h).symm⟩
  case isFalse ho hc =>
    obtain ⟨form, hr, rfl⟩ := map_eq_ok_iff.mp h
    exact .inr <| .inr ⟨ho, hc, form, hr, rfl⟩

theorem Token.piece_eq_atom {t : Token} {form : Form} (h : t.piece reserved = .ok (.atom form)) :
    t.text ≠ "(" ∧ t.text ≠ ")" ∧ Atom.read reserved t.text = .ok form := by
  rcases piece_eq_ok h with ⟨_, hp⟩ | ⟨_, hp⟩ | ⟨ho, hc, _, hr, hp⟩
  case inl | inr.inl => cases hp
  case inr.inr       => exact ⟨ho, hc, Piece.atom.inj hp ▸ hr⟩

namespace Part

theorem legible_of_piece {p : Part} (hl : IsLexeme p.lexeme) {before : List Char} {q : Piece}
    (h : (p.token before).piece reserved = .ok q) : q.Legible reserved := by
  cases q
  case opening | closing => trivial
  case atom form =>
    have ⟨ho, hc, hr⟩ := Token.piece_eq_atom h
    rcases hl with (hl | hl) | ⟨hn, hw⟩
    case inl.inl => exact absurd (by rw [token, hl]; rfl) ho
    case inl.inr => exact absurd (by rw [token, hl]; rfl) hc
    case inr =>
      refine Atom.readsBack_of_read hr ?_ ?_ ?_
      case refine_1 => simpa [token] using word_onOneLine hw
      case refine_2 => simpa [token, onOneLine, ← String.toList_inj] using hn
      case refine_3 => simpa [token] using lineFeed_not_mem_onOneLine _

theorem exists_atom_of_unclosed {p : Part} (hu : UnclosedWord p.lexeme) {before : List Char}
    {q : Piece} (h : (p.token before).piece reserved = .ok q) : ∃ form, q = .atom form := by
  have hp := Scanner.not_isParenthesis <|
    Scanner.exists_startsWord_of_unclosed (unclosedWord_onOneLine hu)
  have ⟨ho, hc⟩ := ofList_ne_parenthesis hp
  rw [Token.piece, token, if_neg ho, if_neg hc] at h
  obtain ⟨form, _, rfl⟩ := map_eq_ok_iff.mp h
  exact ⟨form, rfl⟩

theorem legible_of_pieces {parts : List Part} (hl : ∀ p ∈ parts, IsLexeme p.lexeme)
    {before : List Char} {ps : List Piece}
    (h : (tokens before parts).map (·.piece reserved) = ps.map .ok) :
    ∀ q ∈ ps, q.Legible reserved := by
  induction parts generalizing before ps
  case nil =>
    obtain rfl : ps = [] := by simpa [tokens] using h.symm
    exact List.forall_mem_nil _
  case cons p parts hi =>
    obtain ⟨hp, hparts⟩ := List.forall_mem_cons.mp hl
    obtain ⟨q, qs, rfl⟩ := List.exists_cons_of_ne_nil (l := ps) (by rintro rfl; cases h)
    obtain ⟨hq, hqs⟩ := List.cons.inj h
    exact List.forall_mem_cons.mpr ⟨legible_of_piece hp hq, hi hparts hqs⟩

-- Only the last part may be something else than a lexeme.
theorem Proper.lexemes {parts : List Part} (h : Proper parts) :
    (∀ p ∈ parts, IsLexeme p.lexeme) ∨
      ∃ front lexeme, parts = front ++ [⟨lexeme, []⟩] ∧ (∀ p ∈ front, IsLexeme p.lexeme) ∧
        UnclosedWord lexeme := by
  induction h
  case nil => exact .inl nofun
  case unclosed lexeme h => exact .inr ⟨[], lexeme, rfl, nofun, h⟩
  case cons p parts hl _ _ _ hi =>
    rcases hi with hi | ⟨front, lexeme, rfl, hf, hu⟩
    case inl => exact .inl <| List.forall_mem_cons.mpr ⟨hl, hi⟩
    case inr => exact .inr ⟨p :: front, lexeme, rfl, List.forall_mem_cons.mpr ⟨hl, hf⟩, hu⟩

end Part

end Tokens

namespace Program

variable {reserved : String → Bool} {grouping : String} {g : Form}

section

variable (hg : Atom.read reserved grouping = .ok g) (ho : grouping ≠ "(") (hc : grouping ≠ ")")

include hg ho hc

-- A symbol may be the name of an unclosed word, if that is a keyword.
theorem read_of_unclosed {p : Part} (hu : UnclosedWord p.lexeme) {before : List Char} {form : Form}
    (h : (p.token before).piece reserved = .ok (.atom form)) :
    read grouping reserved form.literal = .ok (.list [g, form]) := by
  have ⟨hno, hnc, hr⟩ := Token.piece_eq_atom h
  rcases Atom.read_eq_ok hr with ⟨i, rfl⟩ | ⟨s, rfl⟩ | ⟨b, rfl⟩ | rfl
  case inl         => exact read_of_legible hg ho hc <| .atom (Atom.readsBack_integer i)
  case inr.inl     => exact read_of_legible hg ho hc <| .atom (Atom.readsBack_text s)
  case inr.inr.inl => exact read_of_legible hg ho hc <| .atom (Atom.readsBack_boolean b)
  case inr.inr.inr =>
    have hw : (Value.symbol (p.token before).text).written = onOneLine p.lexeme :=
      String.toList_ofList
    refine read_of_proper hg ho hc (.unclosed (unclosedWord_onOneLine hu)) ?_ ?_
    case refine_1 => simp [hw, Part.textOf, Part.text]
    case refine_2 =>
      rw [Part.tokens, Part.token, onOneLine_eq (lineFeed_not_mem_onOneLine _)]
      exact .atom hno hnc hr

-- The tokens of a program that has been read are the pieces of its forms.
theorem exists_pieces_of_read {source : String} {form : Form}
    (h : read grouping reserved source = .ok form) :
    ∃ forms, form = .list (g :: forms) ∧
      (Token.scan source).map (·.piece reserved) = (Value.piecesAll forms).map .ok := by
  unfold read at h
  obtain ⟨verdict, ha, _⟩ := existsUnique_applies reserved (Token.scan source)
  cases verdict
  case unmatched =>
    have hy : Verdict.unmatched.Yields reserved g _ (ofTokens grouping reserved _) :=
      yields_unmatched ha
    obtain ⟨_, _, he⟩ := hy
    cases h.symm.trans he
  case rejected =>
    obtain ⟨_, _, _, _, he⟩ := yields_rejected hg ho hc ha.left ha.right
    cases h.symm.trans he
  case unclosed =>
    obtain ⟨_, he, _⟩ := (yields_of_spelled hg ho hc ha.left ha.right.left).left ha.right.right
    cases h.symm.trans he
  case accepted =>
    obtain ⟨items, he, hm⟩ :=
      (yields_of_spelled hg ho hc ha.left ha.right.left).right ha.right.right
    exact ⟨items, Except.ok.inj (h.symm.trans he), hm⟩

theorem read_literal_of_read {source : String} {forms : List Form}
    (h : read grouping reserved source = .ok (.list (g :: forms))) :
    ∀ form ∈ forms, read grouping reserved form.literal = .ok (.list [g, form]) := by
  obtain ⟨_, he, hm⟩ := exists_pieces_of_read hg ho hc h
  cases he
  obtain ⟨d, hd, ht⟩ := exists_proper source.toList
  have hs := Division.scan_text hd
  rw [ht, String.ofList_toList] at hs
  rw [hs, Division.tokens] at hm
  have hlegible {forms : List Form} (hf : ∀ p ∈ Value.piecesAll forms, p.Legible reserved) :
      ∀ form ∈ forms, read grouping reserved form.literal = .ok (.list [g, form]) :=
    fun form hform => read_of_legible hg ho hc <| Value.legible_of_piecesAll hf form hform
  rcases hd.parts.lexemes with hl | ⟨front, lexeme, hp, hl, hu⟩
  case inl => exact hlegible <| Part.legible_of_pieces hl hm
  case inr =>
    rw [hp, Part.tokens_append, List.map_append] at hm
    obtain ⟨ps, qs, hpieces, hfront, hlast⟩ := List.map_eq_append_iff.mp hm.symm
    obtain ⟨q, rfl, hq⟩ := List.map_eq_singleton_iff.mp hlast
    obtain ⟨last, rfl⟩ := Part.exists_atom_of_unclosed hu hq.symm
    obtain ⟨forms, rfl, hforms⟩ := Value.piecesAll_eq_append_atom hpieces
    have hp : ∀ p ∈ Value.piecesAll forms, p.Legible reserved :=
      hforms ▸ Part.legible_of_pieces hl hfront.symm
    exact List.forall_mem_append.mpr ⟨hlegible hp,
      List.forall_mem_singleton.mpr <| read_of_unclosed hg ho hc hu hq.symm⟩

end

-- What is written for a value is read as the value, also for each form of a program.
theorem read_literal {k : Keywords} {g : Form} (hg : Atom.read k.reserves k.grouping = .ok g)
    (ho : k.grouping ≠ "(") (hc : k.grouping ≠ ")") :
    (∀ v : Value, v.Readable k.reserves →
      read k.grouping k.reserves v.literal = .ok (.list [g, v])) ∧
    ∀ source forms, read k.grouping k.reserves source = .ok (.list (g :: forms)) →
      ∀ form ∈ forms, read k.grouping k.reserves form.literal = .ok (.list [g, form]) :=
  ⟨fun _ hv => read_of_legible hg ho hc hv.legible, fun _ _ => read_literal_of_read hg ho hc⟩

-- So it is in the language, with numerals that only look like symbols, escapes, and keywords.
theorem read_literal_standard :
    let read := read Keywords.standard.grouping Keywords.standard.reserves
    let v : Value := .list [.integer Int64.minValue, .text "\"\\\n\x01", .symbol "+5", .symbol "*",
      .list [.boolean true, .list []]]
    let source := "+5 (x \"\\x41\nb\")"
    let forms := [.symbol "+5", .list [.symbol "x", .text "A b"]]
    v.Readable Keywords.standard.reserves ∧ read v.literal = .ok (.list [.symbol "do", v]) ∧
      read source = .ok (.list (.symbol "do" :: forms)) ∧
      ∀ form ∈ forms, read form.literal = .ok (.list [.symbol "do", form]) := by
  have hg : Atom.read Keywords.standard.reserves Keywords.standard.grouping =
      .ok (.symbol "do") := rfl
  have ⟨hwritten, hread⟩ := read_literal hg (by decide) (by decide)
  have hp : Atom.ReadableName Keywords.standard.reserves "+5" :=
    ⟨rfl, by decide, by decide, .inl (by decide)⟩
  have ht : Atom.ReadableName Keywords.standard.reserves "*" :=
    ⟨rfl, by decide, by decide, .inr ⟨by decide, by decide, List.all_eq_true.mp (by decide)⟩⟩
  have hs : read Keywords.standard.grouping Keywords.standard.reserves "+5 (x \"\\x41\nb\")" =
      .ok (.list [.symbol "do", .symbol "+5", .list [.symbol "x", .text "A b"]]) := rfl
  intro read v source forms
  have hv : v.Readable Keywords.standard.reserves := by
    refine .list <| List.forall_mem_cons.mpr ⟨.integer _, List.forall_mem_cons.mpr ⟨.text _, ?_⟩⟩
    refine List.forall_mem_cons.mpr ⟨.symbol hp, List.forall_mem_cons.mpr ⟨.symbol ht, ?_⟩⟩
    refine List.forall_mem_singleton.mpr <| .list <| List.forall_mem_cons.mpr ⟨.boolean true, ?_⟩
    exact List.forall_mem_singleton.mpr <| .list nofun
  exact ⟨hv, hwritten v hv, hs, hread source forms hs⟩

end Program
end ScopedLisp
