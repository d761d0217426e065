import ScopedLisp.Keywords.Standard
import ScopedLisp.Proofs.Form.Quotes
import ScopedLisp.Proofs.Token.LineBreaks

-- Programs whose lines end with a carriage return and a line feed. They are read like programs
-- whose lines end with a line feed, unless a line ends in a span: a space stands for the line feed
-- there, but the carriage return stays a character of the text.
-- Main statement: `Program.read_returned`.

namespace ScopedLisp

namespace Literal

theorem ne_of_escape? {c d : Char} (h : escape? c = some d) : c ≠ ' ' := by
  rintro rfl
  cases h

theorem ne_space_of_isHexDigit {c : Char} (h : isHexDigit c) : c ≠ ' ' := by
  rintro rfl
  cases h

end Literal

section OnOneLine

variable {c d : Char} {cs ds : List Char}

-- What comes first in a text, if it is not the space for a line feed.
theorem onOneLine_eq_cons (h : onOneLine cs = d :: ds) (hd : d ≠ ' ') :
    ∃ es, cs = d :: es ∧ d ≠ '\n' ∧ onOneLine es = ds := by
  obtain ⟨c, es, rfl, hc, hes⟩ := List.map_eq_cons_iff.mp h
  split at hc
  case isTrue     => exact absurd hc.symm hd
  case isFalse hn => exact ⟨es, by rw [hc], hc ▸ hn, hes⟩

theorem onOneLine_withReturns_cons (h : c ≠ '\n') (cs : List Char) :
    onOneLine (withReturns (c :: cs)) = c :: onOneLine (withReturns cs) := by
  rw [withReturns_cons h, onOneLine, List.map_cons, if_neg h, ← onOneLine]

theorem space_mem_onOneLine (h : '\n' ∈ cs) : ' ' ∈ onOneLine cs :=
  List.mem_map.mpr ⟨'\n', h, rfl⟩

end OnOneLine

namespace Literal

-- Carriage returns make the content longer, since none of them is part of an escape.
theorem Spells.returned {bare : Char → Prop} {cs content : List Char}
    (h : Spells bare (onOneLine cs) content) (hr : bare '\r') :
    ∃ content', Spells bare (onOneLine (withReturns cs)) content' ∧
      content'.length = content.length + cs.count '\n' := by
  generalize hl : onOneLine cs = line at h
  induction h generalizing cs
  case nil =>
    obtain rfl : cs = [] := List.map_eq_nil_iff.mp hl
    exact ⟨[], .nil, rfl⟩
  case bare c line content hb _ hi =>
    obtain ⟨d, cs, rfl, rfl, hcs⟩ := List.map_eq_cons_iff.mp hl
    have ⟨content', hs, hlen⟩ := hi hcs
    by_cases hd : d = '\n'
    case pos =>
      subst hd
      exact ⟨'\r' :: ' ' :: content', .bare hr <| .bare hb hs, by simp [hlen]; omega⟩
    case neg =>
      rw [if_neg hd] at hb ⊢
      rw [onOneLine_withReturns_cons hd]
      exact ⟨d :: content', .bare hb hs, by simp [hlen, hd]; omega⟩
  case escape c d line content he _ hi =>
    obtain ⟨cs, rfl, _, hcs⟩ := onOneLine_eq_cons hl (by decide)
    obtain ⟨cs, rfl, hc, hcs⟩ := onOneLine_eq_cons hcs (ne_of_escape? he)
    have ⟨content', hs, hlen⟩ := hi hcs
    rw [onOneLine_withReturns_cons (by decide), onOneLine_withReturns_cons hc]
    exact ⟨d :: content', .escape he hs, by simp [hlen, hc]; omega⟩
  case codePoint high low line content hh hlow _ hi =>
    obtain ⟨cs, rfl, _, hcs⟩ := onOneLine_eq_cons hl (by decide)
    obtain ⟨cs, rfl, _, hcs⟩ := onOneLine_eq_cons hcs (by decide)
    obtain ⟨cs, rfl, hhn, hcs⟩ := onOneLine_eq_cons hcs (ne_space_of_isHexDigit hh)
    obtain ⟨cs, rfl, hln, hcs⟩ := onOneLine_eq_cons hcs (ne_space_of_isHexDigit hlow)
    have ⟨content', hs, hlen⟩ := hi hcs
    rw [onOneLine_withReturns_cons (by decide), onOneLine_withReturns_cons (by decide),
      onOneLine_withReturns_cons hhn, onOneLine_withReturns_cons hln]
    exact ⟨_, .codePoint hh hlow hs, by simp [hlen, hhn, hln]; omega⟩

-- So both texts have the same content only if there are none.
theorem Enclosed.lineFeed_not_mem {cs content : List Char} (h : Enclosed (onOneLine cs) content)
    (h' : Enclosed (onOneLine (withReturns cs)) content) : '\n' ∉ cs := by
  obtain ⟨line, hl, hs⟩ := h
  obtain ⟨line', hl', hs'⟩ := h'
  obtain ⟨cs, rfl, _, hcs⟩ := onOneLine_eq_cons hl (by decide)
  obtain ⟨body, quote, rfl, rfl, hq⟩ := List.map_eq_append_iff.mp hcs
  obtain ⟨cs, rfl, _, hnil⟩ := onOneLine_eq_cons hq (by decide)
  obtain rfl : cs = [] := List.map_eq_nil_iff.mp hnil
  have hb : line' = onOneLine (withReturns body) := by
    rw [onOneLine_withReturns_cons (by decide), withReturns_append, onOneLine,
      List.map_append] at hl'
    exact (List.append_cancel_right (List.cons.inj hl').right).symm
  obtain ⟨content', hr, hlen⟩ := hs.returned (by decide)
  have he : content = content' := Except.ok.inj <|
    (decode_of_spells (hb ▸ hs')).symm.trans (decode_of_spells hr)
  have hn : '\n' ∉ body := List.count_eq_zero.mp (by rw [← he] at hlen; omega)
  simpa using hn

end Literal

namespace Atom

variable {reserved : String → Bool} {token : String} {form : Form} {lexeme : List Char}

-- A token with a space in it is a text, if it is not the name of a keyword.
theorem read_eq_ok_of_space (hs : ' ' ∈ token.toList) (h : read reserved token = .ok form) :
    form = .symbol token ∨ ∃ content,
      Literal.Enclosed token.toList content ∧ form = .text (String.ofList content) := by
  have ht : token ≠ "true" ∧ token ≠ "false" := by
    constructor
    all_goals
      rintro rfl
      exact absurd hs (by decide)
  unfold read at h
  rw [numeral?_of_mem hs (by decide) (by decide)] at h
  cases hb : Literal.body? token.toList
  case some body =>
    rw [hb] at h
    obtain ⟨content, hd, rfl⟩ := map_eq_ok_iff.mp h
    have he := Literal.body?_eq_some_iff.mp hb
    exact .inr ⟨content, ⟨body, he, Literal.decode_eq_ok_iff.mp hd⟩, rfl⟩
  case none =>
    simp only [hb, if_neg ht.left, if_neg ht.right] at h
    split at h
    case isTrue  => exact .inl (Except.ok.inj h).symm
    case isFalse => cases h

-- The carriage returns are in the text, or in the name of the keyword.
theorem lineFeed_not_mem_of_read
    (h : read reserved (String.ofList (onOneLine lexeme)) = .ok form)
    (h' : read reserved (String.ofList (onOneLine (withReturns lexeme))) = .ok form) :
    '\n' ∉ lexeme := by
  intro hn
  have hs : ' ' ∈ (String.ofList (onOneLine lexeme)).toList := by
    simpa using space_mem_onOneLine hn
  have hs' : ' ' ∈ (String.ofList (onOneLine (withReturns lexeme))).toList := by
    simpa using space_mem_onOneLine <| lineFeed_mem_withReturns_iff.mpr hn
  rcases read_eq_ok_of_space hs h with rfl | ⟨content, he, rfl⟩
  case inl =>
    rcases read_eq_ok_of_space hs' h' with hf | ⟨_, _, hf⟩
    case inr => cases hf
    case inl =>
      have ht := String.ofList_injective (Value.symbol.inj hf)
      exact onOneLine_withReturns_eq_iff.mp ht.symm hn
  case inr =>
    rcases read_eq_ok_of_space hs' h' with hf | ⟨content', he', hf⟩
    case inl => cases hf
    case inr =>
      obtain rfl := String.ofList_injective (Value.text.inj hf)
      rw [String.toList_ofList] at he he'
      exact he.lineFeed_not_mem he' hn

end Atom
namespace Part

variable {reserved : String → Bool} {p : Part} {parts : List Part} {before before' : List Char}

theorem lineFeed_not_mem_of_piece {q : Piece} (h : (p.token before).piece reserved = .ok q)
    (h' : (p.returned.token before').piece reserved = .ok q) : '\n' ∉ p.lexeme := by
  have hs {text : String} (ht : (p.token before).text = text) (hn : ' ' ∉ text.toList) :
      '\n' ∉ p.lexeme := by
    refine fun hl => hn ?_
    rw [← ht]
    simpa [token] using space_mem_onOneLine hl
  rcases Token.piece_eq_ok h with ⟨ht, _⟩ | ⟨ht, _⟩ | ⟨_, _, form, hr, rfl⟩
  case inl     => exact hs ht (by decide)
  case inr.inl => exact hs ht (by decide)
  case inr.inr => exact Atom.lineFeed_not_mem_of_read hr (Token.piece_eq_atom h').right.right

theorem lineFeed_not_mem_of_pieces {ps : List Piece}
    (h : (tokens before parts).map (·.piece reserved) = ps.map .ok)
    (h' : (tokens before' (parts.map returned)).map (·.piece reserved) = ps.map .ok) :
    ∀ p ∈ parts, '\n' ∉ p.lexeme := by
  induction parts generalizing before before' ps
  case nil => nofun
  case cons p parts hi =>
    obtain ⟨q, ps, rfl⟩ := List.exists_cons_of_ne_nil (l := ps) (by rintro rfl; cases h)
    have ⟨hp, hps⟩ := List.cons.inj h
    have ⟨hp', hps'⟩ := List.cons.inj h'
    exact List.forall_mem_cons.mpr ⟨lineFeed_not_mem_of_piece hp hp', hi hps hps'⟩

end Part

namespace Program

variable {grouping source : String} {reserved : String → Bool} {form : Form}

-- The text with a carriage return in front of each line feed.
def returned (source : String) : String :=
  String.ofList (withReturns source.toList)

theorem exists_read_grouping (ho : grouping ≠ "(") (hc : grouping ≠ ")")
    (h : read grouping reserved source = .ok form) : ∃ g, Atom.read reserved grouping = .ok g := by
  unfold read ofTokens at h
  split at h
  case h_1 => cases h
  case h_2 =>
    cases hg : Atom.read reserved grouping
    case ok g    => exact ⟨g, rfl⟩
    case error _ => simp [Form.read, wrapped, Form.readIn, ho, hc, hg] at h

end Program

namespace Division

variable {d : Division} {source : String}

theorem scan_eq (h : d.Proper) (ht : d.text = source.toList) : Token.scan source = d.tokens := by
  rw [← scan_text h, ht, String.ofList_toList]

theorem scan_returned_eq (h : d.Proper) (ht : d.text = source.toList) :
    Token.scan (Program.returned source) = d.returned.tokens := by
  rw [Program.returned, ← ht, scan_withReturns h]

theorem lineFeed_not_mem_of_read {grouping : String} {reserved : String → Bool} {form : Form}
    (h : d.Proper) (ht : d.text = source.toList) (ho : grouping ≠ "(") (hc : grouping ≠ ")")
    (hr : Program.read grouping reserved source = .ok form)
    (hr' : Program.read grouping reserved (Program.returned source) = .ok form) :
    ∀ p ∈ d.parts, '\n' ∉ p.lexeme := by
  have ⟨g, hg⟩ := Program.exists_read_grouping ho hc hr
  obtain ⟨forms, rfl, hp⟩ := Program.exists_pieces_of_read hg ho hc hr
  obtain ⟨forms', hf, hp'⟩ := Program.exists_pieces_of_read hg ho hc hr'
  obtain rfl : forms = forms' := (List.cons.inj <| Value.list.inj hf).right
  rw [scan_eq h ht] at hp
  rw [scan_returned_eq h ht] at hp'
  exact Part.lineFeed_not_mem_of_pieces hp hp'

end Division

-- However the lines of a text end, its tokens stay where they are. They are the same tokens, and
-- the text is read the same way, if no line ends inside of a token, and only then, as far as there
-- is a program to be read.
theorem Program.read_returned (source : String) :
    ∃ d : Division, (d.Proper ∧ d.text = source.toList) ∧
      (Token.scan (returned source)).map (·.position) =
        (Token.scan source).map (·.position) ∧
      (Token.scan source).map (·.text) =
        d.parts.map (fun p => String.ofList (onOneLine p.lexeme)) ∧
      (Token.scan (returned source)).map (·.text) =
        d.parts.map (fun p => String.ofList (onOneLine (withReturns p.lexeme))) ∧
      (Token.scan (returned source) = Token.scan source ↔ ∀ p ∈ d.parts, '\n' ∉ p.lexeme) ∧
      ((∀ p ∈ d.parts, '\n' ∉ p.lexeme) → ∀ grouping reserved,
        read grouping reserved (returned source) = read grouping reserved source) ∧
      ∀ grouping reserved form, grouping ≠ "(" → grouping ≠ ")" →
        read grouping reserved source = .ok form →
          (read grouping reserved (returned source) = .ok form ↔
            ∀ p ∈ d.parts, '\n' ∉ p.lexeme) := by
  have ⟨d, hd, ht⟩ := exists_proper source.toList
  have hs := Division.scan_eq hd ht
  have hs' := Division.scan_returned_eq hd ht
  have htokens : Token.scan (returned source) = Token.scan source ↔
      ∀ p ∈ d.parts, '\n' ∉ p.lexeme := by
    rw [hs, hs']
    exact Part.tokens_returned_eq_iff
  have hread (h : ∀ p ∈ d.parts, '\n' ∉ p.lexeme) (grouping : String) (reserved : String → Bool) :
      read grouping reserved (returned source) = read grouping reserved source := by
    rw [read, htokens.mpr h, read]
  refine ⟨d, ⟨hd, ht⟩, ?_, ?_, ?_, htokens, hread, fun grouping reserved form ho hc hr => ?_⟩
  case refine_1 =>
    rw [hs, hs']
    exact Part.positions_returned d.gap d.parts
  case refine_2 =>
    rw [hs]
    exact Part.texts_tokens d.gap d.parts
  case refine_3 =>
    rw [hs']
    exact (Part.texts_tokens _ _).trans (List.map_map ..)
  case refine_4 =>
    exact ⟨Division.lineFeed_not_mem_of_read hd ht ho hc hr, fun h => (hread h _ _).trans hr⟩

-- A literal that goes over the end of a line shows how the line ends.
theorem Program.read_returned_text :
    let read := read Keywords.standard.grouping Keywords.standard.reserves
    let source := "\"a\nb\""
    '\r' ∉ source.toList ∧ returned source = "\"a\r\nb\"" ∧
      read source = .ok (.list [.symbol "do", .text "a b"]) ∧
      read (returned source) = .ok (.list [.symbol "do", .text "a\r b"]) ∧
      Token.scan (returned source) ≠ Token.scan source :=
  ⟨by decide, rfl, rfl, rfl, by decide⟩

end ScopedLisp
