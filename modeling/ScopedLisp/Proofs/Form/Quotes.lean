import ScopedLisp.Proofs.Form.Literal
import ScopedLisp.Proofs.Token.Joined

-- Tokens with quotes in them. Such a token is read as a text if it starts and ends with a quote and
-- all that is between these means something, even if a quote in between has ended the literal. So a
-- literal may have other characters glued to it, as long as they end with a quote.
-- Main statement: `Atom.read_quoted`.

namespace ScopedLisp

namespace Literal

-- What a backslash makes of the next character alone.
def escape? : Char → Option Char
  | '\\' => some '\\'
  | '"'  => some '"'
  | '\'' => some '\''
  | 'n'  => some '\n'
  | 't'  => some '\t'
  | _    => none

-- The characters spell the content, with escapes, and those characters that may stand for
-- themselves.
inductive Spells (bare : Char → Prop) : List Char → List Char → Prop
  | nil : Spells bare [] []
  | bare {c : Char} {cs content : List Char} (h : bare c) :
    Spells bare cs content → Spells bare (c :: cs) (c :: content)
  | escape {c d : Char} {cs content : List Char} (h : escape? c = some d) :
    Spells bare cs content → Spells bare ('\\' :: c :: cs) (d :: content)
  | codePoint {high low : Char} {cs content : List Char} (hh : isHexDigit high)
    (hl : isHexDigit low) : Spells bare cs content →
      Spells bare ('\\' :: 'x' :: high :: low :: cs)
        (Char.ofNat (16 * hexValue high + hexValue low) :: content)

-- A literal of the content that ends with the first quote that is not escaped.
def Complete (cs content : List Char) : Prop :=
  ∃ body, cs = '"' :: (body ++ ['"']) ∧ Spells (fun c => c ≠ '"' ∧ c ≠ '\\') body content

-- The same, but quotes may stand for themselves, too.
def Enclosed (cs content : List Char) : Prop :=
  ∃ body, cs = '"' :: (body ++ ['"']) ∧ Spells (· ≠ '\\') body content

-- Further characters stand behind the first quote that ends a literal.
def Glued (cs : List Char) : Prop :=
  ∃ body behind, cs = '"' :: (body ++ '"' :: behind) ∧ Inside body ∧ behind ≠ []

variable {cs content body behind : List Char}

theorem Spells.mono {P Q : Char → Prop} (h : Spells P cs content) (hPQ : ∀ c, P c → Q c) :
    Spells Q cs content := by
  induction h
  case nil                 => exact .nil
  case bare hc _ hi        => exact .bare (hPQ _ hc) hi
  case escape hc _ hi      => exact .escape hc hi
  case codePoint hh hl _ hi => exact .codePoint hh hl hi

theorem decode_escape {c d : Char} (h : escape? c = some d) (cs : List Char) :
    decode ('\\' :: c :: cs) = (d :: ·) <$> decode cs := by
  unfold escape? at h
  split at h
  case h_6 => cases h
  all_goals
    obtain rfl := Option.some.inj h
    rfl

theorem decode_of_spells (h : Spells (· ≠ '\\') cs content) : decode cs = .ok content := by
  induction h
  case nil                  => rfl
  case bare hc _ hi         => rw [decode_cons hc, hi]; rfl
  case escape hc _ hi       => rw [decode_escape hc, hi]; rfl
  case codePoint hh hl _ hi => simp [decode, hh, hl, hi, Functor.map, Except.map]

theorem spells_of_decode (h : decode cs = .ok content) : Spells (· ≠ '\\') cs content := by
  fun_induction decode cs generalizing content
  case case1 =>
    obtain rfl := Except.ok.inj h
    exact .nil
  case case2 hi | case3 hi | case4 hi | case5 hi | case6 hi =>
    obtain ⟨_, hd, hc⟩ := map_eq_ok_iff.mp h
    exact hc ▸ .escape rfl (hi hd)
  case case7 hx hi =>
    obtain ⟨_, hd, hc⟩ := map_eq_ok_iff.mp h
    obtain ⟨hh, hl⟩ := Bool.and_eq_true_iff.mp hx
    exact hc ▸ .codePoint hh hl (hi hd)
  case case8 | case9 | case10 | case11 => cases h
  case case12 c rest _ _ _ _ _ _ _ hcons hnil hi =>
    -- A backslash in front of anything is an escape, or refused.
    have hb : c ≠ '\\' := fun hb => by
      rcases hr : rest with _ | ⟨d, ds⟩
      case nil  => exact hnil hb hr
      case cons => exact hcons d ds hb hr
    obtain ⟨_, hd, hc⟩ := map_eq_ok_iff.mp h
    exact hc ▸ .bare hb (hi hd)

theorem decode_eq_ok_iff : decode cs = .ok content ↔ Spells (· ≠ '\\') cs content :=
  ⟨spells_of_decode, decode_of_spells⟩

theorem ne_of_isHexDigit {c : Char} (h : isHexDigit c) : c ≠ '"' ∧ c ≠ '\\' := by
  constructor
  all_goals
    rintro rfl
    exact absurd h (by decide)

-- A text without bare quotes does not end a span.
theorem Spells.inside (h : Spells (fun c => c ≠ '"' ∧ c ≠ '\\') cs content) : Inside cs := by
  induction h
  case nil                  => exact .nil
  case bare hc _ hi         => exact .char hc.left hc.right hi
  case escape hi            => exact .escape hi
  case codePoint hh hl _ hi =>
    have ⟨hhq, hhb⟩ := ne_of_isHexDigit hh
    have ⟨hlq, hlb⟩ := ne_of_isHexDigit hl
    exact .escape <| .char hhq hhb <| .char hlq hlb hi

-- The first bare quote ends the literal.
theorem Spells.split (h : Spells (· ≠ '\\') cs content) :
    Spells (fun c => c ≠ '"' ∧ c ≠ '\\') cs content ∨
      ∃ body behind, cs = body ++ '"' :: behind ∧ Inside body := by
  induction h
  case nil => exact .inl .nil
  case bare c cs _ hc _ hi =>
    by_cases hq : c = '"'
    case pos => exact .inr ⟨[], cs, by rw [hq]; rfl, .nil⟩
    case neg =>
      refine hi.imp (.bare ⟨hq, hc⟩) fun ⟨body, behind, he, hb⟩ => ?_
      exact ⟨c :: body, behind, by rw [he]; rfl, .char hq hc hb⟩
  case escape c _ _ _ hc _ hi =>
    refine hi.imp (.escape hc) fun ⟨body, behind, he, hb⟩ => ?_
    exact ⟨'\\' :: c :: body, behind, by rw [he]; rfl, .escape hb⟩
  case codePoint high low _ _ hh hl _ hi =>
    refine hi.imp (.codePoint hh hl) fun ⟨body, behind, he, hb⟩ => ?_
    have ⟨hhq, hhb⟩ := ne_of_isHexDigit hh
    have ⟨hlq, hlb⟩ := ne_of_isHexDigit hl
    exact ⟨'\\' :: 'x' :: high :: low :: body, behind, by rw [he]; rfl,
      .escape <| .char hhq hhb <| .char hlq hlb hb⟩

theorem behind?_of_inside (h : Inside body) : behind? (body ++ '"' :: behind) = some behind := by
  induction h
  case nil          => rfl
  case escape hi    => exact hi
  case char hq hb _ hi =>
    rw [List.cons_append, behind?.eq_def]
    split <;> simp_all

theorem Complete.enclosed (h : Complete cs content) : Enclosed cs content :=
  have ⟨body, hcs, hs⟩ := h
  ⟨body, hcs, hs.mono fun _ => And.right⟩

theorem Complete.not_glued (h : Complete cs content) : ¬Glued cs := by
  intro ⟨_, behind, hcs', hi, hn⟩
  have ⟨body, hcs, hs⟩ := h
  have he := List.cons.inj (hcs.symm.trans hcs') |>.right
  have hb : behind? (body ++ ['"']) = some [] := behind?_of_inside hs.inside
  rw [he, behind?_of_inside hi] at hb
  exact hn (Option.some.inj hb)

theorem Enclosed.complete_or_glued (h : Enclosed cs content) : Complete cs content ∨ Glued cs := by
  have ⟨body, hcs, hs⟩ := h
  refine hs.split.imp (fun hs => ⟨body, hcs, hs⟩) fun ⟨inside, behind, he, hi⟩ => ?_
  exact ⟨inside, behind ++ ['"'], by simp [hcs, he], hi, by simp⟩

theorem body?_eq_some_iff : body? cs = some body ↔ cs = '"' :: (body ++ ['"']) := by
  constructor
  case mp =>
    intro h
    unfold body? at h
    split at h
    case h_2 => cases h
    split at h
    case isFalse => cases h
    case isTrue rest hl =>
      have hb := Option.some.inj h
      rw [← hb, List.dropLast_append_getLast? _ hl]
  case mpr =>
    rintro rfl
    simp [body?]

end Literal

section Words

variable {cs ds : List Char}

theorem Inside.append (hc : Inside cs) (hd : Inside ds) : Inside (cs ++ ds) := by
  induction hc
  case nil             => exact hd
  case char hq hb _ hi => exact .char hq hb hi
  case escape hi       => exact .escape hi

theorem Word.append (hc : Word cs) (hd : Word ds) : Word (cs ++ ds) := by
  induction hc
  case nil           => exact hd
  case plain hc _ hi => exact .plain hc hi
  case span hb _ hi  =>
    rw [List.append_assoc, List.cons_append]
    exact .span hb hi

-- A scan of the text stops in a span, or it does not.
theorem UnclosedWord.not_word (h : UnclosedWord cs) : ¬Word cs := by
  intro hw
  have ⟨word, body, last, hword, hb, hl, hcs⟩ := h
  let s : Scanner := ⟨.start, .atom .start [], []⟩
  have hr : (s.run cs).mode.isSpan = false := congrArg (·.mode.isSpan) <| Scanner.run_word hw
  rw [hcs, List.append_assoc, Scanner.run_append, Scanner.run_word hword, List.cons_append,
    Scanner.run_cons, Scanner.step_quote, Scanner.run_append, Scanner.run_inside hb] at hr
  rcases hl with rfl | rfl
  all_goals cases hr

theorem Literal.Complete.word {content : List Char} (h : Complete cs content) : Word cs := by
  have ⟨body, hcs, hs⟩ := h
  exact hcs ▸ .span hs.inside .nil

end Words

namespace Scanner

namespace Mode

-- What is known of the text under way: it is a word, or its last span is open.
def Consistent : Mode → Prop
  | gap | comment => True
  | atom _ text => Word text.reverse
  | span _ text escaped =>
    ∃ word body, Word word ∧ Inside body ∧
      text.reverse = word ++ '"' :: body ++ if escaped then ['\\'] else []

variable {mode : Mode} {start p : Position} {text : List Char} {escaped : Bool} {c : Char}

theorem Consistent.extend (h : mode.Consistent) (hm : ¬mode.isSpan) (hc : startsWord c) :
    (mode.extend p c).Consistent := by
  have hs {start : Position} {text : List Char} (hw : Word text.reverse) :
      Consistent (if c = '"' then span start (c :: text) false else atom start (c :: text)) := by
    split
    case isTrue hq  => exact ⟨text.reverse, [], hw, .nil, by simp [hq]⟩
    case isFalse hq =>
      have hp : isPlain c := by simpa [startsWord, hq] using hc
      have h := hw.append <| .plain hp .nil
      rwa [← List.reverse_cons] at h
  cases mode
  case gap | comment => exact hs .nil
  case atom          => exact hs h
  case span          => exact absurd rfl hm

theorem Consistent.inside (h : (span start text escaped).Consistent) :
    (Mode.inside start text escaped c).Consistent := by
  have ⟨word, body, hw, hb, ht⟩ := h
  let d := if c = '\n' then ' ' else c
  have hd : (d :: text).reverse =
      word ++ '"' :: body ++ (if escaped then ['\\'] else []) ++ [d] := by
    rw [List.reverse_cons, ht]
  unfold Mode.inside
  simp only
  split
  case isTrue he =>
    refine ⟨word, body ++ ['\\', d], hw, hb.append (.escape .nil), hd.trans ?_⟩
    simp [he]
  case isFalse he =>
  split
  case isTrue hc =>
    exact ⟨word, body, hw, hb, hd.trans <| by simp [he, d, hc]⟩
  case isFalse hn =>
  split
  case isTrue hc =>
    have hr : (d :: text).reverse = word ++ ('"' :: body ++ '"' :: []) := by
      rw [hd]
      simp [he, d, hc]
    change Word (d :: text).reverse
    exact hr ▸ hw.append (.span hb .nil)
  case isFalse hq =>
    have hp : Inside [d] := by
      refine .char ?_ ?_ .nil
      all_goals
        simp only [d]
        split
        case isTrue  => decide
        case isFalse => assumption
    exact ⟨word, body ++ [d], hw, hb.append hp, hd.trans <| by simp [he]⟩

end Mode

variable {s : Scanner}

theorem consistent_separate (h : s.mode.Consistent) (hm : ¬s.mode.isSpan) (c : Char) :
    (s.separate c).mode.Consistent := by
  unfold separate
  split
  case isTrue => trivial
  split
  case isTrue => trivial
  split
  case isTrue => trivial
  case isFalse hs hp hb =>
    refine h.extend hm ?_
    by_cases hq : c = '"' <;> simp [startsWord, isPlain, hb, hs, not_or.mp hp, hq]

theorem consistent_step (h : s.mode.Consistent) (c : Char) : (s.step c).mode.Consistent := by
  unfold step feed
  rcases hs : s with ⟨p, mode, found⟩
  rw [hs] at h
  cases mode
  case gap | atom => exact consistent_separate h nofun c
  case comment =>
    simp only
    split <;> trivial
  case span => exact h.inside

theorem consistent_run (h : s.mode.Consistent) (cs : List Char) :
    (s.run cs).mode.Consistent := by
  induction cs generalizing s
  case nil          => exact h
  case cons c _ hi  => exact hi <| consistent_step h c

end Scanner

-- A text that ends inside of a span has a last token, of which that span is the end.
theorem Token.exists_unclosed_of_endsInSpan {source : String} (h : endsInSpan source) :
    ∃ t, (scan source).getLast? = some t ∧ UnclosedWord t.text.toList := by
  have hc := Scanner.consistent_run (s := {}) trivial source.toList
  unfold endsInSpan at h
  unfold scan Scanner.finish Scanner.cut
  cases hm : (Scanner.run {} source.toList).mode
  case span start text escaped =>
    rw [hm] at hc
    have ⟨word, body, hw, hb, ht⟩ := hc
    refine ⟨⟨String.ofList text.reverse, start⟩, by simp [Scanner.Mode.pending?], ?_⟩
    refine ⟨word, body, _, hw, hb, ?_, by rw [String.toList_ofList, ht]⟩
    cases escaped <;> simp
  all_goals
    rw [hm] at h
    cases h

namespace Atom

variable {reserved : String → Bool} {token : String}

-- Numerals are made of digits, behind a minus or not.
theorem numeral?_of_mem {cs : List Char} {c : Char} (h : c ∈ cs) (hd : ¬c.isDigit) (hm : c ≠ '-') :
    Integer.numeral? cs = none := by
  have hn {digits : List Char} (hc : c ∈ digits) : ¬(digits ≠ [] ∧ digits.all Char.isDigit) :=
    fun h => hd (List.all_eq_true.mp h.right _ hc)
  unfold Integer.numeral?
  split
  case h_1 => exact if_neg <| hn <| (List.mem_cons.mp h).resolve_left hm
  case h_2 => exact if_neg <| hn h

section Quote

variable (hq : '"' ∈ token.toList)

include hq

theorem numeral?_of_quote : Integer.numeral? token.toList = none :=
  numeral?_of_mem hq (by decide) (by decide)

-- A token with a quote in it is a text or nothing at all.
theorem read_of_quote (hr : reserved token = false) :
    read reserved token =
      match Literal.body? token.toList with
      | some body => text body
      | none => .error (fault token) := by
  have hs : isPlainSymbol token = false := by
    refine Bool.and_eq_false_iff.mpr <| .inr <| List.all_eq_false.mpr ⟨'"', hq, by decide⟩
  have ht : token ≠ "true" ∧ token ≠ "false" := by
    constructor
    all_goals
      rintro rfl
      exact absurd hq (by decide)
  unfold read
  rw [numeral?_of_quote hq]
  cases Literal.body? token.toList
  case some => rfl
  case none => simp [ht, hs, hr]

theorem read_eq_text_iff (hr : reserved token = false) {s : String} :
    read reserved token = .ok (.text s) ↔ Literal.Enclosed token.toList s.toList := by
  rw [read_of_quote hq hr]
  constructor
  case mp =>
    intro h
    split at h
    case h_2 => cases h
    case h_1 body hb =>
      have ⟨content, hd, hc⟩ := map_eq_ok_iff.mp h
      obtain rfl := Value.text.inj hc
      rw [String.toList_ofList]
      exact ⟨body, Literal.body?_eq_some_iff.mp hb, Literal.decode_eq_ok_iff.mp hd⟩
  case mpr =>
    intro ⟨body, hcs, hs⟩
    rw [Literal.body?_eq_some_iff.mpr hcs]
    simp only
    rw [text, Literal.decode_eq_ok_iff.mpr hs]
    exact congrArg (Except.ok <| Value.text ·) String.ofList_toList

theorem exists_text_or_lexical (hr : reserved token = false) :
    (∃ s, read reserved token = .ok (.text s)) ∨
      ∃ cause, read reserved token = .error cause ∧ cause.kind = .lexical := by
  cases h : read reserved token
  case error cause => exact .inr ⟨cause, rfl, kind_of_read h⟩
  case ok form =>
    rw [read_of_quote hq hr] at h
    split at h
    case h_2 => cases h
    case h_1 =>
      have ⟨s, hs⟩ := text_eq_ok h
      exact .inl ⟨s, by rw [hs]⟩

end Quote

end Atom

theorem Keywords.not_mem_of_reserves_standard {name : String} (h : standard.reserves name) :
    '"' ∉ name.toList := by
  have hn : ∀ name ∈ standard.handlers.entries.map Prod.fst, '"' ∉ name.toList := by decide
  exact hn name <| List.mem_mergeSort.mp <| NameMap.mem_names_iff.mpr h

section Standard

variable {token : String}

theorem Keywords.reserves_standard_of_quote (hq : '"' ∈ token.toList) :
    standard.reserves token = false :=
  Bool.eq_false_iff.mpr fun hr => not_mem_of_reserves_standard hr hq

-- Only tokens with something glued to a literal are read as texts without being literals.
theorem Atom.text_iff_complete_iff (hq : '"' ∈ token.toList) :
    (∀ s, read Keywords.standard.reserves token = .ok (.text s) ↔
        Literal.Complete token.toList s.toList) ↔
      ¬(Literal.Glued token.toList ∧ ∃ content, Literal.Enclosed token.toList content) := by
  have hr := Keywords.reserves_standard_of_quote hq
  constructor
  case mp =>
    intro h ⟨hg, content, he⟩
    rw [← String.toList_ofList (l := content)] at he
    exact ((h _).mp <| (read_eq_text_iff hq hr).mpr he).not_glued hg
  case mpr =>
    intro h s
    rw [read_eq_text_iff hq hr]
    exact ⟨fun he => he.complete_or_glued.resolve_right fun hg => h ⟨hg, _, he⟩, (·.enclosed)⟩

-- A program may only end inside of a span if its last token is read as a text nonetheless.
theorem Program.exists_glued_of_endsInSpan {source : String} {form : Form}
    (h : read Keywords.standard.grouping Keywords.standard.reserves source = .ok form)
    (he : Token.endsInSpan source) :
    ∃ t, (Token.scan source).getLast? = some t ∧ Literal.Glued t.text.toList ∧
      ∃ s, Atom.read Keywords.standard.reserves t.text = .ok (.text s) := by
  have hg : Atom.read Keywords.standard.reserves Keywords.standard.grouping =
      .ok (.symbol "do") := rfl
  have ⟨t, ht, hu⟩ := Token.exists_unclosed_of_endsInSpan he
  have ⟨forms, _, hp⟩ := exists_pieces_of_read hg (by decide) (by decide) h
  have hm := List.mem_map_of_mem (f := (·.piece Keywords.standard.reserves)) <|
    List.mem_of_getLast? ht
  rw [hp] at hm
  have ⟨piece, _, hpiece⟩ := List.mem_map.mp hm
  have hq : '"' ∈ t.text.toList := by
    have ⟨word, body, last, _, _, _, hcs⟩ := hu
    simp [hcs]
  have hr := Keywords.reserves_standard_of_quote hq
  have ⟨s, hs⟩ : ∃ s, Atom.read Keywords.standard.reserves t.text = .ok (.text s) := by
    rcases Token.piece_eq_ok hpiece.symm with ⟨ho, _⟩ | ⟨hc, _⟩ | ⟨_, _, form, hform, _⟩
    case inl     => exact absurd (ho ▸ hq) (by decide)
    case inr.inl => exact absurd (hc ▸ hq) (by decide)
    case inr.inr =>
      refine Atom.exists_text_or_lexical hq hr |>.resolve_right fun ⟨_, hcause, _⟩ => ?_
      cases hform.symm.trans hcause
  -- The token is no literal, for its last span is open.
  have hc := (Atom.read_eq_text_iff hq hr).mp hs |>.complete_or_glued
  exact ⟨t, ht, hc.resolve_left fun hc => hu.not_word hc.word, s, hs⟩

-- A token that starts with a quote is read as a text if it ends with one, too, and all that is in
-- between spells something. Else it is refused for its characters. So all that is read as a text is
-- a literal, and nothing else, except where something is glued to a literal. The same goes for
-- programs that end inside of a span.
theorem Atom.read_quoted (source : String) :
    (∀ t ∈ Token.scan source, t.text.toList.head? = some '"' →
      (∀ s, read Keywords.standard.reserves t.text = .ok (.text s) ↔
        Literal.Enclosed t.text.toList s.toList) ∧
      ((∃ s, read Keywords.standard.reserves t.text = .ok (.text s)) ∨
        ∃ cause, read Keywords.standard.reserves t.text = .error cause ∧ cause.kind = .lexical) ∧
      ((∀ s, read Keywords.standard.reserves t.text = .ok (.text s) ↔
          Literal.Complete t.text.toList s.toList) ↔
        ¬(Literal.Glued t.text.toList ∧ ∃ content, Literal.Enclosed t.text.toList content))) ∧
    (Token.endsInSpan source → ∀ form,
      Program.read Keywords.standard.grouping Keywords.standard.reserves source = .ok form →
      ∃ t, (Token.scan source).getLast? = some t ∧ Literal.Glued t.text.toList ∧
        ∃ s, read Keywords.standard.reserves t.text = .ok (.text s)) := by
  refine ⟨fun t _ h => ?_, fun he _ hr => Program.exists_glued_of_endsInSpan hr he⟩
  have hq : '"' ∈ t.text.toList := List.mem_of_mem_head? h
  have hr := Keywords.reserves_standard_of_quote hq
  exact ⟨fun _ => read_eq_text_iff hq hr, exists_text_or_lexical hq hr, text_iff_complete_iff hq⟩

-- So a text that ends inside of a span is a program, and its only token is no literal.
theorem Atom.read_quoted_glued :
    let source := "\"a\"b\""
    Token.scan source = [⟨source, .start⟩] ∧ Token.endsInSpan source ∧
      read Keywords.standard.reserves source = .ok (.text "a\"b") ∧
      (∀ content, ¬Literal.Complete source.toList content) ∧
      Program.read Keywords.standard.grouping Keywords.standard.reserves source =
        .ok (.list [.symbol "do", .text "a\"b"]) := by
  have hg : Literal.Glued "\"a\"b\"".toList :=
    ⟨['a'], ['b', '"'], rfl, .char (by decide) (by decide) .nil, by decide⟩
  exact ⟨rfl, rfl, rfl, fun _ hc => hc.not_glued hg, rfl⟩

end Standard
end ScopedLisp
