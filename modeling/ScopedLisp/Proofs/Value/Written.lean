import ScopedLisp.Proofs.Form.Reading
import ScopedLisp.Proofs.Token.Division
import ScopedLisp.Value.Written

-- What is written for atoms: words that are read as the atoms.
-- Main statement: `Atom.readsBack_of_read`.

namespace ScopedLisp

section Word

variable {c : Char} {cs : List Char}

theorem not_isBlank_of_toNat (hl : 0x20 < c.toNat) (hu : c.toNat < 0x7F) (hc : c ≠ ',') :
    ¬isBlank c := by
  simp only [isBlank, Bool.or_eq_true, CodePoints.has_iff, beq_iff_eq, hc, or_false]
  rintro ⟨range, hr, hm⟩
  simp only [whiteSpace, List.mem_cons, List.not_mem_nil, or_false] at hr
  rcases hr with rfl | rfl | rfl | rfl | rfl | rfl | rfl | rfl | rfl | rfl
  all_goals
    simp only at hm
    omega

theorem isPlain_of_toNat (hl : 0x29 < c.toNat) (hu : c.toNat < 0x7F) (hc : c ≠ ',')
    (hs : c ≠ ';') : isPlain c := by
  have hn {d : Char} (hd : d.toNat ≤ 0x29) : c ≠ d := by
    rintro rfl
    omega
  have hb := not_isBlank_of_toNat (by omega) hu hc
  have ho : c ≠ '(' := hn (by decide)
  have he : c ≠ ')' := hn (by decide)
  have hq : c ≠ '"' := hn (by decide)
  simp [isPlain, hb, hs, ho, he, hq]

theorem toNat_of_isAlphanum (h : c.isAlphanum) :
    (65 ≤ c.toNat ∧ c.toNat ≤ 90) ∨ (97 ≤ c.toNat ∧ c.toNat ≤ 122) ∨
      (48 ≤ c.toNat ∧ c.toNat ≤ 57) := by
  rcases Bool.or_eq_true_iff.mp h with ha | hd
  case inr =>
    exact .inr <| .inr <| (Bool.and_eq_true_iff.mp hd).imp of_decide_eq_true of_decide_eq_true
  rcases Bool.or_eq_true_iff.mp ha with hu | hl
  case inl => exact .inl <| of_decide_eq_true hu
  case inr =>
    exact .inr <| .inl <| (Bool.and_eq_true_iff.mp hl).imp of_decide_eq_true of_decide_eq_true

theorem isPlain_of_isAlphanum (h : c.isAlphanum) : isPlain c := by
  have hr := toNat_of_isAlphanum h
  have hn : c ≠ ',' ∧ c ≠ ';' := by
    constructor
    all_goals
      rintro rfl
      simp at h
  exact isPlain_of_toNat (by omega) (by omega) hn.left hn.right

theorem isPlain_of_isSymbolChar (h : Atom.isSymbolChar c) : isPlain c := by
  simp only [Atom.isSymbolChar, Bool.or_eq_true, beq_iff_eq] at h
  rcases h with ((h | rfl) | rfl) | rfl
  case inl.inl.inl => exact isPlain_of_isAlphanum h
  all_goals decide

theorem word_of_forall_isPlain (h : ∀ c ∈ cs, isPlain c) : Word cs := by
  induction cs
  case nil => exact .nil
  case cons hi =>
    have ⟨hc, hcs⟩ := List.forall_mem_cons.mp h
    exact .plain hc (hi hcs)

theorem not_mem_of_forall_isPlain (h : ∀ c ∈ cs, isPlain c) : '\n' ∉ cs :=
  fun hm => absurd (h _ hm) (by decide)

end Word

namespace Integer

theorem isDigit_of_mem_toDigits {n : Nat} {c : Char} (h : c ∈ Nat.toDigits 10 n) : c.isDigit :=
  Nat.isDigit_of_mem_toDigits (by decide) (by decide) h

theorem ofDigits_toDigits (n : Nat) : ofDigits (Nat.toDigits 10 n) = n :=
  Nat.ofDigitChars_toDigits (by decide) (by decide)

theorem numeral?_digits {digits : List Char} (hn : digits ≠ []) (hd : ∀ c ∈ digits, c.isDigit) :
    numeral? digits = some (false, digits) ∧ numeral? ('-' :: digits) = some (true, digits) := by
  have ha := List.all_eq_true.mpr hd
  obtain ⟨c, cs, rfl⟩ := List.exists_cons_of_ne_nil hn
  have hc : c ≠ '-' := by
    rintro rfl
    exact absurd (hd '-' (by simp)) (by decide)
  simp [numeral?, hc, ha]

-- The numeral of an integer means the integer.
theorem numeral?_written (i : Integer) :
    ∃ negative digits, numeral? i.written = some (negative, digits) ∧
      valueOf negative digits = i.toInt := by
  have hn : Nat.toDigits 10 i.toInt.natAbs ≠ [] := List.ne_nil_of_length_pos Nat.length_toDigits_pos
  have ⟨hp, hm⟩ := numeral?_digits hn fun _ => isDigit_of_mem_toDigits
  unfold written
  split
  case isTrue h =>
    refine ⟨true, _, hm, ?_⟩
    simp only [valueOf, ofDigits_toDigits, if_true]
    omega
  case isFalse h =>
    refine ⟨false, _, hp, ?_⟩
    simp only [valueOf, ofDigits_toDigits, Bool.false_eq_true, if_false]
    omega

theorem isPlain_of_mem_written {i : Integer} {c : Char} (h : c ∈ i.written) : isPlain c := by
  have hd {c : Char} (h : c ∈ Nat.toDigits 10 i.toInt.natAbs) : isPlain c := by
    apply isPlain_of_isAlphanum
    simp [Char.isAlphanum, isDigit_of_mem_toDigits h]
  unfold written at h
  split at h
  case isFalse => exact hd h
  case isTrue =>
    rcases List.mem_cons.mp h with rfl | h
    case inl => decide
    case inr => exact hd h

end Integer

namespace Literal

-- A digit of a code point means nothing to a span.
theorem digitChar_ne {n : Nat} (h : n < 16) :
    Nat.digitChar n ≠ '"' ∧ Nat.digitChar n ≠ '\\' ∧ Nat.digitChar n ≠ '\n' := by
  revert n
  decide

theorem inside_encodeChar (c : Char) {cs : List Char} (h : Inside cs) :
    Inside (encodeChar c ++ cs) := by
  unfold encodeChar
  split
  case isTrue => exact .escape h
  split
  case isTrue => exact .escape h
  split
  case isTrue => exact .escape h
  split
  case isTrue hc =>
    have ⟨hq, hb, _⟩ := digitChar_ne (show c.toNat / 16 < 16 by omega)
    have ⟨hq', hb', _⟩ := digitChar_ne (show c.toNat % 16 < 16 by omega)
    exact .escape <| .char hq hb <| .char hq' hb' h
  case isFalse hb _ _ _ =>
    have ⟨hb, hq⟩ := not_or.mp hb
    exact .char hq hb h

theorem inside_encode (content : List Char) : Inside (encode content) := by
  induction content
  case nil => exact .nil
  case cons c cs hi => exact inside_encodeChar c hi

theorem lineFeed_not_mem_encode (content : List Char) : '\n' ∉ encode content := by
  intro h
  obtain ⟨c, _, hc⟩ := List.mem_flatMap.mp h
  unfold encodeChar at hc
  split at hc
  case isTrue ho => rcases ho with rfl | rfl <;> simp at hc
  split at hc
  case isTrue => simp at hc
  split at hc
  case isTrue => simp at hc
  split at hc
  case isTrue ho =>
    have hl := (digitChar_ne (show c.toNat / 16 < 16 by omega)).right.right
    have hr := (digitChar_ne (show c.toNat % 16 < 16 by omega)).right.right
    simp [hl.symm, hr.symm] at hc
  case isFalse hn _ _ => exact hn (List.mem_singleton.mp hc).symm

theorem body?_written (content : List Char) : body? (written content) = some (encode content) := by
  simp [written, body?]

end Literal

namespace Value

theorem written_integer (i : Integer) : (integer i).written = i.written := rfl

theorem written_text (s : String) : (text s).written = Literal.written s.toList := rfl

theorem written_symbol (name : String) : (symbol name).written = name.toList := rfl

end Value

-- What is written for the value is a word on one line, and as a token, it stands for the value.
structure Value.ReadsBack (reserved : String → Bool) (v : Value) : Prop where
  word    : Word v.written
  ne_nil  : v.written ≠ []
  oneLine : '\n' ∉ v.written
  read    : Atom.read reserved v.literal = .ok v

-- The name is one that a symbol can have in a program: it would not be read as another atom, and it
-- is made of the characters of symbols, or else it is a keyword of plain characters.
structure Atom.ReadableName (reserved : String → Bool) (name : String) : Prop where
  notNumeral : Integer.numeral? name.toList = none
  notTrue    : name ≠ "true"
  notFalse   : name ≠ "false"
  known      : isPlainSymbol name ∨ reserved name ∧ name ≠ "" ∧ ∀ c ∈ name.toList, isPlain c

namespace Atom

variable {reserved : String → Bool}

theorem readsBack_integer (i : Integer) : (Value.integer i).ReadsBack reserved where
  word    := word_of_forall_isPlain fun _ => Integer.isPlain_of_mem_written
  oneLine := not_mem_of_forall_isPlain fun _ => Integer.isPlain_of_mem_written
  ne_nil  := by
    have ⟨negative, digits, h, _⟩ := Integer.numeral?_written i
    intro hn
    rw [Value.written_integer] at hn
    simp [hn, Integer.numeral?] at h
  read    := by
    have ⟨negative, digits, h, hv⟩ := Integer.numeral?_written i
    simp [read, Value.written_integer, h, integer, hv]

theorem readsBack_text (s : String) : (Value.text s).ReadsBack reserved where
  word    := .span (Literal.inside_encode _) .nil
  ne_nil  := nofun
  oneLine := by simp [Value.written_text, Literal.written, Literal.lineFeed_not_mem_encode]
  read    := by
    have hn : Integer.numeral? (Literal.written s.toList) = none := by
      simp [Literal.written, Integer.numeral?]
    simp [read, Value.written_text, hn, Literal.body?_written, text, Literal.decode_encode,
      Functor.map, Except.map]

theorem readsBack_boolean (b : Bool) : (Value.boolean b).ReadsBack reserved := by
  have hp : ∀ c ∈ (Value.boolean b).written, isPlain c := by
    cases b <;> exact List.all_eq_true.mp (by decide)
  refine ⟨word_of_forall_isPlain hp, ?_, not_mem_of_forall_isPlain hp, ?_⟩
  case refine_1 => cases b <;> decide
  case refine_2 => cases b <;> rfl

theorem readsBack_symbol {name : String} (h : ReadableName reserved name) :
    (Value.symbol name).ReadsBack reserved := by
  have ⟨hn, hp⟩ : name.toList ≠ [] ∧ ∀ c ∈ name.toList, isPlain c := by
    rcases h.known with hs | ⟨_, hn, hp⟩
    case inl =>
      simp only [isPlainSymbol, Bool.and_eq_true, decide_eq_true_eq, List.all_eq_true] at hs
      exact ⟨hs.left, fun c hc => isPlain_of_isSymbolChar (hs.right c hc)⟩
    case inr => exact ⟨by simpa using hn, hp⟩
  refine ⟨word_of_forall_isPlain hp, hn, not_mem_of_forall_isPlain hp, ?_⟩
  have hb : Literal.body? name.toList = none := by
    obtain ⟨c, cs, hc⟩ := List.exists_cons_of_ne_nil hn
    have hq : c ≠ '"' := by
      rintro rfl
      exact absurd (hp '"' (by simp [hc])) (by decide)
    simp [Literal.body?, hc, hq]
  have hr : (isPlainSymbol name || reserved name) = true := by
    rw [Bool.or_eq_true]
    exact h.known.imp_right And.left
  simp [read, Value.literal, Value.written_symbol, h.notNumeral, hb, h.notTrue, h.notFalse, hr]

-- An atom that has been read from a word on one line reads back.
theorem readsBack_of_read {token : String} {form : Form} (h : read reserved token = .ok form)
    (hw : Word token.toList) (hn : token ≠ "") (hl : '\n' ∉ token.toList) :
    form.ReadsBack reserved := by
  rcases read_eq_ok h with ⟨i, rfl⟩ | ⟨s, rfl⟩ | ⟨b, rfl⟩ | rfl
  case inl         => exact readsBack_integer i
  case inr.inl     => exact readsBack_text s
  case inr.inr.inl => exact readsBack_boolean b
  case inr.inr.inr =>
    have hl' : (Value.symbol token).literal = token := String.ofList_toList
    exact ⟨hw, by simpa [Value.written_symbol] using hn, hl, hl'.symm ▸ h⟩

end Atom
end ScopedLisp
