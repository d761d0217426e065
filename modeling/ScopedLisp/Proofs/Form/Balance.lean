import Mathlib.Logic.ExistsUnique
import ScopedLisp.Keywords.Standard
import ScopedLisp.Proofs.Form.Reading

-- Which token sequences are programs: those whose parentheses match, and whose other tokens all
-- mean something. Programs hold all of their tokens, and each of them once.
-- Main statement: `Program.verdict_of_read`.

namespace ScopedLisp

namespace Token

def opens (ts : List Token) : Nat :=
  ts.countP (·.text = "(")

def closes (ts : List Token) : Nat :=
  ts.countP (·.text = ")")

-- More is closed than opened.
def Overclosed (ts : List Token) : Prop :=
  opens ts < closes ts

-- The token is the first closing parenthesis that is one too many.
def FirstUnmatched (ts : List Token) (t : Token) : Prop :=
  ∃ before after, ts = before ++ t :: after ∧ t.text = ")" ∧
    Overclosed (before ++ [t]) ∧ ∀ p, p <+: before → ¬Overclosed p

-- The token is the first one that is no parenthesis and does not stand for a form either.
def FirstRejected (reserved : String → Bool) (ts : List Token) (t : Token) (cause : Cause) : Prop :=
  ∃ before after, ts = before ++ t :: after ∧ t.text ≠ "(" ∧ t.text ≠ ")" ∧
    Atom.read reserved t.text = .error cause ∧ ∀ u ∈ before, ¬u.IsRejected reserved

variable {reserved : String → Bool} {t : Token}

theorem piece_eq_error_iff {cause : Cause} :
    t.piece reserved = .error cause ↔
      t.text ≠ "(" ∧ t.text ≠ ")" ∧ Atom.read reserved t.text = .error cause := by
  unfold piece
  split
  case isTrue h => simp [h]
  split
  case isTrue h => simp [h]
  case isFalse ho hc => simp [map_eq_error_iff, ho, hc]

theorem opens_append (ts us : List Token) : opens (ts ++ us) = opens ts + opens us :=
  List.countP_append

theorem closes_append (ts us : List Token) : closes (ts ++ us) = closes ts + closes us :=
  List.countP_append

theorem opens_cons (t : Token) (ts : List Token) : opens (t :: ts) = opens [t] + opens ts :=
  opens_append [t] ts

theorem closes_cons (t : Token) (ts : List Token) : closes (t :: ts) = closes [t] + closes ts :=
  closes_append [t] ts

-- The piece of a token tells how the token counts.
theorem depth_piece {p : Piece} (h : t.piece reserved = .ok p) {depth : Nat} :
    p.depth depth = depth + opens [t] - closes [t] := by
  unfold piece at h
  split at h
  case isTrue ho =>
    obtain rfl := Except.ok.inj h
    simp [ho, Piece.depth, opens, closes]
  case isFalse ho =>
    split at h
    case isTrue hc =>
      obtain rfl := Except.ok.inj h
      simp [hc, Piece.depth, opens, closes]
    case isFalse hc =>
      obtain ⟨form, _, rfl⟩ := map_eq_ok_iff.mp h
      simp [ho, hc, Piece.depth, opens, closes]

theorem exists_firstRejected {ts : List Token} (h : ∃ t ∈ ts, t.IsRejected reserved) :
    ∃ t cause, FirstRejected reserved ts t cause := by
  induction ts
  case nil => simp at h
  case cons t ts hi =>
    by_cases ht : t.IsRejected reserved
    case pos =>
      obtain ⟨cause, hc⟩ := ht
      have ⟨ho, hc, hr⟩ := piece_eq_error_iff.mp hc
      exact ⟨t, cause, [], ts, rfl, ho, hc, hr, by simp⟩
    case neg =>
      obtain ⟨u, hu, hr⟩ := h
      have hu := (List.mem_cons.mp hu).resolve_left fun he => ht (he ▸ hr)
      obtain ⟨u, cause, before, after, rfl, ho, hc, hr, hb⟩ := hi ⟨u, hu, hr⟩
      exact ⟨u, cause, t :: before, after, rfl, ho, hc, hr, List.forall_mem_cons.mpr ⟨ht, hb⟩⟩

-- A condition on all prefixes, for the first token and the others.
theorem forall_prefix_cons {P : List Token → Prop} {t : Token} {ts : List Token} :
    (∀ p, p <+: t :: ts → P p) ↔ P [] ∧ ∀ p, p <+: ts → P (t :: p) := by
  simp only [List.prefix_cons_iff]
  constructor
  case mp  => exact fun h => ⟨h [] (.inl rfl), fun p hp => h _ (.inr ⟨p, rfl, hp⟩)⟩
  case mpr =>
    rintro ⟨hn, hc⟩ p (rfl | ⟨p, rfl, hp⟩)
    case inl => exact hn
    case inr => exact hc p hp

end Token

namespace Program

open Token

variable {reserved : String → Bool} {depth : Nat} {t : Token} {ts : List Token}

-- The lists that are open behind a token, if it does not close the text as a whole.
theorem unmatched?_cons (h : closes [t] ≤ depth + opens [t]) (ts : List Token) :
    unmatched? depth (t :: ts) = unmatched? (depth + opens [t] - closes [t]) ts := by
  by_cases ho : t.text = "("
  case pos => simp [unmatched?, opens, closes, ho]
  by_cases hc : t.text = ")"
  case pos =>
    cases depth
    case zero  => simp [opens, closes, hc] at h
    case succ  => simp [unmatched?, opens, closes, hc]
  case neg => simp [unmatched?, opens, closes, ho, hc]

theorem unmatched?_cons_of_lt (h : depth + opens [t] < closes [t]) (ts : List Token) :
    depth = 0 ∧ t.text = ")" ∧ unmatched? depth (t :: ts) = some t := by
  by_cases hc : t.text = ")"
  case neg => simp [closes, hc] at h
  obtain rfl : depth = 0 := by
    simp [closes, opens, hc] at h
    exact h
  simp [unmatched?, hc]

theorem unmatched?_eq_none_iff :
    unmatched? depth ts = none ↔ ∀ p, p <+: ts → closes p ≤ depth + opens p := by
  induction ts generalizing depth
  case nil => simp [unmatched?, opens, closes]
  case cons t ts hi =>
    rw [forall_prefix_cons]
    by_cases h : closes [t] ≤ depth + opens [t]
    case pos =>
      rw [unmatched?_cons h, hi]
      constructor
      case mp =>
        refine fun hp => ⟨by simp [closes], fun p hpre => ?_⟩
        have := hp p hpre
        rw [closes_cons, opens_cons]
        omega
      case mpr =>
        intro hp p hpre
        have := hp.right p hpre
        rw [closes_cons, opens_cons] at this
        omega
    case neg =>
      obtain ⟨_, _, hu⟩ := unmatched?_cons_of_lt (Nat.not_le.mp h) ts
      rw [hu]
      refine iff_of_false nofun fun hp => h ?_
      exact hp.right [] (List.nil_prefix)

theorem unmatched?_eq_some (h : unmatched? depth ts = some t) :
    ∃ before after, ts = before ++ t :: after ∧ t.text = ")" ∧
      depth + opens (before ++ [t]) < closes (before ++ [t]) ∧
      ∀ p, p <+: before → closes p ≤ depth + opens p := by
  induction ts generalizing depth
  case nil => cases h
  case cons u ts hi =>
    by_cases hu : closes [u] ≤ depth + opens [u]
    case pos =>
      rw [unmatched?_cons hu] at h
      obtain ⟨before, after, rfl, ht, hc, hp⟩ := hi h
      refine ⟨u :: before, after, rfl, ht, ?_, ?_⟩
      case refine_1 =>
        rw [List.cons_append, closes_cons, opens_cons]
        omega
      case refine_2 =>
        refine forall_prefix_cons.mpr ⟨by simp [closes], fun p hpre => ?_⟩
        have := hp p hpre
        rw [closes_cons, opens_cons]
        omega
    case neg =>
      have hlt := Nat.not_le.mp hu
      obtain ⟨rfl, hc, he⟩ := unmatched?_cons_of_lt hlt ts
      obtain rfl := Option.some.inj <| he.symm.trans h
      refine ⟨[], ts, rfl, hc, hlt, fun p hp => ?_⟩
      simp [List.prefix_nil.mp hp, closes]

end Program

namespace Form

open Token

variable {reserved : String → Bool}

-- Tokens that mean something and leave the outermost list open: the pieces of the open lists are
-- those of the tokens.
theorem readIn_append {ts : List Token} (ha : ∀ t ∈ ts, ¬t.IsRejected reserved)
    {lists : List OpenList} (hl : lists ≠ [])
    (hu : ∀ p, p <+: ts → closes p < lists.length + opens p) (rest : List Token) :
    ∃ lists' ps, readIn reserved lists (ts ++ rest) = readIn reserved lists' rest ∧
      ts.map (·.piece reserved) = ps.map .ok ∧
      OpenList.pieces lists' = OpenList.pieces lists ++ ps ∧
      lists' ≠ [] ∧ lists'.length + closes ts = lists.length + opens ts := by
  induction ts generalizing lists
  case nil => exact ⟨lists, [], by simp [opens, closes, hl]⟩
  case cons t ts hi =>
    rw [List.forall_mem_cons] at ha
    rw [forall_prefix_cons] at hu
    have ht := hu.right [] List.nil_prefix
    cases hp : t.piece reserved
    case error cause => exact absurd ⟨cause, hp⟩ ha.left
    case ok p =>
      have hd : p.depth lists.length = _ := depth_piece hp
      have ⟨lists', hr, hps, hl'⟩ : ∃ lists',
          readIn reserved lists (t :: (ts ++ rest)) = readIn reserved lists' (ts ++ rest) ∧ _ :=
        readIn_of_ok hp hl (by omega)
      rw [hd] at hl'
      have hne : lists' ≠ [] := List.ne_nil_of_length_pos (by omega)
      obtain ⟨lists'', ps, hr', hm, hps', hne', hl''⟩ := hi ha.right hne fun q hq => by
        have := hu.right q hq
        rw [closes_cons, opens_cons] at this
        omega
      refine ⟨lists'', p :: ps, hr.trans hr', by simp [hp, hm], by simp [hps', hps], hne', ?_⟩
      rw [opens_cons, closes_cons]
      omega

end Form
namespace Program

open Token

-- How the reading of a program may end.
inductive Verdict
  | unmatched
  | rejected
  | unclosed
  | accepted

-- What the verdict says of the tokens.
def Verdict.Applies (reserved : String → Bool) (ts : List Token) : Verdict → Prop
  | unmatched => ∃ p, p <+: ts ∧ Overclosed p
  | rejected  => (¬∃ p, p <+: ts ∧ Overclosed p) ∧ ∃ t ∈ ts, t.IsRejected reserved
  | unclosed  =>
    (¬∃ p, p <+: ts ∧ Overclosed p) ∧ (¬∃ t ∈ ts, t.IsRejected reserved) ∧ closes ts < opens ts
  | accepted  =>
    (¬∃ p, p <+: ts ∧ Overclosed p) ∧ (¬∃ t ∈ ts, t.IsRejected reserved) ∧ ¬closes ts < opens ts

-- What comes out then.
def Verdict.Yields (reserved : String → Bool) (g : Form) (ts : List Token)
    (outcome : Except Failure Form) : Verdict → Prop
  | unmatched =>
    ∃ t, FirstUnmatched ts t ∧ outcome = .error ⟨.unmatchedParenthesis, [.position t.position]⟩
  | rejected  =>
    ∃ t cause, FirstRejected reserved ts t cause ∧ cause.kind = .lexical ∧
      outcome = .error ⟨cause, [.position t.position]⟩
  | unclosed  => ∃ failure, outcome = .error failure ∧ failure.kind = .syntactic
  | accepted  =>
    ∃ items, outcome = .ok (.list (g :: items)) ∧
      ts.map (·.piece reserved) = (Value.piecesAll items).map .ok

section

variable {reserved : String → Bool} {grouping : String} {g : Form} {ts : List Token}

theorem unmatched?_eq_none_iff_not_overclosed :
    unmatched? 0 ts = none ↔ ¬∃ p, p <+: ts ∧ Overclosed p := by
  simp [unmatched?_eq_none_iff, Overclosed]

theorem yields_unmatched (h : ∃ p, p <+: ts ∧ Overclosed p) :
    Verdict.unmatched.Yields reserved g ts (ofTokens grouping reserved ts) := by
  cases hu : unmatched? 0 ts
  case none   => exact absurd h <| unmatched?_eq_none_iff_not_overclosed.mp hu
  case some t =>
    obtain ⟨before, after, he, hc, ho, hp⟩ := unmatched?_eq_some hu
    rw [Nat.zero_add] at ho
    have hp' : ∀ p, p <+: before → ¬Overclosed p := fun p hpre => by
      have := hp p hpre
      unfold Overclosed
      omega
    exact ⟨t, ⟨before, after, he, hc, ho, hp'⟩, by simp [ofTokens, hu, Failure.within]⟩

-- A program is read in a list that stays open up to its last token.
theorem ofTokens_eq_readIn (h : ¬∃ p, p <+: ts ∧ Overclosed p) :
    ofTokens grouping reserved ts =
      (Form.readIn reserved [⟨.start, []⟩] (⟨grouping, .start⟩ :: ts ++ [⟨")", close ts⟩])).1 := by
  rw [← unmatched?_eq_none_iff_not_overclosed] at h
  simp [ofTokens, h, Form.read, wrapped, Form.readIn]

variable (hg : Atom.read reserved grouping = .ok g) (ho : grouping ≠ "(") (hc : grouping ≠ ")")

include hg ho hc in
theorem piece_grouping (p : Position) : Token.piece reserved ⟨grouping, p⟩ = .ok (.atom g) := by
  simp [Token.piece, ho, hc, hg, Functor.map, Except.map]

-- The list around the program is not closed by any beginning of the program.
include hc in
theorem closes_lt_of_beginning {p : Position} {before : List Token}
    (h : ∀ q, q <+: before → ¬Overclosed q) :
    ∀ q, q <+: ⟨grouping, p⟩ :: before → closes q < 1 + opens q := by
  rw [forall_prefix_cons]
  refine ⟨by simp [opens, closes], fun q hq => ?_⟩
  have := h q hq
  unfold Overclosed at this
  rw [closes_cons, opens_cons]
  have hn : closes [⟨grouping, p⟩] = 0 := by simp [closes, hc]
  omega

include hg ho hc in
theorem yields_rejected (hn : ¬∃ p, p <+: ts ∧ Overclosed p)
    (hr : ∃ t ∈ ts, t.IsRejected reserved) :
    Verdict.rejected.Yields reserved g ts (ofTokens grouping reserved ts) := by
  obtain ⟨t, cause, hf⟩ := exists_firstRejected hr
  obtain ⟨before, after, rfl, hto, htc, hte, hb⟩ := hf
  refine ⟨t, cause, ⟨before, after, rfl, hto, htc, hte, hb⟩, Atom.kind_of_read hte, ?_⟩
  have hg := piece_grouping hg ho hc .start
  have hpre : ∀ q, q <+: before → ¬Overclosed q :=
    fun q hq ho => hn ⟨q, hq.trans <| List.prefix_append .., ho⟩
  have ha : ∀ u ∈ (⟨grouping, .start⟩ :: before : List Token), ¬u.IsRejected reserved :=
    List.forall_mem_cons.mpr ⟨fun ⟨_, he⟩ => by simp [hg] at he, hb⟩
  have hl := List.cons_ne_nil (⟨.start, []⟩ : OpenList) []
  obtain ⟨lists, _, hread, _⟩ := Form.readIn_append ha hl
    (closes_lt_of_beginning hc hpre) (t :: after ++ [⟨")", close (before ++ t :: after)⟩])
  rw [ofTokens_eq_readIn hn, List.cons_append, List.append_assoc, ← List.cons_append, hread,
    List.cons_append, Form.readIn_of_error (piece_eq_error_iff.mpr ⟨hto, htc, hte⟩)]

-- Without an overclosed beginning or a rejected token: the end of the program decides.
include hg ho hc in
theorem yields_of_spelled (hn : ¬∃ p, p <+: ts ∧ Overclosed p)
    (hr : ¬∃ t ∈ ts, t.IsRejected reserved) :
    (closes ts < opens ts → Verdict.unclosed.Yields reserved g ts (ofTokens grouping reserved ts)) ∧
    (¬closes ts < opens ts →
      Verdict.accepted.Yields reserved g ts (ofTokens grouping reserved ts)) := by
  have hg := piece_grouping hg ho hc .start
  have hpre : ∀ q, q <+: ts → ¬Overclosed q := fun q hq ho => hn ⟨q, hq, ho⟩
  have ha : ∀ u ∈ (⟨grouping, .start⟩ :: ts : List Token), ¬u.IsRejected reserved :=
    List.forall_mem_cons.mpr ⟨fun ⟨_, he⟩ => by simp [hg] at he, fun t ht he => hr ⟨t, ht, he⟩⟩
  obtain ⟨lists, ps, hread, hm, hps, hne, hl⟩ :=
    Form.readIn_append ha (List.cons_ne_nil (⟨.start, []⟩ : OpenList) [])
      (closes_lt_of_beginning hc hpre) [⟨")", close ts⟩]
  rw [ofTokens_eq_readIn hn, hread]
  have ht : opens [⟨grouping, .start⟩] = 0 ∧ closes [⟨grouping, .start⟩] = 0 := by
    simp [opens, closes, ho, hc]
  rw [opens_cons, closes_cons, ht.left, ht.right, List.length_singleton] at hl
  have := hpre ts List.prefix_rfl
  unfold Overclosed at this
  match lists with
  | [outermost] =>
    simp only [List.length_singleton] at hl
    refine ⟨fun h => by omega, fun _ => ?_⟩
    rw [List.map_cons, hg] at hm
    obtain ⟨form, ps, rfl⟩ := List.exists_cons_of_ne_nil (l := ps) (by rintro rfl; cases hm)
    simp only [List.map_cons, List.cons.injEq, Except.ok.injEq] at hm
    obtain ⟨rfl, hm⟩ := hm
    simp only [OpenList.pieces, List.reverse_nil, Value.piecesAll, List.nil_append,
      List.singleton_append, List.cons.injEq, true_and] at hps
    obtain ⟨items, hi, rfl⟩ := Value.piecesAll_eq_atom_cons hps
    exact ⟨items, by simp [Form.readIn, hi], hm⟩
  | inner :: outer :: lists =>
    simp only [List.length_cons] at hl
    have he : (Form.readIn reserved (inner :: outer :: lists) [⟨")", close ts⟩]).1 =
        .error { cause := .unclosedList outer.opened } := by
      simp [Form.readIn, Form.endOfTokens]
    exact ⟨fun _ => ⟨_, he, rfl⟩, fun h => by omega⟩

end

theorem existsUnique_applies (reserved : String → Bool) (ts : List Token) :
    ∃! verdict : Verdict, verdict.Applies reserved ts := by
  by_cases hn : ∃ p, p <+: ts ∧ Overclosed p
  case pos =>
    refine ⟨.unmatched, hn, fun verdict h => ?_⟩
    cases verdict
    case unmatched => rfl
    all_goals exact absurd hn h.left
  by_cases hr : ∃ t ∈ ts, t.IsRejected reserved
  case pos =>
    refine ⟨.rejected, ⟨hn, hr⟩, fun verdict h => ?_⟩
    cases verdict
    case unmatched => exact absurd h hn
    case rejected  => rfl
    all_goals exact absurd hr h.right.left
  by_cases ho : closes ts < opens ts
  case pos =>
    refine ⟨.unclosed, ⟨hn, hr, ho⟩, fun verdict h => ?_⟩
    cases verdict
    case unmatched => exact absurd h hn
    case rejected  => exact absurd h.right hr
    case unclosed  => rfl
    case accepted  => exact absurd ho h.right.right
  case neg =>
    refine ⟨.accepted, ⟨hn, hr, ho⟩, fun verdict h => ?_⟩
    cases verdict
    case unmatched => exact absurd h hn
    case rejected  => exact absurd h.right hr
    case unclosed  => exact absurd h.right.right ho
    case accepted  => rfl

-- Exactly one verdict applies to a program, and what comes out is what that verdict says.
theorem verdict_of_read {k : Keywords} {g : Form} (hg : Atom.read k.reserves k.grouping = .ok g)
    (ho : k.grouping ≠ "(") (hc : k.grouping ≠ ")") (source : String) :
    let ts := Token.scan source
    ∃! verdict : Verdict, verdict.Applies k.reserves ts ∧
      verdict.Yields k.reserves g ts (read k.grouping k.reserves source) := by
  intro ts
  obtain ⟨verdict, ha, hu⟩ := existsUnique_applies k.reserves ts
  refine ⟨verdict, ⟨ha, ?_⟩, fun other h => hu other h.left⟩
  cases verdict
  case unmatched => exact yields_unmatched ha
  case rejected  => exact yields_rejected hg ho hc ha.left ha.right
  case unclosed  => exact (yields_of_spelled hg ho hc ha.left ha.right.left).left ha.right.right
  case accepted  => exact (yields_of_spelled hg ho hc ha.left ha.right.left).right ha.right.right

-- The grouping word of the language is fit for all programs, such as one that leaves out a
-- parenthesis.
theorem verdict_of_read_standard :
    Atom.read Keywords.standard.reserves Keywords.standard.grouping = .ok (.symbol "do") ∧
      let ts := Token.scan "(print (+ 1 2)"
      ∃! verdict : Verdict, verdict.Applies Keywords.standard.reserves ts ∧
        verdict.Yields Keywords.standard.reserves (.symbol "do") ts
          (read Keywords.standard.grouping Keywords.standard.reserves "(print (+ 1 2)") :=
  ⟨rfl, verdict_of_read rfl (by decide) (by decide) "(print (+ 1 2)"⟩

end Program
end ScopedLisp
