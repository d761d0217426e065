import ScopedLisp.Proofs.Form.Front

-- Programs that end inside of a list. The parenthesis that is put behind a program closes the
-- innermost list that is still open, so that the complaint is about the list around that one. If
-- there is no other, it is about the list around the program, which the program does not show.
-- Main statement: `Program.place_of_unclosed`.

namespace ScopedLisp

open Token

variable {reserved : String → Bool} {t : Token} {ts p before rest : List Token} {form : Form}
  {forms : List Form} {lists : List OpenList}

-- Where the list starts that has not been closed.
theorem Failure.message_unclosedList (place : Position) :
    Failure.message (Cause.unclosedList place) =
      s!"EOF while reading list started at line {place.line} column {place.column}" := by
  have h : "EOF while reading list started at line " =
      "EOF while reading list started " ++ "at line " := by decide
  change "EOF while reading list started " ++
      ("at line " ++ toString place.line ++ " column " ++ toString place.column) =
    "EOF while reading list started at line " ++ toString place.line ++ " column " ++
      toString place.column
  rw [h]
  simp only [String.append_assoc]

namespace Token

-- The token opens a list, and nothing behind it closes that list.
def NeverClosed (ts : List Token) (t : Token) : Prop :=
  ∃ before behind, ts = before ++ t :: behind ∧ t.text = "(" ∧ ∀ p, p <+: behind → ¬Overclosed p

-- The token opens a list that is never closed, and behind it, exactly one more such list is opened.
def NextToInnermost (ts : List Token) (t : Token) : Prop :=
  ∃ before behind, ts = before ++ t :: behind ∧ t.text = "(" ∧
    (∀ p, p <+: behind → ¬Overclosed p) ∧ opens behind = closes behind + 1

theorem NextToInnermost.neverClosed (h : NextToInnermost ts t) : NeverClosed ts t :=
  have ⟨before, behind, hts, ht, hp, _⟩ := h
  ⟨before, behind, hts, ht, hp⟩

theorem NeverClosed.mem (h : NeverClosed ts t) : t ∈ ts := by
  have ⟨before, behind, hts, _⟩ := h
  simp [hts]

theorem opens_opening (ht : t.text = "(") : opens [t] = 1 ∧ closes [t] = 0 := by
  simp [opens, closes, ht]

theorem opens_closing (ht : t.text = ")") : opens [t] = 0 ∧ closes [t] = 1 := by
  simp [opens, closes, ht]

-- Where nothing is closed that is not open, there is a list that is never closed only if more lists
-- are opened than closed.
theorem NeverClosed.closes_lt (h : NeverClosed ts t) (hn : ¬∃ p, p <+: ts ∧ Overclosed p) :
    closes ts < opens ts := by
  have ⟨before, behind, hts, ht, hb⟩ := h
  have hf : ¬Overclosed before := fun ho => hn ⟨before, hts ▸ List.prefix_append .., ho⟩
  have hb := hb behind List.prefix_rfl
  unfold Overclosed at hf hb
  have ⟨hto, htc⟩ := opens_opening ht
  rw [hts, opens_append, closes_append, opens_cons, closes_cons, hto, htc]
  omega

theorem opens_flatMap {α : Type} {items : List (List Token × α)}
    (h : ∀ item ∈ items, opens item.1 = closes item.1) :
    opens (items.flatMap Prod.fst) = closes (items.flatMap Prod.fst) := by
  induction items
  case nil => rfl
  case cons item items hi =>
    have ⟨hitem, hitems⟩ := List.forall_mem_cons.mp h
    rw [List.flatMap_cons, opens_append, closes_append, hitem, hi hitems]

end Token

theorem Program.not_overclosed_of_unmatched? (h : unmatched? 0 ts = none) :
    ∀ p, p <+: ts → ¬Overclosed p :=
  fun p hp ho => unmatched?_eq_none_iff_not_overclosed.mp h ⟨p, hp, ho⟩

namespace Form

theorem Spelled.opens_eq (h : Spelled reserved p form) : opens p = closes p := by
  induction h
  case atom ho hc _ => simp [opens, closes, ho, hc]
  case list opening closing items ho hc _ hi =>
    have hs := opens_flatMap hi
    obtain ⟨hoo, hoc⟩ := opens_opening ho
    obtain ⟨hco, hcc⟩ := opens_closing hc
    rw [opens_cons, closes_cons, opens_append, closes_append, hs, hoo, hoc, hco, hcc]
    omega

namespace AllSpelled

theorem opens_eq (h : AllSpelled reserved ts forms) : opens ts = closes ts := by
  have ⟨items, ht, _, hi⟩ := h
  exact ht ▸ opens_flatMap fun item hm => (hi item hm).opens_eq

theorem not_overclosed (h : AllSpelled reserved ts forms) : ∀ p, p <+: ts → ¬Overclosed p := by
  have ⟨items, ht, _, hi⟩ := h
  have hu := spells_flatMap (fun item hm => (hi item hm).spells) |>.unmatched? 0 []
  rw [List.append_nil, ← ht] at hu
  exact Program.not_overclosed_of_unmatched? hu

end AllSpelled

-- In open lists, tokens that mean something can only fail to be read by coming to an end.
theorem unclosed_of_readIn (hl : OpenList.Spelled reserved lists before) (hn : lists ≠ [])
    (ha : ∀ t ∈ ts, ¬t.IsRejected reserved) {failure : Failure}
    (h : readIn reserved lists ts = (.error failure, rest)) :
    ∃ lists', OpenList.Spelled reserved lists' (before ++ ts) ∧ lists' ≠ [] ∧
      failure = endOfTokens lists' := by
  fun_induction readIn reserved lists ts generalizing before
  case case1 lists =>
    obtain ⟨rfl, _⟩ : ↑(endOfTokens lists) = failure ∧ _ := by simpa using h
    exact ⟨lists, by simpa using hl, hn, rfl⟩
  case case2 ho hi =>
    simpa using hi (hl.opened ho) (by simp) (List.forall_mem_cons.mp ha).right h
  case case3 | case7 => exact absurd rfl hn
  case case4 => cases h
  case case5 t rest _ hc inner outer lists outer' hi =>
    obtain ⟨front, p, hb, hf, hp⟩ := hl.closed hc
    have hr := hi (hb ▸ hf.item hp) (by simp) (List.forall_mem_cons.mp ha).right h
    simpa using hr
  case case6 ho hc _ hr =>
    have hp := piece_eq_error_iff.mpr ⟨ho, hc, hr⟩
    exact absurd ⟨_, hp⟩ (List.forall_mem_cons.mp ha).left
  case case8 t _ ho hc v inner lists hr hi =>
    simpa using hi (hl.item <| .atom ho hc hr) (by simp) (List.forall_mem_cons.mp ha).right h

end Form

-- So many more lists have been opened than closed.
theorem OpenList.Spelled.opens_eq (h : OpenList.Spelled reserved lists ts) :
    opens ts = closes ts + lists.length := by
  induction lists generalizing ts
  case nil =>
    obtain rfl : ts = [] := h
    rfl
  case cons inner lists hi =>
    have ⟨before, behind, ht, hl, hs⟩ := h
    have ⟨hoo, hoc⟩ := opens_opening (t := ⟨"(", inner.opened⟩) rfl
    rw [ht, opens_append, closes_append, opens_cons, closes_cons, hi hl, hs.opens_eq, hoo, hoc,
      List.length_cons]
    omega

namespace Program

theorem opens_wrapped {grouping : String} (ho : grouping ≠ "(") (hc : grouping ≠ ")")
    (ts : List Token) :
    opens (wrapped grouping ts) = opens ts + 1 ∧ closes (wrapped grouping ts) = closes ts + 1 := by
  simp [wrapped, opens, closes, ho, hc]

theorem not_isRejected_of_isOk (h : ∀ t ∈ ts, (t.piece reserved).isOk) :
    ¬∃ t ∈ ts, t.IsRejected reserved := by
  rintro ⟨t, ht, cause, hc⟩
  have hok := h t ht
  simp [hc, Except.isOk, Except.toBool] at hok

-- Of the lists in a program, the one that stays open behind it is the next to innermost.
theorem nextToInnermost_of_wrapped {grouping : String} (ho : grouping ≠ "(") {place : Position}
    {behind : List Token} (hb : before ≠ [])
    (hw : wrapped grouping ts = before ++ ⟨"(", place⟩ :: behind)
    (hs : Form.AllSpelled reserved behind forms) : NextToInnermost ts ⟨"(", place⟩ := by
  have ⟨opening, front, hf⟩ := List.exists_cons_of_ne_nil hb
  have ⟨_, hw⟩ := List.cons.inj <| hf ▸ hw
  -- Neither the grouping word nor the parenthesis behind the program opens a list.
  rcases List.cons_eq_append_iff.mp hw with ⟨_, hg⟩ | ⟨before, _, ht⟩
  case inl => exact absurd (congrArg Token.text (List.cons.inj hg).left).symm ho
  rcases List.eq_nil_or_concat' behind with rfl | ⟨behind, last, rfl⟩
  case inl => exact absurd (List.append_inj_right' ht rfl) (by simp)
  case inr =>
    rw [← List.cons_append, ← List.append_assoc] at ht
    have ⟨hts, hlast⟩ := List.append_inj' ht rfl
    have hl : last.text = ")" := (congrArg Token.text (List.singleton_inj.mp hlast)).symm
    have ⟨hlo, hlc⟩ := opens_closing hl
    have he := hs.opens_eq
    rw [opens_append, closes_append, hlo, hlc] at he
    exact ⟨before, behind, hts, rfl, fun p hp => hs.not_overclosed p (hp.trans ⟨_, rfl⟩), he⟩

section

variable {grouping : String} {g : Form} (hg : Atom.read reserved grouping = .ok g)
  (ho : grouping ≠ "(") (hc : grouping ≠ ")")

include hg ho hc in
theorem not_isRejected_of_wrapped (h : ¬∃ t ∈ ts, t.IsRejected reserved) :
    ∀ t ∈ (⟨grouping, .start⟩ :: ts ++ [⟨")", close ts⟩] : List Token),
      ¬t.IsRejected reserved := by
  refine List.forall_mem_append.mpr ⟨List.forall_mem_cons.mpr ⟨?_, ?_⟩, ?_⟩
  case refine_1 => exact fun ⟨_, he⟩ => by simp [piece_grouping hg ho hc] at he
  case refine_2 => exact fun t ht hr => h ⟨t, ht, hr⟩
  case refine_3 =>
    exact List.forall_mem_singleton.mpr fun ⟨_, he⟩ => (piece_eq_error_iff.mp he).right.left rfl

-- What is still open at the end of all that is read for a program.
include hg ho hc in
theorem exists_spelled_of_unclosed (hn : ¬∃ p, p <+: ts ∧ Overclosed p)
    (hr : ¬∃ t ∈ ts, t.IsRejected reserved) (hu : closes ts < opens ts) :
    ∃ inner lists, ofTokens grouping reserved ts = .error (Cause.unclosedList inner.opened) ∧
      OpenList.Spelled reserved (inner :: lists) (wrapped grouping ts) := by
  have ⟨failure, he, _⟩ := (yields_of_spelled hg ho hc hn hr).left hu
  have hs : OpenList.Spelled reserved [⟨.start, []⟩] [⟨"(", .start⟩] :=
    have hn : OpenList.Spelled reserved [] [] := rfl
    hn.opened (t := ⟨"(", .start⟩) rfl
  have hread := (ofTokens_eq_readIn hn).symm.trans he
  have ⟨lists, hl, hne, hf⟩ := Form.unclosed_of_readIn hs (by simp)
    (not_isRejected_of_wrapped hg ho hc hr) (Prod.ext hread rfl)
  have ⟨inner, lists, hi⟩ := List.exists_cons_of_ne_nil hne
  subst hi
  exact ⟨inner, lists, hf ▸ he, hl⟩

include hg ho hc in
theorem exists_place_of_unclosed (hn : ¬∃ p, p <+: ts ∧ Overclosed p)
    (hr : ¬∃ t ∈ ts, t.IsRejected reserved) (hu : closes ts < opens ts) :
    ∃ place, ofTokens grouping reserved ts = .error (Cause.unclosedList place) ∧
      (opens ts = closes ts + 1 → place = .start) ∧
      (closes ts + 1 < opens ts → ∃ t, NextToInnermost ts t ∧ t.position = place) := by
  have ⟨inner, lists, he, hs⟩ := exists_spelled_of_unclosed hg ho hc hn hr hu
  have hcount := hs.opens_eq
  have ⟨before, behind, hw, hl, hb⟩ := hs
  have ⟨hwo, hwc⟩ := opens_wrapped ho hc ts
  rw [hwo, hwc, List.length_cons] at hcount
  refine ⟨inner.opened, he, fun h => ?_, fun h => ?_⟩
  case refine_1 =>
    obtain rfl : lists = [] := List.eq_nil_of_length_eq_zero (by omega)
    obtain rfl : before = [] := hl
    exact (congrArg Token.position (List.cons.inj hw).left).symm
  case refine_2 =>
    have hne : before ≠ [] := by
      rintro rfl
      have := hl.opens_eq
      simp [opens, closes] at this
      omega
    exact ⟨_, nextToInnermost_of_wrapped ho hne hw hb, rfl⟩

end

-- Programs without any other fault, in which a list is never closed. The complaint is about the
-- list next to the innermost one that stays open, or about the start of the program, if there is
-- only one list. So it is about a list of the program unless the only one starts further on.
theorem place_of_unclosed {k : Keywords} {g : Form} (hg : Atom.read k.reserves k.grouping = .ok g)
    (ho : k.grouping ≠ "(") (hc : k.grouping ≠ ")") (source : String) :
    let ts := Token.scan source
    (¬∃ p, p <+: ts ∧ Overclosed p) → (¬∃ t ∈ ts, t.IsRejected k.reserves) →
    (∃ t, NeverClosed ts t) →
      ∃ (failure : Failure) (place : Position),
        read k.grouping k.reserves source = .error failure ∧ failure.kind = .syntactic ∧
        failure.message =
          s!"EOF while reading list started at line {place.line} column {place.column}" ∧
        (opens ts = closes ts + 1 → place = .start) ∧
        (closes ts + 1 < opens ts → ∃ t, NextToInnermost ts t ∧ t.position = place) ∧
        ((∃ t, NeverClosed ts t ∧ t.position = place) ↔
          (opens ts = closes ts + 1 → ∃ t, NeverClosed ts t ∧ t.position = .start)) := by
  intro ts hn hr ⟨t, ht⟩
  have hu := ht.closes_lt hn
  have ⟨place, he, hone, hmore⟩ := exists_place_of_unclosed hg ho hc hn hr hu
  refine ⟨_, place, he, rfl, Failure.message_unclosedList place, hone, hmore, ?_⟩
  by_cases h : opens ts = closes ts + 1
  case pos => simp [h, hone h]
  case neg =>
    have ⟨t, hi, hp⟩ := hmore (by omega)
    exact iff_of_true ⟨t, hi.neverClosed, hp⟩ fun h' => absurd h' h

-- Of two lists that stay open, the complaint is about the first one.
theorem place_of_unclosed_standard :
    let k := Keywords.standard
    let ts := Token.scan "x (a (b"
    Atom.read k.reserves k.grouping = .ok (.symbol "do") ∧ k.grouping ≠ "(" ∧ k.grouping ≠ ")" ∧
      (¬∃ p, p <+: ts ∧ Overclosed p) ∧ (¬∃ t ∈ ts, t.IsRejected k.reserves) ∧
      (∃ t, NeverClosed ts t) ∧
      ∃ (failure : Failure) (place : Position),
        read k.grouping k.reserves "x (a (b" = .error failure ∧
        failure.message =
          s!"EOF while reading list started at line {place.line} column {place.column}" ∧
        ∃ t, NextToInnermost ts t ∧ t.position = place := by
  intro k ts
  have hn : ¬∃ p, p <+: ts ∧ Overclosed p :=
    unmatched?_eq_none_iff_not_overclosed.mp (by decide +kernel)
  have hr : ¬∃ t ∈ ts, t.IsRejected k.reserves := not_isRejected_of_isOk (by decide +kernel)
  have ht : NeverClosed ts ⟨"(", ⟨1, 3⟩⟩ := by
    refine ⟨[⟨"x", ⟨1, 1⟩⟩], [⟨"a", ⟨1, 4⟩⟩, ⟨"(", ⟨1, 6⟩⟩, ⟨"b", ⟨1, 7⟩⟩], by decide +kernel,
      rfl, ?_⟩
    exact not_overclosed_of_unmatched? (by decide +kernel)
  have hg : Atom.read Keywords.standard.reserves Keywords.standard.grouping =
      .ok (.symbol "do") := rfl
  have ⟨failure, place, he, _, hm, _, hmore, _⟩ :=
    place_of_unclosed hg (by decide) (by decide) "x (a (b" hn hr ⟨_, ht⟩
  exact ⟨hg, by decide, by decide, hn, hr, ⟨_, ht⟩, failure, place, he, hm,
    hmore (by decide +kernel)⟩

-- A single list that starts further on is not what the complaint is about.
theorem place_of_unclosed_elsewhere :
    ¬∀ source : String,
      let ts := Token.scan source
      (¬∃ p, p <+: ts ∧ Overclosed p) → (¬∃ t ∈ ts, t.IsRejected Keywords.standard.reserves) →
      (∃ t, NeverClosed ts t) → ∃ t, NeverClosed ts t ∧
        read Keywords.standard.grouping Keywords.standard.reserves source =
          .error (Cause.unclosedList t.position) := by
  intro h
  have hn : ¬∃ p, p <+: Token.scan " (a" ∧ Overclosed p :=
    unmatched?_eq_none_iff_not_overclosed.mp (by decide +kernel)
  have ht : NeverClosed (Token.scan " (a") ⟨"(", ⟨1, 2⟩⟩ := by
    refine ⟨[], [⟨"a", ⟨1, 3⟩⟩], by decide +kernel, rfl, ?_⟩
    exact not_overclosed_of_unmatched? (by decide +kernel)
  have ⟨t, ht, he⟩ := h " (a" hn (not_isRejected_of_isOk (by decide +kernel)) ⟨_, ht⟩
  have hs : ∀ t ∈ Token.scan " (a", t.position ≠ .start := by decide +kernel
  have hread : read Keywords.standard.grouping Keywords.standard.reserves " (a" =
      .error (Cause.unclosedList .start) := rfl
  have hp := he.symm.trans hread
  simp only [Except.error.injEq, Failure.mk.injEq, Cause.unclosedList.injEq] at hp
  exact hs t ht.mem hp.left

end Program
end ScopedLisp
