import ScopedLisp.Proofs.Form.Literal

-- Forms at the front of tokens. A form is read from the tokens that spell it, whatever stands
-- behind them, and an attempt that fails leaves fewer tokens than there were.
-- Main statement: `Form.read_front`.

namespace ScopedLisp

namespace Form

-- The tokens spell the form: a token that stands for it, or parentheses around what spells the
-- items.
inductive Spelled (reserved : String → Bool) : List Token → Form → Prop
  | atom {t : Token} {form : Form} (ho : t.text ≠ "(") (hc : t.text ≠ ")")
    (h : Atom.read reserved t.text = .ok form) : Spelled reserved [t] form
  | list {opening closing : Token} {items : List (List Token × Form)} (ho : opening.text = "(")
    (hc : closing.text = ")") (h : ∀ item ∈ items, Spelled reserved item.1 item.2) :
    Spelled reserved (opening :: (items.flatMap Prod.fst ++ [closing])) (.list (items.map Prod.snd))

-- The tokens spell the forms, one after another.
def AllSpelled (reserved : String → Bool) (ts : List Token) (forms : List Form) : Prop :=
  ∃ items : List (List Token × Form), ts = items.flatMap Prod.fst ∧ forms = items.map Prod.snd ∧
    ∀ item ∈ items, Spelled reserved item.1 item.2

end Form

-- The tokens are what the open lists have taken in so far, parentheses included.
def OpenList.Spelled (reserved : String → Bool) : List OpenList → List Token → Prop
  | [], ts => ts = []
  | inner :: lists, ts =>
    ∃ before behind, ts = before ++ ⟨"(", inner.opened⟩ :: behind ∧
      Spelled reserved lists before ∧ Form.AllSpelled reserved behind inner.items.reverse

variable {reserved : String → Bool} {t opening closing : Token} {ts p before rest : List Token}
  {form : Form} {forms : List Form} {inner : OpenList} {lists : List OpenList}

namespace Form

namespace AllSpelled

theorem nil : AllSpelled reserved [] [] :=
  ⟨[], rfl, rfl, nofun⟩

theorem snoc (hts : AllSpelled reserved ts forms) (hp : Spelled reserved p form) :
    AllSpelled reserved (ts ++ p) (forms ++ [form]) := by
  have ⟨items, ht, hf, hi⟩ := hts
  refine ⟨items ++ [(p, form)], by simp [ht], by simp [hf], ?_⟩
  exact List.forall_mem_append.mpr ⟨hi, List.forall_mem_singleton.mpr hp⟩

theorem enclosed (hts : AllSpelled reserved ts forms) (ho : opening.text = "(")
    (hc : closing.text = ")") : Spelled reserved (opening :: (ts ++ [closing])) (.list forms) := by
  have ⟨items, ht, hf, hi⟩ := hts
  exact ht ▸ hf ▸ .list ho hc hi

end AllSpelled

theorem spells_flatMap {items : List (List Token × Form)}
    (h : ∀ item ∈ items, Token.Spells reserved item.1 [item.2]) :
    Token.Spells reserved (items.flatMap Prod.fst) (items.map Prod.snd) := by
  induction items
  case nil => exact .nil
  case cons item items hi =>
    have ⟨hitem, hitems⟩ := List.forall_mem_cons.mp h
    exact hitem.append (hi hitems)

namespace Spelled

theorem ne_nil (h : Spelled reserved p form) : p ≠ [] := by
  cases h
  case atom => simp
  case list => simp

-- In lists, the tokens are read as the form.
theorem spells (h : Spelled reserved p form) : Token.Spells reserved p [form] := by
  induction h
  case atom ho hc h    => exact .atom ho hc h
  case list ho hc _ hi => exact .list (spells_flatMap hi) ho hc

-- Outside of lists, nothing else is read.
theorem read_append (h : Spelled reserved p form) (rest : List Token) :
    read reserved (p ++ rest) = (.ok form, rest) := by
  cases h
  case atom ho hc h => simp [read, readIn, ho, hc, h]
  case list opening closing items ho hc h =>
    have hs := spells_flatMap fun item hm => (h item hm).spells
    have hr := hs.readIn ⟨opening.position, []⟩ [] (closing :: rest)
    simpa [read, readIn, ho, hc] using hr

end Spelled

end Form

namespace OpenList.Spelled

theorem opened (h : Spelled reserved lists before) (ho : t.text = "(") :
    Spelled reserved (⟨t.position, []⟩ :: lists) (before ++ [t]) :=
  ⟨before, [], by rw [← ho], h, .nil⟩

theorem item (h : Spelled reserved (inner :: lists) before) (hp : Form.Spelled reserved p form) :
    Spelled reserved ({ inner with items := form :: inner.items } :: lists) (before ++ p) := by
  have ⟨front, behind, hb, hl, hi⟩ := h
  refine ⟨front, behind ++ p, by simp [hb], hl, ?_⟩
  simpa using hi.snoc hp

-- The innermost list becomes a form that is spelled by the last of the tokens.
theorem closed (h : Spelled reserved (inner :: lists) before) (hc : t.text = ")") :
    ∃ front p, before ++ [t] = front ++ p ∧ Spelled reserved lists front ∧
      Form.Spelled reserved p (.list inner.items.reverse) := by
  have ⟨front, behind, hb, hl, hi⟩ := h
  exact ⟨front, ⟨"(", inner.opened⟩ :: (behind ++ [t]), by simp [hb], hl, hi.enclosed rfl hc⟩

end OpenList.Spelled

namespace Form

-- A form that is read has been spelled by what the open lists had taken in, and the tokens that are
-- gone.
theorem spelled_of_readIn (hl : OpenList.Spelled reserved lists before)
    (h : readIn reserved lists ts = (.ok form, rest)) :
    ∃ p, ts = p ++ rest ∧ Spelled reserved (before ++ p) form := by
  fun_induction readIn reserved lists ts generalizing before
  case case1 | case3 | case6 => cases h
  case case2 t _ ho hi =>
    obtain ⟨p, hp, hs⟩ := hi (hl.opened ho) h
    exact ⟨t :: p, by rw [hp, List.cons_append], by simpa using hs⟩
  case case4 t _ _ hc outermost =>
    obtain ⟨rfl, rfl⟩ : Value.list outermost.items.reverse = form ∧ _ = rest := by simpa using h
    obtain ⟨front, p, hb, hf, hp⟩ := hl.closed hc
    obtain rfl : front = [] := hf
    exact ⟨[t], rfl, hb ▸ hp⟩
  case case5 t _ _ hc inner outer lists outer' hi =>
    obtain ⟨front, p, hb, hf, hp⟩ := hl.closed hc
    obtain ⟨q, hq, hs⟩ := hi (hb ▸ hf.item hp) h
    exact ⟨t :: q, by rw [hq, List.cons_append], by simpa using hs⟩
  case case7 t _ ho hc v hr =>
    obtain ⟨rfl, rfl⟩ : v = form ∧ _ = rest := by simpa using h
    obtain rfl : before = [] := hl
    exact ⟨[t], rfl, .atom ho hc hr⟩
  case case8 t _ ho hc v inner lists hr hi =>
    obtain ⟨p, hp, hs⟩ := hi (hl.item <| .atom ho hc hr) h
    exact ⟨t :: p, by rw [hp, List.cons_append], by simpa using hs⟩

-- At least one token is gone afterwards, and those that are left are as they were.
theorem readIn_suffix (reserved : String → Bool) (lists : List OpenList) (ts : List Token) :
    (readIn reserved lists ts).2 <:+ ts.tail := by
  fun_induction readIn reserved lists ts
  case case1 => exact List.suffix_rfl
  case case2 hi | case5 hi | case8 hi => exact hi.trans <| List.tail_suffix _
  case case3 | case4 | case6 | case7 => exact List.suffix_rfl

theorem read_suffix_ne (h : ts ≠ []) : (read reserved ts).2 <:+ ts ∧ (read reserved ts).2 ≠ ts := by
  have hs := readIn_suffix reserved [] ts
  refine ⟨hs.trans <| List.tail_suffix _, fun he => ?_⟩
  have hl := he ▸ hs.length_le
  have hp := List.length_pos_iff.mpr h
  rw [List.length_tail] at hl
  omega

theorem readMany_eq_nil {n : Nat} (h : ts.length ≤ n) : (readMany reserved n ts).2 = [] := by
  induction n generalizing ts
  case zero => exact List.length_eq_zero_iff.mp <| Nat.le_zero.mp h
  case succ n hi =>
    have hs := readIn_suffix reserved [] ts |>.length_le
    rw [List.length_tail] at hs
    exact hi <| show (read reserved ts).2.length ≤ n from Nat.le_trans hs (by omega)

theorem read_eq_ok_iff :
    read reserved ts = (.ok form, rest) ↔ ∃ p, Spelled reserved p form ∧ ts = p ++ rest := by
  constructor
  case mp =>
    intro h
    have hn : OpenList.Spelled reserved [] [] := rfl
    have ⟨p, hp, hs⟩ := spelled_of_readIn hn h
    exact ⟨p, hs, hp⟩
  case mpr =>
    intro ⟨p, hs, hp⟩
    exact hp ▸ hs.read_append rest

-- No tokens start with two forms, not even if one of them is longer.
theorem Spelled.unique {p₁ p₂ : List Token} {form₁ form₂ : Form} (h₁ : Spelled reserved p₁ form₁)
    (h₂ : Spelled reserved p₂ form₂) (hp₁ : p₁ <+: ts) (hp₂ : p₂ <+: ts) :
    p₁ = p₂ ∧ form₁ = form₂ := by
  have ⟨rest₁, ht₁⟩ := hp₁
  have ⟨rest₂, ht₂⟩ := hp₂
  have h := (h₁.read_append rest₁).symm.trans <| ht₁ ▸ ht₂ ▸ h₂.read_append rest₂
  obtain ⟨rfl, rfl⟩ : form₁ = form₂ ∧ rest₁ = rest₂ := by simpa using h
  exact ⟨List.append_cancel_right <| ht₁.trans ht₂.symm, rfl⟩

-- A form is read exactly if the tokens start with what spells it. There is one way for them to do
-- so, and what stands behind it makes no difference. An attempt that fails gets on as well, so that
-- there is an end to repeated attempts.
theorem read_front (reserved : String → Bool) (ts : List Token) :
    (∀ form rest, read reserved ts = (.ok form, rest) ↔
      ∃ p, Spelled reserved p form ∧ ts = p ++ rest) ∧
    (∀ p form, Spelled reserved p form → p <+: ts →
      p ≠ [] ∧ (∀ other form', Spelled reserved other form' → other <+: ts →
        other = p ∧ form' = form) ∧
      ∀ rest, read reserved (p ++ rest) = (.ok form, rest)) ∧
    (ts ≠ [] → ∀ failure rest, read reserved ts = (.error failure, rest) →
      rest <:+ ts ∧ rest ≠ ts) ∧
    ∀ n, ts.length ≤ n → (readMany reserved n ts).2 = [] := by
  refine ⟨fun form rest => read_eq_ok_iff, fun p form hs hp => ?_, fun hn failure rest h => ?_,
    fun n => readMany_eq_nil⟩
  case refine_1 => exact ⟨hs.ne_nil, fun _ _ ho hpo => ho.unique hs hpo hp, hs.read_append⟩
  case refine_2 =>
    have hr : (read reserved ts).2 <:+ ts ∧ (read reserved ts).2 ≠ ts := read_suffix_ne hn
    rwa [h] at hr

end Form
end ScopedLisp
