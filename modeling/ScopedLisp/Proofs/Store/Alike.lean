import ScopedLisp.Proofs.Store.Keeping
import ScopedLisp.Proofs.Value.Alike

-- Stores that are the same up to the order in which frames and procedures were made. Operations on
-- such stores have the same effect on both.

namespace ScopedLisp

-- The second pairing goes on from the first one, with frames on the left side that are new.
structure Pairing.GrowsAbove (n : FrameId) (ρ ρ' : Pairing) : Prop extends ρ.Grows ρ' where
  above : ∀ a b, ρ'.frames a b → ρ.frames a b ∨ n ≤ a

-- The same names, which no spelling changes, and values that correspond to each other.
def NameMap.Alike (ρ : Pairing) (N : Spelling) (m₁ m₂ : NameMap Value) : Prop :=
  List.Forall₂ (fun e₁ e₂ => e₁.1 = e₂.1 ∧ N.Fixes e₁.1 ∧ e₁.2.Alike ρ N e₂.2)
    m₁.entries m₂.entries

structure Frame.Alike (ρ : Pairing) (N : Spelling) (f₁ f₂ : Frame) : Prop where
  bindings : f₁.bindings.Alike ρ N f₂.bindings
  frozen   : f₁.frozen = f₂.frozen

structure Store.Alike (ρ : Pairing) (N : Spelling) (σ₁ σ₂ : Store) : Prop where
  bounds     : ∀ a b, ρ.frames a b → a < σ₁.frames.size ∧ b < σ₂.frames.size
  frames     : ∀ a b, ρ.frames a b → (σ₁.frame a).Alike ρ N (σ₂.frame b)
  procedures : ∀ a b, ρ.procedures a b → a < σ₁.procedures ∧ b < σ₂.procedures

namespace Pairing

variable {n n' : FrameId} {ρ ρ₁ ρ₂ ρ₃ : Pairing}

theorem GrowsAbove.refl (n : FrameId) (ρ : Pairing) : ρ.GrowsAbove n ρ where
  toGrows := .refl ρ
  above   := fun _ _ => .inl

theorem GrowsAbove.trans (h₁ : ρ₁.GrowsAbove n ρ₂) (h₂ : ρ₂.GrowsAbove n' ρ₃) (hn : n ≤ n') :
    ρ₁.GrowsAbove n ρ₃ where
  toGrows := h₁.toGrows.trans h₂.toGrows
  above   := fun a b h =>
    (h₂.above a b h).elim (h₁.above a b) fun ha => .inr <| Nat.le_trans hn ha

-- One more frame on each side.
def withFrame (ρ : Pairing) (a b : FrameId) (h : ∀ x y, ρ.frames x y → x ≠ a ∧ y ≠ b) :
    Pairing where
  frames x y     := ρ.frames x y ∨ (x = a ∧ y = b)
  procedures     := ρ.procedures
  frames_iff     := by
    rintro _ _ _ _ (h₁ | ⟨rfl, rfl⟩) (h₂ | ⟨rfl, rfl⟩)
    case inl.inl => exact ρ.frames_iff h₁ h₂
    case inl.inr => have := h _ _ h₁; simp [this]
    case inr.inl => have := h _ _ h₂; simp [this.left.symm, this.right.symm]
    case inr.inr => simp
  procedures_iff := ρ.procedures_iff

-- One more procedure on each side.
def withProcedure (ρ : Pairing) (a b : Nat) (h : ∀ x y, ρ.procedures x y → x ≠ a ∧ y ≠ b) :
    Pairing where
  frames         := ρ.frames
  procedures x y := ρ.procedures x y ∨ (x = a ∧ y = b)
  frames_iff     := ρ.frames_iff
  procedures_iff := by
    rintro _ _ _ _ (h₁ | ⟨rfl, rfl⟩) (h₂ | ⟨rfl, rfl⟩)
    case inl.inl => exact ρ.procedures_iff h₁ h₂
    case inl.inr => have := h _ _ h₁; simp [this]
    case inr.inl => have := h _ _ h₂; simp [this.left.symm, this.right.symm]
    case inr.inr => simp

end Pairing

theorem Scope.Alike.mono {ρ ρ' : Pairing} {s t : Scope} (h : s.Alike ρ t) (hρ : ρ.Grows ρ') :
    s.Alike ρ' t :=
  h.imp hρ.frames

namespace NameMap.Alike

variable {ρ ρ' : Pairing} {N : Spelling} {m₁ m₂ : NameMap Value}

theorem empty (ρ : Pairing) (N : Spelling) : Alike ρ N {} {} :=
  .nil

theorem mono (h : m₁.Alike ρ N m₂) (hρ : ρ.Grows ρ') : m₁.Alike ρ' N m₂ :=
  h.imp fun _ _ ⟨hn, hf, hv⟩ => ⟨hn, hf, Value.related_mono hρ hv⟩

theorem insert (h : m₁.Alike ρ N m₂) {name : String} (hn : N.Fixes name) {v w : Value}
    (hv : v.Alike ρ N w) : (m₁.insert name v).Alike ρ N (m₂.insert name w) := by
  refine .cons ⟨rfl, hn, hv⟩ ?_
  unfold Alike at h
  generalize m₁.entries = es₁, m₂.entries = es₂ at h
  induction h
  case nil => exact .nil
  case cons he _ hi =>
    simp only [List.filter_cons, he.left]
    split
    case isTrue  => exact .cons he hi
    case isFalse => exact hi

theorem insertAll (h : m₁.Alike ρ N m₂) {names : List String} (hn : ∀ name ∈ names, N.Fixes name)
    {vs ws : List Value} (hv : List.Forall₂ (Value.Alike ρ N) vs ws) :
    (m₁.insertAll (names.zip vs)).Alike ρ N (m₂.insertAll (names.zip ws)) := by
  induction hv generalizing names m₁ m₂
  case nil => simpa [NameMap.insertAll] using h
  case cons hv _ hi =>
    cases names
    case nil => simpa [NameMap.insertAll] using h
    case cons name names =>
      rw [List.forall_mem_cons] at hn
      exact hi (h.insert hn.left hv) hn.right

-- A name and its spelling stand for the same.
theorem find? (h : m₁.Alike ρ N m₂) {a b : String} (hn : N a b) :
    Option.Rel (Value.Alike ρ N) (m₁.find? a) (m₂.find? b) := by
  unfold NameMap.find?
  unfold Alike at h
  generalize m₁.entries = es₁, m₂.entries = es₂ at h
  induction h
  case nil => exact .none
  case cons e₁ e₂ _ _ he _ hi =>
    obtain ⟨x, v⟩ := e₁
    obtain ⟨y, w⟩ := e₂
    obtain ⟨rfl, hf, hv⟩ := he
    have hab : a = x ↔ b = x :=
      ⟨fun ha => (hf b).left (ha ▸ hn), fun hb => (hf a).right (hb ▸ hn)⟩
    rw [lookup_cons, lookup_cons]
    by_cases ha : a = x
    case pos => rw [if_pos ha, if_pos (hab.mp ha)]; exact .some hv
    case neg => rw [if_neg ha, if_neg fun hb => ha <| hab.mpr hb]; exact hi

end NameMap.Alike

theorem Frame.Alike.mono {ρ ρ' : Pairing} {N : Spelling} {f₁ f₂ : Frame} (h : f₁.Alike ρ N f₂)
    (hρ : ρ.Grows ρ') : f₁.Alike ρ' N f₂ where
  bindings := h.bindings.mono hρ
  frozen   := h.frozen

theorem Scope.Alike.frame {ρ : Pairing} {s t : Scope} (h : s.Alike ρ t) :
    ρ.frames s.frame t.frame :=
  (List.forall₂_cons.mp h).left

namespace Store.Alike

variable {ρ : Pairing} {N : Spelling} {σ₁ σ₂ : Store} {s t : Scope}

theorem find? (h : σ₁.Alike ρ N σ₂) (hs : s.Alike ρ t) {a b : String} (hn : N a b) :
    Option.Rel (Value.Alike ρ N) (σ₁.find? s a) (σ₂.find? t b) := by
  unfold Store.find?
  unfold Scope.Alike at hs
  generalize s.chain = ids₁, t.chain = ids₂ at hs
  induction hs
  case nil => exact .none
  case cons hid _ hi =>
    rw [List.findSome?_cons, List.findSome?_cons]
    have hf := (h.frames _ _ hid).bindings.find? hn
    generalize (σ₁.frame _).bindings.find? a = v?, (σ₂.frame _).bindings.find? b = w? at hf
    cases hf
    case none   => exact hi
    case some v => exact .some v

-- New frames correspond to each other.
theorem push (h : σ₁.Alike ρ N σ₂) {f₁ f₂ : Frame} (hf : f₁.Alike ρ N f₂) :
    ∃ ρ' : Pairing, ρ.GrowsAbove σ₁.frames.size ρ' ∧
      ρ'.frames σ₁.frames.size σ₂.frames.size ∧
      Store.Alike ρ' N { σ₁ with frames := σ₁.frames.push f₁ }
        { σ₂ with frames := σ₂.frames.push f₂ } := by
  let ρ' := ρ.withFrame σ₁.frames.size σ₂.frames.size fun x y hxy =>
    ⟨Nat.ne_of_lt (h.bounds x y hxy).left, Nat.ne_of_lt (h.bounds x y hxy).right⟩
  have hρ : ρ.GrowsAbove σ₁.frames.size ρ' := {
    frames     := fun _ _ => .inl
    procedures := fun _ _ => id
    above      := fun _ _ h => h.imp id fun h => Nat.le_of_eq h.left.symm
  }
  refine ⟨ρ', hρ, .inr ⟨rfl, rfl⟩, ?_, ?_, h.procedures⟩
  case refine_1 =>
    rintro a b (hab | ⟨rfl, rfl⟩)
    case inl =>
      rw [Array.size_push, Array.size_push]
      exact (h.bounds a b hab).imp Nat.lt_succ_of_lt Nat.lt_succ_of_lt
    case inr => simp
  case refine_2 =>
    rintro a b (hab | ⟨rfl, rfl⟩)
    case inl =>
      have hb := h.bounds a b hab
      have ha := h.frames a b hab |>.mono hρ.toGrows
      simpa [frame, Array.getElem_push, Array.getD_eq_getD_getElem?, Array.getElem?_push,
        Nat.ne_of_lt hb.left, Nat.ne_of_lt hb.right] using ha
    case inr => simpa [frame] using hf.mono hρ.toGrows

theorem child (h : σ₁.Alike ρ N σ₂) (hs : s.Alike ρ t) {b₁ b₂ : NameMap Value}
    (hb : b₁.Alike ρ N b₂) :
    ∃ ρ' : Pairing, ρ.GrowsAbove σ₁.frames.size ρ' ∧
      (s.child σ₁.frames.size).Alike ρ' (t.child σ₂.frames.size) ∧
      (σ₁.child s b₁).2.Alike ρ' N (σ₂.child t b₂).2 := by
  have hn : Frame.Alike ρ N { bindings := b₁ } { bindings := b₂ } := ⟨hb, rfl⟩
  obtain ⟨ρ', hρ, hf, h⟩ := h.push hn
  exact ⟨ρ', hρ, .cons hf (hs.mono hρ.toGrows), h⟩

theorem root (h : σ₁.Alike ρ N σ₂) :
    ∃ ρ' : Pairing, ρ.GrowsAbove σ₁.frames.size ρ' ∧
      σ₁.root.1.Alike ρ' σ₂.root.1 ∧ σ₁.root.2.Alike ρ' N σ₂.root.2 := by
  have hn : Frame.Alike ρ N {} {} := ⟨.empty .., rfl⟩
  obtain ⟨ρ', hρ, hf, h⟩ := h.push hn
  exact ⟨ρ', hρ, .cons hf .nil, h⟩

theorem procedure (h : σ₁.Alike ρ N σ₂) (n : FrameId) :
    ∃ ρ' : Pairing, ρ.GrowsAbove n ρ' ∧ ρ'.procedures σ₁.procedures σ₂.procedures ∧
      Store.Alike ρ' N { σ₁ with procedures := σ₁.procedures + 1 }
        { σ₂ with procedures := σ₂.procedures + 1 } := by
  let ρ' := ρ.withProcedure σ₁.procedures σ₂.procedures fun x y hxy =>
    ⟨Nat.ne_of_lt (h.procedures x y hxy).left, Nat.ne_of_lt (h.procedures x y hxy).right⟩
  have hρ : ρ.GrowsAbove n ρ' := {
    frames     := fun _ _ => id
    procedures := fun _ _ => .inl
    above      := fun _ _ => .inl
  }
  refine ⟨ρ', hρ, .inr ⟨rfl, rfl⟩, h.bounds, fun a b hab => (h.frames a b hab).mono hρ.toGrows, ?_⟩
  rintro a b (hab | ⟨rfl, rfl⟩)
  case inl => exact (h.procedures a b hab).imp Nat.lt_succ_of_lt Nat.lt_succ_of_lt
  case inr => exact ⟨Nat.lt_succ_self _, Nat.lt_succ_self _⟩

theorem modify (h : σ₁.Alike ρ N σ₂) (hs : s.Alike ρ t) {f g : Frame → Frame}
    (hf : ∀ f₁ f₂ : Frame, f₁.Alike ρ N f₂ → (f f₁).Alike ρ N (g f₂)) :
    (σ₁.modify s f).Alike ρ N (σ₂.modify t g) where
  bounds a b hab := by
    rw [size_modify, size_modify]
    exact h.bounds a b hab
  frames a b hab := by
    have ⟨ha, hb⟩ := h.bounds a b hab
    rw [frame_modify, frame_modify]
    by_cases he : a = s.frame
    case pos =>
      rw [if_pos ⟨he, ha⟩, if_pos ⟨(ρ.frames_iff hab hs.frame).mp he, hb⟩]
      exact hf _ _ (h.frames a b hab)
    case neg =>
      rw [if_neg fun h => he h.left,
        if_neg fun h => he <| (ρ.frames_iff hab hs.frame).mpr h.left]
      exact h.frames a b hab
  procedures := h.procedures

theorem define (h : σ₁.Alike ρ N σ₂) (hs : s.Alike ρ t) {name : String} (hn : N.Fixes name)
    {v w : Value} (hv : v.Alike ρ N w) :
    (∃ σ₁' σ₂', σ₁.define s name v = .ok σ₁' ∧ σ₂.define t name w = .ok σ₂' ∧
      σ₁'.Alike ρ N σ₂') ∨
    (∃ cause, σ₁.define s name v = .error cause ∧ σ₂.define t name w = .error cause) := by
  have hf := (h.frames _ _ hs.frame).frozen
  unfold Store.define
  rw [← hf]
  by_cases hc : (σ₁.frame s.frame).frozen
  case pos => exact .inr ⟨_, if_pos hc, if_pos hc⟩
  case neg =>
    refine .inl ⟨_, _, if_neg hc, if_neg hc, h.modify hs fun f₁ f₂ hf => ?_⟩
    exact ⟨hf.bindings.insert hn hv, hf.frozen⟩

theorem freeze (h : σ₁.Alike ρ N σ₂) (hs : s.Alike ρ t) : (σ₁.freeze s).Alike ρ N (σ₂.freeze t) :=
  h.modify hs fun _ _ hf => ⟨hf.bindings, rfl⟩

theorem clear (h : σ₁.Alike ρ N σ₂) (hs : s.Alike ρ t) : (σ₁.clear s).Alike ρ N (σ₂.clear t) :=
  h.modify hs fun _ _ hf => ⟨.empty .., hf.frozen⟩

end Store.Alike
end ScopedLisp
