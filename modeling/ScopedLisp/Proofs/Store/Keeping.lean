import ScopedLisp.Evaluation.Context

-- What stays the same when a store changes. Evaluation only ever adds frames and writes to the
-- frame of the scope that it works in.

namespace ScopedLisp.Store

-- All frames are still there as they were. There may be new ones.
structure Keeps (σ σ' : Store) : Prop where
  size       : σ.frames.size ≤ σ'.frames.size
  procedures : σ.procedures ≤ σ'.procedures
  frames     : ∀ id < σ.frames.size, σ'.frame id = σ.frame id

-- All frames are still there as they were, apart from the innermost one of the scope. That one
-- still binds all the names that it has bound, and if it is frozen, it is as it was, too.
structure KeepsAround (s : Scope) (σ σ' : Store) : Prop where
  size       : σ.frames.size ≤ σ'.frames.size
  procedures : σ.procedures ≤ σ'.procedures
  others     : ∀ id < σ.frames.size, id ≠ s.frame → σ'.frame id = σ.frame id
  frozen     : (σ'.frame s.frame).frozen = (σ.frame s.frame).frozen
  bound      : ∀ name, (σ.locals s).contains name → (σ'.locals s).contains name
  closed     : (σ.frame s.frame).frozen → σ'.locals s = σ.locals s

variable {σ σ₁ σ₂ σ₃ : Store} {s outer : Scope}

theorem size_child (σ : Store) (outer : Scope) (bindings : NameMap Value) :
    (σ.child outer bindings).2.frames.size = σ.frames.size + 1 := by
  simp [child]

theorem size_modify (σ : Store) (s : Scope) (f : Frame → Frame) :
    (σ.modify s f).frames.size = σ.frames.size := by
  simp [modify]

theorem size_release (σ : Store) (r : Retention) (s : Scope) (outcome : Except Stop Value) :
    (σ.release r s outcome).frames.size = σ.frames.size := by
  unfold release
  split
  case isTrue  => exact size_modify ..
  case isFalse => rfl

theorem procedures_release (σ : Store) (r : Retention) (s : Scope)
    (outcome : Except Stop Value) : (σ.release r s outcome).procedures = σ.procedures := by
  unfold release
  split <;> rfl

theorem frame_release_of_ne {id : FrameId} {r : Retention} {outcome : Except Stop Value}
    (h : id ≠ s.frame) : (σ.release r s outcome).frame id = σ.frame id := by
  unfold release
  split
  case isTrue  => exact frame_modify_of_ne h
  case isFalse => rfl

theorem frame_of_size_le {id : FrameId} (h : σ.frames.size ≤ id) : σ.frame id = {} := by
  rw [frame, Array.getD_eq_getD_getElem?, Array.getElem?_eq_none h]
  rfl

theorem locals_clear (σ : Store) (s : Scope) : (σ.clear s).locals s = {} := by
  rw [locals, clear, frame_modify]
  split
  case isTrue => rfl
  case isFalse hn =>
    rw [frame_of_size_le (Nat.le_of_not_lt fun hlt => hn ⟨rfl, hlt⟩)]

theorem define_eq_ok {name : String} {v : Value} (h : σ.define s name v = .ok σ₁) :
    (σ.frame s.frame).frozen = false ∧
      σ₁ = σ.modify s fun f => { f with bindings := f.bindings.insert name v } := by
  unfold define at h
  split at h
  case isTrue    => cases h
  case isFalse n => exact ⟨by simpa using n, (Except.ok.inj h).symm⟩

theorem size_define {name : String} {v : Value} (h : σ.define s name v = .ok σ₁) :
    σ₁.frames.size = σ.frames.size := by
  rw [(define_eq_ok h).right, size_modify]

namespace Keeps

theorem refl (σ : Store) : Keeps σ σ where
  size       := Nat.le_refl _
  procedures := Nat.le_refl _
  frames     := fun _ _ => rfl

theorem trans (h₁ : Keeps σ₁ σ₂) (h₂ : Keeps σ₂ σ₃) : Keeps σ₁ σ₃ where
  size       := Nat.le_trans h₁.size h₂.size
  procedures := Nat.le_trans h₁.procedures h₂.procedures
  frames     := fun id h => (h₂.frames id <| Nat.lt_of_lt_of_le h h₁.size).trans (h₁.frames id h)

theorem around (h : Keeps σ₁ σ₂) (hs : s.frame < σ₁.frames.size) : KeepsAround s σ₁ σ₂ where
  size       := h.size
  procedures := h.procedures
  others     := fun id hid _ => h.frames id hid
  frozen     := by rw [h.frames _ hs]
  bound      := by simp [locals, h.frames _ hs]
  closed     := by simp [locals, h.frames _ hs]

theorem procedure (σ : Store) (parameters : List String) (body : Form) (home : Scope) :
    Keeps σ (σ.procedure parameters body home).2 where
  size       := Nat.le_refl _
  procedures := Nat.le_succ _
  frames     := fun _ _ => rfl

theorem child (σ : Store) (outer : Scope) (bindings : NameMap Value) :
    Keeps σ (σ.child outer bindings).2 where
  size       := by simp [size_child]
  procedures := Nat.le_refl _
  frames     := fun id h => by rw [frame_child, if_neg (Nat.ne_of_lt h)]

end Keeps

namespace KeepsAround

theorem refl (s : Scope) (σ : Store) : KeepsAround s σ σ where
  size       := Nat.le_refl _
  procedures := Nat.le_refl _
  others     := fun _ _ _ => rfl
  frozen     := rfl
  bound      := fun _ => id
  closed     := fun _ => rfl

theorem trans (h₁ : KeepsAround s σ₁ σ₂) (h₂ : KeepsAround s σ₂ σ₃) : KeepsAround s σ₁ σ₃ where
  size       := Nat.le_trans h₁.size h₂.size
  procedures := Nat.le_trans h₁.procedures h₂.procedures
  others     := fun id h hn =>
    (h₂.others id (Nat.lt_of_lt_of_le h h₁.size) hn).trans (h₁.others id h hn)
  frozen     := h₂.frozen.trans h₁.frozen
  bound      := fun name h => h₂.bound name (h₁.bound name h)
  closed     := fun h => (h₂.closed <| h₁.frozen ▸ h).trans (h₁.closed h)

theorem define {name : String} {v : Value} (h : σ.define s name v = .ok σ₁) :
    KeepsAround s σ σ₁ := by
  obtain ⟨hf, rfl⟩ := define_eq_ok h
  constructor
  case size => exact Nat.le_of_eq (size_modify ..).symm
  case procedures => exact Nat.le_refl _
  case others => exact fun id _ hn => frame_modify_of_ne hn
  case frozen => rw [frame_modify]; split <;> rfl
  case bound =>
    intro other hb
    simp only [locals, frame_modify]
    split
    case isTrue =>
      simp only [NameMap.contains, NameMap.find?_insert]
      split
      case isTrue  => rfl
      case isFalse => exact hb
    case isFalse => exact hb
  case closed => simp [hf]

-- A frozen frame is as it was, like all others.
theorem keeps (h : KeepsAround s σ₁ σ₂) (hf : (σ₁.frame s.frame).frozen) : Keeps σ₁ σ₂ where
  size       := h.size
  procedures := h.procedures
  frames     := fun id hid => by
    by_cases hn : id = s.frame
    case neg => exact h.others id hid hn
    case pos =>
      rw [hn]
      calc σ₂.frame s.frame
        _ = ⟨σ₂.locals s, (σ₂.frame s.frame).frozen⟩ := rfl
        _ = ⟨σ₁.locals s, (σ₁.frame s.frame).frozen⟩ := by rw [h.closed hf, h.frozen]

-- A scope that was opened in between leaves no trace in the frames that were there before.
theorem keeps_of_child {bindings : NameMap Value} {r : Retention} {outcome : Except Stop Value}
    (hs : s.frame = σ.frames.size) (h : KeepsAround s (σ.child outer bindings).2 σ₁) :
    Keeps σ (σ₁.release r s outcome) where
  procedures := by
    rw [procedures_release]
    exact h.procedures
  size := by
    have := h.size
    rw [size_child] at this
    rw [size_release]
    omega
  frames := fun id hid => by
    have hn : id ≠ s.frame := hs ▸ Nat.ne_of_lt hid
    rw [frame_release_of_ne hn, h.others id (by rw [size_child]; omega) hn]
    exact (Keeps.child ..).frames id hid

end KeepsAround
end ScopedLisp.Store
