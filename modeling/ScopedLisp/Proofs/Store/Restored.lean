import ScopedLisp.Proofs.Evaluation.Moments
import ScopedLisp.Proofs.Store.Keeping

-- Stores in which frames have given up bindings, next to stores in which they still have them.

namespace ScopedLisp

-- The second store is the first one with all bindings back that have been given up.
structure Store.Restored (past : History) (σ σ' : Store) : Prop where
  size       : σ.frames.size = σ'.frames.size
  procedures : σ.procedures = σ'.procedures
  kept       : ∀ id, past.givenUp? id = none → σ.frame id = σ'.frame id
  lost       : ∀ id bindings, past.givenUp? id = some bindings →
    id < σ.frames.size ∧ (σ.frame id).bindings = {} ∧ (σ'.frame id).bindings = bindings

-- The innermost frame of the scope is there, and has not been given up.
structure Scope.Open (past : History) (σ : Store) (s : Scope) : Prop where
  bound : s.frame < σ.frames.size
  kept  : past.givenUp? s.frame = none

theorem Scope.Open.after {past h : History} {σ σ' : Store} {s : Scope} (hs : s.Open past σ)
    (hn : σ.frames.size ≤ σ'.frames.size)
    (hh : ∀ id < σ.frames.size, h.givenUp? id = none) : s.Open (past ++ h) σ' where
  bound := Nat.lt_of_lt_of_le hs.bound hn
  kept  := by simp [History.givenUp?_append, hs.kept, hh _ hs.bound]

namespace Store

theorem release_always (σ : Store) (s : Scope) (outcome : Except Stop Value) :
    σ.release .always s outcome = σ := by
  cases outcome <;> rfl

theorem binder?_cons (σ : Store) (id : FrameId) (chain : List FrameId) (name : String) :
    σ.binder? (id :: chain) name =
      if (σ.frame id).bindings.contains name then some id else σ.binder? chain name := by
  unfold binder?
  rw [List.find?_cons]
  cases (σ.frame id).bindings.contains name <;> rfl

theorem contains_of_binder? {σ : Store} {chain : List FrameId} {name : String} {id : FrameId}
    (h : σ.binder? chain name = some id) : (σ.frame id).bindings.contains name :=
  (List.find?_eq_some_iff_append.mp h).left

-- A name stands for what it is bound to in the first frame that binds it.
theorem find?_eq_bind_binder? (σ : Store) (s : Scope) (name : String) :
    σ.find? s name =
      (σ.binder? s.chain name).bind fun id => (σ.frame id).bindings.find? name := by
  unfold find?
  induction s.chain
  case nil => rfl
  case cons id chain hi =>
    rw [List.findSome?_cons, binder?_cons, hi]
    unfold NameMap.contains
    cases hf : (σ.frame id).bindings.find? name <;> simp [hf]

namespace Restored

variable {past : History} {σ σ' : Store} {s : Scope}

theorem refl (σ : Store) : Restored [] σ σ where
  size       := rfl
  procedures := rfl
  kept       := fun _ _ => rfl
  lost       := nofun

theorem child (h : Restored past σ σ') (outer : Scope) (bindings : NameMap Value) :
    Restored past (σ.child outer bindings).2 (σ'.child outer bindings).2 where
  size       := by rw [size_child, size_child, h.size]
  procedures := h.procedures
  kept       := fun id hid => by rw [frame_child, frame_child, h.size, h.kept id hid]
  lost       := fun id bindings hid => by
    have ⟨hn, hb, hb'⟩ := h.lost id bindings hid
    rw [size_child, frame_child, frame_child, ← h.size, if_neg (Nat.ne_of_lt hn),
      if_neg (Nat.ne_of_lt hn)]
    exact ⟨Nat.lt_succ_of_lt hn, hb, hb'⟩

theorem open_child (h : Restored past σ σ') (outer : Scope) (bindings : NameMap Value) :
    (outer.child σ.frames.size).Open past (σ.child outer bindings).2 where
  bound := by rw [size_child]; exact Nat.lt_succ_self _
  kept  := by
    cases hg : past.givenUp? (outer.child σ.frames.size).frame
    case none => rfl
    case some => exact absurd (h.lost _ _ hg).left (Nat.lt_irrefl _)

theorem modify (h : Restored past σ σ') (hs : s.Open past σ) (f : Frame → Frame) :
    Restored past (σ.modify s f) (σ'.modify s f) where
  size       := by rw [size_modify, size_modify, h.size]
  procedures := h.procedures
  kept       := fun id hid => by rw [frame_modify, frame_modify, h.size, h.kept id hid]
  lost       := fun id bindings hid => by
    have hn : id ≠ s.frame := fun he => by simp [he, hs.kept] at hid
    rw [size_modify, frame_modify_of_ne hn, frame_modify_of_ne hn]
    exact h.lost id bindings hid

theorem procedure (h : Restored past σ σ') :
    Restored past { σ with procedures := σ.procedures + 1 }
      { σ' with procedures := σ.procedures + 1 } where
  size       := h.size
  procedures := rfl
  kept       := h.kept
  lost       := h.lost

-- When a scope ends, the difference is what its frame gives up.
theorem release (h : Restored past σ σ') (hs : s.Open past σ) (outcome : Except Stop Value) :
    Restored (past ++ [⟨.finish s outcome, σ⟩]) (σ.release .whenCaptured s outcome) σ' := by
  constructor
  case size       => rw [size_release, h.size]
  case procedures => rw [procedures_release, h.procedures]
  case kept =>
    intro id hid
    rw [History.givenUp?_append_finish, Option.or_eq_none_iff] at hid
    have ⟨hk, hn⟩ := hid
    rw [← h.kept id hk]
    by_cases he : id = s.frame
    case neg => exact frame_release_of_ne he
    case pos =>
      have hg : ¬Retention.whenCaptured.gives s outcome := fun hg => by simp [he, hg] at hn
      unfold Store.release
      rw [if_neg hg]
  case lost =>
    intro id bindings hid
    rw [History.givenUp?_append_finish] at hid
    rw [size_release]
    cases hk : past.givenUp? id
    case some =>
      have hn : id ≠ s.frame := fun he => by simp [he, hs.kept] at hk
      rw [hk] at hid
      rw [frame_release_of_ne hn]
      exact h.lost id bindings (hk.trans hid)
    case none =>
      rw [hk, Option.none_or] at hid
      split at hid
      case isFalse => cases hid
      case isTrue hg =>
        obtain rfl := hg.left
        obtain rfl := Option.some.inj hid
        refine ⟨hs.bound, ?_, ?_⟩
        case refine_1 =>
          unfold Store.release
          rw [if_pos hg.right]
          exact locals_clear ..
        case refine_2 => rw [← h.kept _ hk]; rfl

-- A name is found in the frame in which it should be found, unless it is lost.
theorem binder?_eq_iff (h : Restored past σ σ') (chain : List FrameId) (name : String) :
    σ.binder? chain name = σ'.binder? chain name ↔ ¬past.Lost σ chain name := by
  induction chain
  case nil => simp [binder?, History.Lost]
  case cons id chain hi =>
    rw [binder?_cons, binder?_cons]
    cases hg : past.givenUp? id
    case none =>
      rw [← h.kept id hg, History.lost_cons]
      cases hc : (σ.frame id).bindings.contains name
      case false => simpa [hg] using hi
      case true  => simp [hg]
    case some bindings =>
      have ⟨_, hb, hb'⟩ := h.lost id bindings hg
      have hc : ¬(σ.frame id).bindings.contains name := by simp [hb, NameMap.contains]
      have hne : σ.binder? chain name ≠ some id := fun he => hc <| contains_of_binder? he
      rw [hb', if_neg hc, History.lost_cons]
      cases hl : bindings.contains name
      case false => simpa [hg, hl, hc] using hi
      case true  => simpa [hg, hl] using hne

-- So a name that is not lost stands for what it should stand for.
theorem find?_eq (h : Restored past σ σ') {name : String} (hl : ¬past.Lost σ s.chain name) :
    σ.find? s name = σ'.find? s name := by
  have hb := (h.binder?_eq_iff s.chain name).mpr hl
  rw [find?_eq_bind_binder?, find?_eq_bind_binder?, ← hb]
  cases hf : σ.binder? s.chain name
  case none => rfl
  case some id =>
    have hc := contains_of_binder? hf
    have hg : past.givenUp? id = none := by
      cases hg : past.givenUp? id
      case none => rfl
      case some => simp [(h.lost id _ hg).right.left, NameMap.contains] at hc
    simp [h.kept id hg]

end Restored
end Store
end ScopedLisp
