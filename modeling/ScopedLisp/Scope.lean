-- Scopes, as chains of frames. A scope does not hold bindings: it says in which frames of a store
-- they are found, and in which order to look. A chain is fixed once it is made, so that the scopes
-- around a scope never change.

namespace ScopedLisp

-- The place of a frame in a store. Later frames have greater places.
abbrev FrameId := Nat

-- A frame of its own, and the frames around it, from the inside out.
structure Scope where
  frame  : FrameId
  around : List FrameId
deriving DecidableEq

namespace Scope

def chain (s : Scope) : List FrameId :=
  s.frame :: s.around

def parent? (s : Scope) : Option Scope :=
  match s.around with
  | [] => none
  | frame :: around => some ⟨frame, around⟩

-- The scope with a further frame on the inside.
def child (s : Scope) (frame : FrameId) : Scope :=
  ⟨frame, s.chain⟩

-- The scope is the other one or lies in it, at any depth.
def liesIn (s outer : Scope) : Bool :=
  outer.chain.isSuffixOf s.chain

theorem chain_child (s : Scope) (frame : FrameId) : (s.child frame).chain = frame :: s.chain :=
  rfl

theorem chain_injective {s₁ s₂ : Scope} (h : s₁.chain = s₂.chain) : s₁ = s₂ := by
  cases s₁; cases s₂; simp_all [chain]

@[simp] theorem parent?_child (s : Scope) (frame : FrameId) :
    (s.child frame).parent? = some s :=
  rfl

theorem liesIn_iff {s outer : Scope} : s.liesIn outer ↔ outer.chain <:+ s.chain := by
  simp [liesIn]

theorem liesIn_refl (s : Scope) : s.liesIn s :=
  liesIn_iff.mpr <| List.suffix_refl _

theorem liesIn_child (s : Scope) (frame : FrameId) : (s.child frame).liesIn s :=
  liesIn_iff.mpr <| List.suffix_cons _ _

theorem liesIn_trans {s₁ s₂ s₃ : Scope} (h₁ : s₁.liesIn s₂) (h₂ : s₂.liesIn s₃) : s₁.liesIn s₃ :=
  liesIn_iff.mpr <| liesIn_iff.mp h₂ |>.trans <| liesIn_iff.mp h₁

end Scope
end ScopedLisp
