import ScopedLisp.Failure
import ScopedLisp.NameMap
import ScopedLisp.Value

-- The store of all frames. Frames are only ever added, and an operation changes at most the
-- innermost frame of the scope that it is applied to. Bindings of outer frames are read through a
-- scope, but never written through it.

namespace ScopedLisp

-- A frozen frame takes no further bindings.
structure Frame where
  bindings : NameMap Value := {}
  frozen   : Bool := false

instance : Inhabited Frame := ⟨{}⟩

-- All frames made so far, oldest first, and the number of procedures made so far.
structure Store where
  frames     : Array Frame := #[]
  procedures : Nat := 0

namespace Store

-- Places that are not in use yet look like empty frames.
def frame (σ : Store) (id : FrameId) : Frame :=
  σ.frames.getD id default

-- A new scope without scopes around it.
def root (σ : Store) (bindings : NameMap Value := {}) : Scope × Store :=
  (⟨σ.frames.size, []⟩, { σ with frames := σ.frames.push { bindings } })

-- A new scope directly inside of another one.
def child (σ : Store) (outer : Scope) (bindings : NameMap Value := {}) : Scope × Store :=
  (outer.child σ.frames.size, { σ with frames := σ.frames.push { bindings } })

def modify (σ : Store) (s : Scope) (f : Frame → Frame) : Store :=
  { σ with frames := σ.frames.modify s.frame f }

-- Binds a name in the innermost frame, over any binding that is there.
def define (σ : Store) (s : Scope) (name : String) (v : Value) : Except Cause Store :=
  if (σ.frame s.frame).frozen then .error (.readOnly name)
  else .ok (σ.modify s fun f => { f with bindings := f.bindings.insert name v })

-- Freezes the innermost frame. The frames around and inside are not affected.
def freeze (σ : Store) (s : Scope) : Store :=
  σ.modify s fun f => { f with frozen := true }

-- Drops the bindings of the innermost frame, frozen or not.
def clear (σ : Store) (s : Scope) : Store :=
  σ.modify s fun f => { f with bindings := {} }

def locals (σ : Store) (s : Scope) : NameMap Value :=
  (σ.frame s.frame).bindings

-- What a name stands for in a scope. Inner bindings hide outer ones.
def find? (σ : Store) (s : Scope) (name : String) : Option Value :=
  s.chain.findSome? fun id => (σ.frame id).bindings.find? name

-- A new procedure, which is different from all others.
def procedure (σ : Store) (parameters : List String) (body : Form) (home : Scope) :
    Procedure × Store :=
  (⟨σ.procedures, parameters, body, home⟩, { σ with procedures := σ.procedures + 1 })

theorem frame_child (σ : Store) (outer : Scope) (bindings : NameMap Value) (id : FrameId) :
    (σ.child outer bindings).2.frame id =
      if id = σ.frames.size then { bindings } else σ.frame id := by
  simp only [frame, child, Array.getD_eq_getD_getElem?, Array.getElem?_push]
  split <;> simp_all

theorem frame_modify (σ : Store) (s : Scope) (f : Frame → Frame) (id : FrameId) :
    (σ.modify s f).frame id =
      if id = s.frame ∧ id < σ.frames.size then f (σ.frame id) else σ.frame id := by
  simp only [frame, modify, Array.getD_eq_getD_getElem?, Array.getElem?_modify]
  by_cases h : s.frame = id
  case pos => by_cases hl : id < σ.frames.size <;> simp [h, hl]
  case neg => simp [h, Ne.symm h]

theorem frame_modify_of_ne {σ : Store} {s : Scope} {f : Frame → Frame} {id : FrameId}
    (h : id ≠ s.frame) : (σ.modify s f).frame id = σ.frame id := by
  simp [frame_modify, h]

end Store
end ScopedLisp
