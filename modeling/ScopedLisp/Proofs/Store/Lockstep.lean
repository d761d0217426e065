import ScopedLisp.Proofs.Store.Alike

-- Stores that have the same frames, with the same in them up to the identities of procedures.
-- Operations that are done on both sides keep it so, as frames are numbered in the order in which
-- they are made. A store of which nothing leads out has its counterparts in all stores with the
-- same frames that have made more procedures.
-- Main statements: `Store.Lockstep.grow`, `Store.Closed.lockstep`.

namespace ScopedLisp

structure Store.Lockstep (ρ : Pairing) (σ₁ σ₂ : Store) : Prop extends
    Store.Alike ρ Eq σ₁ σ₂ where
  size : σ₁.frames.size = σ₂.frames.size
  same : ∀ a b, ρ.frames a b ↔ a = b ∧ a < σ₁.frames.size

-- Everything below the limits corresponds to itself.
def Pairing.below (frames procedures : Nat) : Pairing where
  frames a b     := a = b ∧ a < frames
  procedures a b := a = b ∧ a < procedures
  frames_iff     := by
    rintro _ _ _ _ ⟨rfl, _⟩ ⟨rfl, _⟩
    rfl
  procedures_iff := by
    rintro _ _ _ _ ⟨rfl, _⟩ ⟨rfl, _⟩
    rfl

-- The frames of the scope have been made.
def Scope.LivesIn (s : Scope) (σ : Store) : Prop :=
  ∀ id ∈ s.chain, id < σ.frames.size

-- The procedures in the value have been made, and so have the frames of their homes.
inductive Value.LivesIn (σ : Store) : Value → Prop
  | nil : LivesIn σ nil
  | integer (i : Integer) : LivesIn σ (integer i)
  | text (s : String) : LivesIn σ (text s)
  | boolean (b : Bool) : LivesIn σ (boolean b)
  | symbol (name : String) : LivesIn σ (symbol name)
  | list {items : List Value} : (∀ item ∈ items, LivesIn σ item) → LivesIn σ (list items)
  | procedure {p : Procedure} : p.identity < σ.procedures → p.home.LivesIn σ → LivesIn σ p.body →
      LivesIn σ (procedure p)

-- Nothing leads out of the store.
def Store.Closed (σ : Store) : Prop :=
  ∀ id, ∀ entry ∈ (σ.frame id).bindings.entries, entry.2.LivesIn σ

namespace Store.Lockstep

variable {ρ ρ' : Pairing} {σ₁ σ₂ σ₁' σ₂' : Store} {s t : Scope}

theorem scope_alike_iff (h : σ₁.Lockstep ρ σ₂) : s.Alike ρ t ↔ s = t ∧ s.LivesIn σ₁ := by
  have hc (ids₁ ids₂ : List FrameId) :
      List.Forall₂ ρ.frames ids₁ ids₂ ↔ ids₁ = ids₂ ∧ ∀ id ∈ ids₁, id < σ₁.frames.size := by
    induction ids₁ generalizing ids₂
    case nil => cases ids₂ <;> simp
    case cons id ids hi => cases ids₂ <;> simp [h.same, hi, and_and_and_comm]
  rw [Scope.Alike, hc]
  exact and_congr_left' ⟨Scope.chain_injective, fun h => h ▸ rfl⟩

-- All that has to be checked of new frames is that they correspond to themselves.
theorem extend (h : σ₁.Lockstep ρ σ₂) (hρ : ρ.GrowsAbove σ₁.frames.size ρ')
    (hσ : σ₁'.Alike ρ' Eq σ₂') (hs : σ₁'.frames.size = σ₂'.frames.size)
    (hn : ∀ id < σ₁'.frames.size, σ₁.frames.size ≤ id → ρ'.frames id id) :
    σ₁'.Lockstep ρ' σ₂' where
  toAlike := hσ
  size    := hs
  same a b := by
    constructor
    case mp =>
      intro hab
      have ha := (hσ.bounds a b hab).left
      refine ⟨?_, ha⟩
      rcases hρ.above a b hab with hab' | hle
      case inl => exact ((h.same a b).mp hab').left
      case inr => exact (ρ'.frames_iff (hn a ha hle) hab).mp rfl
    case mpr =>
      rintro ⟨rfl, ha⟩
      by_cases hlt : a < σ₁.frames.size
      case pos => exact hρ.frames a a <| (h.same a a).mpr ⟨rfl, hlt⟩
      case neg => exact hn a ha (Nat.le_of_not_lt hlt)

-- Operations that make no frames.
theorem stay (h : σ₁.Lockstep ρ σ₂) (hρ : ρ.GrowsAbove σ₁.frames.size ρ')
    (hσ : σ₁'.Alike ρ' Eq σ₂') (h₁ : σ₁'.frames.size = σ₁.frames.size)
    (h₂ : σ₂'.frames.size = σ₂.frames.size) : σ₁'.Lockstep ρ' σ₂' :=
  h.extend hρ hσ (by rw [h₁, h₂, h.size]) fun id hid hle => absurd (h₁ ▸ hid) (Nat.not_lt.mpr hle)

-- Operations that make one.
theorem grow (h : σ₁.Lockstep ρ σ₂) (hρ : ρ.GrowsAbove σ₁.frames.size ρ')
    (hσ : σ₁'.Alike ρ' Eq σ₂') (h₁ : σ₁'.frames.size = σ₁.frames.size + 1)
    (h₂ : σ₂'.frames.size = σ₂.frames.size + 1) (hn : ρ'.frames σ₁.frames.size σ₂.frames.size) :
    σ₁'.Lockstep ρ' σ₂' := by
  refine h.extend hρ hσ (by rw [h₁, h₂, h.size]) fun id hid hle => ?_
  obtain rfl : id = σ₁.frames.size := by omega
  rwa [← h.size] at hn

end Store.Lockstep

theorem Value.LivesIn.related {σ : Store} {v : Value} (h : v.LivesIn σ) {O : Spelling}
    (hO : ∀ name, O name name) :
    v.Related (.below σ.frames.size σ.procedures) Eq O v := by
  induction v using Value.induct generalizing O
  case nil | integer | text | boolean => rfl
  case symbol name => exact ⟨name, rfl, hO name⟩
  case list items hi =>
    cases h
    case list h =>
    refine related_list.mpr ⟨items, rfl, List.forall₂_same.mpr fun item hm => ?_⟩
    exact hi item hm (h item hm) hO
  case procedure hi =>
    cases h
    case procedure hp hh hb =>
    refine related_procedure.mpr ⟨_, rfl, ⟨rfl, hp⟩, rfl, fun name _ => Spelling.fixes_eq name,
      hi hb fun _ => rfl, ?_⟩
    exact List.forall₂_same.mpr fun id hm => ⟨rfl, hh id hm⟩

-- Procedures that are made beforehand do not matter to a store that does not have them.
theorem Store.Closed.lockstep {σ σ₁ σ₂ : Store} (h : σ.Closed) (h₁ : σ₁.frames = σ.frames)
    (hp₁ : σ.procedures ≤ σ₁.procedures) (h₂ : σ₂.frames = σ.frames)
    (hp₂ : σ.procedures ≤ σ₂.procedures) :
    σ₁.Lockstep (.below σ.frames.size σ.procedures) σ₂ where
  size := by rw [h₁, h₂]
  same a b := by rw [h₁]; rfl
  bounds := by
    rintro a _ ⟨rfl, ha⟩
    rw [h₁, h₂]
    exact ⟨ha, ha⟩
  procedures := by
    rintro a _ ⟨rfl, ha⟩
    exact ⟨Nat.lt_of_lt_of_le ha hp₁, Nat.lt_of_lt_of_le ha hp₂⟩
  frames := by
    rintro a _ ⟨rfl, _⟩
    have hf₁ : σ₁.frame a = σ.frame a := by rw [frame, h₁, frame]
    have hf₂ : σ₂.frame a = σ.frame a := by rw [frame, h₂, frame]
    rw [hf₁, hf₂]
    refine ⟨List.forall₂_same.mpr fun entry hm => ?_, rfl⟩
    exact ⟨rfl, Spelling.fixes_eq _, (h a entry hm).related fun _ => rfl⟩

-- What corresponds to something is there.
theorem Value.LivesIn.of_related {ρ : Pairing} {N O : Spelling} {σ₁ σ₂ : Store}
    (hσ : σ₁.Alike ρ N σ₂) {v w : Value} (h : v.Related ρ N O w) : v.LivesIn σ₁ := by
  induction v using Value.induct generalizing O w
  case nil       => exact .nil
  case integer i => exact .integer i
  case text s    => exact .text s
  case boolean b => exact .boolean b
  case symbol n  => exact .symbol n
  case list items hi =>
    obtain ⟨_, rfl, hl⟩ := related_list.mp h
    refine .list fun item hm => ?_
    obtain ⟨i, hlt, rfl⟩ := List.getElem_of_mem hm
    exact hi _ hm (hl.get hlt (hl.length_eq ▸ hlt))
  case procedure hi =>
    obtain ⟨_, rfl, hp⟩ := related_procedure.mp h
    refine .procedure (hσ.procedures _ _ hp.identity).left (fun id hm => ?_) (hi hp.body)
    obtain ⟨i, hlt, rfl⟩ := List.getElem_of_mem hm
    exact (hσ.bounds _ _ (hp.home.get hlt (hp.home.length_eq ▸ hlt))).left

namespace Store

theorem Lockstep.closed {ρ : Pairing} {σ₁ σ₂ : Store} (h : σ₁.Lockstep ρ σ₂) : σ₁.Closed := by
  intro id entry hm
  by_cases hid : id < σ₁.frames.size
  case pos =>
    have hf := (h.frames id id ((h.same id id).mpr ⟨rfl, hid⟩)).bindings
    obtain ⟨i, hl, rfl⟩ := List.getElem_of_mem hm
    exact .of_related h.toAlike (hf.get hl (hf.length_eq ▸ hl)).right.right
  case neg =>
    rw [frame_of_size_le (Nat.le_of_not_lt hid)] at hm
    cases hm

theorem closed_empty : ({} : Store).Closed :=
  fun _ _ => nofun

theorem Closed.root {σ : Store} (h : σ.Closed) : σ.root.2.Closed := by
  have hl : σ.Lockstep _ σ := h.lockstep rfl (Nat.le_refl _) rfl (Nat.le_refl _)
  obtain ⟨ρ', hρ, hi, hσ⟩ := hl.toAlike.root
  exact (hl.grow hρ hσ (Array.size_push _) (Array.size_push _) hi.frame).closed

end Store
end ScopedLisp
