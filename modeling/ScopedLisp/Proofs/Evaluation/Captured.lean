import ScopedLisp.Proofs.Evaluation.Keeping
import ScopedLisp.Proofs.Evaluation.Moments

-- Scopes whose result captures them. From the moment on in which they finish, evaluation does not
-- touch their frames any more: it writes to the frames of scopes that are still under way, and to
-- new ones.
-- Main statement: `Evaluator.settles_evaluate`.

namespace ScopedLisp

open Evaluation Store

namespace Moment

-- The frame whose scope finishes in this moment with a result that captures the scope.
def captured? (x : Moment) : Option FrameId :=
  match x.event with
  | .finish s (.ok v) => if v.captures s then some s.frame else none
  | _ => none

theorem captured?_eq_some_iff {x : Moment} {id : FrameId} :
    x.captured? = some id ↔ ∃ s v, x.event = .finish s (.ok v) ∧ v.captures s ∧ s.frame = id := by
  unfold captured?
  split
  case h_1 s v he => simp [he, and_assoc]
  case h_2 hn => simpa using fun s v he => (hn s v he).elim

-- The frame that is captured in this moment is the same in the store as it is now.
def KeptIn (x : Moment) (σ : Store) : Prop :=
  ∀ id, x.captured? = some id → σ.frame id = x.store.frame id

end Moment

-- A frame stays as it is, if the result of its scope captures the scope.
theorem Store.release_of_captures {σ : Store} {s : Scope} {v : Value} (h : v.captures s)
    (r : Retention) : σ.release r s (.ok v) = σ := by
  simp [release, Retention.gives, h]

namespace History

-- What happens between two stores. Frames that are not in use stay as they are all the time, and so
-- do frames that are captured on the way, from then on. Those are new.
structure Settles (h : History) (used : FrameId → Prop) (σ σ' : Store) : Prop where
  size     : σ.frames.size ≤ σ'.frames.size
  unused   : ∀ id < σ.frames.size, ¬used id →
    (∀ x ∈ h, x.store.frame id = σ.frame id) ∧ σ'.frame id = σ.frame id
  captured : ∀ x ∈ h, ∀ id, x.captured? = some id → σ.frames.size ≤ id ∧ id < σ'.frames.size
  settled  : h.Pairwise fun x y => x.KeptIn y.store
  kept     : ∀ x ∈ h, x.KeptIn σ'

namespace Settles

variable {h k : History} {used used' : FrameId → Prop} {σ σ₁ σ₂ : Store}

theorem nil (hn : σ.frames.size ≤ σ₁.frames.size)
    (hk : ∀ id < σ.frames.size, ¬used id → σ₁.frame id = σ.frame id) :
    Settles [] used σ σ₁ where
  size     := hn
  unused   := fun id hid ho => ⟨nofun, hk id hid ho⟩
  captured := nofun
  settled  := .nil
  kept     := nofun

theorem refl (used : FrameId → Prop) (σ : Store) : Settles [] used σ σ :=
  nil (Nat.le_refl _) fun _ _ _ => rfl

theorem mono (hh : h.Settles used σ σ₁) (hu : ∀ id, used id → used' id) :
    h.Settles used' σ σ₁ :=
  { hh with unused := fun id hid ho => hh.unused id hid fun hn => ho (hu id hn) }

-- One thing after another. What has been captured must not come into use again.
theorem append (h₁ : h.Settles used σ σ₁) (h₂ : k.Settles used' σ₁ σ₂)
    (hu : ∀ id < σ.frames.size, used' id → used id)
    (hc : ∀ x ∈ h, ∀ id, x.captured? = some id → ¬used' id) : Settles (h ++ k) used σ σ₂ := by
  -- What has been captured first is not in use when the rest happens.
  have hs : ∀ x ∈ h, ∀ id, x.captured? = some id →
      (∀ y ∈ k, y.store.frame id = x.store.frame id) ∧ σ₂.frame id = x.store.frame id := by
    intro x hx id hid
    have ⟨hm, hf⟩ := h₂.unused id (h₁.captured x hx id hid).right (hc x hx id hid)
    rw [h₁.kept x hx id hid] at hm hf
    exact ⟨hm, hf⟩
  constructor
  case size => exact Nat.le_trans h₁.size h₂.size
  case unused =>
    intro id hid hn
    have ⟨hm₁, hf₁⟩ := h₁.unused id hid hn
    have ⟨hm₂, hf₂⟩ := h₂.unused id (Nat.lt_of_lt_of_le hid h₁.size) fun ho => hn (hu id hid ho)
    rw [hf₁] at hm₂ hf₂
    exact ⟨List.forall_mem_append.mpr ⟨hm₁, hm₂⟩, hf₂⟩
  case captured =>
    refine List.forall_mem_append.mpr ⟨fun x hx id hid => ?_, fun x hx id hid => ?_⟩
    case refine_1 =>
      have ⟨hl, hr⟩ := h₁.captured x hx id hid
      exact ⟨hl, Nat.lt_of_lt_of_le hr h₂.size⟩
    case refine_2 =>
      have ⟨hl, hr⟩ := h₂.captured x hx id hid
      exact ⟨Nat.le_trans h₁.size hl, hr⟩
  case settled =>
    refine List.pairwise_append.mpr ⟨h₁.settled, h₂.settled, fun x hx y hy id hid => ?_⟩
    exact (hs x hx id hid).left y hy
  case kept => exact List.forall_mem_append.mpr ⟨fun x hx id hid => (hs x hx id hid).right, h₂.kept⟩

-- In between, the same frame is in use, which has been there before.
theorem trans {s : Scope} (h₁ : h.Settles (· = s.frame) σ σ₁) (h₂ : k.Settles (· = s.frame) σ₁ σ₂)
    (hs : s.frame < σ.frames.size) : Settles (h ++ k) (· = s.frame) σ σ₂ :=
  h₁.append h₂ (fun _ _ => id) fun x hx id hid he =>
    absurd (h₁.captured x hx id hid).left (Nat.not_le_of_lt (he ▸ hs))

-- A moment in which no scope finishes.
theorem singleton {x : Moment} (hx : ∀ s outcome, x.event ≠ .finish s outcome) :
    Settles [x] used x.store x.store := by
  have hn (id : FrameId) : ¬x.captured? = some id := fun h =>
    have ⟨s, v, he, _⟩ := Moment.captured?_eq_some_iff.mp h
    hx s _ he
  constructor
  case size     => exact Nat.le_refl _
  case unused   => simp
  case captured => simp [hn]
  case settled  => exact List.pairwise_singleton ..
  case kept     => simp [Moment.KeptIn, hn]

theorem cons {x : Moment} {s : Scope} (hx : ∀ s outcome, x.event ≠ .finish s outcome)
    (h : k.Settles (· = s.frame) x.store σ) (hs : s.frame < x.store.frames.size) :
    Settles (x :: k) (· = s.frame) x.store σ :=
  (singleton hx).trans h hs

-- A scope that is new finishes. From where it was opened, what it has used is new.
theorem finish {s : Scope} (hk : k.Settles (· = s.frame) σ₁ σ₂) (hs : σ.frames.size = s.frame)
    (hn : σ₁.frames.size = σ.frames.size + 1)
    (hf : ∀ id < σ.frames.size, σ₁.frame id = σ.frame id) (r : Retention)
    (outcome : Except Stop Value) :
    Settles (k ++ [⟨.finish s outcome, σ₂⟩]) used σ (σ₂.release r s outcome) := by
  have hsize := hk.size
  have hr {id : FrameId} (hid : id ≠ s.frame) : (σ₂.release r s outcome).frame id = σ₂.frame id :=
    frame_release_of_ne hid
  constructor
  case size =>
    rw [size_release]
    omega
  case unused =>
    intro id hid _
    have hne : id ≠ s.frame := by omega
    have ⟨hm, hl⟩ := hk.unused id (by omega) hne
    rw [hf id hid] at hm hl
    exact ⟨List.forall_mem_append.mpr ⟨hm, List.forall_mem_singleton.mpr hl⟩, (hr hne).trans hl⟩
  case captured =>
    rw [size_release]
    refine List.forall_mem_append.mpr ⟨fun x hx id hid => ?_, List.forall_mem_singleton.mpr ?_⟩
    case refine_1 =>
      have ⟨hl, hr⟩ := hk.captured x hx id hid
      exact ⟨by omega, hr⟩
    case refine_2 =>
      intro id hid
      obtain ⟨_, _, he, _, rfl⟩ := Moment.captured?_eq_some_iff.mp hid
      cases he
      exact ⟨Nat.le_of_eq hs, Nat.lt_of_succ_le (by omega)⟩
  case settled =>
    refine List.pairwise_append.mpr ⟨hk.settled, List.pairwise_singleton .., fun x hx y hy => ?_⟩
    obtain rfl := List.mem_singleton.mp hy
    exact hk.kept x hx
  case kept =>
    refine List.forall_mem_append.mpr ⟨fun x hx id hid => ?_, List.forall_mem_singleton.mpr ?_⟩
    case refine_1 =>
      have ⟨hl, _⟩ := hk.captured x hx id hid
      exact (hr <| Nat.ne_of_gt (by omega)).trans (hk.kept x hx id hid)
    case refine_2 =>
      intro id hid
      obtain ⟨_, v, he, hv, rfl⟩ := Moment.captured?_eq_some_iff.mp hid
      cases he
      rw [release_of_captures hv]

end Settles
end History

-- Evaluation of a form in a scope is such that only the frame of the scope is in use.
def Context.Settles (c : Context) (moments : Scope → Form → Machine → History) : Prop :=
  ∀ s form m, s.frame < m.store.frames.size →
    (moments s form m).Settles (· = s.frame) m.store ((c.evaluate s form).run m).2.store

theorem Scope.settles_enclosed {c : Context} {outer : Scope} {bindings : NameMap Value}
    {x : Scope → Evaluation Value} {moments : Scope → Machine → History} {m : Machine}
    (h : ∀ inner m, inner.frame < m.store.frames.size →
      (moments inner m).Settles (· = inner.frame) m.store ((x inner).run m).2.store)
    (used : FrameId → Prop) :
    History.Settles (outer.enclosedMoments bindings x moments m) used m.store
      ((c.enclosed outer bindings x).run m).2.store := by
  let opened := (m.store.child outer bindings).2
  have hn : opened.frames.size = m.store.frames.size + 1 := size_child ..
  have hk := h (outer.child m.store.frames.size) { m with store := opened }
    (Nat.lt_of_lt_of_eq (Nat.lt_succ_self _) hn.symm)
  exact hk.finish rfl hn (Keeps.child _ outer bindings).frames c.retention _

-- Steps write to the frame of their scope, and to new ones.
theorem Steps.settles_run {c : Context} {moments : Scope → Form → Machine → History}
    (hc : c.Settles moments) (steps : Steps) {s : Scope} {m : Machine}
    (hs : s.frame < m.store.frames.size) :
    History.Settles (steps.moments c moments s m) (· = s.frame) m.store
      ((steps.run c s).run m).2.store := by
  induction steps generalizing s m
  case done | failed => exact .refl ..
  case look hi => exact .cons nofun (hi _ hs) hs
  case evaluate form next hi =>
    have h := hc s form m hs
    rw [run_evaluate, Steps.moments]
    generalize (c.evaluate s form).run m = after at *
    rcases after with ⟨_ | v, m'⟩
    case error => exact h.trans (.refl ..) hs
    case ok => exact h.trans (hi v (Nat.lt_of_lt_of_le hs h.size)) hs
  case define name v next hi =>
    rw [run_define, Steps.moments]
    cases h : m.store.define s name v
    case error => exact .cons nofun (.refl ..) hs
    case ok σ =>
      have h := KeepsAround.define h
      have hn := hi (m := { m with store := σ }) (Nat.lt_of_lt_of_le hs h.size)
      exact .cons nofun (.trans (.nil h.size h.others) hn hs) hs
  case procedure parameters body =>
    have h := Keeps.procedure m.store parameters body s
    exact .nil h.size fun id hid _ => h.frames id hid
  case apply p values =>
    exact .cons nofun (Scope.settles_enclosed (fun inner m => hc inner p.body m) _) hs
  case nest hi => exact Scope.settles_enclosed (fun _ _ => hi) _
  case write text =>
    rw [run_write, Sink.store_write]
    exact .refl ..

-- Evaluation leaves alone what has been captured.
theorem Evaluator.settles_evaluate (grouping : String) (entries : List (String × Builtin))
    (sink : Sink) (retention : Retention) (depth : Nat) :
    let e := ofBuiltins grouping entries sink retention
    (e.context depth).Settles (e.moments entries depth) := by
  intro e
  induction depth
  case zero => exact fun _ _ _ _ => .refl ..
  case succ depth hi =>
    intro s form m hs
    have h := Steps.settles_run hi (Steps.ofForm (Builtin.find? entries) form) hs
    rwa [← evaluate_succ_eq_run] at h

end ScopedLisp
