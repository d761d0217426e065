import Mathlib.Logic.Function.Basic
import ScopedLisp.Proofs.Evaluation.Confined
import ScopedLisp.Proofs.Evaluation.Keeping
import ScopedLisp.Proofs.Store.Restored

-- Evaluation in which no call is given a procedure. Then scopes that have given up their bindings
-- are out of reach: what a scope can find by a name lies in frames around it, or in frames that are
-- kept.
-- Main statement: `Evaluator.orderly_evaluate`.

namespace ScopedLisp

open Evaluation Store

-- A form without procedures in place of forms, as it comes from a text.
inductive Value.IsCode : Value → Prop
  | nil : IsCode nil
  | integer (i : Integer) : IsCode (integer i)
  | text (s : String) : IsCode (text s)
  | boolean (b : Bool) : IsCode (boolean b)
  | symbol (name : String) : IsCode (symbol name)
  | list {items : List Value} (h : ∀ item ∈ items, IsCode item) : IsCode (list items)

theorem Value.IsCode.items {items : List Value} (h : (Value.list items).IsCode) :
    ∀ item ∈ items, item.IsCode := by
  cases h
  case list h => exact h

def Value.isProcedure : Value → Bool
  | procedure _ => true
  | _ => false

-- A procedure is among the values of the call that is made in this moment.
def Moment.passesProcedure (x : Moment) : Bool :=
  match x.event with
  | .call _ values => values.any Value.isProcedure
  | _ => false

def History.FirstOrder (h : History) : Prop :=
  ∀ x ∈ h, ¬x.passesProcedure

instance (h : History) : Decidable h.FirstOrder :=
  inferInstanceAs (Decidable (∀ x ∈ h, ¬x.passesProcedure))

-- Where a frame stands: the frames around it, and whether it is going to keep its bindings at the
-- end of its scope.
structure Place where
  around : List FrameId
  keeps  : Bool

-- The places of frames, as far as they are known.
abbrev Layout := FrameId → Option Place

namespace Layout

-- The frame is one that keeps its bindings.
def Keeps (L : Layout) (id : FrameId) : Prop :=
  ∃ place, L id = some place ∧ place.keeps

-- The chain is the one in which its first frame stands.
inductive Fits (L : Layout) : List FrameId → Prop
  | nil : Fits L []
  | cons {id : FrameId} {place : Place} (h : L id = some place) :
    Fits L place.around → Fits L (id :: place.around)

-- The frames that the procedure sees are those of the chain, or keep their bindings.
structure Belongs (L : Layout) (chain : List FrameId) (p : Procedure) : Prop where
  code : p.body.IsCode
  fits : L.Fits p.home.chain
  held : ∀ id ∈ p.home.chain, id ∈ chain ∨ L.Keeps id

def Extends (L L' : Layout) : Prop :=
  ∀ id place, L id = some place → L' id = some place

variable {L L' L₁ L₂ : Layout} {chain chain' inside outside : List FrameId} {id : FrameId}

theorem Extends.refl (L : Layout) : L.Extends L :=
  fun _ _ => id

theorem Extends.trans (h₁ : L.Extends L₁) (h₂ : L₁.Extends L₂) : L.Extends L₂ :=
  fun id place h => h₂ id place (h₁ id place h)

theorem extends_update (h : L id = none) (place : Place) :
    L.Extends (Function.update L id (some place)) := by
  intro other place' ho
  have hn : other ≠ id := by
    rintro rfl
    simp [h] at ho
  rwa [Function.update_of_ne hn]

theorem Keeps.mono (h : L.Keeps id) (hL : L.Extends L') : L'.Keeps id :=
  have ⟨place, hp, hk⟩ := h
  ⟨place, hL _ _ hp, hk⟩

theorem Fits.mono (h : L.Fits chain) (hL : L.Extends L') : L'.Fits chain := by
  induction h
  case nil          => exact .nil
  case cons hp _ hi => exact .cons (hL _ _ hp) hi

theorem Belongs.mono {p : Procedure} (h : L.Belongs chain p) (hL : L.Extends L')
    (hc : ∀ id ∈ chain, id ∈ chain' ∨ L'.Keeps id) : L'.Belongs chain' p where
  code := h.code
  fits := h.fits.mono hL
  held := fun id hid => (h.held id hid).elim (hc id) fun hk => .inr <| hk.mono hL

-- What is around a frame is the same in all chains.
theorem Fits.exists_place (h : L.Fits (inside ++ id :: outside)) :
    ∃ place, L id = some place ∧ place.around = outside := by
  induction inside
  case nil =>
    cases h
    case cons hp => exact ⟨_, hp, rfl⟩
  case cons hd tl hi =>
    rw [List.cons_append] at h
    generalize he : tl ++ id :: outside = rest at h
    cases h
    case cons hf _ => exact hi (he ▸ hf)

-- The store is laid out like this, after the past: frames that keep their bindings have not given
-- them up, and the procedures that a frame binds belong into it.
structure Describes (L : Layout) (past : History) (σ : Store) : Prop where
  bound  : ∀ id place, L id = some place → id < σ.frames.size
  fresh  : ∀ id, σ.frames.size ≤ id → past.givenUp? id = none
  kept   : ∀ id, L.Keeps id → past.givenUp? id = none
  values : ∀ id place, L id = some place → ∀ name v,
    (σ.frame id).bindings.find? name = some v → v.IsResult (L.Belongs (id :: place.around))

end Layout

-- The scope stands where the layout says, and none of its frames has given up its bindings.
structure Scope.InOrder (s : Scope) (L : Layout) (past : History) : Prop where
  fits : L.Fits s.chain
  kept : ∀ id ∈ s.chain, past.givenUp? id = none

namespace Scope.InOrder

variable {L L' : Layout} {past h : History} {s : Scope}

theorem after (hs : s.InOrder L past) (hL : L.Extends L')
    (hh : ∀ id place, L id = some place → h.givenUp? id = none) : s.InOrder L' (past ++ h) where
  fits := hs.fits.mono hL
  kept := fun id hid => by
    obtain ⟨inside, outside, hc⟩ := List.append_of_mem hid
    obtain ⟨place, hp, _⟩ := Layout.Fits.exists_place (hc ▸ hs.fits)
    rw [History.givenUp?_append, hs.kept id hid, hh id place hp]
    rfl

-- A moment in which nothing is given up.
theorem quiet (hs : s.InOrder L past) {x : Moment} (hx : ∀ id, x.givenUp? id = none) :
    s.InOrder L (past ++ [x]) :=
  hs.after (.refl L) fun id _ _ => by simp [History.givenUp?, hx]

-- Then nothing that is looked up is lost.
theorem not_misses (hs : s.InOrder L past) (name : String) (σ : Store) :
    ¬past.Misses ⟨.look s name, σ⟩ := by
  rintro ⟨inside, id, outside, bindings, hc, _, hg, _⟩
  have hid : id ∈ s.chain := by simp [hc]
  simp [hs.kept id hid] at hg

end Scope.InOrder

namespace Layout.Describes

variable {L : Layout} {past h : History} {σ σ' : Store} {s : Scope}

-- What a scope finds belongs into it.
theorem isResult_find? (hd : L.Describes past σ) (hs : L.Fits s.chain) {name : String} {v : Value}
    (hv : σ.find? s name = some v) : v.IsResult (L.Belongs s.chain) := by
  obtain ⟨id, hid, hf⟩ := List.exists_of_findSome?_eq_some hv
  obtain ⟨inside, outside, hc⟩ := List.append_of_mem hid
  obtain ⟨place, hp, rfl⟩ := Fits.exists_place (hc ▸ hs)
  refine (hd.values id place hp name v hf).mono fun p hb => hb.mono (.refl L) fun other ho => ?_
  exact .inl (by simp [hc, List.mem_cons.mp ho])

-- A moment in which nothing is given up.
theorem quiet (hd : L.Describes past σ) {x : Moment} (hx : ∀ id, x.givenUp? id = none) :
    L.Describes (past ++ [x]) σ := by
  have hp (id : FrameId) : History.givenUp? (past ++ [x]) id = past.givenUp? id := by
    simp [History.givenUp?, List.findSome?_append, hx]
  exact ⟨hd.bound, fun id hid => hp id ▸ hd.fresh id hid, fun id hid => hp id ▸ hd.kept id hid,
    hd.values⟩

theorem of_bindings_eq (hd : L.Describes past σ) (hs : σ'.frames.size = σ.frames.size)
    (hf : ∀ id, (σ'.frame id).bindings = (σ.frame id).bindings) : L.Describes past σ' where
  bound  := fun id place hp => hs ▸ hd.bound id place hp
  fresh  := fun id hid => hd.fresh id (hs ▸ hid)
  kept   := hd.kept
  values := fun id place hp name v hv => hd.values id place hp name v (hf id ▸ hv)

theorem define (hd : L.Describes past σ) (hs : L.Fits s.chain) {name : String} {v : Value}
    (hv : v.IsResult (L.Belongs s.chain)) (h : σ.define s name v = .ok σ') :
    L.Describes past σ' := by
  obtain ⟨_, rfl⟩ := define_eq_ok h
  constructor
  case bound => exact fun id place hp => (size_modify ..).symm ▸ hd.bound id place hp
  case fresh => exact fun id hid => hd.fresh id (size_modify .. ▸ hid)
  case kept  => exact hd.kept
  case values =>
    intro id place hp other w hw
    rw [frame_modify] at hw
    split at hw
    case isFalse => exact hd.values id place hp other w hw
    case isTrue hid =>
      rw [NameMap.find?_insert] at hw
      split at hw
      case isFalse => exact hd.values id place hp other w hw
      case isTrue =>
        obtain rfl := Option.some.inj hw
        have hc : L.Fits ([] ++ s.frame :: s.around) := hs
        obtain ⟨place', hp', ha⟩ := hc.exists_place
        obtain rfl : place = place' := Option.some.inj (hp.symm.trans (hid.left ▸ hp'))
        rw [hid.left, ha]
        exact hv

theorem eq_none (hd : L.Describes past σ) : L σ.frames.size = none := by
  cases hp : L σ.frames.size
  case none => rfl
  case some => exact absurd (hd.bound _ _ hp) (Nat.lt_irrefl _)

-- A new frame that binds no procedures, around which all frames are known.
theorem child (hd : L.Describes past σ) (outer : Scope) (place : Place)
    {bindings : NameMap Value} (hb : ∀ name v, bindings.find? name = some v → ∀ P, v.IsResult P) :
    Layout.Describes (Function.update L σ.frames.size (some place)) past
      (σ.child outer bindings).2 := by
  have hL := extends_update hd.eq_none place
  constructor
  case bound =>
    intro id place' hp
    rw [size_child]
    by_cases hid : id = σ.frames.size
    case pos => exact hid ▸ Nat.lt_succ_self _
    case neg =>
      rw [Function.update_of_ne hid] at hp
      exact Nat.lt_succ_of_lt (hd.bound id place' hp)
  case fresh =>
    intro id hid
    rw [size_child] at hid
    exact hd.fresh id (Nat.le_of_succ_le hid)
  case kept =>
    rintro id ⟨place', hp, hk⟩
    by_cases hid : id = σ.frames.size
    case pos => exact hd.fresh id (Nat.le_of_eq hid.symm)
    case neg =>
      rw [Function.update_of_ne hid] at hp
      exact hd.kept id ⟨place', hp, hk⟩
  case values =>
    intro id place' hp name v hv
    rw [frame_child] at hv
    split at hv
    case isTrue => exact hb name v hv _
    case isFalse hid =>
      rw [Function.update_of_ne hid] at hp
      exact (hd.values id place' hp name v hv).mono fun p hb => hb.mono hL fun _ => .inl

-- A scope finishes, and its frame keeps its bindings or not as the layout says.
theorem release (hd : L.Describes past σ) {place : Place} (hp : L s.frame = some place)
    {outcome : Except Stop Value} (hk : place.keeps = !Retention.whenCaptured.gives s outcome) :
    L.Describes (past ++ [⟨.finish s outcome, σ⟩]) (σ.release .whenCaptured s outcome) := by
  constructor
  case bound => exact fun id place hp => (size_release ..).symm ▸ hd.bound id place hp
  case fresh =>
    intro id hid
    rw [size_release] at hid
    have hn : ¬(s.frame = id ∧ Retention.whenCaptured.gives s outcome) := fun h =>
      absurd (hd.bound _ _ hp) (Nat.not_lt_of_le (h.left ▸ hid))
    rw [History.givenUp?_append_finish, hd.fresh id hid, if_neg hn]
    rfl
  case kept =>
    intro id hid
    have hn : ¬(s.frame = id ∧ Retention.whenCaptured.gives s outcome) := by
      rintro ⟨rfl, hg⟩
      obtain ⟨place', hp', hk'⟩ := hid
      obtain rfl : place = place' := Option.some.inj (hp.symm.trans hp')
      simp [hk, hg] at hk'
    rw [History.givenUp?_append_finish, hd.kept id hid, if_neg hn]
    rfl
  case values =>
    intro id place' hp' name v hv
    by_cases hg : Retention.whenCaptured.gives s outcome
    case neg =>
      rw [Store.release, if_neg hg] at hv
      exact hd.values id place' hp' name v hv
    case pos =>
      by_cases hid : id = s.frame
      case neg =>
        rw [frame_release_of_ne hid] at hv
        exact hd.values id place' hp' name v hv
      case pos =>
        have hl : (σ.release .whenCaptured s outcome).locals s = {} := by
          rw [Store.release, if_pos hg]
          exact locals_clear ..
        rw [hid] at hv
        change ((σ.release .whenCaptured s outcome).locals s).find? name = some v at hv
        simp [hl] at hv

end Layout.Describes

-- From where the first layout describes the store, evaluation in the scope leads to where the
-- second one does. On the way, no name is looked up that is lost, and no frame is given up that has
-- been known before. What comes out belongs into the scope.
structure Orderly (L L' : Layout) (past : History) (s : Scope) (r : Except Stop Value × Machine)
    (h : History) : Prop where
  grows     : L.Extends L'
  describes : L'.Describes (past ++ h) r.2.store
  found     : ¬past.AnyMissed h
  known     : ∀ id place, L id = some place → h.givenUp? id = none
  result    : ∀ v, r.1 = .ok v → v.IsResult (L'.Belongs s.chain)

namespace Orderly

variable {L L₁ L₂ : Layout} {past h k : History} {s : Scope} {r r' : Except Stop Value × Machine}
  {m : Machine}

theorem of_describes (hd : L.Describes past m.store) {outcome : Except Stop Value}
    (ho : ∀ v, outcome = .ok v → v.IsResult (L.Belongs s.chain)) :
    Orderly L L past s (outcome, m) [] where
  grows     := .refl L
  describes := by rwa [List.append_nil]
  found     := id
  known     := fun _ _ _ => rfl
  result    := ho

theorem trans (h₁ : Orderly L L₁ past s r h) (h₂ : Orderly L₁ L₂ (past ++ h) s r' k) :
    Orderly L L₂ past s r' (h ++ k) where
  grows     := h₁.grows.trans h₂.grows
  describes := by
    rw [← List.append_assoc]
    exact h₂.describes
  found     := fun hm => (History.anyMissed_append.mp hm).elim h₁.found h₂.found
  known     := fun id place hp => by
    rw [History.givenUp?_append, h₁.known id place hp, h₂.known id place (h₁.grows _ _ hp)]
    rfl
  result    := h₂.result

-- A moment in which nothing is given up, and no lost name is looked up.
theorem cons {x : Moment} (hm : ¬past.Misses x) (hn : ∀ id, x.givenUp? id = none)
    (hk : Orderly L L₁ (past ++ [x]) s r k) : Orderly L L₁ past s r (x :: k) where
  grows     := hk.grows
  describes := by simpa using hk.describes
  found     := fun ha => ha.elim hm hk.found
  known     := fun id place hp => by
    rw [← List.singleton_append, History.givenUp?_append, hk.known id place hp]
    simp [History.givenUp?, hn]
  result    := hk.result

end Orderly

-- Evaluation with such moments is orderly, if no call is given a procedure.
def Context.Orderly (c : Context) (moments : Scope → Form → Machine → History) : Prop :=
  ∀ {L past s form m}, L.Describes past m.store → s.InOrder L past → form.IsCode →
    (moments s form m).FirstOrder →
    ∃ L', ScopedLisp.Orderly L L' past s ((c.evaluate s form).run m) (moments s form m)

theorem History.firstOrder_nil : FirstOrder [] :=
  List.forall_mem_nil _

theorem History.firstOrder_append {h k : History} :
    FirstOrder (h ++ k) ↔ h.FirstOrder ∧ k.FirstOrder :=
  List.forall_mem_append

theorem History.firstOrder_cons {x : Moment} {h : History} :
    FirstOrder (x :: h) ↔ ¬x.passesProcedure ∧ h.FirstOrder :=
  List.forall_mem_cons

-- A result that does not capture the scope does not see its frame.
theorem Layout.Belongs.of_child {L : Layout} {outer s : Scope} {frame : FrameId} {place : Place}
    {p : Procedure} (hb : L.Belongs (outer.child frame).chain p) (hp : L frame = some place)
    (ha : place.around = outer.chain)
    (hk : (Value.procedure p).captures (outer.child frame) → place.keeps)
    (ho : ∀ id ∈ outer.chain, id ∈ s.chain ∨ L.Keeps id) : L.Belongs s.chain p where
  code := hb.code
  fits := hb.fits
  held := fun id hid => by
    rcases hb.held id hid with hi | hi
    case inr => exact .inr hi
    rcases List.mem_cons.mp hi with rfl | hi
    case inr => exact ho id hi
    -- The frame is seen with all that is around it, so that the scope is captured.
    obtain ⟨inside, outside, hc⟩ := List.append_of_mem hid
    obtain ⟨place', hp', rfl⟩ := Layout.Fits.exists_place (hc ▸ hb.fits)
    obtain rfl : place = place' := Option.some.inj (hp.symm.trans hp')
    refine .inr ⟨place, hp, hk ?_⟩
    have hl : (outer.child _).chain <:+ p.home.chain := ⟨inside, by rw [hc, ha]; rfl⟩
    exact Scope.liesIn_iff.mpr hl

theorem Scope.orderly_enclosed {c : Context} (hr : c.retention = .whenCaptured) {L : Layout}
    {past : History} {s outer : Scope} {bindings : NameMap Value}
    {x : Scope → Evaluation Value} {moments : Scope → Machine → History} {m : Machine}
    (hd : L.Describes past m.store) (ho : outer.InOrder L past)
    (hs : ∀ id ∈ outer.chain, id ∈ s.chain ∨ L.Keeps id)
    (hb : ∀ name v, bindings.find? name = some v → ∀ P, v.IsResult P)
    (hf : History.FirstOrder (outer.enclosedMoments bindings x moments m))
    (hx : ∀ {L' inner m'}, L.Extends L' → inner.chain = inner.frame :: outer.chain →
      L'.Describes past m'.store → inner.InOrder L' past → (moments inner m').FirstOrder →
      ∃ L'', Orderly L' L'' past inner ((x inner).run m') (moments inner m')) :
    ∃ L', Orderly L L' past s ((c.enclosed outer bindings x).run m)
      (outer.enclosedMoments bindings x moments m) := by
  let inner := outer.child m.store.frames.size
  let opened : Machine := { m with store := (m.store.child outer bindings).2 }
  -- The layout looks ahead to the end of the scope.
  let place : Place := ⟨outer.chain, !Retention.whenCaptured.gives inner ((x inner).run opened).1⟩
  let L₁ : Layout := Function.update L inner.frame (some place)
  have hn : L inner.frame = none := hd.eq_none
  have hL : L.Extends L₁ := Layout.extends_update hn place
  have hu : L₁ inner.frame = some place := Function.update_self ..
  have hi : inner.InOrder L₁ past := ⟨.cons hu (ho.fits.mono hL),
    List.forall_mem_cons.mpr ⟨hd.fresh _ (Nat.le_refl _), ho.kept⟩⟩
  have hf := History.firstOrder_append.mp hf
  have hd₁ : L₁.Describes past opened.store := hd.child outer place hb
  obtain ⟨L₂, h₂⟩ := hx hL rfl hd₁ hi hf.left
  have hp : L₂ inner.frame = some place := h₂.grows _ _ hu
  refine ⟨L₂, ?_⟩
  rw [Context.run_enclosed, hr]
  constructor
  case grows => exact hL.trans h₂.grows
  case describes =>
    unfold enclosedMoments
    rw [← List.append_assoc]
    exact h₂.describes.release hp rfl
  case found =>
    exact fun hm => (History.anyMissed_append.mp hm).elim h₂.found fun hm => hm.elim id id
  case known =>
    intro id place' hid
    have he : inner.frame ≠ id := by
      rintro rfl
      simp [hn] at hid
    unfold enclosedMoments
    rw [History.givenUp?_append_finish, h₂.known id place' (hL _ _ hid), if_neg fun h => he h.left]
    rfl
  case result =>
    intro v hv
    have hb := h₂.result v hv
    cases v
    case procedure p =>
      refine Layout.Belongs.of_child hb hp rfl (fun hc => ?_) fun id hid =>
        (hs id hid).imp_right fun hk => hk.mono (hL.trans h₂.grows)
      have ho : ((x inner).run opened).1 = .ok (.procedure p) := hv
      simp [place, ho, Retention.gives, inner, hc]
    all_goals exact hb

theorem NameMap.mem_of_find?_insertAll {α : Type} {entries : List (String × α)} {m : NameMap α}
    {name : String} {a : α} (h : (m.insertAll entries).find? name = some a) :
    m.find? name = some a ∨ (name, a) ∈ entries := by
  induction entries generalizing m
  case nil => exact .inl h
  case cons entry entries hi =>
    rcases hi h with h | h
    case inr => exact .inr <| List.mem_cons_of_mem _ h
    case inl =>
      rw [find?_insert] at h
      split at h
      case isFalse => exact .inl h
      case isTrue hn =>
        obtain rfl := Option.some.inj h
        exact .inr (by simp [hn])

-- What the new frame of a call binds are values of the call, to names of its parameters.
theorem NameMap.mem_of_find?_zip {α : Type} {names : List String} {values : List α} {name : String}
    {a : α} (h : (insertAll {} (names.zip values)).find? name = some a) :
    name ∈ names ∧ a ∈ values :=
  List.of_mem_zip <| (mem_of_find?_insertAll h).resolve_left nofun

theorem Value.IsResult.of_not_isProcedure {P P' : Procedure → Prop} {v : Value} (h : v.IsResult P)
    (hn : ¬v.isProcedure) : v.IsResult P' := by
  cases v
  case procedure => exact absurd rfl hn
  all_goals exact h

theorem Steps.orderly_run {c : Context} {moments : Scope → Form → Machine → History}
    (hr : c.retention = .whenCaptured) (hc : c.Orderly moments) (steps : Steps) {L : Layout}
    {past : History} {s : Scope} {m : Machine} (hd : L.Describes past m.store)
    (hs : s.InOrder L past) {r : String → Bool}
    (hk : steps.Confined Value.IsCode r (L.Belongs s.chain))
    (hf : History.FirstOrder (steps.moments c moments s m)) :
    ∃ L', Orderly L L' past s ((steps.run c s).run m) (steps.moments c moments s m) := by
  induction steps generalizing L past s m
  case done v => exact ⟨L, .of_describes hd fun w hw => Except.ok.inj hw ▸ hk⟩
  case failed => exact ⟨L, .of_describes hd nofun⟩
  case look name next hi =>
    have hq := hd.quiet (x := ⟨.look s name, m.store⟩) fun _ => rfl
    have hs' := hs.quiet (x := ⟨.look s name, m.store⟩) fun _ => rfl
    have hv : ∀ v ∈ m.store.find? s name, v.IsResult (L.Belongs s.chain) :=
      fun v hv => hd.isResult_find? hs.fits hv
    obtain ⟨L', ho⟩ := hi _ hq hs' (hk _ (fun _ => id) _ hv) (History.firstOrder_cons.mp hf).right
    exact ⟨L', ho.cons (hs.not_misses name m.store) fun _ => rfl⟩
  case evaluate form next hi =>
    rw [Steps.moments] at hf ⊢
    rw [run_evaluate]
    have hf := History.firstOrder_append.mp hf
    obtain ⟨L₁, h₁⟩ := hc hd hs hk.left hf.left
    rcases hr : (c.evaluate s form).run m with ⟨stop | v, m'⟩
    all_goals rw [hr] at h₁ hf
    case error => exact ⟨L₁, h₁.trans (.of_describes h₁.describes nofun)⟩
    case ok =>
      have hP (p : Procedure) (hp : L.Belongs s.chain p) : L₁.Belongs s.chain p :=
        hp.mono h₁.grows fun _ => .inl
      have hv := hk.right _ hP v (h₁.result v rfl)
      obtain ⟨L₂, h₂⟩ := hi v h₁.describes (hs.after h₁.grows h₁.known) hv hf.right
      exact ⟨L₂, h₁.trans h₂⟩
  case define name v next hi =>
    have hq := hd.quiet (x := ⟨.define s name v, m.store⟩) fun _ => rfl
    have hs' := hs.quiet (x := ⟨.define s name v, m.store⟩) fun _ => rfl
    rw [Steps.moments] at hf ⊢
    rw [run_define]
    have hf := (History.firstOrder_cons.mp hf).right
    cases h : m.store.define s name v
    all_goals rw [h] at hf
    case error =>
      exact ⟨L, .cons (History.not_misses rfl) (fun _ => rfl) (.of_describes hq nofun)⟩
    case ok σ =>
      have ⟨_, hv, hnext⟩ := hk
      have hd' := hq.define hs.fits hv h
      obtain ⟨L', ho⟩ := hi (m := { m with store := σ }) hd' hs' (hnext _ fun _ => id) hf
      exact ⟨L', ho.cons (History.not_misses rfl) fun _ => rfl⟩
  case procedure parameters body =>
    have hd' : L.Describes past (m.store.procedure parameters body s).2 :=
      hd.of_bindings_eq rfl fun _ => rfl
    refine ⟨L, .of_describes (m := { m with store := _ }) hd' fun w hw => ?_⟩
    obtain rfl := Except.ok.inj hw
    exact ⟨hk.right, hs.fits, fun _ => .inl⟩
  case apply p values =>
    rw [Steps.moments] at hf ⊢
    have ⟨hp, hvalues⟩ := hk
    have ⟨hn, hf⟩ := History.firstOrder_cons.mp hf
    have hq := hd.quiet (x := ⟨.call p values, m.store⟩) fun _ => rfl
    have hh : p.home.InOrder L past := ⟨hp.fits, fun id hid =>
      (hp.held id hid).elim (hs.kept id) (hd.kept id)⟩
    have hh' := hh.quiet (x := ⟨.call p values, m.store⟩) fun _ => rfl
    have hb (name : String) (v : Value)
        (hv : (NameMap.insertAll {} (p.parameters.zip values)).find? name = some v)
        (P : Procedure → Prop) : v.IsResult P := by
      have hv := (NameMap.mem_of_find?_zip hv).right
      have hn : ∀ v ∈ values, ¬v.isProcedure := by simpa [Moment.passesProcedure] using hn
      exact (hvalues v hv).of_not_isProcedure (hn v hv)
    obtain ⟨L', ho⟩ := Scope.orderly_enclosed hr hq hh' hp.held hb hf
      fun hL _ hd hi hf => hc hd hi hp.code hf
    exact ⟨L', ho.cons (History.not_misses rfl) fun _ => rfl⟩
  case nest body hi =>
    refine Scope.orderly_enclosed hr hd hs (fun _ => .inl) nofun hf fun hL hin hd hs' hf => ?_
    refine hi hd hs' (hk _ fun p hp => hp.mono hL fun id hid => .inl ?_) hf
    exact hin ▸ List.mem_cons_of_mem _ hid
  case write text =>
    have hd' : L.Describes past ((c.sink.write text).run m).2.store := by rwa [Sink.store_write]
    rw [run_write]
    refine ⟨L, .of_describes hd' fun w hw => ?_⟩
    obtain ⟨_, _, rfl⟩ := map_eq_ok_iff.mp hw
    trivial

-- Evaluation looks up no name that is lost, if no call is given a procedure.
theorem Evaluator.orderly_evaluate (grouping : String) (entries : List (String × Builtin))
    (sink : Sink) (depth : Nat) :
    let e := ofBuiltins grouping entries sink .whenCaptured
    (e.context depth).Orderly (e.moments entries depth) := by
  intro e
  induction depth
  case zero => exact fun hd _ _ _ => ⟨_, .of_describes hd nofun⟩
  case succ depth hi =>
    intro L past s form m hd hs hcode hf
    have hk : (Steps.ofForm (Builtin.find? entries) form).Confined Value.IsCode _
        (L.Belongs s.chain) := Steps.confined_ofForm _ ⟨fun _ h => h.items, nofun⟩ hcode
    have h := Steps.orderly_run rfl hi _ hd hs hk hf
    rwa [← evaluate_succ_eq_run] at h

end ScopedLisp
