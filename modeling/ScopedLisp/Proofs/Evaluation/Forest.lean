import Mathlib.Data.Set.Insert
import ScopedLisp.Proofs.Evaluation.Binds

-- The scopes that have been made, and the frames that they stand for. Each frame is the innermost
-- one of exactly one scope, and the scope around that one has been made before. New scopes are
-- only put around the ones that are there, so that it stays so at all times, whatever is evaluated,
-- and whether it succeeds or not.
-- Main statement: `Evaluator.grows_evaluate`.

namespace ScopedLisp

open Evaluation Store

variable {S S' T : Set Scope}

-- All procedures in the value have such scopes for their homes.
inductive Value.StandsIn (S : Set Scope) : Value → Prop
  | nil : StandsIn S nil
  | integer (i : Integer) : StandsIn S (integer i)
  | text (s : String) : StandsIn S (text s)
  | boolean (b : Bool) : StandsIn S (boolean b)
  | symbol (name : String) : StandsIn S (symbol name)
  | list {items : List Value} (h : ∀ item ∈ items, StandsIn S item) : StandsIn S (list items)
  | procedure {p : Procedure} (home : p.home ∈ S) (body : StandsIn S p.body) :
    StandsIn S (procedure p)

def Procedure.StandsIn (S : Set Scope) (p : Procedure) : Prop :=
  (Value.procedure p).StandsIn S

namespace Value

variable {v : Value}

theorem StandsIn.mono (h : v.StandsIn S) (hS : S ⊆ S') : v.StandsIn S' := by
  induction h
  case nil                 => exact .nil
  case integer i           => exact .integer i
  case text s              => exact .text s
  case boolean b           => exact .boolean b
  case symbol name         => exact .symbol name
  case list hi             => exact .list hi
  case procedure home _ hi => exact .procedure (hS home) hi

theorem IsCode.standsIn (h : v.IsCode) (S : Set Scope) : v.StandsIn S := by
  induction h
  case nil         => exact .nil
  case integer i   => exact .integer i
  case text s      => exact .text s
  case boolean b   => exact .boolean b
  case symbol name => exact .symbol name
  case list hi     => exact .list hi

theorem StandsIn.items {items : List Value} (h : (Value.list items).StandsIn S) :
    ∀ item ∈ items, item.StandsIn S := by
  cases h
  case list h => exact h

theorem IsResult.standsIn (h : v.IsResult (·.StandsIn S)) : v.StandsIn S := by
  cases v
  case nil           => exact .nil
  case integer i     => exact .integer i
  case text s        => exact .text s
  case boolean b     => exact .boolean b
  case symbol | list => exact h.elim
  case procedure     => exact h

end Value

namespace Procedure.StandsIn

variable {p : Procedure}

theorem home (h : p.StandsIn S) : p.home ∈ S := by
  cases h
  case procedure home _ => exact home

theorem body (h : p.StandsIn S) : p.body.StandsIn S := by
  cases h
  case procedure body => exact body

theorem mono (h : p.StandsIn S) (hS : S ⊆ S') : p.StandsIn S' :=
  Value.StandsIn.mono h hS

end Procedure.StandsIn

-- Whether a scope comes to an end.
def Event.finishes : Event → Bool
  | finish .. => true
  | _ => false

-- The scopes of calls and `let`s that have come to an end.
def History.opened (h : History) : Set Scope :=
  {s | ∃ x ∈ h, ∃ outcome, x.event = .finish s outcome}

-- The stores of the moments only ever grow, from the first number of frames to the last one.
def History.Ascends (h : History) (first last : Nat) : Prop :=
  (first :: h.map (·.store.frames.size) ++ [last]).Pairwise (· ≤ ·)

-- These are all scopes of the store.
structure Store.Forest (σ : Store) (S : Set Scope) : Prop where
  made   : ∀ id, id < σ.frames.size ↔ ∃ s ∈ S, s.frame = id
  unique : ∀ s ∈ S, ∀ t ∈ S, s.frame = t.frame → s = t
  parent : ∀ s ∈ S, ∀ p, s.parent? = some p → p ∈ S ∧ p.frame < s.frame
  bound  : σ.Binds (fun _ => True) (·.StandsIn S)

namespace Store.Forest

variable {σ σ' : Store} {s : Scope}

theorem empty : Forest {} ∅ where
  made   := by simp
  unique := nofun
  parent := nofun
  bound  := Binds.empty _ _

theorem lt (h : σ.Forest S) (hs : s ∈ S) : s.frame < σ.frames.size :=
  (h.made s.frame).mpr ⟨s, hs, rfl⟩

-- Nothing but bindings has changed.
theorem of_size (h : σ.Forest S) (hs : σ'.frames.size = σ.frames.size)
    (hb : σ'.Binds (fun _ => True) (·.StandsIn S)) : σ'.Forest S where
  made   := hs ▸ h.made
  unique := h.unique
  parent := h.parent
  bound  := hb

theorem binds_mono (h : σ.Binds (fun _ => True) (·.StandsIn S)) (hS : S ⊆ S') :
    σ.Binds (fun _ => True) (·.StandsIn S') :=
  fun id name v hv => ⟨trivial, (h id name v hv).right.mono fun _ hp => hp.mono hS⟩

-- A new frame is that of a new scope, which lies in one of those that are there, or in none.
theorem add (h : σ.Forest S) (hs : s.frame = σ.frames.size)
    (hp : ∀ p, s.parent? = some p → p ∈ S) (outer : Scope) {bindings : NameMap Value}
    (hb : ∀ name v, bindings.find? name = some v → v.IsResult (·.StandsIn (insert s S))) :
    (σ.child outer bindings).2.Forest (insert s S) where
  made   := fun id => by
    rw [size_child, Nat.lt_succ_iff_lt_or_eq, h.made, ← hs]
    simp [or_comm, eq_comm]
  unique := by
    have hn {t : Scope} (ht : t ∈ S) : t.frame ≠ s.frame := hs ▸ Nat.ne_of_lt (h.lt ht)
    rintro t (rfl | ht) u (rfl | hu) he
    case inl.inl => rfl
    case inl.inr => exact absurd he.symm (hn hu)
    case inr.inl => exact absurd he (hn ht)
    case inr.inr => exact h.unique t ht u hu he
  parent := by
    rintro t (rfl | ht) p htp
    case inl => exact ⟨.inr (hp p htp), hs ▸ h.lt (hp p htp)⟩
    case inr => exact ⟨.inr (h.parent t ht p htp).left, (h.parent t ht p htp).right⟩
  bound  := (binds_mono h.bound (Set.subset_insert s S)).child outer fun name v hv =>
    ⟨trivial, hb name v hv⟩

theorem root (h : σ.Forest S) : σ.root.2.Forest (insert σ.root.1 S) :=
  h.add rfl (by simp [Store.root, Scope.parent?]) σ.root.1 nofun

theorem child (h : σ.Forest S) {outer : Scope} (ho : outer ∈ S) {bindings : NameMap Value}
    (hb : ∀ name v, bindings.find? name = some v → v.IsResult (·.StandsIn S)) :
    (σ.child outer bindings).2.Forest (insert (outer.child σ.frames.size) S) := by
  refine h.add rfl (fun p hp => ?_) outer fun name v hv => ?_
  case refine_1 =>
    rw [Scope.parent?_child] at hp
    exact Option.some.inj hp ▸ ho
  case refine_2 => exact (hb name v hv).mono fun _ hp => hp.mono (Set.subset_insert ..)

theorem define (h : σ.Forest S) {name : String} {v : Value} (hv : v.IsResult (·.StandsIn S))
    (hd : σ.define s name v = .ok σ') : σ'.Forest S :=
  h.of_size (size_define hd) (h.bound.define trivial hv hd)

theorem freeze (h : σ.Forest S) (s : Scope) : (σ.freeze s).Forest S :=
  h.of_size (size_modify ..) (h.bound.freeze s)

theorem clear (h : σ.Forest S) (s : Scope) : (σ.clear s).Forest S :=
  h.of_size (size_modify ..) (h.bound.modify nofun)

theorem release (h : σ.Forest S) (r : Retention) (s : Scope) (outcome : Except Stop Value) :
    (σ.release r s outcome).Forest S :=
  h.of_size (size_release ..) (h.bound.release r s outcome)

theorem filter_self (h : σ.Forest S) : {s ∈ S | s.frame < σ.frames.size} = S :=
  Set.ext fun _ => ⟨And.left, fun hs => ⟨hs, h.lt hs⟩⟩

-- The scopes that have been made so far, among those that will have been made.
theorem filter_eq (h : σ.Forest S) (hT : ∀ t ∈ T, σ.frames.size ≤ t.frame) :
    {s ∈ S ∪ T | s.frame < σ.frames.size} = S := by
  ext s
  constructor
  case mp =>
    rintro ⟨hs | ht, hlt⟩
    case inl => exact hs
    case inr => exact absurd (hT s ht) (Nat.not_le_of_lt hlt)
  case mpr => exact fun hs => ⟨.inl hs, h.lt hs⟩

-- The way out leads to scopes that are there, and each of them has been made before the last one.
theorem exists_of_mem_chain (h : σ.Forest S) (hs : s ∈ S) {id : FrameId} (hid : id ∈ s.chain) :
    ∃ t ∈ S, t.frame = id ∧ s.liesIn t ∧ id ≤ s.frame := by
  obtain ⟨frame, around⟩ := s
  induction around generalizing frame
  case nil =>
    obtain rfl := List.mem_singleton.mp hid
    exact ⟨_, hs, rfl, Scope.liesIn_refl _, Nat.le_refl _⟩
  case cons outer around hi =>
    rcases List.mem_cons.mp hid with rfl | hid
    case inl => exact ⟨_, hs, rfl, Scope.liesIn_refl _, Nat.le_refl _⟩
    case inr =>
      have ⟨hp, hlt⟩ := h.parent _ hs ⟨outer, around⟩ rfl
      obtain ⟨t, ht, hf, hl, hle⟩ := hi outer hp hid
      have ho : Scope.liesIn ⟨frame, outer :: around⟩ ⟨outer, around⟩ :=
        Scope.liesIn_child ⟨outer, around⟩ frame
      exact ⟨t, ht, hf, Scope.liesIn_trans ho hl, Nat.le_trans hle (Nat.le_of_lt hlt)⟩

theorem descends (h : σ.Forest S) (hs : s ∈ S) : s.chain.Pairwise (· > ·) := by
  obtain ⟨frame, around⟩ := s
  induction around generalizing frame
  case nil => exact List.pairwise_singleton ..
  case cons outer around hi =>
    have ⟨hp, hlt⟩ := h.parent _ hs ⟨outer, around⟩ rfl
    refine List.pairwise_cons.mpr ⟨fun id hid => ?_, hi outer hp⟩
    obtain ⟨_, _, _, _, hle⟩ := h.exists_of_mem_chain hp hid
    exact Nat.lt_of_le_of_lt hle hlt

-- A scope lies in another one if the way out comes across its frame.
theorem liesIn_iff_mem (h : σ.Forest S) (hs : s ∈ S) {t : Scope} (ht : t ∈ S) :
    s.liesIn t ↔ t.frame ∈ s.chain := by
  constructor
  case mp  => exact fun hl => (Scope.liesIn_iff.mp hl).subset (by simp [Scope.chain])
  case mpr =>
    intro hm
    obtain ⟨t', ht', hf, hl, _⟩ := h.exists_of_mem_chain hs hm
    exact h.unique t' ht' t ht hf ▸ hl

theorem not_liesIn_of_lt (h : σ.Forest S) (hs : s ∈ S) {t : Scope} (ht : t ∈ S)
    (hlt : t.frame < s.frame) : ¬t.liesIn s := by
  intro hl
  obtain ⟨_, _, _, _, hle⟩ := h.exists_of_mem_chain ht ((h.liesIn_iff_mem ht hs).mp hl)
  exact Nat.not_lt_of_le hle hlt

end Store.Forest

-- An evaluation that starts with so many frames has made scopes, and all is well at its moments
-- and after it.
structure Grows (S : Set Scope) (size : Nat) (r : Except Stop Value × Machine) (h : History) :
    Prop where
  store   : r.2.store.Forest (S ∪ h.opened)
  result  : ∀ v, r.1 = .ok v → v.IsResult (·.StandsIn (S ∪ h.opened))
  moments : ∀ x ∈ h, x.store.Forest {s ∈ S ∪ h.opened | s.frame < x.store.frames.size}
  ascends : h.Ascends size r.2.store.frames.size
  fresh   : ∀ s ∈ h.opened, size ≤ s.frame

namespace History

variable {h k : History} {x : Moment} {a b c : Nat}

theorem opened_nil : opened [] = ∅ := by
  simp [opened]

theorem opened_append (h k : History) : opened (h ++ k) = h.opened ∪ k.opened := by
  ext s
  simp [opened, or_and_right, exists_or]

theorem opened_cons (hx : x.event.finishes = false) : opened (x :: h) = h.opened := by
  have hn : ∀ s outcome, x.event ≠ .finish s outcome := by
    intro s outcome he
    rw [he] at hx
    cases hx
  ext s
  simp [opened, hn]

theorem opened_finish (s : Scope) (outcome : Except Stop Value) (σ : Store) :
    opened [⟨.finish s outcome, σ⟩] = {s} := by
  ext t
  simp [opened, eq_comm]

theorem ascends_nil (h : a ≤ b) : Ascends [] a b := by
  simp [Ascends, h]

theorem ascends_singleton (hx : x.store.frames.size = a) : Ascends [x] a a := by
  simp [Ascends, hx]

theorem Ascends.le (hh : h.Ascends a b) : a ≤ b :=
  (List.pairwise_cons.mp hh).left b (by simp)

theorem Ascends.le_of_mem (hh : h.Ascends a b) (hx : x ∈ h) :
    a ≤ x.store.frames.size ∧ x.store.frames.size ≤ b := by
  have hs := List.mem_map_of_mem (f := fun x : Moment => x.store.frames.size) hx
  have ⟨hfirst, _, hlast⟩ := List.pairwise_append.mp hh
  exact ⟨(List.pairwise_cons.mp hfirst).left _ hs, hlast _ (List.mem_cons_of_mem _ hs) b (by simp)⟩

theorem Ascends.of_le (hle : a ≤ b) (hh : h.Ascends b c) : h.Ascends a c := by
  have ⟨hb, hp⟩ := List.pairwise_cons.mp hh
  exact List.pairwise_cons.mpr ⟨fun n hn => Nat.le_trans hle (hb n hn), hp⟩

theorem Ascends.append (hh : h.Ascends a b) (hk : k.Ascends b c) : (h ++ k).Ascends a c := by
  have ⟨hfirst, _, hlast⟩ := List.pairwise_append.mp hh
  have ⟨hb, hsecond⟩ := List.pairwise_cons.mp hk
  rw [Ascends, List.map_append, ← List.cons_append, List.append_assoc]
  refine List.pairwise_append.mpr ⟨hfirst, hsecond, fun n hn n' hn' => ?_⟩
  exact Nat.le_trans (hlast n hn b (by simp)) (hb n' hn')

end History

namespace Grows

variable {m : Machine} {r r' : Except Stop Value × Machine} {h k : History} {size : Nat}

theorem of_forest (hm : m.store.Forest S) {outcome : Except Stop Value}
    (ho : ∀ v, outcome = .ok v → v.IsResult (·.StandsIn S)) :
    Grows S m.store.frames.size (outcome, m) [] where
  store   := by simpa [History.opened_nil] using hm
  result  := by simpa [History.opened_nil] using ho
  moments := nofun
  ascends := History.ascends_nil (Nat.le_refl _)
  fresh   := by simp [History.opened_nil]

theorem of_error (hm : m.store.Forest S) (stop : Stop) :
    Grows S m.store.frames.size (.error stop, m) [] :=
  of_forest hm nofun

-- One after the other. Scopes that are made later make no difference to earlier moments.
theorem after (hh : Grows S size r h)
    (hk : Grows (S ∪ h.opened) r.2.store.frames.size r' k) : Grows S size r' (h ++ k) where
  store   := by simpa [History.opened_append, Set.union_assoc] using hk.store
  result  := by simpa [History.opened_append, Set.union_assoc] using hk.result
  moments := by
    rw [History.opened_append, ← Set.union_assoc]
    refine List.forall_mem_append.mpr ⟨fun x hx => ?_, hk.moments⟩
    have he : {s ∈ S ∪ h.opened ∪ k.opened | s.frame < x.store.frames.size} =
        {s ∈ S ∪ h.opened | s.frame < x.store.frames.size} := by
      ext s
      refine ⟨?_, fun ⟨hs, hlt⟩ => ⟨.inl hs, hlt⟩⟩
      rintro ⟨hs | hs, hlt⟩
      case inl => exact ⟨hs, hlt⟩
      case inr =>
        have hle := Nat.le_trans (hh.ascends.le_of_mem hx).right (hk.fresh s hs)
        exact absurd hlt (Nat.not_lt_of_le hle)
    exact he ▸ hh.moments x hx
  ascends := hh.ascends.append hk.ascends
  fresh   := by
    rw [History.opened_append]
    rintro s (hs | hs)
    case inl => exact hh.fresh s hs
    case inr => exact Nat.le_trans hh.ascends.le (hk.fresh s hs)

-- A moment at which no scope ends makes no difference.
theorem cons {event : Event} {σ : Store} (hm : σ.Forest S)
    (hx : event.finishes = false) (hk : Grows S σ.frames.size r k) :
    Grows S σ.frames.size r (⟨event, σ⟩ :: k) := by
  have he : History.opened (⟨event, σ⟩ :: k) = k.opened := History.opened_cons hx
  exact {
    store   := he ▸ hk.store
    result  := he ▸ hk.result
    moments := by
      rw [he]
      refine List.forall_mem_cons.mpr ⟨?_, hk.moments⟩
      rw [hm.filter_eq hk.fresh]
      exact hm
    ascends := (History.ascends_singleton rfl).append hk.ascends
    fresh   := he ▸ hk.fresh
  }

-- The scope in which something happens is recorded when it ends.
theorem finished {s : Scope} {first : Nat} (hh : Grows (insert s S) size r h) (hf : first ≤ size)
    (hs : first ≤ s.frame) (retention : Retention) :
    Grows S first (r.1, { r.2 with store := r.2.store.release retention s r.1 })
      (h ++ [⟨.finish s r.1, r.2.store⟩]) := by
  have ho : History.opened (h ++ [⟨.finish s r.1, r.2.store⟩]) = h.opened ∪ {s} := by
    rw [History.opened_append, History.opened_finish]
  have he : S ∪ History.opened (h ++ [⟨.finish s r.1, r.2.store⟩]) = insert s S ∪ h.opened := by
    rw [ho, Set.union_singleton, Set.union_insert, Set.insert_union]
  exact {
    store   := he ▸ hh.store.release retention s r.1
    result  := he ▸ hh.result
    moments := by
      rw [he]
      refine List.forall_mem_append.mpr ⟨hh.moments, List.forall_mem_singleton.mpr ?_⟩
      rw [hh.store.filter_self]
      exact hh.store
    ascends := by
      rw [size_release]
      exact (hh.ascends.of_le hf).append (History.ascends_singleton rfl)
    fresh   := by
      rw [ho]
      rintro t (ht | rfl)
      case inl => exact Nat.le_trans hf (hh.fresh t ht)
      case inr => exact hs
  }

end Grows

-- Evaluation, with such moments, only ever makes scopes in this way.
def Context.Grows (c : Context) (moments : Scope → Form → Machine → History) : Prop :=
  ∀ S s form m, s ∈ S → form.StandsIn S → m.store.Forest S →
    ScopedLisp.Grows S m.store.frames.size ((c.evaluate s form).run m) (moments s form m)

theorem Scope.grows_enclosed {c : Context} {outer : Scope} {bindings : NameMap Value}
    {x : Scope → Evaluation Value} {moments : Scope → Machine → History} {m : Machine}
    (hm : m.store.Forest S) (ho : outer ∈ S)
    (hb : ∀ name v, bindings.find? name = some v → v.IsResult (·.StandsIn S))
    (hx : ∀ S' inner m, S ⊆ S' → inner ∈ S' → m.store.Forest S' →
      Grows S' m.store.frames.size ((x inner).run m) (moments inner m)) :
    Grows S m.store.frames.size ((c.enclosed outer bindings x).run m)
      (outer.enclosedMoments bindings x moments m) := by
  let inner := outer.child m.store.frames.size
  let opened : Machine := { m with store := (m.store.child outer bindings).2 }
  have hS := Set.subset_insert inner S
  have h := hx _ inner opened hS (Set.mem_insert ..) (hm.child ho hb)
  have hsize : m.store.frames.size ≤ opened.store.frames.size := by simp [opened, size_child]
  exact h.finished hsize (Nat.le_refl _) c.retention

-- Steps that are confined to the scopes that are there.
theorem Steps.grows_run {c : Context} {moments : Scope → Form → Machine → History}
    {F : Form → Prop} {reserved : String → Bool} (hc : c.Grows moments) (steps : Steps)
    {s : Scope} {m : Machine} (hs : s ∈ S) (hF : ∀ form, F form → form.StandsIn S)
    (hm : m.store.Forest S) (hk : steps.Confined F reserved (·.StandsIn S)) :
    Grows S m.store.frames.size ((steps.run c s).run m) (steps.moments c moments s m) := by
  -- The kind of procedures grows with the scopes that are made on the way.
  induction steps generalizing S s m
  case done v => exact .of_forest hm fun w hw => Except.ok.inj hw ▸ hk
  case failed => exact .of_error hm _
  case look name next hi =>
    have hv : ∀ v ∈ m.store.find? s name, v.IsResult (·.StandsIn S) :=
      fun v hv => (hm.bound.find? hv).right
    exact .cons hm rfl <| hi _ hs hF hm (hk _ (fun _ => id) _ hv)
  case evaluate form next hi =>
    have h := hc S s form m hs (hF form hk.left) hm
    rw [run_evaluate, Steps.moments]
    generalize (c.evaluate s form).run m = after at *
    generalize moments s form m = history at *
    rcases after with ⟨_ | v, m'⟩
    case error => exact h.after (.of_error h.store _)
    case ok =>
      have hS : S ⊆ S ∪ history.opened := Set.subset_union_left
      refine h.after <| hi v (hS hs) (fun form hf => (hF form hf).mono hS) h.store ?_
      exact hk.right _ (fun _ hp => hp.mono hS) v (h.result v rfl)
  case define name v next hi =>
    obtain ⟨_, hv, hnext⟩ := hk
    rw [run_define, Steps.moments]
    cases hd : m.store.define s name v
    case error => exact .cons hm rfl (.of_error hm _)
    case ok σ =>
      have h := hi (m := { m with store := σ }) hs hF (hm.define hv hd) (hnext _ fun _ => id)
      exact .cons hm rfl (size_define hd ▸ h)
  case procedure parameters body =>
    have hp : (m.store.procedure parameters body s).2.Forest S := hm.of_size rfl hm.bound
    refine .of_forest (m := { m with store := _ }) hp fun w hw => ?_
    obtain rfl := Except.ok.inj hw
    exact .procedure hs (hF body hk.right)
  case apply p values =>
    obtain ⟨hp, hvalues⟩ := hk
    refine .cons hm rfl <| Scope.grows_enclosed hm hp.home (fun name v hv => ?_)
      fun S' inner m hS hi hm => hc S' inner p.body m hi (hp.body.mono hS) hm
    exact hvalues v (NameMap.mem_of_find?_zip hv).right
  case nest body hi =>
    refine Scope.grows_enclosed hm hs (by simp) fun S' inner m hS hi' hm => ?_
    exact hi hi' (fun form hf => (hF form hf).mono hS) hm (hk _ fun _ hp => hp.mono hS)
  case write text =>
    have hw : ((c.sink.write text).run m).2.store.Forest S := by rwa [Sink.store_write]
    rw [run_write, ← Sink.store_write c.sink text m]
    refine .of_forest hw fun w hw => ?_
    obtain ⟨_, _, rfl⟩ := map_eq_ok_iff.mp hw
    trivial

theorem Evaluator.grows_evaluate (grouping : String) (entries : List (String × Builtin))
    (sink : Sink) (retention : Retention) (depth : Nat) :
    let e := ofBuiltins grouping entries sink retention
    (e.context depth).Grows (e.moments entries depth) := by
  intro e
  induction depth
  case zero => exact fun _ _ _ _ _ _ hm => .of_error hm _
  case succ depth hi =>
    intro S s form m hs hform hm
    have hconf : Confines (·.StandsIn S) (·.StandsIn S) :=
      ⟨fun _ => Value.StandsIn.items, fun _ => id⟩
    have hk := Steps.confined_ofForm (Builtin.find? entries) hconf hform
    have h := Steps.grows_run hi _ hs (fun _ => id) hm hk
    rwa [← evaluate_succ_eq_run] at h

end ScopedLisp
