import Mathlib.Logic.ExistsUnique
import Mathlib.Logic.Relation
import ScopedLisp.Proofs.Evaluation.Forest
import ScopedLisp.Proofs.Interpreter.FirstOrder

-- The links from frames to the frames around them, in all heaps that use leads to. Each link leads
-- to an older frame and stays as it is, so that the way out of a frame comes to its end. This is so
-- although procedures that are bound in the frame of their home lead back to it.
-- Main statement: `Site.acyclic_of_run`.

namespace ScopedLisp

open Evaluation Store

-- A machine, and the scopes that have been made on it. The machine itself keeps no list of them.
structure Site where
  machine : Machine := {}
  scopes  : Set Scope := ∅

namespace Site

def size (v : Site) : Nat :=
  v.machine.store.frames.size

-- What has been there at a moment on the way to the site.
def during (v : Site) (x : Moment) : Site where
  machine := { v.machine with store := x.store }
  scopes  := {s ∈ v.scopes | s.frame < x.store.frames.size}

-- What can be done, and what it leads to, with the moments on the way. Any forms may be evaluated
-- in any scopes that are there, as long as the procedures in the forms are from there, too.
inductive Does : Site → History → Site → Prop
  | build {v : Site} (grouping : String) (entries : List (String × Builtin)) (sink : Sink)
    (retention : Retention) (depth : Nat) (library : String) {e : Evaluator} {h : History}
    (he : e = .ofBuiltins grouping entries sink retention)
    (hh : h = e.programMoments entries depth library v.machine.store.root.1
      { v.machine with store := v.machine.store.root.2 }) :
    Does v h ⟨((Interpreter.build e depth library).run v.machine).2,
      insert v.machine.store.root.1 v.scopes ∪ h.opened⟩
  | session {v : Site} (i : Interpreter) (hi : i.root ∈ v.scopes) :
    Does v [] ⟨(i.session.run v.machine).2, insert (i.root.child v.size) v.scopes⟩
  | evaluate {v : Site} (grouping : String) (entries : List (String × Builtin)) (sink : Sink)
    (retention : Retention) (depth : Nat) {s : Scope} {form : Form} {e : Evaluator} {h : History}
    (he : e = .ofBuiltins grouping entries sink retention) (hs : s ∈ v.scopes)
    (hf : form.StandsIn v.scopes) (hh : h = e.moments entries depth s form v.machine) :
    Does v h ⟨((e.evaluate depth s form).run v.machine).2, v.scopes ∪ h.opened⟩
  | close {v : Site} {s : Scope} (hs : s ∈ v.scopes) :
    Does v [] ⟨{ v.machine with store := v.machine.store.clear s }, v.scopes⟩

-- One thing after the other, from the beginning on, with all sites up to the last one.
inductive Run : List Site → Site → Prop
  | start : Run [{}] {}
  | next {past : List Site} {v w : Site} {h : History} :
    Run past v → Does v h w → Run (past ++ (h.map w.during ++ [w])) w

-- The link of a frame to the one around it, if there is one.
def Parent (v : Site) (id : FrameId) (outer? : Option FrameId) : Prop :=
  ∃ s ∈ v.scopes, s.frame = id ∧ s.around.head? = outer?

-- The way from a frame along the links, up to a frame without one.
inductive Way (v : Site) : FrameId → List FrameId → Prop
  | last {id : FrameId} (h : v.Parent id none) : Way v id [id]
  | next {id outer : FrameId} {ids : List FrameId} (h : v.Parent id (some outer)) :
    Way v outer ids → Way v id (id :: ids)

end Site

-- The value is the procedure, or a list that holds it at any depth.
inductive Value.Holds (p : Procedure) : Value → Prop
  | procedure : Holds p (procedure p)
  | list {items : List Value} {item : Value} (h : item ∈ items) : Holds p item →
    Holds p (list items)

namespace Value

mutual

theorem captures_iff {v : Value} {s : Scope} :
    v.captures s ↔ ∃ p, v.Holds p ∧ p.home.liesIn s := by
  cases v
  case procedure p =>
    refine ⟨fun h => ⟨p, .procedure, h⟩, ?_⟩
    rintro ⟨_, ⟨⟩, hl⟩
    exact hl
  case list items =>
    rw [captures, anyCaptures_iff_holds]
    constructor
    case mp =>
      rintro ⟨item, hi, p, hp, hl⟩
      exact ⟨p, .list hi hp, hl⟩
    case mpr =>
      rintro ⟨p, ⟨⟩ | ⟨hi, hp⟩, hl⟩
      exact ⟨_, hi, p, hp, hl⟩
  all_goals
    refine ⟨nofun, ?_⟩
    rintro ⟨_, ⟨⟩, _⟩

theorem anyCaptures_iff_holds {items : List Value} {s : Scope} :
    anyCaptures s items ↔ ∃ item ∈ items, ∃ p, item.Holds p ∧ p.home.liesIn s := by
  cases items
  case nil => simp [anyCaptures]
  case cons item items =>
    rw [anyCaptures, Bool.or_eq_true, captures_iff, anyCaptures_iff_holds]
    simp

end

theorem StandsIn.of_holds {S : Set Scope} {v : Value} {p : Procedure} (hv : v.StandsIn S)
    (hp : v.Holds p) : p.StandsIn S := by
  induction hp
  case procedure => exact hv
  case list hm _ hi => exact hi (hv.items _ hm)

end Value

theorem Scope.liesIn_antisymm {s t : Scope} (hst : s.liesIn t) (hts : t.liesIn s) : s = t :=
  have hst := liesIn_iff.mp hst
  have hts := liesIn_iff.mp hts
  chain_injective (hts.eq_of_length_le hst.length_le)

namespace Site

-- What all links come to.
structure Acyclic (v : Site) : Prop where
  -- The links are those of all frames, and what the frames bind leads back to no other ones.
  frames   : ∀ id, id < v.size ↔ ∃ s ∈ v.scopes, s.frame = id
  bound    : ∀ id name value,
    (v.machine.store.frame id).bindings.find? name = some value → value.StandsIn v.scopes
  linked   : ∀ id < v.size, ∃! outer?, v.Parent id outer?
  older    : ∀ id outer, v.Parent id (some outer) → outer < id
  acyclic  : ∀ id, ¬Relation.TransGen (fun id outer => v.Parent id (some outer)) id id
  -- Along the links, each frame is visited once, in the order of the chain.
  ways     : ∀ s ∈ v.scopes, ∀ ids, v.Way s.frame ids ↔ ids = s.chain
  once     : ∀ id ids, v.Way id ids → ids.Nodup
  find?    : ∀ s ∈ v.scopes, ∀ ids, v.Way s.frame ids → ∀ name,
    v.machine.store.find? s name =
      ids.findSome? fun id => (v.machine.store.frame id).bindings.find? name
  liesIn   : ∀ s ∈ v.scopes, ∀ t ∈ v.scopes, ∀ ids, v.Way s.frame ids →
    (s.liesIn t ↔ t.frame ∈ ids)
  captures : ∀ s ∈ v.scopes, ∀ value : Value, value.StandsIn v.scopes →
    (value.captures s ↔
      ∃ (p : Procedure) (ids : List FrameId),
        value.Holds p ∧ v.Way p.home.frame ids ∧ s.frame ∈ ids)
  -- To lie in another scope is a partial order, in which no older scope is below a newer one.
  refl     : ∀ s ∈ v.scopes, s.liesIn s
  antisymm : ∀ s ∈ v.scopes, ∀ t ∈ v.scopes, s.liesIn t → t.liesIn s → s = t
  trans    : ∀ s ∈ v.scopes, ∀ t ∈ v.scopes, ∀ u ∈ v.scopes,
    s.liesIn t → t.liesIn u → s.liesIn u
  outside  : ∀ s ∈ v.scopes, ∀ t ∈ v.scopes, t.frame < s.frame → ¬t.liesIn s

-- What is there stays, with its links, and does not come to lie in what is made later.
structure Precedes (v w : Site) : Prop where
  size    : v.size ≤ w.size
  scopes  : v.scopes ⊆ w.scopes
  parents : ∀ id < v.size, ∀ outer?, w.Parent id outer? ↔ v.Parent id outer?
  outside : ∀ s ∈ w.scopes, s ∉ v.scopes → ∀ t ∈ v.scopes, ¬t.liesIn s

variable {v w u : Site} {s : Scope}

-- The scopes that are said to have been made are those of the store.
def Complete (v : Site) : Prop :=
  v.machine.store.Forest v.scopes

namespace Complete

variable (h : v.Complete)

include h

theorem parent_iff (hs : s ∈ v.scopes) {outer? : Option FrameId} :
    v.Parent s.frame outer? ↔ s.around.head? = outer? := by
  refine ⟨?_, fun ho => ⟨s, hs, rfl, ho⟩⟩
  rintro ⟨t, ht, hf, ho⟩
  exact h.unique t ht s hs hf ▸ ho

theorem lt_of_parent {id outer : FrameId} (hp : v.Parent id (some outer)) : outer < id := by
  obtain ⟨⟨_, around⟩, hs, rfl, ho⟩ := hp
  obtain ⟨around, rfl⟩ := List.head?_eq_some_iff.mp ho
  exact (h.parent _ hs ⟨outer, around⟩ rfl).right

theorem lt_of_transGen {id outer : FrameId}
    (hp : Relation.TransGen (fun id outer => v.Parent id (some outer)) id outer) : outer < id := by
  induction hp
  case single hp  => exact h.lt_of_parent hp
  case tail hp hi => exact Nat.lt_trans (h.lt_of_parent hp) hi

theorem way_chain (hs : s ∈ v.scopes) : v.Way s.frame s.chain := by
  obtain ⟨frame, around⟩ := s
  induction around generalizing frame
  case nil => exact .last ((h.parent_iff hs).mpr rfl)
  case cons outer around hi =>
    have ⟨hp, _⟩ := h.parent _ hs ⟨outer, around⟩ rfl
    exact .next ((h.parent_iff hs).mpr rfl) (hi outer hp)

theorem eq_chain_of_way {ids : List FrameId} (hw : v.Way s.frame ids) (hs : s ∈ v.scopes) :
    ids = s.chain := by
  generalize hid : s.frame = id at hw
  induction hw generalizing s
  case last hp =>
    have ha : s.around = [] := List.head?_eq_none_iff.mp <| (h.parent_iff hs).mp (hid ▸ hp)
    rw [Scope.chain, ha, hid]
  case next outer ids hp _ hi =>
    obtain ⟨frame, around⟩ := s
    obtain ⟨around, rfl⟩ := List.head?_eq_some_iff.mp <| (h.parent_iff hs).mp (hid ▸ hp)
    obtain ⟨ho, _⟩ := h.parent _ hs ⟨outer, around⟩ rfl
    rw [hi ho rfl, ← hid]
    rfl

theorem exists_of_way {id : FrameId} {ids : List FrameId} (hw : v.Way id ids) :
    ∃ s ∈ v.scopes, s.frame = id ∧ ids = s.chain := by
  have ⟨s, hs, hf⟩ : ∃ s ∈ v.scopes, s.frame = id := by
    cases hw
    case last hp => exact hp.imp fun _ hs => ⟨hs.left, hs.right.left⟩
    case next hp => exact hp.imp fun _ hs => ⟨hs.left, hs.right.left⟩
  exact ⟨s, hs, hf, h.eq_chain_of_way (hf ▸ hw) hs⟩

theorem acyclic : v.Acyclic where
  frames   := h.made
  bound    := fun id name value hv => (h.bound id name value hv).right.standsIn
  linked   := fun id hid => by
    obtain ⟨s, hs, rfl⟩ := (h.made id).mp hid
    exact ⟨_, (h.parent_iff hs).mpr rfl, fun _ ho => ((h.parent_iff hs).mp ho).symm⟩
  older    := fun _ _ => h.lt_of_parent
  acyclic  := fun id hc => Nat.lt_irrefl id (h.lt_of_transGen hc)
  ways     := fun s hs ids => by
    refine ⟨fun hw => h.eq_chain_of_way hw hs, ?_⟩
    rintro rfl
    exact h.way_chain hs
  once     := fun id ids hw => by
    obtain ⟨s, hs, _, rfl⟩ := h.exists_of_way hw
    exact (h.descends hs).imp fun hab => Nat.ne_of_gt hab
  find?    := fun s hs ids hw name => by
    rw [h.eq_chain_of_way hw hs]
    rfl
  liesIn   := fun s hs t ht ids hw => by
    rw [h.eq_chain_of_way hw hs]
    exact h.liesIn_iff_mem hs ht
  captures := fun s hs value hv => by
    have hhome {p : Procedure} (hp : value.Holds p) : p.home ∈ v.scopes := (hv.of_holds hp).home
    rw [Value.captures_iff]
    constructor
    case mp =>
      rintro ⟨p, hp, hl⟩
      have hm := (h.liesIn_iff_mem (hhome hp) hs).mp hl
      exact ⟨p, p.home.chain, hp, h.way_chain (hhome hp), hm⟩
    case mpr =>
      rintro ⟨p, ids, hp, hw, hm⟩
      rw [h.eq_chain_of_way hw (hhome hp)] at hm
      exact ⟨p, hp, (h.liesIn_iff_mem (hhome hp) hs).mpr hm⟩
  refl     := fun s _ => Scope.liesIn_refl s
  antisymm := fun _ _ _ _ => Scope.liesIn_antisymm
  trans    := fun _ _ _ _ _ _ => Scope.liesIn_trans
  outside  := fun s hs t ht => h.not_liesIn_of_lt hs ht

theorem mem_of_lt (hw : w.Complete) (hvw : v.scopes ⊆ w.scopes) (hs : s ∈ w.scopes)
    (hlt : s.frame < v.size) : s ∈ v.scopes := by
  obtain ⟨t, ht, hf⟩ := (h.made s.frame).mp hlt
  exact hw.unique t (hvw ht) s hs hf ▸ ht

theorem precedes (hw : w.Complete) (hsize : v.size ≤ w.size) (hvw : v.scopes ⊆ w.scopes) :
    v.Precedes w where
  size    := hsize
  scopes  := hvw
  parents := fun id hid outer? => by
    obtain ⟨s, hs, rfl⟩ := (h.made id).mp hid
    rw [h.parent_iff hs, hw.parent_iff (hvw hs)]
  outside := fun s hs hn t ht => by
    have hle := Nat.le_of_not_lt fun hlt => hn (h.mem_of_lt hw hvw hs hlt)
    exact hw.not_liesIn_of_lt hs (hvw ht) (Nat.lt_of_lt_of_le (h.lt ht) hle)

end Complete

namespace Precedes

theorem refl (v : Site) : v.Precedes v where
  size    := Nat.le_refl _
  scopes  := Set.Subset.refl _
  parents := fun _ _ _ => Iff.rfl
  outside := fun _ hs hn => absurd hs hn

theorem trans (hvw : v.Precedes w) (hwu : w.Precedes u) : v.Precedes u where
  size    := Nat.le_trans hvw.size hwu.size
  scopes  := hvw.scopes.trans hwu.scopes
  parents := fun id hid outer? =>
    (hwu.parents id (Nat.lt_of_lt_of_le hid hvw.size) outer?).trans (hvw.parents id hid outer?)
  outside := fun s hs hn t ht => by
    by_cases hw : s ∈ w.scopes
    case pos => exact hvw.outside s hw hn t ht
    case neg => exact hwu.outside s hs hw t (hvw.scopes ht)

end Precedes

end Site

theorem Evaluator.grows_run (grouping : String) (entries : List (String × Builtin)) (sink : Sink)
    (retention : Retention) (depth : Nat) (source : String) {S : Set Scope} {s : Scope}
    {m : Machine} (hs : s ∈ S) (hm : m.store.Forest S) :
    let e := ofBuiltins grouping entries sink retention
    Grows S m.store.frames.size ((e.run depth source s).run m)
      (e.programMoments entries depth source s m) := by
  intro e
  unfold programMoments
  rw [run_run]
  cases hr : e.read source
  case error => exact .of_error hm _
  case ok form =>
    have hform := (Value.isCode_of_read hr).standsIn S
    exact grows_evaluate grouping entries sink retention depth S s form m hs hform hm

-- A new interpreter leaves what its library has left, but for the root, which may be frozen.
theorem Interpreter.forest_build {e : Evaluator} {depth : Nat} {library : String} {S : Set Scope}
    {m : Machine}
    (h : ((e.run depth library m.store.root.1).run
      { m with store := m.store.root.2 }).2.store.Forest S) :
    let built := ((build e depth library).run m).2
    built.store.Forest S ∧ built.store.frames.size =
      ((e.run depth library m.store.root.1).run
        { m with store := m.store.root.2 }).2.store.frames.size := by
  rw [run_build]
  rcases hr : (e.run depth library m.store.root.1).run { m with store := m.store.root.2 } with
    ⟨(_ | _) | _, after⟩
  all_goals rw [hr] at h
  case error.failed | error.tooDeep => exact ⟨h, rfl⟩
  case ok                           => exact ⟨h.freeze _, size_modify ..⟩

namespace Site

variable {v w : Site}

-- One site leads to another one, with all scopes made on the way recorded.
structure Leads (v : Site) (h : History) (w : Site) : Prop where
  complete : w.Complete
  during   : ∀ x ∈ h, (w.during x).Complete
  ascends  : h.Ascends v.size w.size
  scopes   : v.scopes ⊆ w.scopes

namespace Leads

variable {h : History} (hl : v.Leads h w) (hv : v.Complete)

include hl hv

theorem complete_of_mem :
    ∀ x ∈ v :: (h.map w.during ++ [w]), x.Complete ∧ x.scopes ⊆ w.scopes := by
  refine List.forall_mem_cons.mpr ⟨⟨hv, hl.scopes⟩, List.forall_mem_append.mpr ⟨?way, ?last⟩⟩
  case way  => exact List.forall_mem_map.mpr fun x hx => ⟨hl.during x hx, Set.sep_subset ..⟩
  case last => exact List.forall_mem_singleton.mpr ⟨hl.complete, Set.Subset.refl _⟩

theorem pairwise : (v :: (h.map w.during ++ [w])).Pairwise Precedes := by
  have hsizes : (v :: (h.map w.during ++ [w])).Pairwise (·.size ≤ ·.size) := by
    rw [← List.pairwise_map, List.map_cons, List.map_append, List.map_map]
    exact hl.ascends
  refine hsizes.imp_of_mem fun {x y} hx hy hle => ?_
  have ⟨hxc, hxw⟩ := hl.complete_of_mem hv x hx
  have ⟨hyc, hyw⟩ := hl.complete_of_mem hv y hy
  refine hxc.precedes hyc hle fun s hs => ?_
  exact hyc.mem_of_lt hl.complete hyw (hxw hs) (Nat.lt_of_lt_of_le (hxc.lt hs) hle)

theorem precedes_of_mem : ∀ x ∈ v :: (h.map w.during ++ [w]), x.Precedes w := by
  have hp := hl.pairwise hv
  rw [← List.cons_append] at hp ⊢
  have ⟨_, _, hlast⟩ := List.pairwise_append.mp hp
  refine List.forall_mem_append.mpr ⟨fun x hx => hlast x hx w (by simp), ?_⟩
  exact List.forall_mem_singleton.mpr (.refl w)

end Leads

theorem Leads.of_grows {S : Set Scope} {n : Nat} {r : Except Stop Value × Machine} {h : History}
    {m : Machine} (hg : Grows S n r h) (hn : v.size ≤ n) (hS : v.scopes ⊆ S)
    (hm : m.store.Forest (S ∪ h.opened)) (hsize : m.store.frames.size = r.2.store.frames.size) :
    v.Leads h ⟨m, S ∪ h.opened⟩ where
  complete := hm
  during   := hg.moments
  ascends  := by
    have ha := hg.ascends.of_le hn
    rwa [← hsize] at ha
  scopes   := hS.trans Set.subset_union_left

theorem Leads.of_complete (hw : w.Complete) (hsize : v.size ≤ w.size) (hvw : v.scopes ⊆ w.scopes) :
    v.Leads [] w where
  complete := hw
  during   := nofun
  ascends  := History.ascends_nil hsize
  scopes   := hvw

theorem Does.leads {h : History} (hd : v.Does h w) (hv : v.Complete) : v.Leads h w := by
  cases hd
  case build grouping entries sink retention depth library e he hh =>
    subst he hh
    have hg := Evaluator.grows_run grouping entries sink retention depth library
      (m := { v.machine with store := v.machine.store.root.2 }) (Set.mem_insert ..) hv.root
    have hsize : v.size ≤ v.machine.store.root.2.frames.size :=
      Nat.le.intro (size_child v.machine.store v.machine.store.root.1 {}).symm
    have ⟨hb, hbsize⟩ := Interpreter.forest_build hg.store
    exact .of_grows hg hsize (Set.subset_insert ..) hb hbsize
  case session i hi =>
    have hsize := Nat.le.intro (size_child v.machine.store i.root {}).symm
    exact .of_complete (hv.child hi nofun) hsize (Set.subset_insert ..)
  case evaluate grouping entries sink retention depth s form e he hs hf hh =>
    subst he hh
    have hg := Evaluator.grows_evaluate grouping entries sink retention depth v.scopes s form
      v.machine hs hf hv
    exact .of_grows hg (Nat.le_refl _) (Set.Subset.refl _) hg.store rfl
  case close s hs =>
    exact .of_complete (hv.clear s) (Nat.le_of_eq (size_modify ..).symm) (Set.Subset.refl _)

-- All sites on the way are acyclic, and each of them precedes all that come after it.
theorem Run.precedes {past : List Site} (hr : Run past v) :
    v.Complete ∧ (∀ x ∈ past, x.Acyclic ∧ x.Precedes v) ∧ past.Pairwise Precedes := by
  induction hr
  case start =>
    have he : Complete {} := Store.Forest.empty
    refine ⟨he, ?_, List.pairwise_singleton ..⟩
    exact List.forall_mem_singleton.mpr ⟨he.acyclic, .refl _⟩
  case next past v w h _ hd hi =>
    have ⟨hv, hpast, hp⟩ := hi
    have hl := hd.leads hv
    have ⟨hfirst, hnew⟩ := List.pairwise_cons.mp (hl.pairwise hv)
    have ⟨hvw, hbefore⟩ := List.forall_mem_cons.mp (hl.precedes_of_mem hv)
    have ⟨_, hcomplete⟩ := List.forall_mem_cons.mp (hl.complete_of_mem hv)
    refine ⟨hl.complete, List.forall_mem_append.mpr ⟨fun x hx => ?old, fun x hx => ?new⟩, ?all⟩
    case old => exact ⟨(hpast x hx).left, (hpast x hx).right.trans hvw⟩
    case new => exact ⟨(hcomplete x hx).left.acyclic, hbefore x hx⟩
    case all =>
      refine List.pairwise_append.mpr ⟨hp, hnew, fun x hx y hy => ?_⟩
      exact (hpast x hx).right.trans (hfirst y hy)

-- A library that binds a procedure in the root, which is also the home of the procedure.
theorem Run.exists_bound_captures :
    ∃ past v, Run past v ∧ ∃ s ∈ v.scopes, ∃ name value,
      (v.machine.store.locals s).find? name = some value ∧ value.captures s := by
  let entries := [("do", Builtin.group), ("def", .define), ("fn", .procedure)]
  let library := "(def f (fn (x) x))"
  let built := ((Interpreter.build (.ofBuiltins "do" entries) 4 library).run {}).2
  have hr := start.next <| .build "do" entries {} .whenCaptured 4 library rfl rfl
  have hf : ((built.store.locals ⟨0, []⟩).find? "f").any (·.captures ⟨0, []⟩) := by decide +kernel
  exact ⟨_, _, hr, ⟨0, []⟩, .inl (.inl rfl), "f", (Option.any_eq_true _ _).mp hf⟩

-- The links of all heaps that use leads to are acyclic and stay so, and new scopes are never
-- around older ones. Yet scopes bind values that capture them.
theorem acyclic_of_run :
    (∀ past v, Run past v → (∀ x ∈ past, x.Acyclic) ∧ past.Pairwise Precedes) ∧
    ∃ past v, Run past v ∧ ∃ s ∈ v.scopes, ∃ name value,
      (v.machine.store.locals s).find? name = some value ∧ value.captures s := by
  refine ⟨fun past v hr => ?_, Run.exists_bound_captures⟩
  have ⟨_, hpast, hp⟩ := hr.precedes
  exact ⟨fun x hx => (hpast x hx).left, hp⟩

-- A library that fails in a `let` inside of a call, which leaves frames for both of them.
theorem acyclic_of_run_failing :
    let library := "(def f (fn (x) (let ((y x)) (g y)))) (f 1)"
    let built := (Interpreter.build {} 9 library).run {}
    built.1.isOk = false ∧ ∃ past v, Run past v ∧ v.machine = built.2 ∧ v.size = 3 ∧
      (∀ x ∈ past, x.Acyclic) ∧ past.Pairwise Precedes := by
  intro library built
  have hr := Run.start.next <| .build "do" Builtin.entries {} .whenCaptured 9 library rfl rfl
  have hsize : built.2.store.frames.size = 3 := by decide +kernel
  have ⟨h, _⟩ := acyclic_of_run
  exact ⟨by decide +kernel, _, _, hr, rfl, hsize, h _ _ hr⟩

end Site
end ScopedLisp
