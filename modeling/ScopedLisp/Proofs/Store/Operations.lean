import Mathlib.Data.List.Induction
import ScopedLisp.Proofs.Store.Keeping

-- Environments and what was done to them. Names stand for what the history of operations says, with
-- no regard to frames: for what was bound last where the name was bound last, as seen from the
-- environment outwards.
-- Main statement: `Environments.obey_history`.

namespace ScopedLisp

-- What can be done to environments. They are known by their number, in the order in which they are
-- made.
inductive Operation
  | root
  | child (outer : Nat)
  | define (env : Nat) (name : String) (v : Value)
  | freeze (env : Nat)
  | clear (env : Nat)

-- A store, and the scopes of all environments that were made in it.
structure Environments where
  store  : Store := {}
  scopes : List Scope := []

namespace Environments

-- What becomes of the environments. Only those that have been made can be operated on.
def perform (E : Environments) : Operation → Option Environments
  | .root => some ⟨E.store.root.2, E.scopes ++ [E.store.root.1]⟩
  | .child outer => E.scopes[outer]?.map fun s =>
    ⟨(E.store.child s).2, E.scopes ++ [(E.store.child s).1]⟩
  | .define env name v => E.scopes[env]?.map fun s =>
    { E with store := ((Evaluation.define s name v).run { store := E.store }).2.store }
  | .freeze env => E.scopes[env]?.map fun s => { E with store := E.store.freeze s }
  | .clear env => E.scopes[env]?.map fun s => { E with store := E.store.clear s }

def performAll (ops : List Operation) : Option Environments :=
  ops.foldlM perform {}

end Environments

namespace Operation

-- An environment is made.
def makes : Operation → Bool
  | root | child _ => true
  | define .. | freeze _ | clear _ => false

-- The environment that is operated on, if there is one.
def subject? : Operation → Option Nat
  | root => none
  | child env | define env _ _ | freeze env | clear env => some env

-- The operation that has made an environment.
def maker? (ops : List Operation) (env : Nat) : Option Operation :=
  (ops.filter makes)[env]?

-- The environment, the one that it was made in, and so on, up to one that was made in no other.
inductive Ancestry (ops : List Operation) : Nat → List Nat → Prop
  | root {env : Nat} : maker? ops env = some root → Ancestry ops env [env]
  | child {env outer : Nat} {chain : List Nat} : maker? ops env = some (child outer) →
      Ancestry ops outer chain → Ancestry ops env (env :: chain)

-- The name was bound to the value while the environment was not frozen. Since then, the environment
-- was not cleared, and the name was not bound again before the environment was frozen.
def LastBound (ops : List Operation) (env : Nat) (name : String) (v : Value) : Prop :=
  ∃ before after, ops = before ++ define env name v :: after ∧ freeze env ∉ before ∧
    clear env ∉ after ∧
    ∀ between w rest, after = between ++ define env name w :: rest → freeze env ∈ between

-- No environment is operated on before it is made.
def Proper (ops : List Operation) : Prop :=
  ∀ i (h : i < ops.length), ∀ env ∈ ops[i].subject?, env < ((ops.take i).filter makes).length

instance (ops : List Operation) : Decidable (Proper ops) :=
  inferInstanceAs (Decidable (∀ i (h : i < ops.length), ∀ env ∈ ops[i].subject?, _ < _))

variable {ops : List Operation} {op : Operation} {env : Nat} {name : String} {v : Value}

theorem proper_append_singleton (h : Proper (ops ++ [op])) :
    Proper ops ∧ ∀ env ∈ op.subject?, env < (ops.filter makes).length := by
  constructor
  case left =>
    intro i hi
    have hp := h i (by simp; omega)
    rwa [List.getElem_append_left hi, List.take_append_of_le_length (Nat.le_of_lt hi)] at hp
  case right =>
    have hp := h ops.length (by simp)
    rwa [List.getElem_concat_length rfl, List.take_left] at hp

-- What one more operation does to what is bound.
theorem lastBound_append_singleton :
    LastBound (ops ++ [op]) env name v ↔
      (op = define env name v ∧ freeze env ∉ ops) ∨
      (LastBound ops env name v ∧ op ≠ clear env ∧
        ∀ w, op = define env name w → freeze env ∈ ops) := by
  constructor
  case mp =>
    rintro ⟨before, after, h, hf, hc, hd⟩
    rcases after.eq_nil_or_concat with rfl | ⟨after, last, rfl⟩
    case inl =>
      obtain ⟨rfl, he⟩ := List.append_inj' h rfl
      exact .inl ⟨List.singleton_inj.mp he, hf⟩
    case inr =>
      rw [List.concat_eq_append] at h hc hd
      rw [← List.cons_append, ← List.append_assoc] at h
      obtain ⟨rfl, he⟩ := List.append_inj' h rfl
      obtain rfl := List.singleton_inj.mp he
      refine .inr ⟨⟨before, after, rfl, hf, fun hm => hc (by simp [hm]), ?_⟩, ?_, ?_⟩
      case refine_1 =>
        rintro between w rest rfl
        exact hd between w (rest ++ [op]) (by simp)
      case refine_2 => exact fun he => hc (by simp [he])
      case refine_3 =>
        rintro w rfl
        have hm := hd after w [] rfl
        simp [hm]
  case mpr =>
    rintro (⟨rfl, hf⟩ | ⟨⟨before, after, rfl, hf, hc, hd⟩, hop, ho⟩)
    case inl => exact ⟨ops, [], rfl, hf, by simp, fun between w rest h => by simp at h⟩
    case inr =>
      refine ⟨before, after ++ [op], by simp, hf, by simp [hc, hop.symm], ?_⟩
      intro between w rest h
      rcases rest.eq_nil_or_concat with rfl | ⟨rest, last, rfl⟩
      case inl =>
        obtain ⟨rfl, he⟩ := List.append_inj' h rfl
        simpa [hf] using ho w (List.singleton_inj.mp he)
      case inr =>
        rw [List.concat_eq_append, ← List.cons_append, ← List.append_assoc] at h
        exact hd between w rest (List.append_inj' h rfl).left

theorem maker?_append {last : Operation} (h : maker? ops env = some op) :
    maker? (ops ++ [last]) env = some op := by
  obtain ⟨hl, _⟩ := List.getElem?_eq_some_iff.mp h
  rw [maker?, List.filter_append, List.getElem?_append_left hl]
  exact h

theorem maker?_append_of_makes (h : op.makes) :
    maker? (ops ++ [op]) (ops.filter makes).length = some op := by
  simp [maker?, List.filter_append, h]

namespace Ancestry

variable {chain chain' : List Nat}

theorem append {last : Operation} (h : Ancestry ops env chain) :
    Ancestry (ops ++ [last]) env chain := by
  induction h
  case root hm       => exact .root (maker?_append hm)
  case child hm _ hi => exact .child (maker?_append hm) hi

-- There is only one way from the inside out.
theorem unique (h : Ancestry ops env chain) (h' : Ancestry ops env chain') : chain = chain' := by
  induction h generalizing chain'
  case root hm =>
    cases h'
    case root      => rfl
    case child hm' => cases hm.symm.trans hm'
  case child hm _ hi =>
    cases h'
    case root hm'     => cases hm.symm.trans hm'
    case child h' hm' =>
      obtain rfl := Operation.child.inj <| Option.some.inj <| hm.symm.trans hm'
      rw [hi h']

theorem mem_self (h : Ancestry ops env chain) : env ∈ chain := by
  cases h <;> exact List.mem_cons_self

-- Those around an environment end with those around each of them.
theorem exists_suffix (h : Ancestry ops env chain) {a : Nat} (ha : a ∈ chain) :
    ∃ outside, Ancestry ops a outside ∧ outside <:+ chain := by
  induction h
  case root hm =>
    obtain rfl := List.mem_singleton.mp ha
    exact ⟨_, .root hm, List.suffix_refl _⟩
  case child hm h hi =>
    rcases List.mem_cons.mp ha with rfl | ha
    case inl => exact ⟨_, .child hm h, List.suffix_refl _⟩
    case inr =>
      obtain ⟨outside, ho, hs⟩ := hi ha
      exact ⟨outside, ho, hs.trans <| List.suffix_cons ..⟩

end Ancestry
end Operation

theorem Store.frame_child_empty (σ : Store) (outer : Scope) (id : FrameId) :
    (σ.child outer).2.frame id = σ.frame id := by
  rw [frame_child]
  split
  case isTrue he => rw [he, frame_of_size_le (Nat.le_refl _)]
  case isFalse   => rfl

open Operation

namespace Environments

-- Environments that are what the operations have made of them: the frames have the numbers of the
-- environments, and hold what was bound last.
structure Represents (E : Environments) (ops : List Operation) : Prop where
  size   : E.store.frames.size = E.scopes.length
  made   : (ops.filter makes).length = E.scopes.length
  scopes : ∀ env s, E.scopes[env]? = some s → s.frame = env ∧ Ancestry ops env s.chain
  frozen : ∀ env, (E.store.frame env).frozen ↔ freeze env ∈ ops
  bound  : ∀ env name v,
    (E.store.frame env).bindings.find? name = some v ↔ LastBound ops env name v

namespace Represents

variable {E E' : Environments} {ops : List Operation} {op : Operation}

theorem empty : Represents {} [] where
  size   := rfl
  made   := rfl
  scopes := by simp
  frozen := by
    intro env
    rw [Store.frame_of_size_le (Nat.zero_le env)]
    simp
  bound  := by
    intro env name v
    have hn : ¬LastBound [] env name v := by
      rintro ⟨before, after, h, _⟩
      simp at h
    rw [Store.frame_of_size_le (Nat.zero_le env)]
    exact iff_of_false nofun hn

-- Operations that make an environment leave all frames as they are.
theorem grow (h : E.Represents ops) (hop : op.makes) {σ : Store} {s : Scope}
    (hs : σ.frames.size = E.store.frames.size + 1) (hσ : ∀ id, σ.frame id = E.store.frame id)
    (hf : s.frame = E.scopes.length)
    (ha : maker? (ops ++ [op]) E.scopes.length = some op →
      Ancestry (ops ++ [op]) E.scopes.length s.chain) :
    Represents ⟨σ, E.scopes ++ [s]⟩ (ops ++ [op]) where
  size := by rw [hs, h.size, List.length_append, List.length_singleton]
  made := by simp [List.filter_append, hop, h.made]
  scopes env t ht := by
    rcases Nat.lt_or_ge env E.scopes.length with hlt | hge
    case inl =>
      rw [List.getElem?_append_left hlt] at ht
      exact (h.scopes env t ht).imp_right .append
    case inr =>
      rw [List.getElem?_append_right hge, List.getElem?_singleton] at ht
      obtain ⟨he, ⟨⟩⟩ := Option.ite_none_right_eq_some.mp ht
      obtain rfl : env = E.scopes.length := by omega
      exact ⟨hf, ha <| h.made ▸ maker?_append_of_makes hop⟩
  frozen env := by
    rw [hσ, h.frozen]
    cases op <;> simp [makes] at hop ⊢
  bound env name v := by
    rw [hσ, h.bound, lastBound_append_singleton]
    cases op <;> simp [makes] at hop ⊢

-- Operations on an environment that was made before.
theorem keep (h : E.Represents ops) (op : Operation) (hop : op.makes = false) {σ : Store}
    (hs : σ.frames.size = E.store.frames.size)
    (hf : ∀ env, (σ.frame env).frozen ↔ freeze env ∈ ops ++ [op])
    (hb : ∀ env name v,
      (σ.frame env).bindings.find? name = some v ↔ LastBound (ops ++ [op]) env name v) :
    Represents { E with store := σ } (ops ++ [op]) where
  size           := hs.trans h.size
  made           := by simp [List.filter_append, hop, h.made]
  scopes env s e := (h.scopes env s e).imp_right .append
  frozen         := hf
  bound          := hb

theorem frame_modify (h : E.Represents ops) {env : Nat} {s : Scope}
    (hs : E.scopes[env]? = some s) (f : Frame → Frame) (id : FrameId) :
    (E.store.modify s f).frame id = if id = env then f (E.store.frame id) else E.store.frame id := by
  obtain ⟨hl, _⟩ := List.getElem?_eq_some_iff.mp hs
  have hf := (h.scopes env s hs).left
  rw [Store.frame_modify, hf, h.size]
  by_cases hid : id = env
  case pos => rw [if_pos ⟨hid, hid ▸ hl⟩, if_pos hid]
  case neg => rw [if_neg (hid ·.left), if_neg hid]

section Define

variable (h : E.Represents ops) {env : Nat} {s : Scope} (hs : E.scopes[env]? = some s)
  (name : String) (v : Value)

include h hs

theorem define_of_frozen (hz : freeze env ∈ ops) :
    E.store.define s name v = .error (.readOnly name) := by
  rw [Store.define, (h.scopes env s hs).left, if_pos ((h.frozen env).mpr hz)]

theorem define_of_not_frozen (hz : freeze env ∉ ops) :
    E.store.define s name v =
      .ok (E.store.modify s fun f => { f with bindings := f.bindings.insert name v }) := by
  rw [Store.define, (h.scopes env s hs).left, if_neg fun hf => hz ((h.frozen env).mp hf)]

end Define

theorem perform (h : E.Represents ops) (hE : E.perform op = some E') :
    E'.Represents (ops ++ [op]) := by
  cases op
  case root =>
    obtain rfl := Option.some.inj hE
    refine h.grow rfl (Store.size_child E.store ⟨0, []⟩ {}) (E.store.frame_child_empty ⟨0, []⟩)
      h.size fun hm => ?_
    have hc : E.store.root.1.chain = [E.scopes.length] := by simp [Store.root, Scope.chain, h.size]
    exact hc ▸ .root hm
  case child outer =>
    obtain ⟨s, hs, rfl⟩ := Option.map_eq_some_iff.mp hE
    refine h.grow rfl (Store.size_child ..) (E.store.frame_child_empty s) h.size fun hm => ?_
    have ha : Ancestry (ops ++ [.child outer]) outer s.chain :=
      (h.scopes outer s hs).right.append
    rw [Store.child, Scope.chain_child, h.size]
    exact .child hm ha
  case freeze env =>
    obtain ⟨s, hs, rfl⟩ := Option.map_eq_some_iff.mp hE
    refine h.keep (.freeze env) rfl (Store.size_modify ..) (fun id => ?_) fun id name v => ?_
    case refine_1 =>
      rw [Store.freeze, h.frame_modify hs]
      by_cases hid : id = env <;> simp [hid, h.frozen]
    case refine_2 =>
      rw [Store.freeze, h.frame_modify hs, apply_ite Frame.bindings, ite_self, h.bound,
        lastBound_append_singleton]
      simp
  case clear env =>
    obtain ⟨s, hs, rfl⟩ := Option.map_eq_some_iff.mp hE
    refine h.keep (.clear env) rfl (Store.size_modify ..) (fun id => ?_) fun id name v => ?_
    case refine_1 =>
      rw [Store.clear, h.frame_modify hs, apply_ite Frame.frozen, ite_self, h.frozen]
      simp
    case refine_2 =>
      rw [Store.clear, h.frame_modify hs, lastBound_append_singleton]
      by_cases hid : id = env
      case pos => simp [hid]
      case neg => simp [hid, h.bound, Ne.symm hid]
  case define env name v =>
    obtain ⟨s, hs, rfl⟩ := Option.map_eq_some_iff.mp hE
    by_cases hz : freeze env ∈ ops
    case pos =>
      rw [Evaluation.run_define_error (h.define_of_frozen hs name v hz)]
      refine h.keep (.define env name v) rfl rfl (by simp [h.frozen]) fun id other w => ?_
      rw [h.bound, lastBound_append_singleton]
      refine ⟨fun hb => .inr ⟨hb, by simp, ?_⟩, fun hb => ?_⟩
      case refine_1 =>
        rintro _ ⟨⟩
        exact hz
      case refine_2 =>
        rcases hb with ⟨⟨⟩, hn⟩ | ⟨hb, _⟩
        case inl => exact absurd hz hn
        case inr => exact hb
    case neg =>
      rw [Evaluation.run_define_ok (h.define_of_not_frozen hs name v hz)]
      refine h.keep (.define env name v) rfl (Store.size_modify ..) (fun id => ?_) fun id other w => ?_
      case refine_1 =>
        rw [h.frame_modify hs, apply_ite Frame.frozen, ite_self, h.frozen]
        simp
      case refine_2 =>
        rw [h.frame_modify hs, lastBound_append_singleton]
        by_cases hid : id = env
        case neg => simp [hid, h.bound, Ne.symm hid]
        case pos =>
          by_cases hn : other = name
          case neg => simp [hid, hn, h.bound, NameMap.find?_insert, Ne.symm hn]
          case pos => simp [hid, hn, NameMap.find?_insert, hz]

theorem unbound (h : E.Represents ops) (env : Nat) (name : String) :
    (E.store.frame env).bindings.find? name = none ↔ ∀ v, ¬LastBound ops env name v := by
  simp only [Option.eq_none_iff_forall_ne_some, ne_eq, h.bound]

section Scopes

variable (h : E.Represents ops) {env other : Nat} {s t : Scope} (hs : E.scopes[env]? = some s)

include h hs

theorem find?_eq_some_iff {name : String} {v : Value} :
    E.store.find? s name = some v ↔
      ∃ nearer a farther, Ancestry ops env (nearer ++ a :: farther) ∧ LastBound ops a name v ∧
        ∀ b ∈ nearer, ∀ w, ¬LastBound ops b name w := by
  have ha := (h.scopes env s hs).right
  rw [Store.find?, List.findSome?_eq_some_iff]
  simp only [h.bound, h.unbound]
  constructor
  case mp =>
    rintro ⟨nearer, a, farther, hc, hb, hn⟩
    exact ⟨nearer, a, farther, hc ▸ ha, hb, hn⟩
  case mpr =>
    rintro ⟨nearer, a, farther, hc, hb, hn⟩
    exact ⟨nearer, a, farther, ha.unique hc, hb, hn⟩

theorem find?_eq_none_iff {name : String} :
    E.store.find? s name = none ↔
      ∃ chain, Ancestry ops env chain ∧ ∀ a ∈ chain, ∀ v, ¬LastBound ops a name v := by
  have ha := (h.scopes env s hs).right
  rw [Store.find?, List.findSome?_eq_none_iff]
  simp only [h.unbound]
  constructor
  case mp => exact fun hn => ⟨s.chain, ha, hn⟩
  case mpr =>
    rintro ⟨chain, hc, hn⟩
    exact ha.unique hc ▸ hn

theorem liesIn_iff (ht : E.scopes[other]? = some t) :
    s.liesIn t ↔ ∃ chain, Ancestry ops env chain ∧ other ∈ chain := by
  have ha := (h.scopes env s hs).right
  have ho := (h.scopes other t ht).right
  rw [Scope.liesIn_iff]
  constructor
  case mp => exact fun hsuf => ⟨s.chain, ha, hsuf.subset ho.mem_self⟩
  case mpr =>
    rintro ⟨chain, hc, hm⟩
    obtain ⟨outside, hout, hsuf⟩ := hc.exists_suffix hm
    rwa [ho.unique hout, ha.unique hc]

end Scopes
end Represents
end Environments

namespace Store

variable {σ σ' : Store}

theorem find?_congr (h : ∀ id, (σ'.frame id).bindings = (σ.frame id).bindings) (s : Scope)
    (name : String) : σ'.find? s name = σ.find? s name := by
  simp only [find?, h]

theorem bindings_freeze (σ : Store) (s : Scope) (id : FrameId) :
    ((σ.freeze s).frame id).bindings = (σ.frame id).bindings := by
  rw [freeze, frame_modify, apply_ite Frame.bindings, ite_self]

theorem bindings_clear (σ : Store) (s : Scope) (id : FrameId) :
    ((σ.clear s).frame id).bindings = if id = s.frame then {} else (σ.frame id).bindings := by
  by_cases hid : id = s.frame
  case pos =>
    rw [if_pos hid, hid]
    exact locals_clear σ s
  case neg => rw [if_neg hid, clear, frame_modify_of_ne hid]

-- New environments take bindings.
theorem define_child (σ : Store) (outer : Scope) (name : String) (v : Value) :
    ∃ σ', (σ.child outer).2.define (σ.child outer).1 name v = .ok σ' := by
  refine ⟨_, if_neg ?_⟩
  rw [frame_child_empty, Store.child, Scope.child, frame_of_size_le (Nat.le_refl _)]
  exact Bool.false_ne_true

-- That a scope is frozen is not seen from what is looked up, cleared, or made inside of it.
structure SameButFrozen (σ σ' : Store) : Prop where
  find?   : ∀ s name, σ'.find? s name = σ.find? s name
  cleared : ∀ s t name, (σ'.clear s).find? t name = (σ.clear s).find? t name
  child   : ∀ outer, (σ'.child outer).1 = (σ.child outer).1
  inside  : ∀ outer t name, (σ'.child outer).2.find? t name = (σ.child outer).2.find? t name
  defined : ∀ outer name v, ∃ σ'', (σ'.child outer).2.define (σ'.child outer).1 name v = .ok σ''

theorem sameButFrozen_freeze (σ : Store) (s : Scope) : σ.SameButFrozen (σ.freeze s) where
  find?     := find?_congr (σ.bindings_freeze s)
  cleared t := find?_congr fun id => by rw [bindings_clear, bindings_clear, bindings_freeze]
  child _   := by rw [Store.child, freeze, size_modify]; rfl
  inside o  := find?_congr fun id => by rw [frame_child_empty, frame_child_empty, bindings_freeze]
  defined   := define_child _

end Store

namespace Environments

-- What the operations say of the environments that they have led to.
structure Obeys (E : Environments) (ops : List Operation) : Prop where
  made    : E.scopes.length = (ops.filter makes).length
  -- A name stands for what was bound last in the nearest environment in which it is bound.
  found   : ∀ env s, E.scopes[env]? = some s → ∀ name v,
    E.store.find? s name = some v ↔
      ∃ nearer a farther, Ancestry ops env (nearer ++ a :: farther) ∧ LastBound ops a name v ∧
        ∀ b ∈ nearer, ∀ w, ¬LastBound ops b name w
  missing : ∀ env s, E.scopes[env]? = some s → ∀ name,
    E.store.find? s name = none ↔
      ∃ chain, Ancestry ops env chain ∧ ∀ a ∈ chain, ∀ v, ¬LastBound ops a name v
  -- Names can be bound in an environment until it is frozen, and nothing happens from then on.
  defined : ∀ env s, E.scopes[env]? = some s → ∀ name v,
    (∃ σ, E.store.define s name v = .ok σ) ↔ freeze env ∉ ops
  refused : ∀ env s, E.scopes[env]? = some s → freeze env ∈ ops → ∀ name v,
    E.perform (define env name v) = some E
  frozen  : ∀ env E', E.perform (freeze env) = some E' → E.store.SameButFrozen E'.store
  -- Environments lie in those around them, and stay there.
  liesIn  : ∀ env s other t, E.scopes[env]? = some s → E.scopes[other]? = some t →
    (s.liesIn t ↔ ∃ chain, Ancestry ops env chain ∧ other ∈ chain)
  settled : ∀ op E', op.makes = false → E.perform op = some E' → E'.scopes = E.scopes

namespace Represents

variable {E : Environments} {ops : List Operation}

theorem exists_perform (h : E.Represents ops) {op : Operation}
    (hk : ∀ env ∈ op.subject?, env < (ops.filter makes).length) : ∃ E', E.perform op = some E' := by
  have hs (env : Nat) (he : env ∈ op.subject?) : ∃ s, E.scopes[env]? = some s :=
    ⟨_, List.getElem?_eq_getElem (h.made ▸ hk env he)⟩
  cases op
  case root => exact ⟨_, rfl⟩
  all_goals
    obtain ⟨s, hs⟩ := hs _ rfl
    exact ⟨_, by rw [Environments.perform, hs]; rfl⟩

theorem obeys (h : E.Represents ops) : E.Obeys ops where
  made                      := h.made.symm
  found _ _ hs _ _          := h.find?_eq_some_iff hs
  missing _ _ hs _          := h.find?_eq_none_iff hs
  liesIn _ _ _ _ hs ht      := h.liesIn_iff hs ht
  defined env s hs name v := by
    by_cases hz : freeze env ∈ ops
    case pos => simp [h.define_of_frozen hs name v hz, hz]
    case neg => simp [h.define_of_not_frozen hs name v hz, hz]
  refused env s hs hz name v := by
    rw [Environments.perform, hs, Option.map_some,
      Evaluation.run_define_error (h.define_of_frozen hs name v hz)]
  frozen env E' hE := by
    obtain ⟨s, _, rfl⟩ := Option.map_eq_some_iff.mp hE
    exact E.store.sameButFrozen_freeze s
  settled op E' hop hE := by
    cases op
    case root | child => cases hop
    all_goals
      obtain ⟨_, _, rfl⟩ := Option.map_eq_some_iff.mp hE
      rfl

end Represents

theorem exists_performAll {ops : List Operation} (hp : Proper ops) :
    ∃ E, performAll ops = some E ∧ E.Represents ops := by
  induction ops using List.reverseRecOn
  case nil => exact ⟨{}, rfl, .empty⟩
  case append_singleton ops op hi =>
    obtain ⟨hp, hk⟩ := proper_append_singleton hp
    obtain ⟨E, hE, hr⟩ := hi hp
    obtain ⟨E', hE'⟩ := hr.exists_perform hk
    refine ⟨E', ?_, hr.perform hE'⟩
    rw [performAll] at hE ⊢
    rw [List.foldlM_append, hE]
    simpa using hE'

-- Operations can be performed as long as each one is on an environment that has been made, and the
-- environments obey their history then.
theorem obey_history {ops : List Operation} (hp : Proper ops) :
    ∃ E, performAll ops = some E ∧ E.Obeys ops :=
  have ⟨E, hE, hr⟩ := exists_performAll hp
  ⟨E, hE, hr.obeys⟩

-- A name is bound at three levels. Once the inner ones are cleared, the outermost one shows through.
-- The one in the middle cannot be bound again, as it was frozen before it was cleared.
theorem obey_history_shadowed :
    let ops := [root, child 0, child 1, define 0 "x" (.integer 1), define 1 "x" (.integer 2),
      define 2 "x" (.integer 3), freeze 1, define 1 "x" (.integer 4), clear 2, clear 1]
    Proper ops ∧ ∃ E s, performAll ops = some E ∧ E.scopes[2]? = some s ∧ s.chain = [2, 1, 0] ∧
      E.store.find? s "x" = some (.integer 1) ∧
      (∃ nearer a farther, Ancestry ops 2 (nearer ++ a :: farther) ∧
        LastBound ops a "x" (.integer 1) ∧ ∀ b ∈ nearer, ∀ w, ¬LastBound ops b "x" w) ∧
      ∀ v, E.perform (define 1 "x" v) = some E := by
  intro ops
  have hp : Proper ops := by decide
  obtain ⟨E, hE, ho⟩ := obey_history hp
  have hs : E.scopes = [⟨0, []⟩, ⟨1, [0]⟩, ⟨2, [1, 0]⟩] := by
    obtain rfl := Option.some.inj hE
    rfl
  have hv : E.store.find? ⟨2, [1, 0]⟩ "x" = some (.integer 1) := by
    obtain rfl := Option.some.inj hE
    rfl
  have h₁ : E.scopes[1]? = some ⟨1, [0]⟩ := hs ▸ rfl
  have h₂ : E.scopes[2]? = some ⟨2, [1, 0]⟩ := hs ▸ rfl
  have hf : freeze 1 ∈ ops := by simp [ops]
  exact ⟨hp, E, _, hE, h₂, rfl, hv, (ho.found 2 _ h₂ "x" _).mp hv, ho.refused 1 _ h₁ hf "x"⟩

end Environments
end ScopedLisp
