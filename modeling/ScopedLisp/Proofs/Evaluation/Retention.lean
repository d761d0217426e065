import ScopedLisp.Proofs.Evaluation.Keeping
import ScopedLisp.Proofs.Store.Restored

-- Evaluation in which finished scopes give up their bindings, next to the same evaluation in which
-- they keep them. Both do the same until a name is looked up that is lost.
-- Main statement: `Evaluator.together_evaluate`.

namespace ScopedLisp

open Evaluation

-- After the past, the same is looked up and found in both histories, none of it is lost, and all
-- frames below a limit keep their bindings.
structure History.Agree (past : History) (n : FrameId) (h h' : History) : Prop where
  looks : h.looks = h'.looks
  found : ¬past.AnyMissed h
  fresh : ∀ id < n, h.givenUp? id = none

-- A name is lost, and of what is looked up in both histories, something is not the same.
structure History.Part (past h h' : History) : Prop where
  missed : past.AnyMissed h
  looks  : ∃ common l l' rest rest',
    h.looks = common ++ l :: rest ∧ h'.looks = common ++ l' :: rest' ∧ l ≠ l'

structure Machine.Restored (past : History) (m m' : Machine) : Prop where
  store   : m.store.Restored past m'.store
  printed : m.printed = m'.printed

-- Two evaluations with their histories. Unless they part, they end with the same outcome, and on
-- machines that are the same up to what has been given up.
def Together (past : History) (n : FrameId) (r r' : Except Stop Value × Machine)
    (h h' : History) : Prop :=
  (past.Agree n h h' ∧ r.1 = r'.1 ∧ r.2.Restored (past ++ h) r'.2 ∧ n ≤ r.2.store.frames.size) ∨
  past.Part h h'

-- Contexts in which scopes give up their bindings, and keep them.
structure Context.Together (c c' : Context) (b b' : Scope → Form → Machine → List Moment) :
    Prop where
  evaluate : ∀ {past : History} {s : Scope} {m m' : Machine} (form : Form),
    m.Restored past m' → s.Open past m.store →
    ScopedLisp.Together past m.store.frames.size ((c.evaluate s form).run m)
      ((c'.evaluate s form).run m') (b s form m) (b' s form m')
  sink     : c.sink = c'.sink
  gives    : c.retention = .whenCaptured
  keeps    : c'.retention = .always

namespace History

variable {past h h' k k' : History} {n n' : FrameId}

theorem Agree.nil (past : History) (n : FrameId) : past.Agree n [] [] where
  looks := rfl
  found := id
  fresh := fun _ _ => rfl

theorem Agree.of_le (hh : past.Agree n' h h') (hn : n ≤ n') : past.Agree n h h' where
  looks := hh.looks
  found := hh.found
  fresh := fun id hid => hh.fresh id (Nat.lt_of_lt_of_le hid hn)

theorem Agree.append (hh : past.Agree n h h') (hk : Agree (past ++ h) n' k k') (hn : n ≤ n') :
    past.Agree n (h ++ k) (h' ++ k') where
  looks := by rw [looks_append, looks_append, hh.looks, hk.looks]
  found := fun hm => (anyMissed_append.mp hm).elim hh.found hk.found
  fresh := fun id hid => by
    rw [givenUp?_append, hh.fresh id hid, hk.fresh id (Nat.lt_of_lt_of_le hid hn)]
    rfl

theorem Agree.part (hh : past.Agree n h h') (hk : Part (past ++ h) k k') :
    past.Part (h ++ k) (h' ++ k') where
  missed := anyMissed_append.mpr <| .inr hk.missed
  looks  :=
    have ⟨common, l, l', rest, rest', hl, hl', hn⟩ := hk.looks
    ⟨h'.looks ++ common, l, l', rest, rest', by simp [looks_append, hh.looks, hl],
      by simp [looks_append, hl'], hn⟩

theorem Part.append (hh : past.Part h h') (k k' : History) : past.Part (h ++ k) (h' ++ k') where
  missed := anyMissed_append.mpr <| .inl hh.missed
  looks  :=
    have ⟨common, l, l', rest, rest', hl, hl', hn⟩ := hh.looks
    ⟨common, l, l', rest ++ k.looks, rest' ++ k'.looks, by simp [looks_append, hl],
      by simp [looks_append, hl'], hn⟩

-- Lists that are the same do not part.
theorem Part.looks_ne (hh : past.Part h h') : h.looks ≠ h'.looks := by
  have ⟨common, l, l', rest, rest', hl, hl', hn⟩ := hh.looks
  rw [hl, hl']
  intro he
  have ⟨hll, _⟩ := List.cons.inj <| List.append_cancel_left he
  exact hn hll

theorem agree_look {σ σ' : Store} (h : σ.Restored past σ') {s : Scope} {name : String}
    (hl : ¬past.Lost σ s.chain name) :
    past.Agree n [⟨.look s name, σ⟩] [⟨.look s name, σ'⟩] where
  looks := by
    have hb := (h.binder?_eq_iff s.chain name).mpr hl
    simp [History.looks, Moment.look?, hb, h.find?_eq hl]
  found := by simpa [AnyMissed, Misses] using hl
  fresh := fun _ _ => rfl

theorem part_look {σ σ' : Store} (h : σ.Restored past σ') {s : Scope} {name : String}
    (hl : past.Lost σ s.chain name) :
    past.Part [⟨.look s name, σ⟩] [⟨.look s name, σ'⟩] where
  missed := .inl hl
  looks  := by
    have hb : σ.binder? s.chain name ≠ σ'.binder? s.chain name :=
      fun hb => (h.binder?_eq_iff s.chain name).mp hb hl
    exact ⟨[], _, _, [], [], rfl, rfl, fun he => hb (congrArg Look.frame? he)⟩

-- In a moment without a look, nothing is missed.
theorem agree_singleton (past : History) {x x' : Moment} (hx : x.look? = none)
    (hx' : x'.look? = none) (hn : ∀ id < n, x.givenUp? id = none) : past.Agree n [x] [x'] where
  looks := by simp [History.looks, hx, hx']
  found := by simpa [AnyMissed] using not_misses hx
  fresh := fun id hid => by simp [History.givenUp?, hn id hid]

theorem agree_finish (past : History) {s : Scope} (hs : n ≤ s.frame)
    (outcome : Except Stop Value) (σ σ' : Store) :
    past.Agree n [⟨.finish s outcome, σ⟩] [⟨.finish s outcome, σ'⟩] := by
  apply agree_singleton past rfl rfl
  intro id hid
  have hn : ¬(s.frame = id ∧ Retention.whenCaptured.gives s outcome) := fun hg =>
    absurd hs <| Nat.not_le_of_lt (hg.left ▸ hid)
  exact if_neg hn

end History

namespace Machine.Restored

variable {past : History} {m m' : Machine}

theorem of_store (h : m.Restored past m') {past' : History} {σ σ' : Store}
    (hσ : σ.Restored past' σ') :
    Restored past' { m with store := σ } { m' with store := σ' } where
  store   := hσ
  printed := h.printed

-- Moments that give nothing up do not matter.
theorem quiet (h : m.Restored past m') {x : Moment} (hx : ∀ id, x.givenUp? id = none) :
    Restored (past ++ [x]) m m' := by
  have hp (id : FrameId) : History.givenUp? (past ++ [x]) id = past.givenUp? id := by
    simp [History.givenUp?, List.findSome?_append, hx]
  exact ⟨⟨h.store.size, h.store.procedures, fun id hid => h.store.kept id (hp id ▸ hid),
    fun id bindings hid => h.store.lost id bindings (hp id ▸ hid)⟩, h.printed⟩

end Machine.Restored

namespace Together

variable {past h h' k k' : History} {n n' : FrameId} {r r' : Except Stop Value × Machine}
  {m m' : Machine}

theorem of_restored (hm : m.Restored past m') (outcome : Except Stop Value) :
    Together past m.store.frames.size (outcome, m) (outcome, m') [] [] :=
  .inl ⟨.nil .., rfl, by rwa [List.append_nil], Nat.le_refl _⟩

-- What happens before evaluations that are together.
theorem after (ha : past.Agree n h h') (hn : n ≤ n') (hk : Together (past ++ h) n' r r' k k') :
    Together past n r r' (h ++ k) (h' ++ k') := by
  rcases hk with ⟨hk, ho, hm, hn'⟩ | hk
  case inl =>
    exact .inl ⟨ha.append hk hn, ho, by rwa [← List.append_assoc], Nat.le_trans hn hn'⟩
  case inr => exact .inr <| ha.part hk

-- A moment in which nothing is looked up or given up, and what comes after it.
theorem cons {x x' : Moment} (hx : x.look? = none) (hx' : x'.look? = none)
    (hn : ∀ id, x.givenUp? id = none) (hm : m.Restored past m')
    (hk : m.Restored (past ++ [x]) m' → Together (past ++ [x]) n r r' k k') :
    Together past n r r' (x :: k) (x' :: k') :=
  after (History.agree_singleton past hx hx' fun id _ => hn id) (Nat.le_refl n) <| hk <| hm.quiet hn

-- A name is looked up, and what comes after that depends on what it stands for.
theorem look (hm : m.Restored past m') {s : Scope} (hs : s.Open past m.store) (name : String)
    {f f' : Option Value → Except Stop Value × Machine} {a a' : Option Value → History}
    (hk : ∀ v?, m.Restored (past ++ [⟨.look s name, m.store⟩]) m' →
      s.Open (past ++ [⟨.look s name, m.store⟩]) m.store →
      Together (past ++ [⟨.look s name, m.store⟩]) n (f v?) (f' v?) (a v?) (a' v?)) :
    Together past n (f (m.store.find? s name)) (f' (m'.store.find? s name))
      (⟨.look s name, m.store⟩ :: a (m.store.find? s name))
      (⟨.look s name, m'.store⟩ :: a' (m'.store.find? s name)) := by
  by_cases hl : past.Lost m.store s.chain name
  case pos => exact .inr <| (History.part_look hm.store hl).append _ _
  case neg =>
    have hq := hm.quiet (x := ⟨.look s name, m.store⟩) fun _ => rfl
    have ho := hs.after (h := [⟨.look s name, m.store⟩]) (Nat.le_refl _) fun _ _ => rfl
    rw [← hm.store.find?_eq hl]
    exact (hk _ hq ho).after (History.agree_look hm.store hl) (Nat.le_refl n)

end Together

theorem Sink.write_together {past : History} {m m' : Machine} (sink : Sink) (text : String)
    (hm : m.Restored past m') :
    Together past m.store.frames.size
      (((sink.write text).run m).1.map fun _ => .nil, ((sink.write text).run m).2)
      (((sink.write text).run m').1.map fun _ => .nil, ((sink.write text).run m').2) [] [] := by
  rw [sink.run_write, sink.run_write, hm.printed]
  rcases sink.receive m'.printed text with ⟨_, printed⟩
  have hp : Machine.Restored past { m with printed } { m' with printed } := ⟨hm.store, rfl⟩
  exact .of_restored hp _

namespace Context.Together

variable {c c' : Context} {b b' : Scope → Form → Machine → List Moment} {past : History}
  {m m' : Machine}

-- A new scope ends with what it gives up.
theorem enclosed (hc : c.Together c' b b') (hm : m.Restored past m') (outer : Scope)
    (bindings : NameMap Value) {x x' : Scope → Evaluation Value}
    {a a' : Scope → Machine → List Moment}
    (hx : ∀ {inner : Scope} {m m' : Machine}, m.Restored past m' → inner.Open past m.store →
      ScopedLisp.Together past m.store.frames.size ((x inner).run m) ((x' inner).run m')
        (a inner m) (a' inner m')) :
    ScopedLisp.Together past m.store.frames.size ((c.enclosed outer bindings x).run m)
      ((c'.enclosed outer bindings x').run m') (outer.enclosedMoments bindings x a m)
      (outer.enclosedMoments bindings x' a' m') := by
  let inner := outer.child m.store.frames.size
  have hi : inner.Open past (m.store.child outer bindings).2 := hm.store.open_child outer bindings
  have ht := hx (hm.of_store <| hm.store.child outer bindings) hi
  rw [run_enclosed, run_enclosed, ← hm.store.size, hc.gives, hc.keeps]
  unfold Scope.enclosedMoments
  rw [← hm.store.size]
  simp only [Store.release_always]
  generalize (x inner).run _ = r, (x' inner).run _ = r', a inner _ = h, a' inner _ = h' at ht ⊢
  rcases ht with ⟨hh, ho, hr, hn⟩ | hp
  case inr => exact .inr <| hp.append _ _
  case inl =>
    have hle : m.store.frames.size ≤ (m.store.child outer bindings).2.frames.size :=
      (Store.Keeps.child ..).size
    have hf := History.agree_finish (past ++ h) (Nat.le_refl inner.frame) r.1 r.2.store r'.2.store
    have hr' := hr.store.release (hi.after hn hh.fresh) r.1
    refine .inl ⟨?_, ho, ?_, ?_⟩
    case refine_1 =>
      rw [← ho]
      exact (hh.of_le hle).append hf (Nat.le_refl _)
    case refine_2 =>
      rw [← List.append_assoc]
      exact hr.of_store hr'
    case refine_3 =>
      rw [Store.size_release]
      exact Nat.le_trans hle hn

end Context.Together

theorem Store.Restored.define {past : History} {σ σ' : Store} (h : σ.Restored past σ') {s : Scope}
    (hs : s.Open past σ) (name : String) (v : Value) :
    (∃ σ₁ σ₁', σ.define s name v = .ok σ₁ ∧ σ'.define s name v = .ok σ₁' ∧
      σ₁.Restored past σ₁' ∧ σ₁.frames.size = σ.frames.size) ∨
    (∃ cause, σ.define s name v = .error cause ∧ σ'.define s name v = .error cause) := by
  unfold Store.define
  rw [← h.kept s.frame hs.kept]
  by_cases hf : (σ.frame s.frame).frozen
  case pos => exact .inr ⟨_, if_pos hf, if_pos hf⟩
  case neg => exact .inl ⟨_, _, if_neg hf, if_neg hf, h.modify hs _, size_modify ..⟩

-- Steps stay together, and so does what happens in them.
theorem Steps.together_run {c c' : Context} {b b' : Scope → Form → Machine → List Moment}
    (hc : c.Together c' b b') (x : Steps) {past : History} {s : Scope} {m m' : Machine}
    (hm : m.Restored past m') (hs : s.Open past m.store) :
    Together past m.store.frames.size ((x.run c s).run m) ((x.run c' s).run m')
      (x.moments c b s m) (x.moments c' b' s m') := by
  induction x generalizing past s m m'
  case done | failed => exact .of_restored hm _
  case look name next hi =>
    rw [run_look, run_look, moments, moments]
    exact .look hm hs name fun v? hm hs => hi v? hm hs
  case evaluate form next hi =>
    have he := hc.evaluate form hm hs
    rw [run_evaluate, run_evaluate, moments, moments]
    generalize (c.evaluate s form).run m = r, (c'.evaluate s form).run m' = r', b s form m = h,
      b' s form m' = h' at he
    rcases he with ⟨ha, ho, hr, hn⟩ | hp
    case inr => exact .inr <| hp.append _ _
    case inl =>
      obtain ⟨o, m₁⟩ := r
      obtain ⟨o', m₁'⟩ := r'
      obtain rfl : o = o' := ho
      cases o
      case error => exact .after ha hn <| .of_restored hr _
      case ok v  => exact .after ha hn <| hi v hr (hs.after hn ha.fresh)
  case define name v next hi =>
    rw [run_define, run_define, moments, moments]
    rcases hm.store.define hs name v with ⟨σ, σ', h₁, h₂, hσ, hn⟩ | ⟨cause, h₁, h₂⟩
    case inl =>
      rw [h₁, h₂, ← hn]
      apply Together.cons rfl rfl (fun _ => rfl) (hm.of_store hσ)
      exact fun hm' => hi hm' <| hs.after (Nat.le_of_eq hn.symm) fun _ _ => rfl
    case inr =>
      rw [h₁, h₂]
      exact .cons rfl rfl (fun _ => rfl) hm fun hm' => .of_restored hm' _
  case procedure parameters body =>
    have hp : m'.store.procedure parameters body s =
        (⟨m.store.procedures, parameters, body, s⟩,
          { m'.store with procedures := m.store.procedures + 1 }) := by
      simp [Store.procedure, hm.store.procedures]
    rw [run_procedure, run_procedure, hp]
    exact .of_restored (hm.of_store hm.store.procedure) _
  case apply p values =>
    rw [run_apply, run_apply]
    apply Together.cons rfl rfl (fun _ => rfl) hm
    exact fun hm' => hc.enclosed hm' p.home _ fun hm hi => hc.evaluate p.body hm hi
  case nest body hi => exact hc.enclosed hm s {} hi
  case write text =>
    rw [run_write, run_write, ← hc.sink]
    exact c.sink.write_together text hm

variable (grouping : String) (entries : List (String × Builtin)) (sink : Sink)

-- The evaluator that lets scopes give up their bindings, next to the one that keeps them.
theorem Evaluator.together_evaluate (depth : Nat) {past : History} {s : Scope} {m m' : Machine}
    (form : Form) (hm : m.Restored past m') (hs : s.Open past m.store) :
    Together past m.store.frames.size
      (((ofBuiltins grouping entries sink .whenCaptured).evaluate depth s form).run m)
      (((ofBuiltins grouping entries sink .always).evaluate depth s form).run m')
      ((ofBuiltins grouping entries sink .whenCaptured).moments entries depth s form m)
      ((ofBuiltins grouping entries sink .always).moments entries depth s form m') := by
  induction depth generalizing past s m m' form
  case zero => exact .of_restored hm _
  case succ depth hi =>
    have hc : ((ofBuiltins grouping entries sink .whenCaptured).context depth).Together
        ((ofBuiltins grouping entries sink .always).context depth) _ _ :=
      ⟨hi, (rfl : sink = sink), rfl, rfl⟩
    rw [evaluate_succ_eq_run, evaluate_succ_eq_run]
    exact Steps.together_run hc _ hm hs

end ScopedLisp
