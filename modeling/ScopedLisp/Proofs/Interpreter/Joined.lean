import ScopedLisp.Proofs.Form.Literal
import ScopedLisp.Proofs.Interpreter.Service
import ScopedLisp.Proofs.Token.Joined

-- Programs in several texts. To run the texts one after another is to run one text in which they
-- stand below each other.
-- Main statement: `Interpreter.runAll_eq_run_joined`.

namespace ScopedLisp

open Evaluation

namespace Token

variable {reserved : String → Bool}

mutual

-- Tokens with the pieces of forms spell the forms.
theorem spells_of_pieces {ts : List Token} {v : Value}
    (h : ts.map (·.piece reserved) = v.pieces.map .ok) :
    Spells reserved ts [v] := by
  cases v
  case list items =>
    rw [Value.pieces, List.cons_append, List.map_cons, List.map_append] at h
    obtain ⟨opening, us, rfl, ho, h⟩ := List.map_eq_cons_iff.mp h
    obtain ⟨inner, ends, rfl, hi, h⟩ := List.map_eq_append_iff.mp h
    obtain ⟨closing, rfl, hc⟩ := List.map_eq_singleton_iff.mp h
    have ho : opening.text = "(" := by simpa using piece_eq_ok ho
    have hc : closing.text = ")" := by simpa using piece_eq_ok hc
    exact .list (spells_of_piecesAll hi) ho hc
  all_goals
    obtain ⟨t, rfl, ht⟩ := List.map_eq_singleton_iff.mp h
    have ⟨ho, hc, hr⟩ := piece_eq_atom ht
    exact .atom ho hc hr

theorem spells_of_piecesAll {ts : List Token} {forms : List Form}
    (h : ts.map (·.piece reserved) = (Value.piecesAll forms).map .ok) :
    Spells reserved ts forms := by
  cases forms
  case nil =>
    obtain rfl := List.map_eq_nil_iff.mp h
    exact .nil
  case cons v vs =>
    rw [Value.piecesAll, List.map_append] at h
    obtain ⟨us, ws, rfl, hv, hvs⟩ := List.map_eq_append_iff.mp h
    exact (spells_of_pieces hv).append (spells_of_piecesAll hvs)

end

end Token

-- A text that is put below another one adds its forms.
theorem Program.read_joined {grouping : String} {reserved : String → Bool} {g : Form}
    (hg : Atom.read reserved grouping = .ok g) (ho : grouping ≠ "(") (hc : grouping ≠ ")")
    {first second : String} {forms forms' : List Form} (he : ¬Token.endsInSpan first)
    (h : read grouping reserved first = .ok (.list (g :: forms)))
    (h' : read grouping reserved second = .ok (.list (g :: forms'))) :
    read grouping reserved (first ++ "\n" ++ second) = .ok (.list (g :: (forms ++ forms'))) := by
  obtain ⟨_, hf, hp⟩ := exists_pieces_of_read hg ho hc h
  obtain ⟨_, hf', hp'⟩ := exists_pieces_of_read hg ho hc h'
  cases hf
  cases hf'
  -- Where a token stands does not matter for its piece.
  have hb : ∀ lines, (Token.piece reserved ·) ∘ Token.below lines = (Token.piece reserved ·) :=
    fun _ => rfl
  have hs : (Token.scan (first ++ "\n" ++ second)).map (·.piece reserved) =
      (Value.piecesAll (forms ++ forms')).map .ok := by
    rw [Token.scan_joined he, List.map_append, List.map_map, hb, hp, hp', Value.piecesAll_append,
      List.map_append]
  exact ofTokens_of_spells hg ho hc <| Token.spells_of_piecesAll hs

-- The forms of a program are evaluated in order, because the word in front of them is a keyword
-- that says so.
structure Evaluator.Groups (e : Evaluator) : Prop where
  read    : Atom.read e.keywords.reserves e.keywords.grouping = .ok (.symbol e.keywords.grouping)
  opening : e.keywords.grouping ≠ "("
  closing : e.keywords.grouping ≠ ")"
  handler : e.keywords.find? e.keywords.grouping = some Keywords.group

namespace Evaluator

variable {e : Evaluator} {depth : Nat} {s : Scope}

-- The form as which a program of these forms is read.
def program (e : Evaluator) (forms : List Form) : Form :=
  .list (.symbol e.keywords.grouping :: forms)

theorem evaluate_program (he : e.Groups) (forms : List Form) :
    e.evaluate (depth + 1) s (e.program forms) = (e.context depth).evaluateBody s forms := by
  rw [evaluate_succ, program, evaluateWith, evaluateNamed, he.handler]
  rfl

-- What the forms in front have for a value does not matter.
theorem evaluate_program_append (he : e.Groups) (forms : List Form) {forms' : List Form}
    (hn : forms' ≠ []) :
    e.evaluate depth s (e.program (forms ++ forms')) =
      e.evaluate depth s (e.program forms) >>= fun _ => e.evaluate depth s (e.program forms') := by
  cases depth
  case zero => rfl
  case succ =>
    obtain ⟨form, rest, rfl⟩ := List.exists_cons_of_ne_nil hn
    simp only [evaluate_program he]
    exact List.foldlM_append

theorem run_of_read {source : String} {form : Form} (h : e.read source = .ok form) :
    e.run depth source s = e.evaluate depth s form := by
  rw [run, h]
  rfl

theorem groups_standard (h : e.keywords = .standard) : e.Groups where
  read    := by rw [h]; rfl
  opening := by rw [h]; decide
  closing := by rw [h]; decide
  handler := by rw [h]; rfl

end Evaluator

namespace Interpreter

-- Runs the texts in order, in one scope, for the value of the last one. The first failure is the
-- end.
def runAll (i : Interpreter) (depth : Nat) (sources : List String) (s : Scope) : Evaluation Value :=
  sources.foldlM (fun _ source => i.run depth source s) .nil

section

variable {i : Interpreter} (depth : Nat) (s : Scope)

theorem runAll_singleton (source : String) : i.runAll depth [source] s = i.run depth source s :=
  bind_pure _

theorem runAll_cons {source : String} {sources : List String} (hn : sources ≠ []) :
    i.runAll depth (source :: sources) s =
      i.run depth source s >>= fun _ => i.runAll depth sources s := by
  obtain ⟨next, rest, rfl⟩ := List.exists_cons_of_ne_nil hn
  rfl

-- The text in which all stand below each other is a program of all of their forms.
theorem exists_forms_of_joined (hg : i.evaluator.Groups) {last : String} {form : Form}
    {rest : List Form} (hl : i.read last = .ok (i.evaluator.program (form :: rest)))
    {sources : List String}
    (hs : ∀ source ∈ sources, ¬Token.endsInSpan source ∧ ∃ form, i.read source = .ok form) :
    ∃ forms, forms ≠ [] ∧
      i.read ("\n".intercalate (sources ++ [last])) = .ok (i.evaluator.program forms) ∧
      i.runAll depth (sources ++ [last]) s =
        i.evaluator.evaluate depth s (i.evaluator.program forms) := by
  induction sources
  -- The forms of a part come in front of those of all later parts. These are never none, so that
  -- the value of the part itself is not asked for.
  case nil =>
    refine ⟨form :: rest, List.cons_ne_nil _ _, ?_, ?_⟩
    case refine_1 => rwa [List.nil_append, String.intercalate_singleton]
    case refine_2 => exact (runAll_singleton depth s last).trans (Evaluator.run_of_read hl)
  case cons source sources hi =>
    have ⟨⟨hspan, form, hread⟩, hsources⟩ := List.forall_mem_cons.mp hs
    obtain ⟨forms', hn', hread', hrun'⟩ := hi hsources
    obtain ⟨forms, rfl, _⟩ :=
      Program.exists_pieces_of_read hg.read hg.opening hg.closing hread
    have hn : sources ++ [last] ≠ [] := List.append_ne_nil_of_right_ne_nil _ (List.cons_ne_nil _ _)
    refine ⟨forms ++ forms', List.append_ne_nil_of_right_ne_nil _ hn', ?_, ?_⟩
    case refine_1 =>
      rw [List.cons_append, String.intercalate_cons_of_ne_nil hn]
      exact Program.read_joined hg.read hg.opening hg.closing hspan hread hread'
    case refine_2 =>
      rw [List.cons_append, runAll_cons depth s hn, hrun',
        Evaluator.evaluate_program_append hg _ hn']
      exact congrArg (· >>= _) (Evaluator.run_of_read hread)

end

-- It does not matter how a program is split, if the parts can be read and none of them ends inside
-- of a span. The outcome is that of the last part, so that there has to be a form in it.
theorem runAll_eq_run_joined (i : Interpreter) (hi : i.evaluator.keywords = .standard)
    (depth : Nat) {sources : List String} {last : String} {form : Form} {rest : List Form}
    (hs : ∀ source ∈ sources, ¬Token.endsInSpan source ∧ ∃ form, i.read source = .ok form)
    (hl : i.read last = .ok (.list (.symbol "do" :: form :: rest))) (s : Scope) (m : Machine) :
    (i.runAll depth (sources ++ [last]) s).run m =
      (i.run depth ("\n".intercalate (sources ++ [last])) s).run m := by
  have hp : i.evaluator.program (form :: rest) = .list (.symbol "do" :: form :: rest) := by
    rw [Evaluator.program, hi]
    rfl
  obtain ⟨forms, _, hread, hrun⟩ :=
    exists_forms_of_joined depth s (Evaluator.groups_standard hi) (hp ▸ hl) hs
  rw [hrun]
  exact congrArg (·.run m) (Evaluator.run_of_read hread).symm

-- A program in three parts: a part that ends in a comment, one that fails in the middle, and one
-- that is never run.
theorem runAll_eq_run_joined_failing :
    let i : Interpreter := ⟨{}, ⟨0, []⟩⟩
    let m : Machine := { store := { frames := #[{}, {}] } }
    let sources := ["(def x 1) ; one", "(print x) (x 2)"]
    let joined := "(def x 1) ; one\n(print x) (x 2)\n(print 3)"
    let outcome := (i.runAll 9 (sources ++ ["(print 3)"]) ⟨1, [0]⟩).run m
    outcome.1.toOption.map Value.display = none ∧ outcome.2.printed = "1\n" ∧
      outcome = (i.run 9 joined ⟨1, [0]⟩).run m := by
  intro i m sources joined outcome
  have h₁ : ({} : Evaluator).read "(def x 1) ; one" =
      .ok (.list [.symbol "do", .list [.symbol "def", .symbol "x", .integer 1]]) := rfl
  have h₂ : ({} : Evaluator).read "(print x) (x 2)" =
      .ok (.list [.symbol "do", .list [.symbol "print", .symbol "x"],
        .list [.symbol "x", .integer 2]]) := rfl
  have h₃ : ({} : Evaluator).read "(print 3)" =
      .ok (.list [.symbol "do", .list [.symbol "print", .integer 3]]) := rfl
  have hs : ∀ source ∈ sources, ¬Token.endsInSpan source ∧ ∃ form, i.read source = .ok form :=
    List.forall_mem_cons.mpr ⟨⟨by decide, _, h₁⟩,
      List.forall_mem_singleton.mpr ⟨by decide, _, h₂⟩⟩
  exact ⟨by decide +kernel, by decide +kernel, runAll_eq_run_joined i rfl 9 hs h₃ ⟨1, [0]⟩ m⟩

end Interpreter
end ScopedLisp
