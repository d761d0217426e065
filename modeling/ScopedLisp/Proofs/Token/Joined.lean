import ScopedLisp.Proofs.Token.Division

-- Texts that are put together at a line feed. What the first one has begun ends there, unless that
-- is a span. So the tokens are those of the one and the other, further down.
-- Main statement: `Token.scan_joined`.

namespace ScopedLisp

-- The place in a text that stands so many lines further down.
def Position.below (lines : Nat) (p : Position) : Position :=
  { p with line := lines + p.line }

def Token.below (lines : Nat) (t : Token) : Token :=
  { t with position := t.position.below lines }

theorem Position.after_below (lines : Nat) (p : Position) (c : Char) :
    (p.below lines).after c = (p.after c).below lines := by
  unfold after
  split <;> rfl

namespace Scanner

namespace Mode

def isSpan : Mode → Bool
  | span .. => true
  | gap | comment | atom .. => false

def below (lines : Nat) : Mode → Mode
  | gap                     => gap
  | comment                 => comment
  | atom start text         => atom (start.below lines) text
  | span start text escaped => span (start.below lines) text escaped

variable (lines : Nat)

theorem extend_below (mode : Mode) (p : Position) (c : Char) :
    (mode.below lines).extend (p.below lines) c = (mode.extend p c).below lines := by
  cases mode
  all_goals
    simp only [below, extend]
    split <;> rfl

theorem inside_below (start : Position) (text : List Char) (escaped : Bool) (c : Char) :
    inside (start.below lines) text escaped c = (inside start text escaped c).below lines := by
  simp only [inside]
  split
  case isTrue => rfl
  split
  case isTrue => rfl
  split
  all_goals rfl

end Mode

-- The same scan in a text so many lines further down, with the tokens that are found above.
def below (lines : Nat) (above : List Token) (s : Scanner) : Scanner where
  position := s.position.below lines
  mode     := s.mode.below lines
  found    := s.found.map (·.below lines) ++ above

variable (lines : Nat) (above : List Token) (s : Scanner)

theorem cut_below (next : Mode) :
    (s.below lines above).cut (next.below lines) = (s.cut next).below lines above := by
  rcases s with ⟨p, _ | _ | _ | _, found⟩ <;> rfl

theorem separate_below (c : Char) :
    (s.below lines above).separate c = (s.separate c).below lines above := by
  have hg := s.cut_below lines above .gap
  unfold separate
  split
  case isTrue => exact s.cut_below lines above .comment
  split
  case isTrue =>
    simp only [Mode.below] at hg
    simp only [hg]
    rfl
  split
  case isTrue  => exact hg
  case isFalse =>
    have he := s.mode.extend_below lines s.position c
    simp only [below, he]

theorem feed_below (c : Char) : (s.below lines above).feed c = (s.feed c).below lines above := by
  rcases hs : s with ⟨p, _ | _ | ⟨start, text⟩ | ⟨start, text, escaped⟩, found⟩
  case gap | atom => exact separate_below lines above _ c
  case comment =>
    simp only [below, feed, Mode.below]
    split <;> rfl
  case span => simp only [below, feed, Mode.below, Mode.inside_below]

-- A scan goes on in the same way wherever the text stands, and whatever has been found above.
theorem step_below (c : Char) : (s.below lines above).step c = (s.step c).below lines above := by
  unfold step
  rw [feed_below]
  simp only [below, Position.after_below]

theorem run_below (cs : List Char) :
    (s.below lines above).run cs = (s.run cs).below lines above := by
  induction cs generalizing s
  case nil => rfl
  case cons c cs hi => exact (congrArg (run · cs) (s.step_below lines above c)).trans (hi _)

theorem finish_below :
    (s.below lines above).finish = above.reverse ++ s.finish.map (·.below lines) := by
  have h := congrArg Scanner.found <| s.cut_below lines above .gap
  unfold finish
  rw [show (s.below lines above).cut .gap = _ from s.cut_below lines above .gap]
  simp [below, List.map_reverse]

variable {s}

-- A line feed ends what is under way.
theorem step_lineFeed (h : ¬s.mode.isSpan) :
    s.step '\n' = ⟨s.position.after '\n', .gap, s.finish.reverse⟩ := by
  have hb : isBlank '\n' := by decide
  rcases s with ⟨p, _ | _ | _ | _, found⟩
  case span    => exact absurd rfl h
  case comment => simp [step, feed, cut, Mode.pending?, finish]
  case gap | atom => simp [step, feed, separate, cut, Mode.pending?, finish, hb]

end Scanner

namespace Token

-- The text ends inside of a span.
def endsInSpan (source : String) : Bool :=
  (Scanner.run {} source.toList).mode.isSpan

-- The second text starts on the line below the last one of the first.
theorem scan_joined {first : String} (h : ¬endsInSpan first) (second : String) :
    scan (first ++ "\n" ++ second) =
      scan first ++ (scan second).map (·.below (first.toList.count '\n' + 1)) := by
  let lines := first.toList.count '\n' + 1
  let s := Scanner.run {} first.toList
  have hp : s.position.after '\n' = Position.start.below lines := by
    have hb : s.position = .behind first.toList :=
      (Scanner.run_position {} _).trans (Position.behind_append [] _).symm
    rw [hb, Position.after_lineFeed, Position.below, Position.start]
    exact congrArg (Position.mk · 1) (by simp only [Position.behind, lines]; omega)
  have hs : s.step '\n' = Scanner.below lines s.finish.reverse {} := by
    rw [Scanner.step_lineFeed h, hp]
    rfl
  have hr : Scanner.run {} (first ++ "\n" ++ second).toList =
      (s.step '\n').run second.toList := by
    simp [String.toList_append, Scanner.run, s]
  rw [scan, hr, hs, Scanner.run_below, Scanner.finish_below, List.reverse_reverse]
  rfl

end Token
end ScopedLisp
