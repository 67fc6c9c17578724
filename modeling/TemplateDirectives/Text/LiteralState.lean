/-
Quoted stretches in argument text.

Argument text is code of a host language.  Its readers need to know no more of
that language than where a string literal begins and ends: it opens with either
quote, ends at the next unescaped quote of the same kind, and a backslash inside
it takes the following character along.
-/
import TemplateDirectives.Text.Basic

namespace TemplateDirectives

/-- Where a character stands with respect to string literals. -/
inductive LiteralState where
  /-- Outside every literal. -/
  | outside
  /-- Inside the literal that `quote` opened. -/
  | inside (quote : Char)
  /-- Inside that literal, right after a backslash. -/
  | escaped (quote : Char)
  deriving DecidableEq

namespace LiteralState

/-- The state after reading one character. -/
def step : LiteralState → Char → LiteralState
  | .outside, c => if c = '\'' ∨ c = '"' then .inside c else .outside
  | .inside q, c => if c = '\\' then .escaped q else if c = q then .outside else .inside q
  | .escaped q, _ => .inside q

def run (s : LiteralState) (t : Text) : LiteralState := t.foldl step s

@[simp] theorem run_nil (s : LiteralState) : s.run [] = s := rfl

@[simp] theorem run_cons (s : LiteralState) (c : Char) (t : Text) :
    s.run (c :: t) = (s.step c).run t := rfl

theorem run_append (s : LiteralState) (t u : Text) : s.run (t ++ u) = (s.run t).run u :=
  List.foldl_append

end LiteralState
end TemplateDirectives
