/-
Which texts a glob pattern matches.

A text is matched when it can be cut into pieces that the tokens describe one
after another.  A star and a set also describe slashes.  The token for whole
components describes nothing, or a stretch that ends with a slash, or all that
is left.
-/
import TemplateDirectives.Glob.Pattern

namespace TemplateDirectives
namespace Glob

/-- All ends of a text, from the text itself to the empty one. -/
def ends : Text → List Text
  | [] => [[]]
  | c :: rest => (c :: rest) :: ends rest

/-- The ends of a text that follow a slash. -/
def endsAfterSlash : Text → List Text
  | [] => []
  | c :: rest => if c = '/' then rest :: endsAfterSlash rest else endsAfterSlash rest

/-- What may be left of a text once whole components are taken from its
beginning. -/
def componentEnds (t : Text) : List Text := t :: endsAfterSlash t ++ [[]]

/-- Whether a token that stands for one character stands for this one. -/
def Token.accepts : Token → Char → Bool
  | .char d, c => c == d
  | .anyChar, _ => true
  | .anyOf set, c => set.any (·.contains c)
  | .noneOf set, c => !set.any (·.contains c)
  | .sequence, _ => false
  | .components, _ => false

/-- Whether the tokens describe the text. -/
def matchTokens : List Token → Text → Bool
  | [], t => t.isEmpty
  | .sequence :: ts, t => (ends t).any fun rest => matchTokens ts rest
  | .components :: ts, t => (componentEnds t).any fun rest => matchTokens ts rest
  | token :: ts, t =>
    match t with
    | [] => false
    | c :: rest => token.accepts c && matchTokens ts rest

def Pattern.matches (p : Pattern) (t : Text) : Bool := matchTokens p.tokens t

end Glob
end TemplateDirectives
