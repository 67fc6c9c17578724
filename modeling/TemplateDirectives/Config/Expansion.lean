/-
References to environment variables in settings.

`${NAME}` stands for the value of a variable and `${NAME:-DEFAULT}` for the
default when the variable is not set.  A value without `${` is left as it is.  In
any other value a plain `$NAME` is a reference too, and `$$` is a dollar sign.
What a reference is replaced by is not read again.

Before anything is replaced, the references without default are checked: the
first one that names no set variable is the error.
-/
import TemplateDirectives.Text.Alphanumeric

namespace TemplateDirectives

/-- The environment gives the values of the variables that are set. -/
abbrev Environment := Text → Option Text

namespace Expansion

def opening : Text := ['$', '\x7b']

def closing : Text := ['\x7d']

/-- What separates a name from its default. -/
def defaultMark : Text := [':', '-']

/-- Characters of names outside braces. -/
def isNameChar (c : Char) : Bool := Text.isAlphanumeric c || c == '_'

/-- The names that a value needs: those between an opening and the next closing
before another opening, when no default mark stands between. -/
def requiredNames (t : Text) : List Text :=
  ((Text.splitOn opening t).drop 1).filterMap fun piece =>
    match Text.cutAt? closing piece with
    | none => none
    | some (inner, _) => if (Text.cutAt? defaultMark inner).isSome then none else some inner

/-- What the inside of a reference is replaced by.  A default mark at the very
beginning belongs to the name.  A reference to nothing stays. -/
def reference (env : Environment) (inner : Text) : Text :=
  match Text.cutAt? defaultMark inner with
  | some (c :: name, fallback) => (env (c :: name)).getD fallback
  | _ => (env inner).getD (opening ++ inner ++ closing)

def replaceAll (env : Environment) : Text → Text
  | '$' :: '\x7b' :: rest =>
    match _h : Text.cutAt? closing rest with
    | none => '$' :: '\x7b' :: replaceAll env rest
    | some (inner, after) => reference env inner ++ replaceAll env after
  | '$' :: '$' :: rest => '$' :: replaceAll env rest
  | '$' :: rest =>
    let name := rest.takeWhile isNameChar
    if name = [] then '$' :: replaceAll env rest
    else (env name).getD ('$' :: name) ++ replaceAll env (rest.dropWhile isNameChar)
  | c :: rest => c :: replaceAll env rest
  | [] => []
termination_by t => t.length
decreasing_by
  · simp only [List.length_cons]
    omega
  · have := Text.length_of_cutAt? _h
    simp only [List.length_cons]
    omega
  · simp only [List.length_cons]
    omega
  · simp only [List.length_cons]
    omega
  · have := (List.dropWhile_suffix isNameChar (l := rest)).length_le
    simp only [List.length_cons]
    omega
  · simp only [List.length_cons]
    omega

/-- Expand a value, or name the variable that it lacks. -/
def expand (env : Environment) (t : Text) : Except Text Text :=
  if (Text.cutAt? opening t).isNone then .ok t
  else
    match (requiredNames t).find? fun name => (env name).isNone with
    | some name => .error name
    | none => .ok (replaceAll env t)

end Expansion
end TemplateDirectives
