/-
Glob patterns, which select files by their relative paths.

A pattern is read into tokens.  `?` stands for one character, `*` for any
number of them, `[...]` and `[!...]` for one character of a set, and `**` for
any number of whole path components.  Every other character stands for itself.
`Pattern.ofText` refuses three kinds of text, and its errors say where.
-/
import TemplateDirectives.Text.Basic

namespace TemplateDirectives
namespace Glob

/-- Part of a character set: one character, or all between two. -/
inductive CharClass where
  | single (c : Char)
  | range (first last : Char)
  deriving DecidableEq

namespace CharClass

def contains : CharClass → Char → Bool
  | single d, c => c == d
  | range first last, c => first ≤ c && c ≤ last

/-- The parts of a set as written between brackets.  A hyphen between two
characters makes a range of the three. -/
def ofText : Text → List CharClass
  | a :: '-' :: b :: rest => range a b :: ofText rest
  | a :: rest => single a :: ofText rest
  | [] => []

end CharClass

/-- What a pattern asks for, token by token. -/
inductive Token where
  | char (c : Char)
  | anyChar
  | anyOf (set : List CharClass)
  | noneOf (set : List CharClass)
  | sequence
  /-- Any sequence of whole components. -/
  | components
  deriving DecidableEq

/-- Why a text is no pattern, with the position that is blamed. -/
inductive PatternError where
  | wildcards (position : Nat)
  /-- Two stars that are not a component of their own. -/
  | recursive (position : Nat)
  /-- A bracket that opens no set. -/
  | invalidRange (position : Nat)
  deriving DecidableEq

def PatternError.message : PatternError → String
  | .wildcards p =>
    s!"Pattern syntax error near position {p}: " ++
      "wildcards are either regular `*` or recursive `**`"
  | .recursive p =>
    s!"Pattern syntax error near position {p}: " ++
      "recursive wildcards must form a single path component"
  | .invalidRange p => s!"Pattern syntax error near position {p}: invalid range pattern"

/-- A set, read from what follows its opening bracket, and the text behind its
closing one.  The first character of a set is in it even when it is a closing
bracket. -/
def readSet? : Text → Option (Token × Text)
  | '!' :: first :: rest =>
    (Text.cutAt? [']'] rest).map fun (more, after) =>
      (.noneOf (CharClass.ofText (first :: more)), after)
  | '!' :: [] => none
  | first :: rest =>
    (Text.cutAt? [']'] rest).map fun (more, after) =>
      (.anyOf (CharClass.ofText (first :: more)), after)
  | [] => none

theorem length_of_readSet? {t after : Text} {token : Token} (h : readSet? t = some (token, after)) :
    after.length + 1 < t.length := by
  unfold readSet? at h
  split at h
  next first rest =>
    obtain ⟨⟨more, found⟩, hc, he⟩ := Option.map_eq_some_iff.mp h
    obtain ⟨_, rfl⟩ := Prod.mk.inj he
    have := Text.length_of_cutAt? hc
    simp at this ⊢
    omega
  next => simp at h
  next first rest _ _ =>
    obtain ⟨⟨more, found⟩, hc, he⟩ := Option.map_eq_some_iff.mp h
    obtain ⟨_, rfl⟩ := Prod.mk.inj he
    have := Text.length_of_cutAt? hc
    simp at this ⊢
    omega
  next => simp at h

/-- Add the token of two stars.  Right after another such token it adds nothing,
except when that one is the whole pattern so far.  Tokens are in reverse. -/
def addComponents : List Token → List Token
  | .components :: t :: ts => .components :: t :: ts
  | ts => .components :: ts

/-- Read the text from `position` on.  `previous` is the character before it,
and `made` are the tokens before it, in reverse. -/
def readTokens (position : Nat) (previous : Option Char) (made : List Token) :
    Text → Except PatternError (List Token)
  | [] => .ok made.reverse
  | '?' :: rest => readTokens (position + 1) (some '?') (.anyChar :: made) rest
  | '*' :: '*' :: '*' :: _ => .error (.wildcards (position + 2))
  | '*' :: '*' :: rest =>
    if previous.all (· == '/') then
      match rest with
      | [] => .ok (addComponents made).reverse
      | '/' :: rest => readTokens (position + 3) (some '/') (addComponents made) rest
      | _ => .error (.recursive (position + 2))
    else .error (.recursive (position - 1))
  | '*' :: rest => readTokens (position + 1) (some '*') (.sequence :: made) rest
  | '[' :: rest =>
    match h : readSet? rest with
    | none => .error (.invalidRange position)
    | some (token, after) =>
      readTokens (position + 1 + (rest.length - after.length)) (some ']') (token :: made) after
  | c :: rest => readTokens (position + 1) (some c) (.char c :: made) rest
termination_by t => t.length
decreasing_by
  · simp only [List.length_cons]
    omega
  · simp only [List.length_cons]
    omega
  · simp only [List.length_cons]
    omega
  · have := length_of_readSet? h
    simp only [List.length_cons]
    omega
  · simp only [List.length_cons]
    omega

structure Pattern where
  tokens : List Token
  deriving DecidableEq

def Pattern.ofText (t : Text) : Except PatternError Pattern :=
  match readTokens 0 none [] t with
  | .ok tokens => .ok ⟨tokens⟩
  | .error e => .error e

end Glob
end TemplateDirectives
