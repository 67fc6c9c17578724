/-
How the expander reads a value.

Expansion goes through a value from left to right and stops at every dollar sign.
`Expansion.pieces` is what it reads there: the references in braces, the variables without
braces, the pairs of dollar signs, and the characters between them.  The pieces one behind
the other are the value (`flatMap_written_pieces`), and what is put in their places is the
expanded value (`replaceAll_eq_flatMap`).  So what expansion does to a value is said piece
by piece.
-/
import TemplateDirectives.Config.Load
import TemplateDirectives.Proofs.Cuts

namespace TemplateDirectives
namespace Expansion

/-! ## Pieces -/

/-- A piece of a value. -/
inductive Piece where
  | char (c : Char)
  /-- Two dollar signs, which stand for one. -/
  | dollars
  /-- A variable without braces. -/
  | bare (name : Text)
  /-- A reference in braces, and what they enclose. -/
  | reference (inner : Text)
  deriving DecidableEq

namespace Piece

def written : Piece → Text
  | char c => [c]
  | dollars => ['$', '$']
  | bare name => '$' :: name
  | reference inner => opening ++ (inner ++ closing)

/-- What expansion puts in the place of a piece. -/
def expanded (env : Environment) : Piece → Text
  | char c => [c]
  | dollars => ['$']
  | bare name => (env name).getD ('$' :: name)
  | reference inner => Expansion.reference env inner

/-- The piece with references in braces replaced, and all else as it is written. -/
def substituted (env : Environment) : Piece → Text
  | reference inner => Expansion.reference env inner
  | p => p.written

end Piece

/-- The pieces of a value.  An opening without a closing behind it is two characters. -/
def pieces : Text → List Piece
  | '$' :: '\x7b' :: rest =>
    match _h : Text.cutAt? closing rest with
    | none => .char '$' :: .char '\x7b' :: pieces rest
    | some (inner, after) => .reference inner :: pieces after
  | '$' :: '$' :: rest => .dollars :: pieces rest
  | '$' :: rest =>
    let name := rest.takeWhile isNameChar
    if name = [] then .char '$' :: pieces rest
    else .bare name :: pieces (rest.dropWhile isNameChar)
  | c :: rest => .char c :: pieces rest
  | [] => []
termination_by t => t.length
decreasing_by
  · simp only [List.length_cons]
    omega
  · have := Text.length_of_cutAt? _h
    simp only [List.length_cons]
    omega
  · simp only [List.length_cons]
    omega
  · simp only [List.length_cons]
    omega
  · have := (List.dropWhile_suffix isNameChar (l := rest)).length_le
    simp only [List.length_cons]
    omega
  · simp only [List.length_cons]
    omega

theorem pieces_char {c : Char} (h : c ≠ '$') (rest : Text) :
    pieces (c :: rest) = .char c :: pieces rest := by
  rw [pieces]
  · exact fun _ hc => absurd hc h
  · exact fun _ hc => absurd hc h
  · exact h

theorem pieces_reference {rest inner after : Text}
    (h : Text.cutAt? closing rest = some (inner, after)) :
    pieces (opening ++ rest) = .reference inner :: pieces after := by
  show pieces ('$' :: '\x7b' :: rest) = _
  rw [pieces]
  split
  next h' =>
    rw [h] at h'
    cases h'
  next h' =>
    rw [h] at h'
    cases h'
    rfl

theorem flatMap_written_pieces (t : Text) : (pieces t).flatMap Piece.written = t := by
  fun_induction pieces t with
  | case1 rest h ih => simp [Piece.written, ih]
  | case2 rest inner after h ih =>
    simp [Piece.written, ih, Text.cutAt?_eq_some h, opening, closing]
  | case3 rest ih => simp [Piece.written, ih]
  | case4 rest _ _ name hname ih => simp [Piece.written, ih]
  | case5 rest _ _ name hname ih => simp [Piece.written, ih, name]
  | case6 c rest _ _ _ ih => simp [Piece.written, ih]
  | case7 => rfl

/-- Expansion puts something in the place of every piece, and what it puts there is not read
again. -/
theorem replaceAll_eq_flatMap (env : Environment) (t : Text) :
    replaceAll env t = (pieces t).flatMap (Piece.expanded env) := by
  fun_induction pieces t with
  | case1 rest h ih =>
    rw [replaceAll]
    split
    next => simp [Piece.expanded, ih]
    next h' => simp [h] at h'
  | case2 rest inner after h ih =>
    rw [replaceAll]
    split
    next h' => simp [h] at h'
    next h' =>
      rw [h] at h'
      cases h'
      simp [Piece.expanded, ih]
  | case3 rest ih => simp [replaceAll, Piece.expanded, ih]
  | case4 rest hopening hdollar name hname ih =>
    rw [replaceAll]
    · show (if name = [] then _ else _) = _
      rw [if_pos hname, ih]
      rfl
    · exact hopening
    · exact hdollar
  | case5 rest hopening hdollar name hname ih =>
    rw [replaceAll]
    · show (if name = [] then _ else _) = _
      rw [if_neg hname, ih]
      rfl
    · exact hopening
    · exact hdollar
  | case6 c rest hopening hdollar hsign ih =>
    rw [replaceAll]
    · rw [ih]
      rfl
    · exact hopening
    · exact hdollar
    · exact hsign
  | case7 =>
    rw [replaceAll]
    rfl

/-! ## Pieces in the value -/

variable {t : Text} {env : Environment} {p : Piece}

theorem written_isInfix (h : p ∈ pieces t) : p.written <:+: t := by
  obtain ⟨before, after, hsplit⟩ := List.append_of_mem h
  refine ⟨before.flatMap Piece.written, after.flatMap Piece.written, ?_⟩
  conv => rhs; rw [← flatMap_written_pieces t, hsplit]
  simp

/-- A value without an opening has no references to substitute. -/
theorem flatMap_substituted_of_not_isInfix (env : Environment) (h : ¬ opening <:+: t) :
    (pieces t).flatMap (Piece.substituted env) = t := by
  conv => rhs; rw [← flatMap_written_pieces t]
  refine List.flatMap_congr fun p hp => ?_
  cases p with
  | reference inner => exact absurd ((List.prefix_append _ _).isInfix.trans (written_isInfix hp)) h
  | char c => rfl
  | dollars => rfl
  | bare name => rfl

/-- Without pairs of dollar signs and without variables that are set, only the references in
braces change. -/
theorem flatMap_expanded_eq_substituted (hdollars : .dollars ∉ pieces t)
    (hbare : ∀ name, .bare name ∈ pieces t → env name = none) :
    (pieces t).flatMap (Piece.expanded env) = (pieces t).flatMap (Piece.substituted env) := by
  refine List.flatMap_congr fun p hp => ?_
  cases p with
  | char c => rfl
  | dollars => exact absurd hp hdollars
  | bare name => simp [Piece.expanded, Piece.substituted, Piece.written, hbare name hp]
  | reference inner => rfl

end Expansion
end TemplateDirectives
