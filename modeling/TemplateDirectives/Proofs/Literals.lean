/-
Literals in single quotes.

`Php.readLiteral` reads a text from inside a literal, as the host language does: the
content comes back with its escapes taken off, and the first quote without a backslash
ends the literal.  What `singleQuoted` writes is read back as the text it was written
for, whatever stands behind it (`readLiteral_singleQuoted_append`).  So no text can end
the literal that the compiler puts it in, or reach over its closing quote
(`singleQuoted_denotes`).
-/
import TemplateDirectives.HostLanguage

namespace TemplateDirectives

/-- The text with `replacement` in every place where `c` stands. -/
def Text.replaced (t : Text) (c : Char) (replacement : Text) : Text :=
  t.flatMap fun d => if d = c then replacement else [d]

theorem Text.replaced_cons (d : Char) (t : Text) (c : Char) (replacement : Text) :
    Text.replaced (d :: t) c replacement =
      (if d = c then replacement else [d]) ++ t.replaced c replacement := rfl

namespace Php

/-! ## Reading a literal -/

/-- How far a text, read from inside a literal, takes it. -/
inductive LiteralReading where
  /-- A quote ends the literal, and `behind` follows the quote. -/
  | ended (content behind : Text)
  /-- The text stops in the literal, between two of its characters. -/
  | inside (content : Text)
  /-- The text stops right after a backslash that may begin an escape. -/
  | escaping (content : Text)
  deriving DecidableEq

/-- The same with more content in front. -/
def LiteralReading.prepend (s : Text) : LiteralReading → LiteralReading
  | ended content behind => ended (s ++ content) behind
  | inside content => inside (s ++ content)
  | escaping content => escaping (s ++ content)

/-- A backslash takes another one, or a quote, as it is.  In front of any other character
it stands for itself, as all other characters do. -/
def readLiteral : Text → LiteralReading
  | [] => .inside []
  | '\'' :: rest => .ended [] rest
  | '\\' :: [] => .escaping []
  | '\\' :: c :: rest =>
    if c = '\\' ∨ c = '\'' then (readLiteral rest).prepend [c]
    else (readLiteral (c :: rest)).prepend ['\\']
  | c :: rest => (readLiteral rest).prepend [c]

theorem readLiteral_escape {c : Char} (hc : c = '\\' ∨ c = '\'') (rest : Text) :
    readLiteral ('\\' :: c :: rest) = (readLiteral rest).prepend [c] := by
  rw [readLiteral, if_pos hc]

theorem readLiteral_plain {c : Char} (hc : ¬ (c = '\\' ∨ c = '\'')) (rest : Text) :
    readLiteral (c :: rest) = (readLiteral rest).prepend [c] := by
  obtain ⟨hbackslash, hquote⟩ := not_or.mp hc
  rw [readLiteral]
  · exact hquote
  · exact fun h _ => hbackslash h
  · exact fun _ _ h _ => hbackslash h

theorem LiteralReading.prepend_prepend (s u : Text) (r : LiteralReading) :
    (r.prepend u).prepend s = r.prepend (s ++ u) := by
  cases r <;> simp only [prepend, List.append_assoc]

theorem LiteralReading.prepend_nil (r : LiteralReading) : r.prepend [] = r := by
  cases r <;> rfl

/-! ## Reading what was written -/

/-- Each character is read back before anything behind it is looked at, so what follows
cannot change the content. -/
theorem readLiteral_singleQuoted_append (t u : Text) :
    readLiteral (singleQuoted t ++ u) = (readLiteral u).prepend t := by
  induction t with
  | nil => exact (LiteralReading.prepend_nil _).symm
  | cons c t ih =>
    rw [singleQuoted]
    split
    next hc =>
      rw [List.cons_append, List.cons_append, readLiteral_escape hc, ih,
        LiteralReading.prepend_prepend, List.singleton_append]
    next hc =>
      rw [List.cons_append, readLiteral_plain hc, ih, LiteralReading.prepend_prepend,
        List.singleton_append]

theorem readLiteral_singleQuoted (t : Text) : readLiteral (singleQuoted t) = .inside t := by
  have h := readLiteral_singleQuoted_append t []
  rwa [List.append_nil, readLiteral, LiteralReading.prepend, List.append_nil] at h

theorem readLiteral_singleQuoted_quote (t behind : Text) :
    readLiteral (singleQuoted t ++ '\'' :: behind) = .ended t behind := by
  rw [readLiteral_singleQuoted_append, readLiteral, LiteralReading.prepend, List.append_nil]

/-- Escaping backslashes first leaves only the quotes of the text to escape, and the
backslashes that these are given are not doubled. -/
theorem singleQuoted_eq_replaced (t : Text) :
    singleQuoted t = (t.replaced '\\' ['\\', '\\']).replaced '\'' ['\\', '\''] := by
  induction t with
  | nil => rfl
  | cons c t ih =>
    rw [singleQuoted, Text.replaced_cons]
    by_cases hbackslash : c = '\\'
    · subst hbackslash
      rw [if_pos (.inl rfl), if_pos rfl, ih]
      rfl
    · rw [if_neg hbackslash, List.singleton_append, Text.replaced_cons]
      by_cases hquote : c = '\''
      · subst hquote
        rw [if_pos (.inr rfl), if_pos rfl, ih]
        rfl
      · rw [if_neg (not_or.mpr ⟨hbackslash, hquote⟩), if_neg hquote, ih, List.singleton_append]

/-! ## The literals of the compiler -/

/-- What a conditional text ends with, behind the quote that opens its literal. -/
theorem exists_conditional_eq (condition t : Text) : ∃ literal,
    conditional condition t = "<?php echo ".toList ++ condition ++ " ? '".toList ++ literal ∧
      readLiteral literal = .ended t " : '' ?>".toList := by
  have hquote : "' : '' ?>".toList = '\'' :: " : '' ?>".toList := by decide +kernel
  refine ⟨singleQuoted t ++ "' : '' ?>".toList, ?_, ?_⟩
  · unfold conditional
    exact List.append_assoc _ _ _
  · rw [hquote, readLiteral_singleQuoted_quote]

theorem exists_capture_eq (handler : HandlerName) (t body arguments : Text) : ∃ literal,
    capture handler t body arguments =
        "<?php ob_start() ?>".toList ++ body ++ "<?php echo ".toList ++ handler.written ++
          "('".toList ++ literal ∧
      readLiteral literal = .ended t (",ob_get_clean()".toList ++
        (if Text.isBlankText arguments then [] else ',' :: arguments) ++ ") ?>".toList) := by
  have hquote : "',ob_get_clean()".toList = '\'' :: ",ob_get_clean()".toList := by decide +kernel
  refine ⟨singleQuoted t ++ ("',ob_get_clean()".toList ++
    (if Text.isBlankText arguments then [] else ',' :: arguments) ++ ") ?>".toList), ?_, ?_⟩
  · unfold capture
    simp only [List.append_assoc]
  · rw [hquote, List.cons_append, List.cons_append, readLiteral_singleQuoted_quote]

theorem singleQuoted_injective : Function.Injective singleQuoted := by
  intro t u h
  have hread := readLiteral_singleQuoted t
  rw [h, readLiteral_singleQuoted] at hread
  exact (LiteralReading.inside.inj hread).symm

/-- The inside of a literal is the text with its backslashes and then its quotes escaped, and is
read as this text, to its very end.  In a conditional text and in a capturing call the literal
that begins behind the opening quote ends at the quote that the compiler closes it with, and
stands for the text and for the indentation. -/
theorem singleQuoted_denotes :
    (∀ t, singleQuoted t = (t.replaced '\\' ['\\', '\\']).replaced '\'' ['\\', '\''] ∧
      readLiteral (singleQuoted t) = .inside t) ∧
    (∀ condition t, ∃ literal,
      HostLanguage.php.conditional condition t =
        "<?php echo ".toList ++ condition ++ " ? '".toList ++ literal ∧
      readLiteral literal = .ended t " : '' ?>".toList) ∧
    (∀ handler t body arguments, ∃ literal,
      HostLanguage.php.capture handler t body arguments =
        "<?php ob_start() ?>".toList ++ body ++ "<?php echo ".toList ++ handler.written ++
          "('".toList ++ literal ∧
      readLiteral literal = .ended t (",ob_get_clean()".toList ++
        (if Text.isBlankText arguments then [] else ',' :: arguments) ++ ") ?>".toList)) ∧
    Function.Injective singleQuoted :=
  ⟨fun t => ⟨singleQuoted_eq_replaced t, readLiteral_singleQuoted t⟩, exists_conditional_eq,
    exists_capture_eq, singleQuoted_injective⟩

/-- A text that ends in a backslash does not take the closing quote along. -/
example : readLiteral (singleQuoted ['\'', '\\', '\\'] ++ ['\'', ';']) =
    .ended ['\'', '\\', '\\'] [';'] := by
  decide

end Php
end TemplateDirectives
