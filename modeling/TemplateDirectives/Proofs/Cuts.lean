/-
Laws of cutting a text at a mark.

`Text.cutAt?` and `Text.cutAtLast?` cut at the first and at the last place where a mark
stands.  They fail just where the mark stands nowhere.  When the text before the first place lacks
the character that the mark begins with, or the text behind the last place the one that it ends
with, the cut is known without a search (`cutAt?_append_of_not_mem`,
`cutAtLast?_append_of_not_mem`).
-/
import Mathlib.Data.List.Infix
import TemplateDirectives.Text.Basic

namespace TemplateDirectives
namespace Text

variable {mark t before after : Text} {d : Char}

/-! ## At the first place -/

theorem after?_eq_none_iff : after? mark t = none ↔ ¬ mark <+: t := by
  rw [after?, ← List.isPrefixOf_iff_prefix]
  split
  next h => exact iff_of_false (by simp) (not_not_intro h)
  next h => exact iff_of_true rfl h

theorem cutAt?_eq_none_iff : cutAt? mark t = none ↔ ¬ mark <:+: t := by
  induction t with
  | nil => by_cases h : mark = [] <;> simp [cutAt?, h]
  | cons c rest ih =>
    rw [List.infix_cons_iff, not_or, ← ih, ← after?_eq_none_iff, cutAt?]
    cases after? mark (c :: rest) <;> simp

/-- Cutting at a character takes what stands before its first place. -/
theorem cutAt?_singleton_iff : cutAt? [d] t = some (before, after) ↔
    t = before ++ d :: after ∧ d ∉ before := by
  induction t generalizing before with
  | nil => simp [cutAt?]
  | cons c rest ih =>
    by_cases hc : c = d
    · have hafter : after? [d] (c :: rest) = some rest := after?_eq_some.mpr (by rw [hc]; rfl)
      rw [cutAt?, hafter, hc]
      cases before with
      | nil => simp
      | cons b before => simp +contextual [eq_comm]
    · have hafter : after? [d] (c :: rest) = none := by
        rw [after?_eq_none_iff, List.cons_prefix_cons]
        exact fun h => hc h.1.symm
      simp only [cutAt?, hafter, Option.map_eq_some_iff, Prod.exists, Prod.mk.injEq]
      cases before with
      | nil => simp [hc]
      | cons b before =>
        constructor
        · rintro ⟨u, v, huv, hb, rfl⟩
          obtain ⟨rfl, rfl⟩ := List.cons.inj hb
          obtain ⟨rfl, hd⟩ := ih.mp huv
          exact ⟨rfl, by simp [hd, Ne.symm hc]⟩
        · rintro ⟨ht, hd⟩
          obtain ⟨rfl, hrest⟩ := List.cons.inj ht
          exact ⟨before, after, ih.mpr ⟨hrest, fun h => hd (List.mem_cons_of_mem _ h)⟩, rfl, rfl⟩

/-- A mark is found behind text without its first character. -/
theorem cutAt?_append_of_not_mem (hd : d ∉ before) (mark after : Text) :
    cutAt? (d :: mark) (before ++ (d :: mark ++ after)) = some (before, after) := by
  induction before with
  | nil => rw [List.nil_append, List.cons_append, cutAt?, ← List.cons_append, after?_eq_some.mpr rfl]
  | cons c before ih =>
    rw [List.mem_cons, not_or] at hd
    have hafter : after? (d :: mark) (c :: (before ++ (d :: mark ++ after))) = none := by
      rw [after?_eq_none_iff, List.cons_append, List.cons_prefix_cons]
      exact fun h => hd.1 h.1
    rw [List.cons_append, cutAt?, hafter, ih hd.2]
    rfl

/-! ## At the last place -/

theorem cutAtLast?_eq_none_iff : cutAtLast? mark t = none ↔ ¬ mark <:+: t := by
  rw [cutAtLast?, Option.map_eq_none_iff, cutAt?_eq_none_iff, List.reverse_infix]

/-- A mark is found ahead of text without its last character. -/
theorem cutAtLast?_append_of_not_mem (hd : d ∉ after) (before mark : Text) :
    cutAtLast? (mark ++ [d]) (before ++ (mark ++ [d] ++ after)) = some (before, after) := by
  have hback : d ∉ after.reverse := fun h => hd (List.mem_reverse.mp h)
  have hreverse : (before ++ (mark ++ [d] ++ after)).reverse =
      after.reverse ++ (d :: mark.reverse ++ before.reverse) := by
    rw [List.reverse_append, List.reverse_append, List.reverse_concat, List.append_assoc]
  rw [cutAtLast?, List.reverse_concat, hreverse, cutAt?_append_of_not_mem hback]
  simp only [Option.map_some, List.reverse_reverse]

/-! ## Leading marks -/

theorem dropLeading_of_not_isPrefix (h : ¬ mark <+: t) : dropLeading mark t = t := by
  rw [dropLeading, if_neg fun hp => h (List.isPrefixOf_iff_prefix.mp hp.1)]

theorem dropLeading_append (hmark : mark ≠ []) (t : Text) :
    dropLeading mark (mark ++ t) = dropLeading mark t := by
  have hpos := List.length_pos_iff.mpr hmark
  have hdrop : mark.isPrefixOf (mark ++ t) = true ∧ 0 < mark.length ∧ 0 < (mark ++ t).length := by
    refine ⟨List.isPrefixOf_iff_prefix.mpr (List.prefix_append mark t), hpos, ?_⟩
    rw [List.length_append]
    omega
  rw [dropLeading, if_pos hdrop, List.drop_left]

end Text
end TemplateDirectives
