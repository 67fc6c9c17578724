/-
Field names in quotes.

A field is named by the first argument of a list, most often as a string literal.  Nothing separates
inside a literal, so the comma that ends the argument is the first one behind the closing quote, and
what was cut off there is the literal with blanks around it (`head?_split_literal`).  Taking the
blanks and the quotes away leaves the name as it was written, and of the suffixes at its end one is
the array suffix and all others belong to the name (`fieldName?_literal`).
-/
import TemplateDirectives.Proofs.ArgumentLists

namespace TemplateDirectives

namespace Text

variable {p : Char → Bool} {lead t gap : Text}

theorem dropEndWhile_append_of_stop (hgap : ∀ c ∈ gap, p c = true)
    (ht : t.getLast?.any p = false) : dropEndWhile p (t ++ gap) = t := by
  rw [dropEndWhile, List.reverse_append,
    dropWhile_append_of_stop (fun c hc => hgap c (List.mem_reverse.mp hc))
      (by rwa [List.head?_reverse]),
    List.reverse_reverse]

/-- Trimming takes away just the blanks that stand around a text. -/
theorem trim_append (hlead : ∀ c ∈ lead, isBlank c = true) (hgap : ∀ c ∈ gap, isBlank c = true)
    (hfirst : (t ++ gap).head?.any isBlank = false) (hlast : t.getLast?.any isBlank = false) :
    trim (lead ++ (t ++ gap)) = t := by
  rw [trim, trimStart, dropWhile_append_of_stop hlead hfirst, trimEnd,
    dropEndWhile_append_of_stop hgap hlast]

end Text

namespace Directive
namespace Arguments

variable {q : Char} {s n lead gap rest : Text}

theorem isBlank_quote (hq : q = '\'' ∨ q = '"') : Text.isBlank q = false := by
  rcases hq with rfl | rfl <;> rfl

/-! ## Stretches that nothing separates -/

namespace Nesting

variable {k m : Nesting} {a b : Text} {c : Char}

/-- Read on from `k`, a text is not cut, and `m` is open behind it. -/
structure Passes (k : Nesting) (a : Text) (m : Nesting) : Prop where
  atomic : AtomicFrom k a
  run : k.run a = m

theorem passes_nil (k : Nesting) : k.Passes [] k :=
  ⟨fun before after h => by simp at h, rfl⟩

theorem passes_cons (hsep : ¬ k.Separates c) (h : (k.step c).Passes a m) : k.Passes (c :: a) m :=
  ⟨atomicFrom_cons.mpr ⟨hsep, h.atomic⟩, h.run⟩

theorem Passes.append (ha : k.Passes a m) {l : Nesting} (hb : m.Passes b l) :
    k.Passes (a ++ b) l := by
  induction a generalizing k with
  | nil =>
    obtain ⟨-, rfl⟩ := ha
    exact hb
  | cons c a ih =>
    obtain ⟨hatomic, hrun⟩ := ha
    obtain ⟨hsep, hrest⟩ := atomicFrom_cons.mp hatomic
    exact passes_cons hsep (ih ⟨hrest, hrun⟩)

/-- Characters that open and close nothing and do not separate are passed over. -/
theorem passes_of_forall (h : ∀ c ∈ a, ¬ k.Separates c ∧ k.step c = k) : k.Passes a k := by
  induction a with
  | nil => exact passes_nil k
  | cons c a ih =>
    obtain ⟨⟨hsep, hstep⟩, hrest⟩ := List.forall_mem_cons.mp h
    refine passes_cons hsep ?_
    rw [hstep]
    exact ih hrest

theorem passes_blanks (hgap : ∀ c ∈ gap, Text.isBlank c = true) : top.Passes gap top := by
  refine passes_of_forall fun c hc => ?_
  have hblank := hgap c hc
  have hother : ∀ d : Char, Text.isBlank d = false → c ≠ d := by
    rintro d hd rfl
    rw [hblank] at hd
    cases hd
  have hquote : ¬ (c = '\'' ∨ c = '"') := not_or.mpr ⟨hother _ rfl, hother _ rfl⟩
  have hopening : ¬ (c = '(' ∨ c = '[' ∨ c = '{') :=
    not_or.mpr ⟨hother _ rfl, not_or.mpr ⟨hother _ rfl, hother _ rfl⟩⟩
  have hclosing : ¬ (c = ')' ∨ c = ']' ∨ c = '}') :=
    not_or.mpr ⟨hother _ rfl, not_or.mpr ⟨hother _ rfl, hother _ rfl⟩⟩
  refine ⟨fun hsep => hother ',' rfl hsep.2, ?_⟩
  rw [step, top, if_pos rfl, depthAfter, if_neg hopening, if_neg hclosing, LiteralState.step,
    if_neg hquote]

/-- What a literal holds is passed over up to its closing quote, and then nothing is open. -/
theorem passes_literal (hq : q = '\'' ∨ q = '"') (hquote : q ∉ s) (hbackslash : '\\' ∉ s) :
    top.Passes (q :: (s ++ [q])) top := by
  have hopen : top.step q = ⟨0, .inside q⟩ := by rcases hq with rfl | rfl <;> rfl
  have hclose : (⟨0, .inside q⟩ : Nesting).step q = top := by rcases hq with rfl | rfl <;> rfl
  have hinside : ∀ c, ¬ (⟨0, .inside q⟩ : Nesting).Separates c := fun c h => by cases h.1
  have hcontent : (⟨0, .inside q⟩ : Nesting).Passes s ⟨0, .inside q⟩ := by
    refine passes_of_forall fun c hc => ⟨hinside c, ?_⟩
    have hcq : c ≠ q := fun h => hquote (h ▸ hc)
    have hcb : c ≠ '\\' := fun h => hbackslash (h ▸ hc)
    rw [step, if_neg LiteralState.noConfusion, LiteralState.step, if_neg hcb, if_neg hcq]
  have hend : (⟨0, .inside q⟩ : Nesting).Passes [q] top := by
    refine passes_cons (hinside q) ?_
    rw [hclose]
    exact passes_nil top
  refine passes_cons (fun h => ?_) ?_
  · obtain ⟨-, rfl⟩ := h
    rcases hq with h | h <;> cases h
  · rw [hopen]
    exact hcontent.append hend

/-- The first piece ends at a comma, or with the text, when nothing separates before. -/
theorem head?_pieces (h : top.Passes a top) (hb : ∀ c, b.head? = some c → c = ',') :
    (top.pieces (a ++ b)).head? = some a := by
  have ha := pieces_eq_singleton_iff.mpr h.atomic
  cases b with
  | nil => rw [List.append_nil, ha, List.head?_cons]
  | cons c b =>
    rw [hb c rfl, pieces_append_comma h.run, ha, List.singleton_append, List.head?_cons]

end Nesting

/-! ## The first argument -/

/-- What may stand behind an argument: blanks, and then a comma with any text, or nothing more. -/
def EndsArgument (rest : Text) : Prop :=
  ∃ gap more, rest = gap ++ more ∧ (∀ c ∈ gap, Text.isBlank c = true) ∧
    ∀ c, more.head? = some c → c = ','

/-- A literal has no blanks at its ends, whatever it holds. -/
theorem trim_literal (hq : q = '\'' ∨ q = '"') (hlead : ∀ c ∈ lead, Text.isBlank c = true)
    (hgap : ∀ c ∈ gap, Text.isBlank c = true) :
    Text.trim (lead ++ (q :: (s ++ [q]) ++ gap)) = q :: (s ++ [q]) := by
  have hbare := isBlank_quote hq
  refine Text.trim_append hlead hgap hbare ?_
  rw [← List.cons_append, List.getLast?_concat]
  exact hbare

theorem head?_split_literal (hq : q = '\'' ∨ q = '"') (hquote : q ∉ s) (hbackslash : '\\' ∉ s)
    (hlead : ∀ c ∈ lead, Text.isBlank c = true) (hrest : EndsArgument rest) :
    (split (lead ++ (q :: (s ++ [q]) ++ rest))).head? = some (q :: (s ++ [q])) := by
  obtain ⟨gap, more, rfl, hgap, hmore⟩ := hrest
  have hpasses := (Nesting.passes_blanks hlead).append
    ((Nesting.passes_literal hq hquote hbackslash).append (Nesting.passes_blanks hgap))
  have hpiece := Nesting.head?_pieces hpasses hmore
  rw [List.append_assoc, List.append_assoc] at hpiece
  have hblank : Text.isBlankText (lead ++ (q :: (s ++ [q]) ++ (gap ++ more))) = false := by
    rw [Text.isBlankText, List.all_append, List.cons_append, List.all_cons, isBlank_quote hq,
      Bool.false_and, Bool.and_false]
  rw [split_of_not_blank hblank, List.head?_map, hpiece, Option.map_some,
    trim_literal hq hlead hgap]

theorem between?_literal (q : Char) (s : Text) : between? q (q :: (s ++ [q])) = some s := by
  have hends : q = q ∧ (s ++ [q]).getLast? = some q := ⟨rfl, List.getLast?_concat⟩
  rw [between?, if_pos hends, List.dropLast_concat]

theorem unquote_literal (hq : q = '\'' ∨ q = '"') (s : Text) : unquote (q :: (s ++ [q])) = s := by
  have htrim : Text.trim ([] ++ (q :: (s ++ [q]) ++ [])) = q :: (s ++ [q]) :=
    trim_literal hq (by simp) (by simp)
  rw [List.nil_append, List.append_nil] at htrim
  rcases hq with rfl | rfl
  · rw [unquote, htrim, between?_literal]
  · rw [unquote, htrim, between?_literal]
    rfl

/-! ## The name -/

theorem stripArraySuffix_append (n : Text) : stripArraySuffix (n ++ arraySuffix) = n := by
  have hsuffix : arraySuffix.isSuffixOf (n ++ arraySuffix) = true :=
    List.isSuffixOf_iff_suffix.mpr (List.suffix_append n arraySuffix)
  rw [stripArraySuffix, if_pos hsuffix, List.length_append, Nat.add_sub_cancel, List.take_left]

theorem stripArraySuffix_of_not_isSuffix (h : ¬ arraySuffix <:+ n) : stripArraySuffix n = n := by
  rw [stripArraySuffix, if_neg fun hs => h (List.isSuffixOf_iff_suffix.mp hs)]

theorem fieldName?_of_literal (hq : q = '\'' ∨ q = '"') (hquote : q ∉ s) (hbackslash : '\\' ∉ s)
    (hlead : ∀ c ∈ lead, Text.isBlank c = true) (hrest : EndsArgument rest) :
    fieldName? (lead ++ (q :: (s ++ [q]) ++ rest)) =
      if stripArraySuffix s = [] then none else some (stripArraySuffix s) := by
  rw [fieldName?, head?_split_literal hq hquote hbackslash hlead hrest]
  simp only [unquote_literal hq]

/-- For every name in quotes without its quote and without backslashes, whatever arguments follow
it: the name is found without its quotes, and one array suffix is taken from behind it. -/
theorem fieldName?_literal (hq : q = '\'' ∨ q = '"') (hn : n ≠ []) (hquote : q ∉ n)
    (hbackslash : '\\' ∉ n) (hlead : ∀ c ∈ lead, Text.isBlank c = true)
    (hrest : EndsArgument rest) :
    fieldName? (lead ++ (q :: (n ++ arraySuffix ++ [q]) ++ rest)) = some n ∧
      (¬ arraySuffix <:+ n → fieldName? (lead ++ (q :: (n ++ [q]) ++ rest)) = some n) := by
  constructor
  · have hother : ∀ d, d ∉ arraySuffix → d ∉ n → d ∉ n ++ arraySuffix := fun d hsuffix hd => by
      rw [List.mem_append, not_or]
      exact ⟨hd, hsuffix⟩
    have hq' : q ∉ arraySuffix := by rcases hq with rfl | rfl <;> decide
    rw [fieldName?_of_literal hq (hother q hq' hquote) (hother '\\' (by decide) hbackslash) hlead
      hrest, stripArraySuffix_append, if_neg hn]
  · intro hsuffix
    rw [fieldName?_of_literal hq hquote hbackslash hlead hrest,
      stripArraySuffix_of_not_isSuffix hsuffix, if_neg hn]

/-- A name of an array field may hold commas, brackets and the other quote, and one suffix more
than is taken from it.  A bracket that stays open behind the comma does no harm. -/
theorem fieldName?_literal_arrayField :
    EndsArgument " , [open".toList ∧
      fieldName? "\n'it, \"(so[][]' , [open".toList = some "it, \"(so[]".toList ∧
      fieldName? "\n\"it's\" , [open".toList = some "it's".toList := by
  have hrest : EndsArgument " , [open".toList :=
    ⟨[' '], ", [open".toList, rfl, List.forall_mem_singleton.mpr rfl,
      fun c hc => (Option.some.inj hc).symm⟩
  have hlead : ∀ c ∈ ['\n'], Text.isBlank c = true := List.forall_mem_singleton.mpr rfl
  have harray := fieldName?_literal (q := '\'') (n := "it, \"(so[]".toList) (.inl rfl) (by decide)
    (by decide +kernel) (by decide +kernel) hlead hrest
  have hplain := fieldName?_literal (q := '"') (n := "it's".toList) (.inr rfl) (by decide)
    (by decide +kernel) (by decide +kernel) hlead hrest
  exact ⟨hrest, harray.1, hplain.2 (by decide +kernel)⟩

end Arguments
end Directive
end TemplateDirectives
