/-
Whether the value of a boolean attribute is the directive alone.

An expression ends at the first closing parenthesis that the closing quote follows, and
the search for it passes over quotes on the way.  So the quote that closes a find need not
be the next one behind the quote that opens it: when a value has more in it than the
directive, the search goes on into the attributes behind it.  `isWhole_enclosed_iff` says
when this happens.  The two quotes are neighbours, and the value between them is the
directive, exactly when the expression holds no such quote.
-/
import TemplateDirectives.Proofs.Edits.Finds

namespace TemplateDirectives
namespace Directive
namespace Attribute

/-- Where the value begins, right behind the opening quote. -/
def valueStart (a : Attribute) : Nat := a.marker - a.head.afterQuote.length

/-- What the opening quote encloses: the text up to the next quote of its kind. -/
def enclosed (t : Text) (a : Attribute) : Text :=
  (t.drop a.valueStart).takeWhile fun c => c != a.head.quote

/-- A value that is the directive and nothing else, blanks aside. -/
def IsWhole (value : Text) : Prop :=
  ∃ before gap expression after : Text,
    (∀ c ∈ before ++ gap ++ after, Text.isBlank c = true) ∧
      value = before ++ (attributeMarker ++ (gap ++ '(' :: (expression ++ ')' :: after)))

/-! ## What reading a value has checked -/

/-- The parts of a value that was read at the beginning of a text. -/
structure Value.IsRead (quote : Char) (t : Text) (v : Value) : Prop where
  gap : ∀ c ∈ v.gap, Text.isBlank c = true
  split : ∃ rest, t = attributeMarker ++ (v.gap ++ '(' :: rest) ∧
    Value.splitClosing? quote rest = some (v.expression, v.beforeQuote)

theorem Value.isRead_of_read? {quote : Char} {t : Text} {v : Value}
    (h : Value.read? quote t = some v) : v.IsRead quote t := by
  unfold Value.read? at h
  split at h
  next => cases h
  next afterMarker hmarker =>
    split at h
    next rest hrest =>
      obtain ⟨⟨expression, gap⟩, hs, rfl⟩ := Option.map_eq_some_iff.mp h
      refine ⟨fun c hc => List.all_eq_true.mp List.all_takeWhile c hc, rest, ?_, hs⟩
      rw [← hrest, List.takeWhile_append_dropWhile]
      exact Text.after?_eq_some.mp hmarker
    next => cases h

theorem isRead_of_find? {t : Text} {cursor : Nat} {a : Attribute}
    (h : find? t cursor = some a) : a.value.IsRead a.head.quote (t.drop a.marker) := by
  obtain ⟨k, -, ha⟩ := Text.exists_of_firstMatch h
  have hmarker := (marker_of_at? ha).1
  rw [List.drop_drop, ← hmarker] at ha
  unfold at? at ha
  split at ha
  next => cases ha
  next =>
    split at ha
    next => cases ha
    next head _ =>
      simp only at ha
      split at ha
      next => cases ha
      next =>
        obtain ⟨value, hvalue, hb⟩ := Option.map_eq_some_iff.mp ha
        have hhead : a.head = head := by rw [← hb]
        have hread : a.value = value := by rw [← hb]
        rw [hhead, hread]
        exact Value.isRead_of_read? hvalue

theorem Value.isBlank_of_splitClosing? {quote : Char} {t expression gap : Text}
    (h : Value.splitClosing? quote t = some (expression, gap)) :
    ∀ c ∈ gap, Text.isBlank c = true := by
  induction t generalizing expression with
  | nil => cases h
  | cons c rest ih =>
    unfold Value.splitClosing? at h
    split at h
    next =>
      cases h
      exact fun d hd => List.all_eq_true.mp List.all_takeWhile d hd
    next =>
      obtain ⟨⟨e, g⟩, hr, he⟩ := Option.map_eq_some_iff.mp h
      cases he
      exact ih hr

/-- An expression goes no further than to a closing parenthesis that the quote follows. -/
theorem Value.length_le_of_splitClosing? {quote : Char} {front gap back expression after : Text}
    (hgap : ∀ c ∈ gap, Text.isBlank c = true) (hquote : Text.isBlank quote = false)
    (h : Value.splitClosing? quote (front ++ ')' :: (gap ++ quote :: back)) =
      some (expression, after)) : expression.length ≤ front.length := by
  have hhead : ((gap ++ quote :: back).dropWhile Text.isBlank).head? = some quote := by
    rw [Text.dropWhile_append_of_stop hgap (by simp [hquote])]
    rfl
  induction front generalizing expression with
  | nil =>
    rw [List.nil_append, splitClosing?, if_pos ⟨rfl, hhead⟩] at h
    cases h
    exact Nat.le_refl 0
  | cons c front ih =>
    rw [List.cons_append, splitClosing?] at h
    split at h
    next =>
      cases h
      exact Nat.zero_le _
    next =>
      obtain ⟨⟨e, g⟩, hr, he⟩ := Option.map_eq_some_iff.mp h
      cases he
      exact Nat.succ_le_succ (ih hr)

/-! ## What stands between the quotes of a find -/

/-- What a find has between its opening quote and its expression. -/
def lead (a : Attribute) : Text :=
  a.head.afterQuote ++ (attributeMarker ++ (a.value.gap ++ ['(']))

/-- What stands between the two quotes of a find. -/
def inside (a : Attribute) : Text :=
  a.lead ++ (a.value.expression ++ ')' :: a.value.beforeQuote)

theorem Head.IsRead.isBlank_quote {h : Head} (hr : h.IsRead) : Text.isBlank h.quote = false := by
  rcases hr.quote with hq | hq
  · rw [hq]
    decide
  · rw [hq]
    decide

namespace Stands

variable {t rest : Text} {cursor : Nat} {a : Attribute}

theorem at_quote (h : a.Stands t cursor rest) : ∃ i, i + 1 = a.valueStart ∧
    t.drop i = a.head.quote :: (a.inside ++ a.head.quote :: rest) := by
  have hcut : a.head.written = (a.head.name ++ a.head.beforeEquals ++ '=' :: a.head.afterEquals) ++
      a.head.quote :: a.head.afterQuote := by
    simp only [Head.written, List.append_assoc, List.cons_append]
  have hdrop := h.written
  have hmarker := h.marker
  rw [hcut] at hdrop hmarker
  generalize a.head.name ++ a.head.beforeEquals ++ '=' :: a.head.afterEquals = front
    at hdrop hmarker
  rw [List.append_assoc] at hdrop
  refine ⟨a.nameStart + front.length, ?_, ?_⟩
  · simp only [List.length_append, List.length_cons] at hmarker
    simp only [valueStart]
    omega
  · rw [Text.drop_of_drop hdrop, inside, lead, Value.written]
    simp only [List.append_assoc, List.cons_append, List.nil_append]

theorem at_value (h : a.Stands t cursor rest) :
    t.drop a.valueStart = a.inside ++ a.head.quote :: rest := by
  obtain ⟨i, hi, hdrop⟩ := h.at_quote
  rw [← hi]
  exact Text.drop_of_drop (s := [a.head.quote]) hdrop

theorem before?_valueStart (h : a.Stands t cursor rest) :
    t.before? a.valueStart = some a.head.quote := by
  obtain ⟨i, hi, hdrop⟩ := h.at_quote
  rw [← hi]
  exact Text.before?_of_drop (s := [a.head.quote]) hdrop

theorem stop_eq (h : a.Stands t cursor rest) : a.stop = a.valueStart + a.inside.length + 1 := by
  have hmarker := h.marker
  simp only [Head.written, List.length_append, List.length_cons] at hmarker
  simp only [stop, valueStart, inside, lead, Value.written, List.length_append, List.length_cons,
    List.length_nil]
  omega

end Stands

section

variable {t : Text} {cursor : Nat} {a : Attribute}

theorem quote_not_mem (h : find? t cursor = some a) :
    a.head.quote ∉ attributeMarker ++ ['(', ')'] := by
  obtain ⟨rest, hstands⟩ := stands_of_find? h
  rcases hstands.head.quote with hq | hq
  · rw [hq]
    decide
  · rw [hq]
    decide

theorem ne_quote_of_mem_lead (h : find? t cursor = some a) : ∀ c ∈ a.lead, c ≠ a.head.quote := by
  obtain ⟨rest, hstands⟩ := stands_of_find? h
  have hblank := hstands.head.isBlank_quote
  rintro c hc rfl
  have hmem : a.head.quote ∈ a.head.afterQuote ++ a.value.gap ∨
      a.head.quote ∈ attributeMarker ++ ['(', ')'] := by
    simp only [lead, List.mem_append] at hc ⊢
    rcases hc with hc | hc | hc | hc
    · exact .inl (.inl hc)
    · exact .inr (.inl hc)
    · exact .inl (.inr hc)
    · exact .inr (.inr (List.mem_cons.mpr (.inl (List.mem_singleton.mp hc))))
  rcases hmem with hmem | hmem
  · rw [List.mem_append] at hmem
    have hb : Text.isBlank a.head.quote = true :=
      hmem.elim (hstands.head.afterQuote _) ((isRead_of_find? h).gap _)
    rw [hb] at hblank
    cases hblank
  · exact quote_not_mem h hmem

/-- The next quote is the closing one when the expression holds none. -/
theorem enclosed_of_not_mem (h : find? t cursor = some a)
    (hquote : a.head.quote ∉ a.value.expression) : a.enclosed t = a.inside := by
  obtain ⟨rest, hstands⟩ := stands_of_find? h
  obtain ⟨more, -, hsplit⟩ := (isRead_of_find? h).split
  have hblank := hstands.head.isBlank_quote
  have hplain : ∀ c ∈ a.inside, (c != a.head.quote) = true := by
    intro c hc
    rw [bne_iff_ne]
    rcases List.mem_append.mp hc with hc | hc
    · exact ne_quote_of_mem_lead h c hc
    · rintro rfl
      rcases List.mem_append.mp hc with hc | hc
      · exact hquote hc
      · rcases List.mem_cons.mp hc with hc | hc
        · exact quote_not_mem h (by simp [hc])
        · rw [Value.isBlank_of_splitClosing? hsplit _ hc] at hblank
          cases hblank
  rw [enclosed, hstands.at_value, Text.takeWhile_append_of_stop hplain (by simp)]

/-- The next quote is the first one of the expression when it holds one. -/
theorem enclosed_of_expression {front back : Text} (h : find? t cursor = some a)
    (hquote : a.head.quote ∉ front)
    (hexpression : a.value.expression = front ++ a.head.quote :: back) :
    a.enclosed t = a.lead ++ front := by
  obtain ⟨rest, hstands⟩ := stands_of_find? h
  have hplain : ∀ c ∈ a.lead ++ front, (c != a.head.quote) = true := by
    intro c hc
    rw [bne_iff_ne]
    rcases List.mem_append.mp hc with hc | hc
    · exact ne_quote_of_mem_lead h c hc
    · rintro rfl
      exact hquote hc
  have hcut : a.inside ++ a.head.quote :: rest = (a.lead ++ front) ++
      a.head.quote :: (back ++ ')' :: (a.value.beforeQuote ++ a.head.quote :: rest)) := by
    rw [inside, hexpression]
    simp only [List.append_assoc, List.cons_append]
  rw [enclosed, hstands.at_value, hcut, Text.takeWhile_append_of_stop hplain (by simp)]

theorem isWhole_inside (h : find? t cursor = some a) : IsWhole a.inside := by
  obtain ⟨rest, hstands⟩ := stands_of_find? h
  obtain ⟨more, -, hsplit⟩ := (isRead_of_find? h).split
  refine ⟨a.head.afterQuote, a.value.gap, a.value.expression, a.value.beforeQuote, ?_, ?_⟩
  · intro c hc
    rw [List.mem_append, List.mem_append] at hc
    rcases hc with (hc | hc) | hc
    · exact hstands.head.afterQuote c hc
    · exact (isRead_of_find? h).gap c hc
    · exact Value.isBlank_of_splitClosing? hsplit c hc
  · rw [inside, lead]
    simp only [List.append_assoc, List.cons_append, List.nil_append]

/-- A value that ends inside the expression is not whole, since the expression would have
ended with it. -/
theorem not_isWhole_of_expression {front back : Text} (h : find? t cursor = some a)
    (hexpression : a.value.expression = front ++ a.head.quote :: back) :
    ¬ IsWhole (a.lead ++ front) := by
  rintro ⟨before, gap, expression, after, hblank, hwhole⟩
  obtain ⟨rest, hstands⟩ := stands_of_find? h
  have hafter : ∀ c ∈ after, Text.isBlank c = true := fun c hc =>
    hblank c (List.mem_append_right _ hc)
  have hclosing : ')' :: after <:+ a.lead ++ front :=
    ⟨before ++ (attributeMarker ++ (gap ++ '(' :: expression)), by
      rw [hwhole]
      simp only [List.append_assoc, List.cons_append]⟩
  have hopening : '(' :: front <:+ a.lead ++ front :=
    ⟨a.head.afterQuote ++ (attributeMarker ++ a.value.gap), by
      rw [lead]
      simp only [List.append_assoc, List.cons_append, List.nil_append]⟩
  -- the last parenthesis of the value stands behind the opening one
  obtain ⟨outer, rfl⟩ : ')' :: after <:+ front := by
    rcases List.suffix_or_suffix_of_suffix hclosing hopening with hs | hs
    · rcases List.suffix_cons_iff.mp hs with hs | hs
      · cases hs
      · exact hs
    · rcases List.suffix_cons_iff.mp hs with hs | hs
      · cases hs
      · have hmem : '(' ∈ after := hs.mem List.mem_cons_self
        exact absurd (hafter _ hmem) (by decide)
  obtain ⟨more, -, hsplit⟩ := (isRead_of_find? h).split
  obtain ⟨tail, htail⟩ := Value.exists_of_splitClosing? hsplit
  have hplace : more = outer ++ ')' :: (after ++ a.head.quote ::
      (back ++ ')' :: (a.value.beforeQuote ++ a.head.quote :: tail))) := by
    rw [htail, hexpression]
    simp only [List.append_assoc, List.cons_append]
  rw [hplace] at hsplit
  have hle := Value.length_le_of_splitClosing? hafter hstands.head.isBlank_quote hsplit
  rw [hexpression] at hle
  simp only [List.length_append, List.length_cons] at hle
  omega

/-- For every text and every cursor: the value that a find begins in is the directive
alone, and the next quote is the one that closes the find, exactly when the find's
expression holds no such quote. -/
theorem isWhole_enclosed_iff (t : Text) (cursor : Nat) (a : Attribute)
    (h : find? t cursor = some a) :
    t.before? a.valueStart = some a.head.quote ∧
      (IsWhole (a.enclosed t) ↔ a.head.quote ∉ a.value.expression) ∧
      (a.valueStart + (a.enclosed t).length + 1 = a.stop ↔
        a.head.quote ∉ a.value.expression) := by
  obtain ⟨rest, hstands⟩ := stands_of_find? h
  refine ⟨hstands.before?_valueStart, ?_⟩
  by_cases hquote : a.head.quote ∈ a.value.expression
  · obtain ⟨front, back, hexpression, hfront⟩ := List.eq_append_cons_of_mem hquote
    have hlength : (a.lead ++ front).length < a.inside.length := by
      rw [inside, hexpression]
      simp only [List.length_append, List.length_cons]
      omega
    have hstop := hstands.stop_eq
    rw [enclosed_of_expression h hfront hexpression]
    exact ⟨iff_of_false (not_isWhole_of_expression h hexpression) (not_not_intro hquote),
      iff_of_false (by omega) (not_not_intro hquote)⟩
  · rw [enclosed_of_not_mem h hquote]
    exact ⟨iff_of_true (isWhole_inside h) hquote, iff_of_true hstands.stop_eq.symm hquote⟩

/-- An attribute with blanks wherever they may stand, and parentheses behind it. -/
def loosePage : Text := "<a hidden = \" @boolAttr ( f($y) ) \" title=\"(b)\">".toList

theorem isWhole_enclosed_loosePage : ∃ a, find? loosePage 0 = some a ∧
    loosePage.before? a.valueStart = some '"' ∧ IsWhole (a.enclosed loosePage) ∧
      a.valueStart + (a.enclosed loosePage).length + 1 = a.stop := by
  obtain ⟨a, ha⟩ : ∃ a, find? loosePage 0 = some a := ⟨_, rfl⟩
  have hparts : (find? loosePage 0).map (fun a => (a.head.quote, a.value.expression)) =
        some ('"', " f($y) ".toList) := by
    decide +kernel
  rw [ha, Option.map_some, Option.some_inj, Prod.mk.injEq] at hparts
  obtain ⟨hbefore, hwhole, hstop⟩ := isWhole_enclosed_iff loosePage 0 a ha
  rw [hparts.1] at hbefore
  have hquote : a.head.quote ∉ a.value.expression := by
    rw [hparts.1, hparts.2]
    decide
  exact ⟨a, ha, hbefore, hwhole.mpr hquote, hstop.mpr hquote⟩

/-- A value with a word behind the directive, and parentheses in the next attribute. -/
def wordBehind : Text := "<a class=\"@boolAttr(x) btn\" title=\"(b)\">".toList

theorem find?_wordBehind : ∃ a, find? wordBehind 0 = some a ∧
    a.value.expression = "x) btn\" title=\"(b".toList ∧
      a.enclosed wordBehind = "@boolAttr(x) btn".toList ∧ ¬ IsWhole (a.enclosed wordBehind) := by
  obtain ⟨a, ha⟩ : ∃ a, find? wordBehind 0 = some a := ⟨_, rfl⟩
  have hparts : (find? wordBehind 0).map
      (fun a => (a.head.quote, a.value.expression, a.enclosed wordBehind)) =
        some ('"', "x) btn\" title=\"(b".toList, "@boolAttr(x) btn".toList) := by
    decide +kernel
  rw [ha, Option.map_some, Option.some_inj, Prod.mk.injEq, Prod.mk.injEq] at hparts
  obtain ⟨hquote, hexpression, henclosed⟩ := hparts
  have hcut : a.value.expression = "x) btn".toList ++ a.head.quote :: " title=\"(b".toList := by
    rw [hexpression, hquote]
    decide
  refine ⟨a, ha, hexpression, henclosed, ?_⟩
  rw [enclosed_of_expression ha (by rw [hquote]; decide) hcut]
  exact not_isWhole_of_expression ha hcut

end

end Attribute
end Directive
end TemplateDirectives
