/-
What stands where a search has found a directive.

A find carries the pieces of a directive, and its offsets are computed from their
lengths.  `Stands` says for each kind of directive that the pieces, written one after
another, are the text from the find's first offset on, that the blanks before it reach
back to the cursor at most, and what the search has checked of the characters around
it.  Everything later said about spans is read off these statements, so that no proof
opens a search again.
-/
import TemplateDirectives.Proofs.Markup.Reading

namespace TemplateDirectives

open Directive

/-! ## Ends of stretches -/

namespace Text

theorem drop_of_slice {t s : Text} {a b : Nat} (h : t.slice a b = s) (hab : a ≤ b) :
    t.drop a = s ++ t.drop b := by
  have hdrop : (t.drop a).drop (b - a) = t.drop b := by
    rw [List.drop_drop, show a + (b - a) = b by omega]
  rw [← h, slice, List.drop_take, ← hdrop, List.take_append_drop]

/-- The last character of a stretch, by its place. -/
theorem getElem?_last_of_drop {t s rest : Text} {a : Nat} {c : Char} (h : t.drop a = s ++ rest)
    (hc : s.getLast? = some c) : t[a + s.length - 1]? = some c := by
  have hs : s ≠ [] := by
    rintro rfl
    cases hc
  have hbefore := before?_of_drop h
  have hpos := List.length_pos_iff.mpr hs
  rw [hc, Option.some_or, before?, if_neg (by omega)] at hbefore
  exact hbefore

theorem mem_of_drop {t s rest : Text} {a i : Nat} (h : t.drop a = s ++ rest) (hai : a ≤ i)
    (hi : i < a + s.length) : ∃ c ∈ s, t[i]? = some c := by
  obtain ⟨j, rfl⟩ := Nat.exists_eq_add_of_le hai
  have hlt : j < s.length := by omega
  refine ⟨s[j], List.getElem_mem hlt, ?_⟩
  rw [← List.getElem?_drop, h, List.getElem?_append_left hlt, List.getElem?_eq_getElem hlt]

/-- The end of a stretch that satisfies `p` stands right before what follows the
stretch. -/
theorem drop_sub_takeEndWhile (p : Char → Bool) {t : Text} {a b : Nat} (hab : a ≤ b)
    (hb : b ≤ t.length) :
    t.drop (b - (takeEndWhile p (t.slice a b)).length) =
      takeEndWhile p (t.slice a b) ++ t.drop b := by
  have hcut := slice_append_takeEndWhile p (a := a) hb
  have hle := length_takeEndWhile_slice_le p t a b
  generalize takeEndWhile p (t.slice a b) = w at *
  refine drop_of_slice ?_ (by omega)
  have hsplit := slice_append_slice t (by omega : a ≤ b - w.length) (by omega : b - w.length ≤ b)
  rw [← hcut] at hsplit
  exact List.append_cancel_left hsplit

/-- What a stretch of blanks before `b` is made of. -/
theorem isBlank_of_takeEndWhile {t : Text} {a b i : Nat} (hb : b ≤ t.length)
    (hi : b - (takeEndWhile isBlank (t.slice a b)).length ≤ i) (hib : i < b) :
    ∃ c, t[i]? = some c ∧ isBlank c = true := by
  have hle := length_takeEndWhile_slice_le isBlank t a b
  have hdrop := drop_sub_takeEndWhile isBlank (by omega : a ≤ b) hb
  obtain ⟨c, hc, hget⟩ := mem_of_drop hdrop hi (by omega)
  exact ⟨c, hget, takeEndWhile_all isBlank _ c hc⟩

end Text

namespace Directive

/-! ## Names and calls -/

namespace Name

theorem isNameChar_eq_false_of_isBlank {c : Char} (h : Text.isBlank c = true) :
    isNameChar c = false := by
  have hword := Text.isWord_eq_false_of_isBlank h
  have hback : c ≠ '\\' := by
    rintro rfl
    cases h
  have hcolon : c ≠ ':' := by
    rintro rfl
    cases h
  simp [isNameChar, isQualifierChar, hword, hback, hcolon]

theorem isFormed_of_read? {t : Text} {n : Name} (h : read? t = some n) : n.IsFormed := by
  have hmethod : ∀ s : Text, ∀ c ∈ s.takeWhile Text.isWord, Text.isWord c = true :=
    fun s => List.all_eq_true.mp List.all_takeWhile
  rw [read?, Option.or_eq_some_iff] at h
  rcases h with h | ⟨-, h⟩
  · unfold readQualified? at h
    simp only at h
    split at h
    next => cases h
    next rest _ =>
      split at h
      next => cases h
      next hne =>
        rw [not_or] at hne
        cases h
        refine ⟨fun q hq => ?_, hne.2, hmethod rest⟩
        cases hq
        exact ⟨hne.1, List.all_eq_true.mp List.all_takeWhile⟩
  · unfold readPlain? at h
    simp only at h
    split at h
    next => cases h
    next hne =>
      cases h
      exact ⟨fun q hq => (by cases hq), hne, hmethod t⟩

/-- The names that are read are those that are read back from what they are written as. -/
theorem read?_written_iff {n : Name} : read? n.written = some n ↔ n.IsFormed := by
  refine ⟨isFormed_of_read?, fun h => ?_⟩
  have hread : read? (n.written ++ []) = some n := read?_written h rfl
  rwa [List.append_nil] at hread

end Name

namespace Call

variable {t : Text} {c : Call}

theorem isFormed_of_read? (h : read? t = some c) : c.name.IsFormed := by
  obtain ⟨name, hn, rfl⟩ := Option.map_eq_some_iff.mp h
  exact Name.isFormed_of_read? hn

/-- A call ends with a closing parenthesis or a word character, neither of them a blank or
a colon. -/
theorem getLast?_written (h : read? t = some c) :
    ∃ ch, c.written.getLast? = some ch ∧ Text.isBlank ch = false ∧ ch ≠ ':' := by
  obtain ⟨d, hd, hword⟩ := Name.getLast?_written (isFormed_of_read? h)
  obtain ⟨name, arguments⟩ := c
  cases arguments with
  | none =>
    refine ⟨d, by rw [written, Option.map_none, Option.getD_none, List.append_nil, hd], ?_, ?_⟩
    · refine Bool.eq_false_iff.mpr fun hb => ?_
      rw [Text.isWord_eq_false_of_isBlank hb] at hword
      cases hword
    · rintro rfl
      cases hword
  | some l =>
    refine ⟨')', ?_, by decide, by decide⟩
    rw [written, Option.map_some, Option.getD_some, ArgumentList.written, ← List.cons_append,
      ← List.append_assoc, ← List.append_assoc, List.getLast?_concat]

end Call

/-! ## Short calls -/

namespace ShortCall

/-- A call stands at its marker with `rest` behind it. -/
structure Stands (t : Text) (cursor : Nat) (c : ShortCall) (rest : Text) : Prop where
  cursor_le : cursor ≤ c.marker
  written : t.drop c.marker = callMarker ++ (c.call.written ++ rest)
  blanks : c.blanks = Text.takeEndWhile Text.isBlank (t.slice cursor c.marker)
  read : Call.read? (c.call.written ++ rest) = some c.call
  beginsWithEnd : c.call.name.beginsWithEnd = false
  colon : c.colon = (rest.head? == some ':')

theorem stands_of_at? {t : Text} {cursor marker : Nat} {c : ShortCall} (hcursor : cursor ≤ marker)
    (ha : at? t cursor marker (t.drop marker) = some c) : ∃ rest, c.Stands t cursor rest := by
  obtain rfl := marker_of_at? ha
  unfold at? at ha
  split at ha
  next => cases ha
  next after hafter =>
    split at ha
    next => cases ha
    next =>
      split at ha
      next => cases ha
      next call hcall =>
        split at ha
        next => cases ha
        next hend =>
          obtain ⟨rest, rfl⟩ := Call.written_isPrefix_of_read? hcall
          have hc := Option.some.inj ha
          have hcall' : c.call = call := by rw [← hc]
          refine ⟨rest, hcursor, ?_, by rw [← hc], by rw [hcall']; exact hcall, ?_, ?_⟩
          · rw [hcall']
            exact Text.after?_eq_some.mp hafter
          · rw [hcall']
            exact Bool.eq_false_iff.mpr hend
          · rw [← hc, List.drop_left]

theorem stands_of_find? {t : Text} {cursor : Nat} {c : ShortCall} (h : find? t cursor = some c) :
    ∃ rest, c.Stands t cursor rest := by
  obtain ⟨k, -, ha⟩ := Text.exists_of_firstMatch h
  rw [List.drop_drop] at ha
  exact stands_of_at? (Nat.le_add_right cursor k) ha

namespace Stands

variable {t rest : Text} {cursor : Nat} {c : ShortCall}

theorem marker_lt (h : c.Stands t cursor rest) : c.marker < t.length :=
  Text.lt_length_of_drop h.written (by simp [callMarker])

theorem stop_le (h : c.Stands t cursor rest) : c.stop ≤ t.length :=
  Text.add_length_le_of_drop (Text.drop_of_drop h.written)
    (Text.add_length_le_of_drop h.written (Nat.le_of_lt h.marker_lt))

theorem cursor_le_start (h : c.Stands t cursor rest) : cursor ≤ c.start := by
  have hle := Text.length_takeEndWhile_slice_le Text.isBlank t cursor c.marker
  rw [← h.blanks] at hle
  have := h.cursor_le
  simp only [start]
  omega

theorem isBlank_before (h : c.Stands t cursor rest) {i : Nat} (hi : c.start ≤ i)
    (him : i < c.marker) : ∃ ch, t[i]? = some ch ∧ Text.isBlank ch = true := by
  refine Text.isBlank_of_takeEndWhile (a := cursor) (Nat.le_of_lt h.marker_lt) ?_ him
  rwa [← h.blanks]

theorem getElem?_last (h : c.Stands t cursor rest) :
    ∃ ch, t[c.stop - 1]? = some ch ∧ Text.isBlank ch = false ∧ ch ≠ ':' := by
  obtain ⟨ch, hlast, hblank, hcolon⟩ := Call.getLast?_written h.read
  exact ⟨ch, Text.getElem?_last_of_drop (Text.drop_of_drop h.written) hlast, hblank, hcolon⟩

end Stands
end ShortCall

/-! ## Boolean attributes -/

namespace Attribute

/-- The parts of a head are what their names say. -/
structure Head.IsRead (h : Head) : Prop where
  name_ne_nil : h.name ≠ []
  name : ∀ c ∈ h.name, isNameChar c = true
  beforeEquals : ∀ c ∈ h.beforeEquals, Text.isBlank c = true
  afterEquals : ∀ c ∈ h.afterEquals, Text.isBlank c = true
  afterQuote : ∀ c ∈ h.afterQuote, Text.isBlank c = true
  quote : h.quote = '"' ∨ h.quote = '\''

theorem Head.isRead_of_readBack? {backwards : Text} {head : Head}
    (h : Head.readBack? backwards = some head) : head.IsRead := by
  have hblank : ∀ s : Text, ∀ c ∈ (s.takeWhile Text.isBlank).reverse, Text.isBlank c = true :=
    fun s c hc => List.all_eq_true.mp List.all_takeWhile c (List.mem_reverse.mp hc)
  unfold Head.readBack? at h
  split at h
  next => cases h
  next quote rest _ =>
    split at h
    next => cases h
    next hquote =>
      split at h
      next beforeSign _ =>
        simp only at h
        split at h
        next => cases h
        next hname =>
          cases h
          refine ⟨by simpa using hname, fun c hc => ?_, hblank _, hblank _, hblank _, ?_⟩
          · exact List.all_eq_true.mp List.all_takeWhile c (List.mem_reverse.mp hc)
          · by_cases hq : quote = '"'
            · exact .inl hq
            · exact .inr (Decidable.byContradiction fun hq' => hquote ⟨hq, hq'⟩)
      next => cases h

/-- A head holds no `@`, so it ends before its marker. -/
theorem Head.IsRead.at_not_mem {h : Head} (hr : h.IsRead) : '@' ∉ h.written := by
  have hblank : ∀ {s : Text}, (∀ c ∈ s, Text.isBlank c = true) → '@' ∉ s :=
    fun hs hat => absurd (hs '@' hat) (by decide)
  have hname : '@' ∉ h.name := fun hat => absurd (hr.name '@' hat) (by decide)
  have hquote : '@' ≠ h.quote := by
    rcases hr.quote with hq | hq
    · rw [hq]
      decide
    · rw [hq]
      decide
  simp [Head.written, hname, hblank hr.beforeEquals, hblank hr.afterEquals, hblank hr.afterQuote,
    hquote]

theorem Value.exists_of_splitClosing? {quote : Char} {t expression gap : Text}
    (h : Value.splitClosing? quote t = some (expression, gap)) :
    ∃ rest, t = expression ++ ')' :: (gap ++ quote :: rest) := by
  induction t generalizing expression with
  | nil => cases h
  | cons c rest ih =>
    unfold Value.splitClosing? at h
    split at h
    next hc =>
      obtain ⟨rfl, hhead⟩ := hc
      cases h
      cases hd : rest.dropWhile Text.isBlank with
      | nil =>
        rw [hd] at hhead
        cases hhead
      | cons d more =>
        rw [hd] at hhead
        cases hhead
        refine ⟨more, ?_⟩
        rw [← hd, List.takeWhile_append_dropWhile, List.nil_append]
    next =>
      obtain ⟨⟨e, g⟩, hr, he⟩ := Option.map_eq_some_iff.mp h
      cases he
      obtain ⟨more, hmore⟩ := ih hr
      exact ⟨more, by rw [hmore, List.cons_append]⟩

theorem Value.written_isPrefix_of_read? {quote : Char} {t : Text} {v : Value}
    (h : Value.read? quote t = some v) : v.written quote <+: t := by
  unfold Value.read? at h
  split at h
  next => cases h
  next after hafter =>
    split at h
    next rest hrest =>
      obtain ⟨⟨expression, gap⟩, hs, rfl⟩ := Option.map_eq_some_iff.mp h
      obtain ⟨more, hmore⟩ := Value.exists_of_splitClosing? hs
      refine ⟨more, ?_⟩
      have hsplit : after = after.takeWhile Text.isBlank ++ '(' :: rest := by
        rw [← hrest, List.takeWhile_append_dropWhile]
      rw [Text.after?_eq_some.mp hafter, Value.written]
      conv => rhs; rw [hsplit, hmore]
      simp only [List.append_assoc, List.cons_append, List.nil_append]
    next => cases h

/-- An attribute stands at its name with `rest` behind it. -/
structure Stands (t : Text) (cursor : Nat) (a : Attribute) (rest : Text) : Prop where
  cursor_le : cursor ≤ a.nameStart
  marker : a.nameStart + a.head.written.length = a.marker
  written : t.drop a.nameStart = a.head.written ++ (a.value.written a.head.quote ++ rest)
  blanks : a.blanks = Text.takeEndWhile Text.isBlank (t.slice cursor a.nameStart)
  head : a.head.IsRead

theorem stands_of_find? {t : Text} {cursor : Nat} {a : Attribute} (h : find? t cursor = some a) :
    ∃ rest, a.Stands t cursor rest := by
  have hplace := nameStart_of_find? h
  obtain ⟨k, -, ha⟩ := Text.exists_of_firstMatch h
  have hmarker := (marker_of_at? ha).1
  rw [List.drop_drop, ← hmarker] at ha
  unfold at? at ha
  split at ha
  next => cases ha
  next =>
    split at ha
    next => cases ha
    next head hhead =>
      simp only at ha
      split at ha
      next => cases ha
      next =>
        obtain ⟨value, hvalue, hb⟩ := Option.map_eq_some_iff.mp ha
        have hhead' : a.head = head := by rw [← hb]
        have hvalue' : a.value = value := by rw [← hb]
        obtain ⟨rest, hrest⟩ := Value.written_isPrefix_of_read? hvalue
        have hlen := length_head_le hhead
        rw [← hhead'] at hhead hlen
        have hadd : a.nameStart + a.head.written.length = a.marker := by
          simp only [nameStart]
          omega
        have hslice : t.slice a.nameStart a.marker = a.head.written := by
          obtain ⟨front, hfront⟩ := Head.written_isSuffix_of_readBack? hhead
          rw [List.reverse_reverse] at hfront
          have hcut : t.slice cursor a.nameStart ++ t.slice a.nameStart a.marker =
              front ++ a.head.written := by
            rw [hfront, Text.slice_append_slice t hplace.1 hplace.2.1]
          refine (List.append_inj' hcut ?_).2
          rw [Text.length_slice]
          omega
        refine ⟨rest, hplace.1, hadd, ?_, ?_, Head.isRead_of_readBack? hhead⟩
        · rw [Text.drop_of_slice hslice hplace.2.1, ← hrest, hhead', hvalue']
        · rw [← hb]
          rfl

namespace Stands

variable {t rest : Text} {cursor : Nat} {a : Attribute}

theorem at_marker (h : a.Stands t cursor rest) :
    t.drop a.marker = a.value.written a.head.quote ++ rest := by
  rw [← h.marker]
  exact Text.drop_of_drop h.written

theorem nameStart_lt (h : a.Stands t cursor rest) : a.nameStart < a.marker := by
  have hpos := List.length_pos_iff.mpr h.head.name_ne_nil
  have hmarker := h.marker
  simp only [Head.written, List.length_append, List.length_cons] at hmarker
  omega

theorem getElem?_nameStart (h : a.Stands t cursor rest) :
    ∃ c, t[a.nameStart]? = some c ∧ isNameChar c = true := by
  obtain ⟨c, name, hname⟩ := List.exists_cons_of_ne_nil h.head.name_ne_nil
  refine ⟨c, ?_, h.head.name c (by rw [hname]; exact List.mem_cons_self)⟩
  rw [← List.head?_drop, h.written, Head.written, hname]
  rfl

theorem marker_lt (h : a.Stands t cursor rest) : a.marker < t.length :=
  Text.lt_length_of_drop h.at_marker (by simp [Value.written, attributeMarker])

theorem stop_le (h : a.Stands t cursor rest) : a.stop ≤ t.length :=
  Text.add_length_le_of_drop h.at_marker (Nat.le_of_lt h.marker_lt)

theorem cursor_le_start (h : a.Stands t cursor rest) : cursor ≤ a.start := by
  have hle := Text.length_takeEndWhile_slice_le Text.isBlank t cursor a.nameStart
  rw [← h.blanks] at hle
  have := h.cursor_le
  simp only [start]
  omega

theorem isBlank_before (h : a.Stands t cursor rest) {i : Nat} (hi : a.start ≤ i)
    (hin : i < a.nameStart) : ∃ ch, t[i]? = some ch ∧ Text.isBlank ch = true := by
  have hlt := h.nameStart_lt
  have hmarker := h.marker_lt
  refine Text.isBlank_of_takeEndWhile (a := cursor) (by omega) ?_ hin
  rwa [← h.blanks]

theorem getElem?_last (h : a.Stands t cursor rest) : t[a.stop - 1]? = some a.head.quote := by
  refine Text.getElem?_last_of_drop h.at_marker ?_
  rw [Value.written, ← List.cons_append, ← List.cons_append, ← List.append_assoc,
    ← List.append_assoc, List.getLast?_concat]

end Stands
end Attribute

/-! ## Blocks -/

namespace EndMarker

/-- What the two forms of an end marker begin with. -/
def sign (wellFormed : Bool) : Text := if wellFormed then callMarker else ['@']

/-- An end marker for `name` stands in its place with `rest` behind it. -/
structure Stands (t name : Text) (e : EndMarker) (rest : Text) : Prop where
  written : t.drop e.start = sign e.wellFormed ++ (Name.endWord ++ (name ++ rest))
  isWord_rest : rest.head?.any Text.isWord = false
  stop : e.stop = e.start + (sign e.wellFormed ++ (Name.endWord ++ name)).length

theorem eq_of_closes {name x : Text} (h : closes name x = true) :
    ∃ rest, x = Name.endWord ++ (name ++ rest) ∧ rest.head?.any Text.isWord = false := by
  unfold closes at h
  split at h
  next => cases h
  next rest hrest =>
    rw [Text.after?_eq_some, List.append_assoc] at hrest
    exact ⟨rest, hrest, by simpa using h⟩

theorem stands_of_find? {t name : Text} {offset : Nat} {e : EndMarker}
    (h : find? t name offset = some e) : ∃ rest, e.Stands t name rest := by
  obtain ⟨k, -, ha⟩ := Text.exists_of_firstMatch h
  have hstart := (start_of_at? ha).1
  rw [List.drop_drop, ← hstart] at ha
  generalize hx : t.drop e.start = x at ha
  unfold at? at ha
  split at ha
  next after =>
    split at ha
    next hc =>
      obtain ⟨rest, rfl, hrest⟩ := eq_of_closes hc
      have hw : e.wellFormed = true := by rw [← Option.some.inj ha]
      refine ⟨rest, ?_, hrest, ?_⟩
      · rw [hx, hw]
        rfl
      · rw [hw, ← Option.some.inj ha]
        simp only [sign, callMarker, List.length_append, List.length_cons, List.length_nil, if_true]
        omega
    next => cases ha
  next after _ =>
    split at ha
    next hc =>
      rw [Bool.and_eq_true] at hc
      obtain ⟨rest, rfl, hrest⟩ := eq_of_closes hc.1
      have hw : e.wellFormed = false := by rw [← Option.some.inj ha]
      refine ⟨rest, ?_, hrest, ?_⟩
      · rw [hx, hw]
        rfl
      · rw [hw, ← Option.some.inj ha]
        simp only [sign, List.length_append, List.length_cons, List.length_nil, Bool.false_eq_true,
          if_false]
        omega
    next => cases ha
  next => cases ha

end EndMarker

namespace BlockOpening

/-- Where the opening's line begins. -/
def line (o : BlockOpening) : Nat := o.marker - o.indent.length

/-- An opening stands on its line with `rest` behind its colon. -/
structure Stands (t : Text) (cursor : Nat) (o : BlockOpening) (rest : Text) : Prop where
  cursor_le : cursor ≤ o.line
  marker : o.line + o.indent.length = o.marker
  written : t.drop o.line = o.indent ++ (callMarker ++ (o.call.written ++ ':' :: rest))
  indent : ∀ c ∈ o.indent, Text.isIndent c = true
  blanks : o.blanks = Text.takeEndWhile Text.isBlank (t.slice cursor o.line)
  read : Call.read? (o.call.written ++ ':' :: rest) = some o.call

theorem stands_of_at? {t : Text} {cursor marker : Nat} {o : BlockOpening}
    (hp : callMarker <+: t.drop marker) (ha : at? t cursor marker = some o) :
    ∃ rest, o.Stands t cursor rest := by
  obtain ⟨after, hafter⟩ := hp
  have hlt : marker < t.length := Text.lt_length_of_drop hafter.symm (by simp [callMarker])
  unfold at? at ha
  simp only at ha
  split at ha
  next => cases ha
  next hline =>
    rw [not_or, Nat.not_lt, Bool.not_eq_false, List.all_eq_true] at hline
    split at ha
    next => cases ha
    next call hcall =>
      split at ha
      next hcolon =>
        rw [Text.drop_of_drop hafter.symm] at hcall hcolon
        obtain ⟨rest, rfl⟩ := Call.written_isPrefix_of_read? hcall
        rw [List.drop_left] at hcolon
        cases rest with
        | nil => cases hcolon
        | cons c rest =>
          cases hcolon
          have hlen := Text.length_takeEndWhile_le (· != '\n') (t.take marker)
          rw [List.length_take, Nat.min_eq_left (Nat.le_of_lt hlt)] at hlen
          have hsplit := Text.dropEndWhile_append_takeEndWhile (· != '\n') (t.take marker)
          generalize Text.takeEndWhile (· != '\n') (t.take marker) = indent at *
          generalize Text.dropEndWhile (· != '\n') (t.take marker) = front at hsplit
          have hfront : front.length = marker - indent.length := by
            have := congrArg List.length hsplit
            rw [List.length_append, List.length_take, Nat.min_eq_left (Nat.le_of_lt hlt)] at this
            omega
          have hdrop : t.drop (marker - indent.length) = indent ++ t.drop marker := by
            conv => lhs; rw [← List.take_append_drop marker t, ← hsplit, List.append_assoc]
            rw [← hfront, List.drop_left]
          have ho := Option.some.inj ha
          refine ⟨rest, ?_⟩
          rw [← ho]
          refine ⟨hline.1, ?_, ?_, hline.2, rfl, hcall⟩
          · simp only [line]
            omega
          · simp only [line]
            rw [hdrop, ← hafter]
      next => cases ha

theorem at?_of_find? {t : Text} {cursor : Nat} {o : BlockOpening}
    (h : find? t cursor = some o) :
    callMarker <+: t.drop o.marker ∧ at? t cursor o.marker = some o := by
  obtain ⟨k, -, ha⟩ := Text.exists_of_firstMatch h
  split at ha
  next hp =>
    rw [List.isPrefixOf_iff_prefix, List.drop_drop] at hp
    rw [marker_of_at? ha]
    exact ⟨hp, ha⟩
  next => cases ha

theorem stands_of_find? {t : Text} {cursor : Nat} {o : BlockOpening}
    (h : find? t cursor = some o) : ∃ rest, o.Stands t cursor rest := by
  obtain ⟨hp, ha⟩ := at?_of_find? h
  exact stands_of_at? hp ha

namespace Stands

variable {t rest : Text} {cursor : Nat} {o : BlockOpening}

theorem at_marker (h : o.Stands t cursor rest) :
    t.drop o.marker = callMarker ++ (o.call.written ++ ':' :: rest) := by
  rw [← h.marker]
  exact Text.drop_of_drop h.written

theorem at_colon (h : o.Stands t cursor rest) : t.drop (o.stop - 1) = ':' :: rest :=
  Text.drop_of_drop (Text.drop_of_drop h.at_marker)

theorem at_stop (h : o.Stands t cursor rest) : t.drop o.stop = rest := by
  have hcolon := h.at_colon
  rw [← List.singleton_append] at hcolon
  exact Text.drop_of_drop hcolon

theorem stop_le (h : o.Stands t cursor rest) : o.stop ≤ t.length := by
  have hlt := Text.lt_length_of_drop (s := [':']) h.at_colon (by simp)
  omega

theorem marker_lt (h : o.Stands t cursor rest) : o.marker < t.length :=
  Text.lt_length_of_drop h.at_marker (by simp [callMarker])

theorem cursor_le_start (h : o.Stands t cursor rest) : cursor ≤ o.start := by
  have hle := Text.length_takeEndWhile_slice_le Text.isBlank t cursor o.line
  rw [← h.blanks] at hle
  have := h.cursor_le
  simp only [start]
  simp only [line] at *
  omega

end Stands
end BlockOpening

namespace Block

/-- A closed block stands with `lead` between its colon and its body, and with `rest`
behind its end marker. -/
structure Stands (t : Text) (cursor : Nat) (b : Block) (lead rest : Text) : Prop where
  opening : b.opening.Stands t cursor (lead ++ (b.body ++ (callMarker ++ (Name.endWord ++
    (b.opening.call.name.written ++ rest)))))
  isBlank_lead : ∀ c ∈ lead, Text.isBlank c = true
  bodyStart : b.bodyStart = b.opening.stop + lead.length
  stop : b.stop = b.bodyStop + (callMarker ++ (Name.endWord ++
    b.opening.call.name.written)).length
  isWord_rest : rest.head?.any Text.isWord = false

theorem stands_of_read {t after : Text} {cursor : Nat} {o : BlockOpening} {b : Block}
    (ho : o.Stands t cursor after) (h : read t o = .closed b) :
    ∃ lead rest, b.Stands t cursor lead rest := by
  unfold read at h
  simp only at h
  split at h
  next => cases h
  next e he =>
    split at h
    next hw =>
      obtain ⟨rest, he'⟩ := EndMarker.stands_of_find? he
      have hplace := EndMarker.start_of_find? he
      have hb := Reading.closed.inj h
      rw [ho.at_stop] at hb hplace
      generalize hlead : after.takeWhile Text.isBlank = lead at hb hplace
      have hafter : after = lead ++ t.drop (o.stop + lead.length) := by
        have hsplit : t.drop o.stop = lead ++ after.dropWhile Text.isBlank := by
          rw [← hlead, List.takeWhile_append_dropWhile, ho.at_stop]
        rw [Text.drop_of_drop hsplit, ← hlead, List.takeWhile_append_dropWhile]
      have hbody : t.drop (o.stop + lead.length) =
          t.slice (o.stop + lead.length) e.start ++ t.drop e.start :=
        Text.drop_of_slice rfl hplace.1
      have hlen : (t.slice (o.stop + lead.length) e.start).length =
          e.start - (o.stop + lead.length) := by
        rw [Text.length_slice, Nat.min_eq_left (by omega)]
      have hending := he'.written
      have hstop := he'.stop
      rw [hw, EndMarker.sign, if_pos rfl] at hending hstop
      refine ⟨lead, rest, ?_⟩
      rw [← hb]
      refine ⟨?_, ?_, rfl, ?_, he'.isWord_rest⟩
      · simp only
        rw [← hending, ← hbody, ← hafter]
        exact ho
      · rw [← hlead]
        exact List.all_eq_true.mp List.all_takeWhile
      · simp only [bodyStop, hlen]
        omega
    next => cases h

theorem stands_of_find? {t : Text} {cursor : Nat} {b : Block}
    (h : find? t cursor = some (.closed b)) : ∃ lead rest, b.Stands t cursor lead rest := by
  obtain ⟨o, ho, hread⟩ := Option.map_eq_some_iff.mp h
  obtain ⟨after, hafter⟩ := BlockOpening.stands_of_find? ho
  exact stands_of_read hafter hread

theorem exists_stands_of_mem_closedBlocks {t : Text} {b : Block} (h : b ∈ closedBlocks t) :
    ∃ cursor lead rest, b.Stands t cursor lead rest := by
  obtain ⟨r, hr, hb⟩ := List.mem_filterMap.mp h
  cases r with
  | closed b' =>
    cases hb
    obtain ⟨cursor, -, hfind⟩ := Text.exists_find_of_mem_scanAll hr
    exact ⟨cursor, stands_of_find? hfind⟩
  | malformed o ending => cases hb
  | unterminated o => cases hb

namespace Stands

variable {t lead rest : Text} {cursor : Nat} {b : Block}

theorem at_body (h : b.Stands t cursor lead rest) :
    t.drop b.bodyStart = b.body ++ (callMarker ++ (Name.endWord ++
      (b.opening.call.name.written ++ rest))) := by
  rw [h.bodyStart]
  exact Text.drop_of_drop h.opening.at_stop

theorem at_ending (h : b.Stands t cursor lead rest) :
    t.drop b.bodyStop = callMarker ++ (Name.endWord ++ (b.opening.call.name.written ++ rest)) :=
  Text.drop_of_drop h.at_body

theorem isFormed (h : b.Stands t cursor lead rest) : b.opening.call.name.IsFormed :=
  Call.isFormed_of_read? h.opening.read

theorem stop_le (h : b.Stands t cursor lead rest) : b.stop ≤ t.length := by
  have hending := h.at_ending
  have hlt := Text.lt_length_of_drop hending (by simp [callMarker])
  rw [← List.append_assoc _ _ rest, ← List.append_assoc] at hending
  rw [h.stop]
  exact Text.add_length_le_of_drop hending (Nat.le_of_lt hlt)

end Stands
end Block
end Directive
end TemplateDirectives
