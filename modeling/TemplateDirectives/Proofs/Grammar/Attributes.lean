/-
Where boolean attributes stand, said without the search for them.

A marker is read in both directions.  `Head.Ends` says which head ends at the marker: its
parts, and a name that is the longest stretch of name characters from the cursor on and no
part of a longer word.  `Value.Begins` says which value begins there: it goes to the first
closing parenthesis that the quote of the head follows.  `Accepted` holds of a marker that
stands between such a head and some closing parenthesis with the quote behind it, and the
search finds the leftmost of these and what occurs there (`find?_leftmost_attribute`).
-/
import Mathlib.Data.String.Basic
import TemplateDirectives.Proofs.Grammar.Runs
import TemplateDirectives.Proofs.WholeValue
import TemplateDirectives.Proofs.Splices

namespace TemplateDirectives

/-! ## Stretches of the encoding -/

namespace Text

theorem utf8Len_eq (t : Text) : String.utf8Len t = utf8Length t := by
  induction t with
  | nil => rfl
  | cons c rest ih => rw [String.utf8Len_cons, utf8Length, ih, Nat.add_comm]

/-- The bytes between two offsets encode the stretch between them. -/
theorem extract_toUtf8Offset (t : Text) {a b : Nat} (hab : a ≤ b) :
    String.Pos.Raw.extract (String.ofList t) ⟨t.toUtf8Offset a⟩ ⟨t.toUtf8Offset b⟩ =
      String.ofList (t.slice a b) := by
  have htake : ∀ k, t.slice 0 k = t.take k := fun _ => List.drop_zero
  have hcut : t.take a ++ t.slice a b = t.take b := by
    rw [← htake a, ← htake b]
    exact slice_append_slice t (Nat.zero_le a) hab
  have hstop : t.toUtf8Offset b = t.toUtf8Offset a + utf8Length (t.slice a b) := by
    rw [toUtf8Offset, ← hcut, utf8Length_append]
    rfl
  have hextract := String.extract_of_valid (t.take a) (t.slice a b) (t.drop b)
  rw [hcut, List.take_append_drop, utf8Len_eq, utf8Len_eq] at hextract
  rw [hstop]
  exact hextract

end Text

namespace Directive
namespace Attribute

/-! ## Heads -/

/-- The head `h` ends at `marker` and begins at the cursor or later. -/
structure Head.Ends (h : Head) (t : Text) (cursor marker : Nat) : Prop where
  isRead : h.IsRead
  cursor_le : cursor + h.written.length ≤ marker
  written : t.slice (marker - h.written.length) marker = h.written
  longest : cursor + h.written.length = marker ∨
    (t.before? (marker - h.written.length)).any isNameChar = false
  apart : (t.before? (marker - h.written.length)).any Text.isWord = false

theorem isBlank_eq_false_of_isNameChar {c : Char} (h : isNameChar c = true) :
    Text.isBlank c = false := by
  simp only [isNameChar, Bool.or_eq_true, beq_iff_eq] at h
  refine Bool.eq_false_iff.mpr fun hblank => ?_
  rcases h with (hword | rfl) | rfl
  · rw [Text.isWord_eq_false_of_isBlank hblank] at hword
    cases hword
  · cases hblank
  · cases hblank

/-- A head is read back where it ends, if no name character stands before it. -/
theorem Head.readBack?_append {h : Head} (hr : h.IsRead) {front : Text}
    (hfront : front.getLast?.any isNameChar = false) :
    readBack? (front ++ h.written).reverse = some h := by
  have hall : ∀ {p : Char → Bool} {s : Text}, (∀ c ∈ s, p c = true) → ∀ c ∈ s.reverse, p c = true :=
    fun hs c hc => hs c (List.mem_reverse.mp hc)
  have hreverse : (front ++ h.written).reverse = h.afterQuote.reverse ++ h.quote ::
      (h.afterEquals.reverse ++ '=' :: (h.beforeEquals.reverse ++
        (h.name.reverse ++ front.reverse))) := by
    simp only [written, List.reverse_append, List.reverse_cons, List.append_assoc,
      List.cons_append, List.nil_append]
  have hquote : ∀ s, (h.quote :: s).head?.any Text.isBlank = false := fun _ => hr.isBlank_quote
  have hequals : ∀ s, ('=' :: s).head?.any Text.isBlank = false := fun _ => rfl
  have hname : (h.name.reverse ++ front.reverse).head?.any Text.isBlank = false := by
    obtain ⟨c, s, hs⟩ := List.exists_cons_of_ne_nil (List.reverse_ne_nil_iff.mpr hr.name_ne_nil)
    rw [hs, List.cons_append, List.head?_cons, Option.any_some]
    exact isBlank_eq_false_of_isNameChar (hall hr.name c (by rw [hs]; exact List.mem_cons_self))
  have hbefore : front.reverse.head?.any isNameChar = false := by
    rw [List.head?_reverse]
    exact hfront
  have hsign : ¬ (h.quote ≠ '"' ∧ h.quote ≠ '\'') := fun hne => hr.quote.elim hne.1 hne.2
  rw [hreverse, readBack?, Text.dropWhile_append_of_stop (hall hr.afterQuote) (hquote _)]
  simp only [if_neg hsign, Text.takeWhile_append_of_stop (hall hr.afterQuote) (hquote _),
    Text.dropWhile_append_of_stop (hall hr.afterEquals) (hequals _),
    Text.takeWhile_append_of_stop (hall hr.afterEquals) (hequals _),
    Text.dropWhile_append_of_stop (hall hr.beforeEquals) hname,
    Text.takeWhile_append_of_stop (hall hr.beforeEquals) hname,
    Text.takeWhile_append_of_stop (hall hr.name) hbefore,
    List.reverse_eq_nil_iff, if_neg hr.name_ne_nil, List.reverse_reverse]

theorem Head.readBack?_eq_some_iff {h : Head} {s : Text} : readBack? s.reverse = some h ↔
    h.IsRead ∧ ∃ front, s = front ++ h.written ∧ front.getLast?.any isNameChar = false := by
  constructor
  · intro hread
    have hr := isRead_of_readBack? hread
    obtain ⟨front, hfront⟩ := written_isSuffix_of_readBack? hread
    rw [List.reverse_reverse] at hfront
    -- the name as long as it can be is the name that is read
    have hsplit := Text.dropEndWhile_append_takeEndWhile isNameChar front
    have hlong : IsRead { h with name := Text.takeEndWhile isNameChar front ++ h.name } := by
      refine ⟨List.append_ne_nil_of_right_ne_nil _ hr.name_ne_nil, fun c hc => ?_, hr.beforeEquals,
        hr.afterEquals, hr.afterQuote, hr.quote⟩
      rcases List.mem_append.mp hc with hc | hc
      · exact Text.takeEndWhile_all isNameChar front c hc
      · exact hr.name c hc
    have hagain := readBack?_append hlong (Text.any_getLast?_dropEndWhile isNameChar front)
    have hsame : Text.dropEndWhile isNameChar front ++
        written { h with name := Text.takeEndWhile isNameChar front ++ h.name } = s := by
      rw [← hfront]
      conv => rhs; rw [← hsplit]
      simp only [written, List.append_assoc]
    rw [hsame, hread] at hagain
    have hnil : Text.takeEndWhile isNameChar front = [] := by
      have hname := congrArg Head.name (Option.some.inj hagain)
      exact List.self_eq_append_left.mp hname
    rw [hnil, List.append_nil] at hsplit
    exact ⟨hr, front, hfront.symm, hsplit ▸ Text.any_getLast?_dropEndWhile isNameChar front⟩
  · intro h
    obtain ⟨hr, front, rfl, hfront⟩ := h
    exact readBack?_append hr hfront

/-- Read back from a marker, and no part of a longer word: this is the head that ends
there. -/
theorem Head.ends_iff {h : Head} {t : Text} {cursor marker : Nat} (hcursor : cursor ≤ marker)
    (hmarker : marker ≤ t.length) : h.Ends t cursor marker ↔
      readBack? (t.slice cursor marker).reverse = some h ∧
        (t.before? (marker - h.written.length)).any Text.isWord = false := by
  rw [readBack?_eq_some_iff]
  constructor
  · intro hends
    have hle := hends.cursor_le
    have hcut := Text.slice_append_slice t (by omega : cursor ≤ marker - h.written.length)
      (Nat.sub_le marker h.written.length)
    rw [hends.written] at hcut
    have hstop : (t.slice cursor (marker - h.written.length)).getLast?.any isNameChar = false :=
      (Text.any_getLast?_slice (by omega) (by omega)).mpr (hends.longest.imp_left (by omega))
    exact ⟨⟨hends.isRead, _, hcut.symm, hstop⟩, hends.apart⟩
  · intro hread
    obtain ⟨⟨hr, front, hfront, hstop⟩, hapart⟩ := hread
    have hlen := congrArg List.length hfront
    rw [Text.length_slice, Nat.min_eq_left hmarker, List.length_append] at hlen
    have hcut := Text.slice_append_slice t (by omega : cursor ≤ marker - h.written.length)
      (Nat.sub_le marker h.written.length)
    rw [hfront] at hcut
    obtain ⟨hbefore, hwritten⟩ := List.append_inj hcut (by
      rw [Text.length_slice, Nat.min_eq_left (by omega)]
      omega)
    rw [← hbefore, Text.any_getLast?_slice (by omega) (by omega)] at hstop
    exact ⟨hr, by omega, hwritten, hstop.imp_left (by omega), hapart⟩

/-! ## Values -/

/-- The blanks of a value are blanks. -/
structure Value.IsFormed (v : Value) : Prop where
  gap : ∀ c ∈ v.gap, Text.isBlank c = true
  beforeQuote : ∀ c ∈ v.beforeQuote, Text.isBlank c = true

/-- The value `v` stands at the beginning of the text with `rest` behind it, and of all that
do its expression is the shortest. -/
structure Value.Begins (quote : Char) (v : Value) (t rest : Text) : Prop where
  text : t = v.written quote ++ rest
  isFormed : v.IsFormed
  first : ∀ (other : Value) (more : Text), other.IsFormed → t = other.written quote ++ more →
    v.expression.length ≤ other.expression.length

section

variable {quote d : Char} {t front gap gap' x y rest rest' : Text} {v v' : Value}

/-- Blanks end where something else begins. -/
theorem eq_of_blanks_append (hgap : ∀ c ∈ gap, Text.isBlank c = true)
    (hgap' : ∀ c ∈ gap', Text.isBlank c = true) (hd : Text.isBlank d = false)
    (h : gap ++ d :: x = gap' ++ d :: y) : gap = gap' ∧ x = y := by
  have hstop : ∀ s, (d :: s).head?.any Text.isBlank = false := fun _ => hd
  have hsame : gap = gap' := by
    rw [← Text.takeWhile_append_of_stop hgap (hstop x), h,
      Text.takeWhile_append_of_stop hgap' (hstop y)]
  rw [hsame] at h
  exact ⟨hsame, (List.cons.inj (List.append_cancel_left h)).2⟩

theorem Value.written_append (quote : Char) (v : Value) (rest : Text) :
    v.written quote ++ rest = attributeMarker ++ (v.gap ++ '(' ::
      (v.expression ++ ')' :: (v.beforeQuote ++ quote :: rest))) := by
  simp only [written, List.append_assoc, List.cons_append, List.nil_append]

/-- Values that stand at the same place differ only in how far their expressions go. -/
theorem Value.IsFormed.unique (hv : v.IsFormed) (hv' : v'.IsFormed)
    (hquote : Text.isBlank quote = false)
    (hlen : v.expression.length = v'.expression.length)
    (h : v.written quote ++ rest = v'.written quote ++ rest') : v = v' := by
  rw [written_append, written_append] at h
  obtain ⟨hgap, htail⟩ := eq_of_blanks_append hv.gap hv'.gap rfl (List.append_cancel_left h)
  obtain ⟨hexpression, htail⟩ := List.append_inj htail hlen
  obtain ⟨hbefore, -⟩ := eq_of_blanks_append hv.beforeQuote hv'.beforeQuote hquote
    (List.cons.inj htail).2
  obtain ⟨g, e, b⟩ := v
  cases hgap
  cases hexpression
  cases hbefore
  rfl

theorem Value.exists_splitClosing? (hgap : ∀ c ∈ gap, Text.isBlank c = true)
    (hquote : Text.isBlank quote = false) :
    ∃ cut, splitClosing? quote (front ++ ')' :: (gap ++ quote :: rest)) = some cut := by
  induction front with
  | nil =>
    have hhead : ((gap ++ quote :: rest).dropWhile Text.isBlank).head? = some quote := by
      rw [Text.dropWhile_append_of_stop hgap (by simp [hquote])]
      rfl
    exact ⟨_, by rw [List.nil_append, splitClosing?, if_pos ⟨rfl, hhead⟩]⟩
  | cons c front ih =>
    obtain ⟨cut, hcut⟩ := ih
    rw [List.cons_append, splitClosing?]
    split
    next => exact ⟨_, rfl⟩
    next => exact ⟨_, by rw [hcut, Option.map_some]⟩

/-- Where a value stands, one is read. -/
theorem Value.IsFormed.exists_read? (hv : v.IsFormed) (hquote : Text.isBlank quote = false)
    (rest : Text) : ∃ v', read? quote (v.written quote ++ rest) = some v' := by
  obtain ⟨cut, hcut⟩ : ∃ cut, splitClosing? quote
      (v.expression ++ ')' :: (v.beforeQuote ++ quote :: rest)) = some cut :=
    exists_splitClosing? hv.beforeQuote hquote
  have hafter := Text.after?_eq_some.mpr (written_append quote v rest)
  have hstop : ∀ s, ('(' :: s).head?.any Text.isBlank = false := fun _ => rfl
  simp only [read?, hafter, Text.dropWhile_append_of_stop hv.gap (hstop _), hcut]
  exact ⟨_, rfl⟩

theorem Value.exists_begins_of_read? (hquote : Text.isBlank quote = false)
    (h : read? quote t = some v) : ∃ rest, v.Begins quote t rest := by
  obtain ⟨hgap, enclosed, htext, hsplit⟩ := isRead_of_read? h
  obtain ⟨rest, hrest⟩ := exists_of_splitClosing? hsplit
  refine ⟨rest, by rw [written_append, htext, hrest],
    ⟨hgap, isBlank_of_splitClosing? hsplit⟩, fun other more hother hmore => ?_⟩
  rw [htext, written_append] at hmore
  obtain ⟨-, henclosed⟩ := eq_of_blanks_append hgap hother.gap rfl (List.append_cancel_left hmore)
  rw [henclosed] at hsplit
  exact length_le_of_splitClosing? hother.beforeQuote hquote hsplit

theorem Value.read?_eq_some_iff (hquote : Text.isBlank quote = false) :
    read? quote t = some v ↔ ∃ rest, v.Begins quote t rest := by
  constructor
  · exact exists_begins_of_read? hquote
  · intro h
    obtain ⟨rest, htext, hformed, hfirst⟩ := h
    obtain ⟨v', hread⟩ := hformed.exists_read? hquote rest
    rw [← htext] at hread
    obtain ⟨rest', htext', hformed', hfirst'⟩ := exists_begins_of_read? hquote hread
    have hlen := Nat.le_antisymm (hfirst v' rest' hformed' htext')
      (hfirst' v rest hformed htext)
    rw [hformed.unique hformed' hquote hlen (htext.symm.trans htext')]
    exact hread

end

/-! ## Attributes -/

/-- A boolean attribute has its marker at `marker`. -/
def Accepted (t : Text) (cursor marker : Nat) : Prop :=
  ∃ h : Head, h.Ends t cursor marker ∧ ∃ (v : Value) (rest : Text), v.IsFormed ∧
    t.drop marker = v.written h.quote ++ rest

/-- The attribute as it is written, with the blanks before it. -/
def written (a : Attribute) : Text :=
  a.blanks ++ (a.head.written ++ a.value.written a.head.quote)

/-- The attribute `a` is the one that stands at its marker, with all the blanks before its
name from the cursor on.  Its span ends on character boundaries of the encoding, and the
bytes of the span are the attribute as it is written. -/
structure Occurs (t : Text) (cursor : Nat) (a : Attribute) : Prop where
  head : a.head.Ends t cursor a.marker
  value : a.value.Begins a.head.quote (t.drop a.marker) (t.drop a.stop)
  blanks : Text.IsRunBefore Text.isBlank t cursor a.nameStart a.blanks
  span : t.slice a.start a.stop = a.written
  start_isValid : String.Pos.Raw.IsValid (String.ofList t) ⟨t.toUtf8Offset a.start⟩
  stop_isValid : String.Pos.Raw.IsValid (String.ofList t) ⟨t.toUtf8Offset a.stop⟩
  bytes : String.Pos.Raw.extract (String.ofList t) ⟨t.toUtf8Offset a.start⟩
    ⟨t.toUtf8Offset a.stop⟩ = String.ofList a.written

variable {t : Text} {cursor marker : Nat} {a : Attribute}

/-- An attribute is read from its two sides. -/
theorem at?_eq_some_iff {rest : Text} : at? t cursor marker rest = some a ↔
    a.marker = marker ∧
      (Head.readBack? (t.slice cursor marker).reverse = some a.head ∧
        (t.before? (marker - a.head.written.length)).any Text.isWord = false) ∧
      Value.read? a.head.quote rest = some a.value ∧
      a.blanks = Text.takeEndWhile Text.isBlank (t.slice cursor a.nameStart) := by
  constructor
  · intro h
    unfold at? at h
    split at h
    next => cases h
    next =>
      split at h
      next => cases h
      next head hhead =>
        simp only at h
        split at h
        next => cases h
        next hapart =>
          obtain ⟨value, hvalue, rfl⟩ := Option.map_eq_some_iff.mp h
          exact ⟨rfl, ⟨hhead, Bool.eq_false_iff.mpr hapart⟩, hvalue, rfl⟩
  · intro h
    obtain ⟨marker', blanks, head, value⟩ := a
    obtain ⟨rfl, ⟨hhead, hapart⟩, hvalue, hblanks⟩ := h
    have hsign : attributeMarker.isPrefixOf rest = true := by
      obtain ⟨-, enclosed, htext, -⟩ := Value.isRead_of_read? hvalue
      rw [htext, List.isPrefixOf_iff_prefix]
      exact List.prefix_append _ _
    simp only [at?, hsign, Bool.not_true, Bool.false_eq_true, if_false, hhead, hapart, hvalue,
      Option.map_some]
    change blanks = _ at hblanks
    rw [hblanks]
    rfl

theorem Accepted.marker_lt (h : Accepted t cursor marker) : marker < t.length := by
  obtain ⟨head, -, v, rest, -, hdrop⟩ := h
  rw [Value.written_append] at hdrop
  exact Text.lt_length_of_drop hdrop (by decide)

theorem occurs_of_at? (hcursor : cursor ≤ marker)
    (h : at? t cursor marker (t.drop marker) = some a) : a.marker = marker ∧ a.Occurs t cursor := by
  obtain ⟨rfl, hhead, hvalue, hblanks⟩ := at?_eq_some_iff.mp h
  have hmarker : a.marker ≤ t.length := by
    obtain ⟨-, enclosed, htext, -⟩ := Value.isRead_of_read? hvalue
    exact Nat.le_of_lt (Text.lt_length_of_drop htext (by decide))
  have hends := (Head.ends_iff hcursor hmarker).mpr hhead
  obtain ⟨rest, hbegins⟩ := (Value.read?_eq_some_iff hends.isRead.isBlank_quote).mp hvalue
  have hle := hends.cursor_le
  have hrest : t.drop a.stop = rest := Text.drop_of_drop hbegins.text
  have hname : a.nameStart + a.head.written.length = a.marker := by
    rw [nameStart]
    omega
  have hrun := (Text.isRunBefore_iff (by omega : cursor ≤ a.nameStart) (by omega)).mpr hblanks
  have hdrop : t.drop a.nameStart = (a.head.written ++ a.value.written a.head.quote) ++ rest := by
    rw [List.append_assoc, ← hbegins.text]
    exact Text.drop_of_slice hends.written (Nat.sub_le _ _)
  have hstop : a.stop = a.nameStart + (a.head.written ++ a.value.written a.head.quote).length := by
    rw [List.length_append, stop]
    omega
  have hspan : t.slice a.start a.stop = a.written := by
    rw [hstop]
    exact hrun.slice_append hdrop
  refine ⟨rfl, hends, hrest.symm ▸ hbegins, hrun, hspan, Text.isValid_toUtf8Offset t _,
    Text.isValid_toUtf8Offset t _, ?_⟩
  have hle : a.start ≤ a.stop := by
    rw [start, hstop]
    omega
  rw [Text.extract_toUtf8Offset t hle, hspan]

theorem Occurs.accepted (h : a.Occurs t cursor) : Accepted t cursor a.marker :=
  ⟨a.head, h.head, a.value, t.drop a.stop, h.value.isFormed, h.value.text⟩

theorem Occurs.at? (h : a.Occurs t cursor) :
    at? t cursor a.marker (t.drop a.marker) = some a := by
  have hle := h.head.cursor_le
  have hlen := Nat.le_of_lt h.accepted.marker_lt
  refine at?_eq_some_iff.mpr ⟨rfl, (Head.ends_iff (by omega) hlen).mp h.head,
    (Value.read?_eq_some_iff h.head.isRead.isBlank_quote).mpr ⟨_, h.value⟩, ?_⟩
  exact (Text.isRunBefore_iff (by rw [nameStart]; omega) (by rw [nameStart]; omega)).mp h.blanks

theorem Accepted.exists_at? (h : Accepted t cursor marker) (hcursor : cursor ≤ marker) :
    ∃ a, Attribute.at? t cursor marker (t.drop marker) = some a := by
  have hlen := Nat.le_of_lt h.marker_lt
  obtain ⟨head, hends, v, rest, hformed, hdrop⟩ := h
  obtain ⟨value, hvalue⟩ := hformed.exists_read? hends.isRead.isBlank_quote rest
  rw [← hdrop] at hvalue
  exact ⟨⟨marker, Text.takeEndWhile Text.isBlank (t.slice cursor (marker - head.written.length)),
    head, value⟩, at?_eq_some_iff.mpr ⟨rfl, (Head.ends_iff hcursor hlen).mp hends, hvalue, rfl⟩⟩

theorem reads (t : Text) (cursor : Nat) : Text.Reads (Attribute.at? t cursor) t cursor
    (Accepted t cursor) Attribute.marker (Occurs t cursor) where
  read_iff m a hm := by
    constructor
    · exact occurs_of_at? hm
    · intro h
      obtain ⟨rfl, hoccurs⟩ := h
      exact hoccurs.at?
  exists_read _ hm h := h.exists_at? hm
  occurs a h := by
    have hle := h.head.cursor_le
    exact ⟨by omega, h.accepted.marker_lt, h.accepted⟩

/-- For every text and cursor: the search finds the attribute of the leftmost marker that has
one, as it stands there, and nothing only when no marker has one. -/
theorem find?_leftmost_attribute (t : Text) (cursor : Nat) :
    (find? t cursor = none ↔ ∀ m, cursor ≤ m → ¬ Accepted t cursor m) ∧
    ∀ a, find? t cursor = some a ↔
      a.Occurs t cursor ∧ ∀ m, cursor ≤ m → Accepted t cursor m → a.marker ≤ m :=
  ⟨Text.firstMatch_eq_none_iff_forall (reads t cursor).accepts,
    fun _ => (reads t cursor).firstMatch_eq_some_iff_occurs⟩

/-- A cursor that cuts a name leaves an attribute behind a hyphen, and none behind a
letter. -/
example : (find? "data-x=\"@boolAttr(f(y))\"".toList 5).map
    (fun a => (a.start, a.head.name, a.value.expression)) = some (5, ['x'], "f(y)".toList) ∧
    (find? "data-x=\"@boolAttr(f(y))\"".toList 2).isNone = true := by
  decide +kernel

end Attribute
end Directive
end TemplateDirectives
