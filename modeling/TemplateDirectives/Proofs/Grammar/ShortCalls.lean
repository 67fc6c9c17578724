/-
Where short calls stand, said without the search for them.

`ShortCall.Valid` says of an offset that a call stands there, and `ShortCall.Occurs` says
what a find has to hold about the call at its marker.  The search finds the leftmost valid
offset and what occurs there, and it finds nothing only when there is none
(`find?_leftmost_call`).  The list of all finds passes over a valid offset only in the argument
list of a call that it has.
-/
import TemplateDirectives.Proofs.Grammar.Calls
import TemplateDirectives.Proofs.Splices

namespace TemplateDirectives
namespace Directive
namespace ShortCall

/-- A short call stands at `marker`: both signs, no word character before them, and behind
them a name that does not begin with the end word. -/
structure Valid (t : Text) (marker : Nat) : Prop where
  sign : callMarker <+: t.drop marker
  apart : (t.before? marker).any Text.isWord = false
  name : ∃ (n : Name) (rest : Text), n.Begins (t.drop (marker + callMarker.length)) rest ∧
    ¬ Name.endWord <+: n.written

/-- The call `c` is the one that stands at its marker, with all the blanks before it from
`cursor` on. -/
structure Occurs (t : Text) (cursor : Nat) (c : ShortCall) : Prop where
  cursor_le : cursor ≤ c.marker
  valid : Valid t c.marker
  call : Call.Begins (t.drop (c.marker + callMarker.length)) (t.drop c.stop) c.call
  blanks : Text.IsRunBefore Text.isBlank t cursor c.marker c.blanks
  colon : c.colon = true ↔ [':'] <+: t.drop c.stop
  span : t.slice c.start c.stop = c.blanks ++ (callMarker ++ c.call.written)

/-- Where the name of a call ends, and its argument list begins if it has one. -/
def nameStop (c : ShortCall) : Nat := c.marker + callMarker.length + c.call.name.written.length

variable {t : Text} {cursor marker : Nat} {c : ShortCall}

theorem Valid.marker_lt (h : Valid t marker) : marker < t.length := by
  obtain ⟨after, hafter⟩ := h.sign
  exact Text.lt_length_of_drop hafter.symm (by simp [callMarker])

theorem apart_of_at? {rest : Text} (h : at? t cursor marker rest = some c) :
    (t.before? marker).any Text.isWord = false := by
  unfold at? at h
  split at h
  next => cases h
  next =>
    split at h
    next => cases h
    next hword => exact Bool.eq_false_iff.mpr hword

theorem head?_eq_some_iff_prefix {d : Char} {x : Text} : x.head? = some d ↔ [d] <+: x := by
  cases x with
  | nil => simp
  | cons e x => simp [eq_comm]

theorem occurs_of_at? (hcursor : cursor ≤ marker)
    (h : at? t cursor marker (t.drop marker) = some c) : c.marker = marker ∧ c.Occurs t cursor := by
  obtain ⟨rest, hstands⟩ := stands_of_at? hcursor h
  have hmarker := marker_of_at? h
  have hdrop := Text.drop_of_drop hstands.written
  have hstop : t.drop c.stop = rest := Text.drop_of_drop hdrop
  have hlen := Nat.le_of_lt hstands.marker_lt
  obtain ⟨rest', hbegins⟩ := Call.read?_eq_some_iff.mp hstands.read
  obtain rfl := List.append_cancel_left hbegins.text
  refine ⟨hmarker, hstands.cursor_le, ⟨⟨_, hstands.written.symm⟩, ?_, ?_⟩, ?_, ?_, ?_, hstands.slice⟩
  · rw [hmarker]
    exact apart_of_at? h
  · rw [hdrop]
    obtain ⟨behind, hname⟩ := hbegins.name
    exact ⟨c.call.name, behind, hname, Name.beginsWithEnd_eq_false_iff.mp hstands.beginsWithEnd⟩
  · rw [hdrop, hstop]
    exact hbegins
  · exact (Text.isRunBefore_iff hstands.cursor_le hlen).mpr hstands.blanks
  · rw [hstop, hstands.colon, beq_iff_eq]
    exact head?_eq_some_iff_prefix

theorem Occurs.at? (h : c.Occurs t cursor) : at? t cursor c.marker (t.drop c.marker) = some c := by
  obtain ⟨after, hafter⟩ := h.valid.sign
  have htext := h.call.text
  have hlen := Nat.le_of_lt h.valid.marker_lt
  have hread : Call.read? (c.call.written ++ t.drop c.stop) = some c.call :=
    Call.read?_eq_some_iff.mpr ⟨_, htext ▸ h.call⟩
  have hend : c.call.name.beginsWithEnd = false := by
    obtain ⟨n, rest, hn, hnotEnd⟩ := h.valid.name
    obtain ⟨behind, hname⟩ := h.call.name
    rw [Name.Begins.unique hname hn]
    exact Name.beginsWithEnd_eq_false_iff.mpr hnotEnd
  have hcolon : ((t.drop c.stop).head? == some ':') = c.colon := by
    rw [Bool.eq_iff_iff, beq_iff_eq, h.colon]
    exact head?_eq_some_iff_prefix
  rw [← hafter, ← Text.drop_of_drop hafter.symm, htext, at?_eq_some h.valid.apart hread hend,
    hcolon, ← (Text.isRunBefore_iff h.cursor_le hlen).mp h.blanks]

/-- Where a call stands, one is read. -/
theorem Valid.exists_at? (h : Valid t marker) (cursor : Nat) :
    ∃ c, ShortCall.at? t cursor marker (t.drop marker) = some c := by
  obtain ⟨after, hafter⟩ := h.sign
  obtain ⟨n, rest, hn, hend⟩ := h.name
  have hcall : Call.read? (t.drop (marker + callMarker.length)) =
      some ⟨n, ArgumentList.read? ((t.drop (marker + callMarker.length)).drop n.written.length)⟩ := by
    rw [Call.read?, Name.read?_eq_some_iff.mpr ⟨rest, hn⟩, Option.map_some]
  generalize ArgumentList.read? _ = arguments at hcall
  obtain ⟨more, hmore⟩ := Call.written_isPrefix_of_read? hcall
  have hat : ShortCall.at? t cursor marker (callMarker ++ (_ ++ more)) = _ :=
    at?_eq_some h.apart (hmore ▸ hcall) (Name.beginsWithEnd_eq_false_iff.mpr hend)
  rw [hmore, Text.drop_of_drop hafter.symm, hafter] at hat
  exact ⟨_, hat⟩

theorem reads (t : Text) (cursor : Nat) : Text.Reads (ShortCall.at? t cursor) t cursor (Valid t)
    ShortCall.marker (Occurs t cursor) where
  read_iff m c hm := by
    constructor
    · exact occurs_of_at? hm
    · intro h
      obtain ⟨rfl, hoccurs⟩ := h
      exact hoccurs.at?
  exists_read _ _ h := h.exists_at? cursor
  occurs _ h := ⟨h.cursor_le, h.valid.marker_lt, h.valid⟩

theorem signs_of_prefix (h : callMarker <+: t.drop marker) :
    t[marker]? = some '@' ∧ t[marker + 1]? = some '@' := by
  obtain ⟨after, hafter⟩ := h
  constructor
  · rw [← List.head?_drop, ← hafter]
    rfl
  · rw [← List.head?_drop, ← List.drop_drop, ← hafter]
    rfl

/-- No call stands in the name of another. -/
theorem Occurs.nameStop_le (h : c.Occurs t cursor) (hvalid : Valid t marker)
    (hlt : c.marker < marker) : c.nameStop ≤ marker := by
  obtain ⟨behind, hname⟩ := h.call.name
  have hformed := hname.isFormed
  have hpos := List.length_pos_iff.mpr (Name.written_ne_nil hformed)
  obtain ⟨hfirst, hsecond⟩ := signs_of_prefix hvalid.sign
  by_cases hle : c.nameStop ≤ marker
  · exact hle
  · -- one of the two signs stands in the name
    have hsign : t[max marker (c.marker + callMarker.length)]? = some '@' := by
      by_cases hnext : marker = c.marker + 1
      · rw [hnext] at hsecond ⊢
        rw [Nat.max_eq_right (by simp [callMarker])]
        exact hsecond
      · rw [Nat.max_eq_left (by simp only [callMarker, List.length_cons, List.length_nil]; omega)]
        exact hfirst
    rw [nameStop] at hle
    obtain ⟨d, hd, hget⟩ := Text.mem_of_drop (i := max marker (c.marker + callMarker.length))
      hname.text (by omega) (by omega)
    rw [hsign] at hget
    cases hget
    exact absurd hd (Name.at_not_mem_written hformed)

theorem find?_eq_none_iff : find? t cursor = none ↔ ∀ m, cursor ≤ m → ¬ Valid t m :=
  Text.firstMatch_eq_none_iff_forall (reads t cursor).accepts

theorem find?_eq_some_iff : find? t cursor = some c ↔
    c.Occurs t cursor ∧ ∀ m, cursor ≤ m → Valid t m → c.marker ≤ m :=
  (reads t cursor).firstMatch_eq_some_iff_occurs

theorem findsLeast (t : Text) :
    Text.FindsLeast (find? t) ShortCall.marker stop (fun _ => True) (Valid t) where
  absent _ _ h := find?_eq_none_iff.mp h
  found _ _ _ h := ⟨(find?_eq_some_iff.mp h).1.valid, (find?_eq_some_iff.mp h).2⟩
  moves _ c h := ⟨(find?_eq_some_iff.mp h).1.cursor_le, c.marker_lt_stop, trivial⟩

/-- For every text and cursor: the search finds the leftmost place where a call stands, and
the call that stands there, and nothing only when there is no place.  Going on behind each
find, it takes stretches that do not overlap, and passes over a place only in the argument
list of a find. -/
theorem find?_leftmost_call (t : Text) (cursor : Nat) :
    (find? t cursor = none ↔ ∀ m, cursor ≤ m → ¬ Valid t m) ∧
    (∀ c, find? t cursor = some c ↔
      c.Occurs t cursor ∧ ∀ m, cursor ≤ m → Valid t m → c.marker ≤ m) ∧
    ((all t cursor).Pairwise fun c d => c.stop ≤ d.start) ∧
    ∀ m, (∃ c ∈ all t cursor, c.marker = m) ↔
      cursor ≤ m ∧ Valid t m ∧ ∀ c ∈ all t cursor, ¬ (c.nameStop ≤ m ∧ m < c.stop) := by
  refine ⟨find?_eq_none_iff, fun c => find?_eq_some_iff, ?_, fun m => ?_⟩
  · refine Text.pairwise_next_le (fun k c hfind => ?_) cursor
    obtain ⟨rest, hstands⟩ := stands_of_find? hfind
    exact hstands.cursor_le_start
  · have hiff : (∃ c ∈ all t cursor, c.marker = m) ↔ cursor ≤ m ∧ Valid t m ∧
        ∀ c ∈ all t cursor, ¬ (c.marker < m ∧ m < c.stop) :=
      (findsLeast t).exists_mem_iff trivial m
    rw [hiff]
    refine and_congr_right fun _ => and_congr_right fun hvalid => forall₂_congr fun c hc => ?_
    obtain ⟨k, -, hfind⟩ := Text.exists_find_of_mem_scanAll hc
    have hoccurs := (find?_eq_some_iff.mp hfind).1
    have hmarker : c.marker < c.nameStop := by
      simp only [nameStop, callMarker, List.length_cons]
      omega
    refine not_congr (and_congr_left fun _ => ?_)
    constructor
    · exact hoccurs.nameStop_le hvalid
    · intro hle
      omega

/-- A marker in a mail address and one in a run of signs begin no call, and a parenthesis in
a literal closes none. -/
example : (find? "a@@b @@@c (')')".toList 0).map (fun c => (c.marker, c.call.argumentText)) =
    some (6, "')'".toList) := by
  decide +kernel

end ShortCall
end Directive
end TemplateDirectives
