/-
Where openings of blocks stand, said without the search for them.

`BlockOpening.Opens` says of an offset that a block opens there for a search from a cursor:
nothing but indentation stands before the signs on a line that begins at the cursor or
later, and a colon follows the call at once.  The search finds the leftmost such offset and
what occurs there (`find?_leftmost_opening`).  The cursor decides only which lines count
and which blanks before the line a find takes with it, so two cursors that let a line count
read the same opening on it.  The search for short calls reads the same call at the marker,
with its colon, unless the name begins with the end word.
-/
import TemplateDirectives.Proofs.Grammar.ShortCalls
import TemplateDirectives.Proofs.Openings

namespace TemplateDirectives
namespace Directive
namespace BlockOpening

/-- A block opens at `marker`: both signs behind indentation only, on a line that the cursor
lets count, and behind them a call with a colon. -/
structure Opens (t : Text) (cursor marker : Nat) : Prop where
  sign : callMarker <+: t.drop marker
  line : ∃ lead, Text.IsRunBefore (· != '\n') t 0 marker lead ∧ cursor + lead.length ≤ marker ∧
    ∀ c ∈ lead, Text.isIndent c = true
  call : ∃ (c : Call) (rest : Text), Call.Begins (t.drop (marker + callMarker.length)) (':' :: rest) c

/-- The opening `o` is the one that stands at its marker.  Its indentation is all that
stands before it on its line, and it has all the blanks before the line from `cursor` on. -/
structure Occurs (t : Text) (cursor : Nat) (o : BlockOpening) : Prop where
  opens : Opens t cursor o.marker
  indent : Text.IsRunBefore (· != '\n') t 0 o.marker o.indent
  call : Call.Begins (t.drop (o.marker + callMarker.length)) (':' :: t.drop o.stop) o.call
  blanks : Text.IsRunBefore Text.isBlank t cursor o.line o.blanks
  span : t.slice o.start o.stop =
    o.blanks ++ (o.indent ++ (callMarker ++ (o.call.written ++ [':'])))

/-- Two readings of one opening, the second from a later cursor. -/
structure Agree (o later : BlockOpening) : Prop where
  marker : later.marker = o.marker
  indent : later.indent = o.indent
  call : later.call = o.call
  stop : later.stop = o.stop
  blanks : later.blanks <:+ o.blanks

/-- The opening as a short call, with what stands before it from `offset` on. -/
def asCall (t : Text) (offset : Nat) (o : BlockOpening) : ShortCall :=
  ⟨o.marker, t.slice offset o.marker, o.call, true⟩

/-- What the search for short calls makes of an opening: it finds the call from anywhere on
the line, up to the colon, and never when the name begins with the end word. -/
structure IsReadAsCall (t : Text) (o : BlockOpening) : Prop where
  found : ¬ Name.endWord <+: o.call.name.written → ∀ offset, o.line ≤ offset → offset ≤ o.marker →
    ShortCall.find? t offset = some (o.asCall t offset) ∧ (o.asCall t offset).stop + 1 = o.stop
  passed : Name.endWord <+: o.call.name.written → ∀ offset c, ShortCall.find? t offset = some c →
    c.marker ≠ o.marker

variable {t lead : Text} {cursor marker offset : Nat} {o : BlockOpening}

theorem Opens.marker_lt (h : Opens t cursor marker) : marker < t.length := by
  obtain ⟨after, hafter⟩ := h.sign
  exact Text.lt_length_of_drop hafter.symm (by simp [callMarker])

theorem Opens.cursor_le (h : Opens t cursor marker) : cursor ≤ marker := by
  obtain ⟨lead, -, hline, -⟩ := h.line
  omega

theorem isRunBefore_line_iff (hmarker : marker ≤ t.length) :
    Text.IsRunBefore (· != '\n') t 0 marker lead ↔
      lead = Text.takeEndWhile (· != '\n') (t.take marker) := by
  have hslice : t.slice 0 marker = t.take marker := List.drop_zero
  rw [Text.isRunBefore_iff (Nat.zero_le marker) hmarker, hslice]

theorem indent_of_at? (h : at? t cursor marker = some o) :
    o.indent = Text.takeEndWhile (· != '\n') (t.take marker) := by
  unfold at? at h
  simp only at h
  split at h
  next => cases h
  next =>
    split at h
    next => cases h
    next =>
      split at h
      next =>
        cases h
        rfl
      next => cases h

/-- What stands at an opening is read. -/
theorem at?_of_begins {call : Call} {rest : Text} (hsign : callMarker <+: t.drop marker)
    (hlead : Text.IsRunBefore (· != '\n') t 0 marker lead) (hline : cursor + lead.length ≤ marker)
    (hindent : ∀ c ∈ lead, Text.isIndent c = true)
    (hcall : Call.Begins (t.drop (marker + callMarker.length)) (':' :: rest) call) :
    at? t cursor marker = some ⟨marker, lead,
      Text.takeEndWhile Text.isBlank (t.slice cursor (marker - lead.length)), call⟩ := by
  obtain ⟨after, hafter⟩ := hsign
  have hdrop : t.drop (marker - lead.length) =
      lead ++ (callMarker ++ (call.written ++ ':' :: rest)) := by
    rw [← hcall.text, Text.drop_of_drop hafter.symm, hafter]
    exact Text.drop_of_slice hlead.slice (Nat.sub_le _ _)
  have hbegins : (t.before? (marker - lead.length)).all (· == '\n') = true := by
    rcases hlead.longest with hfull | hbefore
    · rw [show marker - lead.length = 0 by omega]
      rfl
    · cases hchar : t.before? (marker - lead.length) with
      | none => rfl
      | some c =>
        rw [hchar] at hbefore
        simpa using hbefore
  have hat : at? t cursor _ = _ := at?_eq_some hdrop (Call.read?_eq_some_iff.mpr ⟨_, hcall.text ▸ hcall⟩)
    (List.all_eq_true.mpr hindent) hbegins (by omega)
  rwa [show marker - lead.length + lead.length = marker by omega] at hat

theorem occurs_of_at? (hsign : callMarker <+: t.drop marker) (h : at? t cursor marker = some o) :
    o.marker = marker ∧ o.Occurs t cursor := by
  obtain rfl := marker_of_at? h
  obtain ⟨rest, hstands⟩ := stands_of_at? hsign h
  have hlt := hstands.marker_lt
  have hmarker := hstands.marker
  have hline : o.line ≤ t.length := by omega
  have hlead := (isRunBefore_line_iff (Nat.le_of_lt hlt)).mpr (indent_of_at? h)
  have hblanks := (Text.isRunBefore_iff hstands.cursor_le hline).mpr hstands.blanks
  have hcall : Call.Begins (t.drop (o.marker + callMarker.length)) (':' :: t.drop o.stop) o.call := by
    obtain ⟨more, hbegins⟩ := Call.read?_eq_some_iff.mp hstands.read
    obtain rfl := List.append_cancel_left hbegins.text
    rwa [Text.drop_of_drop hstands.at_marker, hstands.at_stop]
  have hcursor := hstands.cursor_le
  refine ⟨rfl, ⟨hsign, ⟨o.indent, hlead, by omega, hstands.indent⟩, o.call, _, hcall⟩, hlead, hcall,
    hblanks, ?_⟩
  have hwritten : t.drop o.line =
      (o.indent ++ (callMarker ++ (o.call.written ++ [':']))) ++ rest := by
    rw [hstands.written]
    simp only [List.append_assoc, List.singleton_append]
  have hstop : o.stop =
      o.line + (o.indent ++ (callMarker ++ (o.call.written ++ [':']))).length := by
    simp only [stop, List.length_append, List.length_singleton]
    omega
  rw [hstop]
  exact hblanks.slice_append hwritten

theorem Occurs.at? (h : o.Occurs t cursor) : at? t cursor o.marker = some o := by
  obtain ⟨lead, hlead, hline, hindent⟩ := h.opens.line
  have hle := Nat.le_of_lt h.opens.marker_lt
  obtain rfl : lead = o.indent :=
    ((isRunBefore_line_iff hle).mp hlead).trans ((isRunBefore_line_iff hle).mp h.indent).symm
  have hblanks := (Text.isRunBefore_iff (by rw [line]; omega) (by rw [line]; omega)).mp h.blanks
  rw [line] at hblanks
  rw [at?_of_begins h.opens.sign hlead hline hindent h.call, ← hblanks]

theorem at?_eq_some_iff (hsign : callMarker <+: t.drop marker) :
    BlockOpening.at? t cursor marker = some o ↔ o.marker = marker ∧ o.Occurs t cursor := by
  constructor
  · exact occurs_of_at? hsign
  · intro h
    obtain ⟨rfl, hoccurs⟩ := h
    exact hoccurs.at?

theorem Opens.exists_at? (h : Opens t cursor marker) :
    ∃ o, BlockOpening.at? t cursor marker = some o := by
  obtain ⟨lead, hlead, hline, hindent⟩ := h.line
  obtain ⟨call, rest, hcall⟩ := h.call
  exact ⟨_, at?_of_begins h.sign hlead hline hindent hcall⟩

/-! ## Searching -/

theorem reads (t : Text) (cursor : Nat) : Text.Reads
    (fun marker rest => if callMarker.isPrefixOf rest then BlockOpening.at? t cursor marker else none)
    t cursor (Opens t cursor) BlockOpening.marker (Occurs t cursor) where
  read_iff m o _ := by
    by_cases hsign : callMarker <+: t.drop m
    · rw [if_pos (List.isPrefixOf_iff_prefix.mpr hsign)]
      exact at?_eq_some_iff hsign
    · rw [if_neg (mt List.isPrefixOf_iff_prefix.mp hsign)]
      refine iff_of_false (by simp) fun h => hsign ?_
      exact h.1 ▸ h.2.opens.sign
  exists_read m _ h := by
    rw [if_pos (List.isPrefixOf_iff_prefix.mpr h.sign)]
    exact h.exists_at?
  occurs _ h := ⟨h.opens.cursor_le, h.opens.marker_lt, h.opens⟩

theorem find?_eq_none_iff : find? t cursor = none ↔ ∀ m, cursor ≤ m → ¬ Opens t cursor m :=
  Text.firstMatch_eq_none_iff_forall (reads t cursor).accepts

theorem find?_eq_some_iff : find? t cursor = some o ↔
    o.Occurs t cursor ∧ ∀ m, cursor ≤ m → Opens t cursor m → o.marker ≤ m :=
  (reads t cursor).firstMatch_eq_some_iff_occurs

/-! ## Other readers of the marker -/

/-- Cursors that let the line of a marker count read the same at the marker. -/
theorem agree_at? {later : Nat} (hmarker : marker ≤ t.length)
    (hlead : Text.IsRunBefore (· != '\n') t 0 marker lead) (hle : cursor ≤ later)
    (hline : later + lead.length ≤ marker) :
    Option.Rel Agree (BlockOpening.at? t cursor marker) (BlockOpening.at? t later marker) := by
  rw [at?_eq_bind t cursor, at?_eq_bind t later]
  cases ho : BlockOpening.at? t 0 marker with
  | none => exact .none
  | some o =>
    have hlead' : o.line = marker - lead.length := by
      rw [line, marker_of_at? ho, indent_of_at? ho, ← (isRunBefore_line_iff hmarker).mp hlead]
    rw [Option.bind_some, Option.bind_some, if_neg (by omega), if_neg (by omega)]
    refine .some ⟨rfl, rfl, rfl, rfl, ?_⟩
    have hcut := Text.slice_append_slice t hle (by omega : later ≤ o.line)
    rw [← hcut]
    exact Text.takeEndWhile_isSuffix _ _ _

/-- On the line of an opening no short call stands before its marker. -/
theorem Occurs.marker_le (h : o.Occurs t cursor) (hline : o.line ≤ marker)
    (hvalid : ShortCall.Valid t marker) : o.marker ≤ marker := by
  obtain ⟨rest, hstands⟩ := stands_of_at? h.opens.sign h.at?
  refine Nat.le_of_not_lt fun hlt => ?_
  have hmarker := hstands.marker
  obtain ⟨c, hc, hget⟩ := Text.mem_of_drop hstands.written hline (by omega)
  rw [(ShortCall.signs_of_prefix hvalid.sign).1] at hget
  cases hget
  exact absurd (hstands.indent '@' hc) (by decide)

/-- The call of an opening is the next short call for whoever searches on its line. -/
theorem Occurs.find?_shortCall (h : o.Occurs t cursor)
    (hend : ¬ Name.endWord <+: o.call.name.written) (hline : o.line ≤ offset)
    (hoffset : offset ≤ o.marker) : ShortCall.find? t offset = some (o.asCall t offset) := by
  obtain ⟨rest, hstands⟩ := stands_of_at? h.opens.sign h.at?
  have hapart := any_isWord_before_of_at? h.at? (Nat.le_of_lt hstands.marker_lt)
  have hat : ShortCall.at? t offset o.marker _ = _ := ShortCall.at?_eq_some hapart hstands.read
    (Name.beginsWithEnd_eq_false_iff.mpr hend)
  have hblanks : Text.takeEndWhile Text.isBlank (t.slice offset o.marker) =
      t.slice offset o.marker := by
    have hcut := Text.slice_append_slice t hline hoffset
    have hindent : t.slice o.line o.marker = o.indent := by
      rw [← hstands.marker]
      exact Text.slice_of_drop hstands.written
    have hblank : ∀ c ∈ t.slice offset o.marker, Text.isBlank c = true := by
      intro c hc
      have hmem : c ∈ o.indent := by
        rw [← hindent, ← hcut]
        exact List.mem_append_right _ hc
      exact Text.isBlank_of_isIndent (hstands.indent c hmem)
    have hnil : ([] : Text).getLast?.any Text.isBlank = false := rfl
    exact Text.takeEndWhile_append_of_stop hblank hnil
  rw [← hstands.at_marker, hblanks] at hat
  obtain ⟨-, hoccurs⟩ := ShortCall.occurs_of_at? hoffset hat
  exact ShortCall.find?_eq_some_iff.mpr
    ⟨hoccurs, fun m hm hvalid => h.marker_le (Nat.le_trans hline hm) hvalid⟩

theorem Occurs.isReadAsCall (h : o.Occurs t cursor) : o.IsReadAsCall t where
  found hend _ hline hoffset := ⟨h.find?_shortCall hend hline hoffset, rfl⟩
  passed hend _ c hc hmarker := by
    have hvalid := (ShortCall.find?_eq_some_iff.mp hc).1.valid
    rw [hmarker] at hvalid
    obtain ⟨n, rest, hn, hnot⟩ := hvalid.name
    obtain ⟨behind, hname⟩ := h.call.name
    rw [hn.unique hname] at hnot
    exact hnot hend

/-- For every text and cursor: the search finds the leftmost opening of a block, as it
stands there, and nothing only when none does, and at a marker just the opening is read that
stands there.  Two cursors that let the line of a marker count differ only in the blanks
before it.  The search for short calls reads the call of an opening too. -/
theorem find?_leftmost_opening (t : Text) (cursor : Nat) :
    (find? t cursor = none ↔ ∀ m, cursor ≤ m → ¬ Opens t cursor m) ∧
    (∀ o, find? t cursor = some o ↔
      o.Occurs t cursor ∧ ∀ m, cursor ≤ m → Opens t cursor m → o.marker ≤ m) ∧
    (∀ m o, callMarker <+: t.drop m →
      (at? t cursor m = some o ↔ o.marker = m ∧ o.Occurs t cursor)) ∧
    (∀ later m lead, m ≤ t.length → Text.IsRunBefore (· != '\n') t 0 m lead → cursor ≤ later →
      later + lead.length ≤ m → Option.Rel Agree (at? t cursor m) (at? t later m)) ∧
    ∀ o : BlockOpening, o.Occurs t cursor → o.IsReadAsCall t :=
  ⟨find?_eq_none_iff, fun _ => find?_eq_some_iff, fun _ _ => at?_eq_some_iff,
    fun _ _ _ => agree_at?, fun _ => Occurs.isReadAsCall⟩

/-- The blank line belongs to the opening unless the cursor has passed it. -/
example : (at? "x\n\n\t@@f:".toList 0 4).map (fun o => (o.start, o.stop)) = some (1, 8) ∧
    (at? "x\n\n\t@@f:".toList 3 4).map (fun o => (o.start, o.stop)) = some (3, 8) := by
  decide +kernel

end BlockOpening
end Directive
end TemplateDirectives
