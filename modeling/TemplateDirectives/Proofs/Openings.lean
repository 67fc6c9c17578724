/-
What opens a block, for the rule for short calls and for the rule for blocks.

The rule for short calls leaves a call with a colon alone when it opens a block, which
it decides at the marker, with the whole text before it.  The rule for blocks goes
through the same text with a cursor of its own, from behind one block to the next
opening (`Block.expansion`).  When the rule for short calls has replaced nothing, both
have met the same openings: it has come by every opening that the rule for blocks comes
to (`InStep.exists_call`), and nothing that it left alone lies before.  So the rule for
blocks meets no opening whose end marker is missing, and expands the bodies that the
rule for short calls has passed over (`Rule.expansion_of_shortCalls`).
-/
import TemplateDirectives.Proofs.Bodies
import TemplateDirectives.Proofs.Markup.Calls

namespace TemplateDirectives

open Directive

namespace Directive

/-! ## Openings and the cursor -/

namespace BlockOpening

variable {t : Text} {cursor marker : Nat} {o : BlockOpening}

/-- The cursor decides which blanks belong to an opening, and refuses an opening whose
line begins before it. -/
theorem at?_eq_bind (t : Text) (cursor marker : Nat) :
    at? t cursor marker = (at? t 0 marker).bind fun o =>
      if o.line < cursor then none
      else some { o with blanks := Text.takeEndWhile Text.isBlank (t.slice cursor o.line) } := by
  unfold at?
  simp only [Nat.not_lt_zero, false_or]
  generalize Text.takeEndWhile (· != '\n') (t.take marker) = indent
  by_cases hindent : indent.all Text.isIndent = false
  · simp only [hindent, or_true, if_true]
    rfl
  · simp only [hindent, Bool.true_eq_false, or_false, if_false]
    cases hcall : Call.read? (t.drop (marker + callMarker.length)) with
    | none =>
      simp only [ite_self]
      rfl
    | some call =>
      simp only
      by_cases hcolon : ((t.drop (marker + callMarker.length)).drop call.written.length).head? =
          some ':'
      · simp only [if_pos hcolon]
        rfl
      · simp only [if_neg hcolon, ite_self]
        rfl

theorem exists_at?_zero (h : at? t cursor marker = some o) :
    ∃ o', at? t 0 marker = some o' ∧ o'.call = o.call ∧ o'.stop = o.stop ∧ cursor ≤ o'.line := by
  rw [at?_eq_bind] at h
  obtain ⟨o', ho', hkept⟩ := Option.bind_eq_some_iff.mp h
  split at hkept
  next => cases hkept
  next hline =>
    cases hkept
    exact ⟨o', ho', rfl, rfl, Nat.not_lt.mp hline⟩

theorem exists_at?_of_line (h : at? t 0 marker = some o) (hline : cursor ≤ o.line) :
    ∃ o', at? t cursor marker = some o' := by
  rw [at?_eq_bind, h, Option.bind_some, if_neg (Nat.not_lt.mpr hline)]
  exact ⟨_, rfl⟩

/-- What is found is the first of the openings whose lines begin at the cursor or later. -/
theorem marker_le_of_find? (ho : find? t cursor = some o) (hp : callMarker <+: t.drop marker)
    {o' : BlockOpening} (ho' : at? t 0 marker = some o') (hline : cursor ≤ o'.line) :
    o.marker ≤ marker := by
  obtain ⟨m, hm, -, hat, hfirst⟩ := Text.rejects_of_firstMatch ho
  have hmarker : o.marker = m := by
    split at hat
    next => exact marker_of_at? hat
    next => cases hat
  have hle : o'.line ≤ marker := by
    rw [← marker_of_at? ho', line]
    exact Nat.sub_le _ _
  obtain ⟨o'', hfound⟩ := exists_at?_of_line ho' hline
  refine Nat.le_of_not_lt fun hlt => ?_
  have hnone : (if callMarker.isPrefixOf (t.drop marker) then at? t cursor marker else none) =
      none := hfirst marker (by omega) (by omega)
  rw [if_pos (List.isPrefixOf_iff_prefix.mpr hp), hfound] at hnone
  cases hnone

/-- An opening stands at the beginning of a line or behind its indentation, so it is no
part of a longer word. -/
theorem any_isWord_before_of_at? (h : at? t cursor marker = some o) (hm : marker ≤ t.length) :
    (t.before? marker).any Text.isWord = false := by
  have hindent : (Text.takeEndWhile (· != '\n') (t.take marker)).all Text.isIndent = true := by
    unfold at? at h
    simp only at h
    split at h
    next => cases h
    next hline => exact Bool.not_eq_false _ ▸ (not_or.mp hline).2
  rw [← Text.getLast?_take hm]
  rcases List.eq_nil_or_concat (t.take marker) with hnil | ⟨u, c, hconcat⟩
  · rw [hnil]
    rfl
  · rw [List.concat_eq_append] at hconcat
    rw [hconcat, Text.takeEndWhile_concat] at hindent
    rw [hconcat, List.getLast?_concat, Option.any_some]
    by_cases hc : c = '\n'
    · rw [hc]
      rfl
    · rw [if_pos (by simpa using hc), List.all_append, Bool.and_eq_true] at hindent
      exact Text.isWord_eq_false_of_isBlank (Text.isBlank_of_isIndent (by simpa using hindent.2))

end BlockOpening

/-- No end marker stands among blanks, so it is found as well from behind them. -/
theorem EndMarker.find?_behind_blanks (t name : Text) (offset : Nat) :
    find? t name (offset + ((t.drop offset).takeWhile Text.isBlank).length) =
      find? t name offset := by
  have hsplit : t.drop offset = (t.drop offset).takeWhile Text.isBlank ++
      (t.drop offset).dropWhile Text.isBlank := List.takeWhile_append_dropWhile.symm
  have hat : '@' ∉ (t.drop offset).takeWhile Text.isBlank := by
    intro hmem
    have hblank := List.all_eq_true.mp List.all_takeWhile '@' hmem
    cases hblank
  have hblanks : Text.Rejects (at? t name) t _ _ :=
    Text.Rejects.of_not_mem hsplit hat at?_eq_none_of_head
  exact (Text.firstMatch_of_rejects hblanks (Nat.le_add_right _ _)).symm

namespace Block

variable {t : Text} {cursor marker : Nat} {o : BlockOpening}

theorem read_eq_unterminated_iff :
    read t o = .unterminated o ↔ EndMarker.find? t o.call.name.written o.stop = none := by
  unfold read
  simp only [EndMarker.find?_behind_blanks]
  cases EndMarker.find? t o.call.name.written o.stop with
  | none => exact ⟨fun _ => rfl, fun _ => rfl⟩
  | some e =>
    simp only
    split
    next => exact ⟨fun h => (by cases h), fun h => (by cases h)⟩
    next => exact ⟨fun h => (by cases h), fun h => (by cases h)⟩

/-- A marker that opens a block at all opens one that does not lack its end marker. -/
theorem opensAt_iff (h : BlockOpening.at? t cursor marker = some o) :
    opensAt t marker = true ↔ read t o ≠ .unterminated o := by
  obtain ⟨o', ho', hcall, hstop, -⟩ := BlockOpening.exists_at?_zero h
  rw [Ne, read_eq_unterminated_iff, opensAt, ho']
  simp only [hcall, hstop]
  rw [Option.isSome_iff_ne_none, Ne]

theorem opening_of_find? {r : Reading} (h : find? t cursor = some r) :
    BlockOpening.find? t cursor = some r.opening ∧ read t r.opening = r := by
  obtain ⟨o, ho, rfl⟩ := Option.map_eq_some_iff.mp h
  rw [opening_read]
  exact ⟨ho, rfl⟩

theorem exists_at?_of_opensAt (h : opensAt t marker = true) :
    ∃ o, BlockOpening.at? t 0 marker = some o := by
  unfold opensAt at h
  split at h
  next => cases h
  next o ho => exact ⟨o, ho⟩

/-! ## The way of the rule for blocks -/

/-- The blocks that are expanded from `cursor` on, and the opening at which the rule for
blocks comes to a halt, if it does. -/
def expansion (t : Text) (cursor : Nat) : List Block × Option Reading :=
  match _h : find? t cursor with
  | none => ([], none)
  | some (.closed b) =>
    let later := expansion t b.stop
    (b :: later.1, later.2)
  | some r => ([], some r)
termination_by t.length - cursor
decreasing_by
  have := progress cursor _ _h
  simp only [Reading.next] at this
  omega

/-- The closed blocks that a search from `cursor` on finds. -/
def closedFrom (t : Text) (cursor : Nat) : List Block :=
  (Text.scanAll (find? t) Reading.next t.length progress cursor).filterMap Reading.block?

theorem closedFrom_of_closed {b : Block} (h : find? t cursor = some (.closed b)) :
    closedFrom t cursor = b :: closedFrom t b.stop := by
  rw [closedFrom, Text.scanAll_eq, h]
  rfl

theorem expansion_eq_closedFrom (h : (expansion t cursor).2 = none) :
    (expansion t cursor).1 = closedFrom t cursor := by
  fun_induction expansion t cursor with
  | case1 cursor hfind =>
    rw [closedFrom, Text.scanAll_eq, hfind]
    rfl
  | case2 cursor b hfind later ih => rw [closedFrom_of_closed hfind, ih h]
  | case3 cursor r hnot hfind => cases h

theorem halt_ne_closed (t : Text) (cursor : Nat) (b : Block) :
    (expansion t cursor).2 ≠ some (.closed b) := by
  fun_induction expansion t cursor with
  | case1 cursor hfind => exact fun h => by cases h
  | case2 cursor b' hfind later ih => exact ih
  | case3 cursor r hnot hfind => exact fun h => hnot b (Option.some.inj h)

theorem le_of_mem_closedFrom {b : Block} (hb : b ∈ closedFrom t cursor) :
    ∃ k lead rest, cursor ≤ k ∧ BlockOpening.find? t k = some b.opening ∧ b.Stands t k lead rest := by
  obtain ⟨r, hr, hb⟩ := List.mem_filterMap.mp hb
  obtain ⟨k, hk, hfind⟩ := Text.exists_find_of_mem_scanAll hr
  cases r with
  | closed b' =>
    cases hb
    obtain ⟨lead, rest, hstands⟩ := stands_of_find? hfind
    exact ⟨k, lead, rest, hk, (opening_of_find? hfind).1, hstands⟩
  | malformed o ending => cases hb
  | unterminated o => cases hb

namespace Stands

variable {b : Block} {lead rest : Text}

/-- A closed block ends with its name, so a line that an opening begins does not begin
before the end of the block and go on behind it. -/
theorem stop_le_line (hb : b.Stands t cursor lead rest) {k : Nat} {after : Text}
    (ho : o.Stands t k after) (hle : b.stop ≤ o.marker) : b.stop ≤ o.line := by
  refine Nat.le_of_not_lt fun hlt => ?_
  have hending : t.drop b.bodyStop =
      (callMarker ++ (Name.endWord ++ b.opening.call.name.written)) ++ rest := by
    rw [hb.at_ending, List.append_assoc, List.append_assoc]
  obtain ⟨d, hd, hword⟩ := Name.getLast?_written hb.isFormed
  have hlast : t[b.stop - 1]? = some d := by
    rw [hb.stop]
    refine Text.getElem?_last_of_drop hending ?_
    rw [← List.append_assoc, List.getLast?_append, hd, Option.some_or]
  have hmarker := ho.marker
  have hin : b.stop - 1 < o.line + o.indent.length := by
    have := hb.bodyStop_lt_stop
    omega
  obtain ⟨c, hc, hget⟩ := Text.mem_of_drop ho.written (by omega : o.line ≤ b.stop - 1) hin
  rw [hlast] at hget
  cases hget
  rw [Text.isWord_eq_false_of_isBlank (Text.isBlank_of_isIndent (ho.indent d hc))] at hword
  cases hword

/-- No call begins in the end marker of a block. -/
theorem rejects_bodyStop (hb : b.Stands t cursor lead rest) {k : Nat} (hk : k ≤ b.bodyStop) :
    Text.Rejects (ShortCall.at? t k) t b.bodyStop b.stop := by
  intro i hi hstop
  cases hc : ShortCall.at? t k i (t.drop i) with
  | none => rfl
  | some c =>
    obtain ⟨after, hstands⟩ := ShortCall.stands_of_at? (Nat.le_trans hk hi) hc
    obtain rfl := ShortCall.marker_of_at? hc
    exact absurd hstop (Nat.not_lt.mpr (hb.stop_le_marker hstands hi))

/-- No call begins between the colon of a block and its body. -/
theorem rejects_colon (hb : b.Stands t cursor lead rest) (k : Nat) :
    Text.Rejects (ShortCall.at? t k) t b.colon b.bodyStart := by
  intro i hi hstart
  obtain ⟨c, hget, hlead⟩ := hb.getElem?_lead hi hstart
  refine ShortCall.at?_eq_none_of_head _ _ ?_
  rw [List.head?_drop, hget]
  rintro ⟨⟩
  rcases hlead with hlead | hlead <;> cases hlead

end Stands
end Block
end Directive

/-! ## Two searches in step -/

namespace Rule

variable {cx : Context} {nested : BodyCompiler} {t : Text} {cursor : Nat} {o : BlockOpening}

/-- The rule for blocks stops at the first reading that is not that of a closed block. -/
theorem edits_of_expansion (cx : Context) (nested : BodyCompiler) (t : Text) :
    blocks.edits cx nested t = (((Block.expansion t 0).1.map Block.Reading.closed) ++
      (Block.expansion t 0).2.toList).mapM (blockEdit cx nested t) := by
  have hfrom : ∀ cursor, (Text.scanAll (Block.find? t) Block.Reading.next t.length Block.progress
      cursor).mapM (blockEdit cx nested t) = (((Block.expansion t cursor).1.map
        Block.Reading.closed) ++ (Block.expansion t cursor).2.toList).mapM
          (blockEdit cx nested t) := by
    intro cursor
    fun_induction Block.expansion t cursor with
    | case1 cursor hfind =>
      rw [Text.scanAll_eq, hfind]
      rfl
    | case2 cursor b hfind later ih =>
      rw [Text.scanAll_eq, hfind]
      simp only [List.map_cons, List.cons_append, List.mapM_cons, Block.Reading.next, ih]
      rfl
    | case3 cursor r hnot hfind =>
      rw [Text.scanAll_eq, hfind]
      simp only [List.map_nil, List.nil_append, Option.toList_some, List.mapM_cons]
      cases r with
      | closed b => exact absurd rfl (hnot b)
      | malformed o ending => rfl
      | unterminated o => rfl
  exact hfrom 0

theorem opensAt_of_edits_eq_nil (h : shortCalls.edits cx nested t = .ok []) :
    ∀ c ∈ callsOutsideBodies t, Block.opensAt t c.marker = true := by
  intro c hc
  obtain ⟨answers, hanswers, h⟩ := CompileError.ok_of_bind h
  obtain ⟨answer, hanswer, hedit⟩ := CompileError.exists_answer_of_mapM hanswers hc
  have hnone : answer = none := by
    cases answer with
    | none => rfl
    | some e =>
      have hmem : e ∈ answers.filterMap id := List.mem_filterMap.mpr ⟨_, hanswer, rfl⟩
      rw [Except.ok.inj h] at hmem
      cases hmem
  rw [hnone] at hedit
  unfold callEdit? at hedit
  split at hedit
  next =>
    split at hedit
    next hopens => exact hopens
    next => cases hedit
  next =>
    obtain ⟨code, -, hsome⟩ := CompileError.ok_of_bind hedit
    cases hsome

/-- The search for short calls is in step with the search for blocks at `cursor`: from
somewhere before it finds nothing up to there, and both have the same blocks behind
them. -/
structure InStep (t : Text) (cursor : Nat) : Prop where
  le_line : ∀ m o, callMarker <+: t.drop m → BlockOpening.at? t 0 m = some o → cursor ≤ m →
    cursor ≤ o.line
  passed : ∃ earlier, Block.closedBlocks t = earlier ++ Block.closedFrom t cursor ∧
    ∀ b ∈ earlier, b.bodyStop ≤ cursor
  reached : ∃ k, k ≤ cursor ∧ Text.Rejects (ShortCall.at? t k) t k cursor ∧
    ∀ c ∈ callsFrom t (Block.closedBlocks t) k, c ∈ callsOutsideBodies t

namespace InStep

theorem start (t : Text) : InStep t 0 where
  le_line := fun _ _ _ _ _ => Nat.zero_le _
  passed := ⟨[], rfl, fun b hb => by cases hb⟩
  reached := ⟨0, Nat.le_refl _, Text.Rejects.refl 0, fun _ hc => hc⟩

/-- Up to the next opening the text lies in no body. -/
theorem around?_eq_none (h : InStep t cursor) (ho : BlockOpening.find? t cursor = some o)
    {offset : Nat} (hfrom : cursor ≤ offset) (hto : offset ≤ o.marker) :
    Block.around? (Block.closedBlocks t) offset = none := by
  obtain ⟨earlier, hblocks, hearlier⟩ := h.passed
  rw [hblocks]
  refine Markup.around?_append_eq_none (fun b hb => Nat.le_trans (hearlier b hb) hfrom)
    fun b hb => ?_
  obtain ⟨k, lead, rest, hk, hfind, hb⟩ := Block.le_of_mem_closedFrom hb
  obtain ⟨hsign, hat⟩ := BlockOpening.at?_of_find? hfind
  obtain ⟨o', ho', -, -, hline⟩ := BlockOpening.exists_at?_zero hat
  have hbehind := BlockOpening.marker_le_of_find? ho hsign ho' (by omega)
  have hcolon := hb.colon_lt_bodyStart
  have hpos := b.opening.marker_lt_stop
  simp only [Block.colon] at hcolon
  omega

/-- Where every call that is left alone opens a block, the next call that is met is the
next opening. -/
theorem exists_call (h : InStep t cursor)
    (hopens : ∀ c ∈ callsOutsideBodies t, Block.opensAt t c.marker = true)
    (hname : o.call.name.beginsWithEnd = false) (ho : BlockOpening.find? t cursor = some o) :
    ∃ c ∈ callsOutsideBodies t, c.marker = o.marker ∧ c.stop + 1 = o.stop ∧
      ∀ c' ∈ callsFrom t (Block.closedBlocks t) c.stop, c' ∈ callsOutsideBodies t := by
  obtain ⟨k, hk, hrejects, hsuffix⟩ := h.reached
  obtain ⟨rest, hstands⟩ := BlockOpening.stands_of_find? ho
  have hcursor := (BlockOpening.marker_of_find? ho).1
  have hcall : ShortCall.at? t k o.marker (t.drop o.marker) = some ⟨o.marker,
      Text.takeEndWhile Text.isBlank (t.slice k o.marker), o.call, true⟩ := by
    rw [hstands.at_marker]
    exact ShortCall.at?_eq_some (BlockOpening.any_isWord_before_of_at?
      (BlockOpening.at?_of_find? ho).2 (Nat.le_of_lt hstands.marker_lt)) hstands.read hname
  cases hf : ShortCall.find? t k with
  | none =>
    have hnone := Text.rejects_of_firstMatch_eq_none hf o.marker (by omega) hstands.marker_lt
    rw [hcall] at hnone
    cases hnone
  | some c =>
    obtain ⟨m, hm, -, hc, hfirst⟩ := Text.rejects_of_firstMatch hf
    have hmarker := ShortCall.marker_of_at? hc
    have hle : m ≤ o.marker := by
      refine Nat.le_of_not_lt fun hlt => ?_
      have hnone := hfirst o.marker (by omega) hlt
      rw [hcall] at hnone
      cases hnone
    have hge : cursor ≤ m := by
      refine Nat.le_of_not_lt fun hlt => ?_
      rw [hrejects m hm hlt] at hc
      cases hc
    have hall := callsFrom_of_outside hf (h.around?_eq_none ho (by omega) (by omega))
    rw [hall] at hsuffix
    have hmem := hsuffix c List.mem_cons_self
    -- what is left alone is an opening, and `o` is the first
    obtain ⟨o', ho'⟩ := Block.exists_at?_of_opensAt (hopens c hmem)
    have hsign : callMarker <+: t.drop c.marker :=
      (List.prefix_append _ _).trans (ShortCall.isPrefix_of_find? hf)
    have heq : c.marker = o.marker := by
      have hline := h.le_line _ _ hsign ho' (by omega)
      have := BlockOpening.marker_le_of_find? ho hsign ho' hline
      omega
    rw [← hmarker, heq, hcall] at hc
    cases hc
    refine ⟨_, hmem, rfl, rfl, fun c' hc' => hsuffix c' (List.mem_cons_of_mem _ hc')⟩

theorem next (h : InStep t cursor)
    (hopens : ∀ c ∈ callsOutsideBodies t, Block.opensAt t c.marker = true) {b : Block}
    (hname : b.opening.call.name.beginsWithEnd = false)
    (hfind : Block.find? t cursor = some (.closed b)) : InStep t b.stop := by
  obtain ⟨lead, rest, hb⟩ := Block.stands_of_find? hfind
  obtain ⟨earlier, hblocks, hearlier⟩ := h.passed
  have hbody : b.bodyStop < b.stop := hb.bodyStop_lt_stop
  have hstop := Block.progress cursor _ hfind
  simp only [Block.Reading.next] at hstop
  rw [Block.closedFrom_of_closed hfind] at hblocks
  constructor
  case le_line =>
    intro m o hsign ho hm
    obtain ⟨after, hstands⟩ := BlockOpening.stands_of_at? hsign ho
    refine hb.stop_le_line hstands ?_
    rwa [BlockOpening.marker_of_at? ho]
  case passed =>
    refine ⟨earlier ++ [b], by rw [hblocks, List.append_assoc, List.singleton_append], ?_⟩
    intro b' hb'
    rcases List.mem_append.mp hb' with hb' | hb'
    · have := hearlier b' hb'
      omega
    · rw [List.mem_singleton.mp hb']
      exact Nat.le_of_lt hbody
  case reached =>
    have ho : BlockOpening.find? t cursor = some b.opening := (Block.opening_of_find? hfind).1
    have hcursor := (BlockOpening.marker_of_find? ho).1
    obtain ⟨c, -, hmarker, hcolon, hsuffix⟩ := h.exists_call hopens hname ho
    have hpos := c.marker_lt_stop
    have hstopeq : c.stop = b.colon := by
      simp only [Block.colon]
      omega
    have hcolon' := hb.colon_lt_bodyStart
    obtain ⟨k, -, hk, hrejects, hcalls⟩ := Markup.callsFrom_passes_block (hb.rejects_colon b.colon)
      (fun k hk => hb.rejects_bodyStop hk) (Nat.le_of_lt hcolon') (Nat.le_of_lt hbody) hb.stop_le
      (fun b' hb' => by
        have := hearlier b' hb'
        omega)
    rw [hstopeq, hblocks, hcalls, ← hblocks] at hsuffix
    exact ⟨k, hk, hrejects, hsuffix⟩

end InStep

/-- The rule for blocks halts at no opening that lacks an end marker of either form. -/
theorem halts_of_inStep (h : InStep t cursor)
    (hopens : ∀ c ∈ callsOutsideBodies t, Block.opensAt t c.marker = true)
    (hnames : ∀ m o, callMarker <+: t.drop m → BlockOpening.at? t 0 m = some o →
      o.call.name.beginsWithEnd = false) :
    ∀ o, (Block.expansion t cursor).2 ≠ some (.unterminated o) := by
  have hname : ∀ k o, BlockOpening.find? t k = some o → o.call.name.beginsWithEnd = false := by
    intro k o ho
    obtain ⟨hsign, hat⟩ := BlockOpening.at?_of_find? ho
    obtain ⟨o', ho', hcall, -, -⟩ := BlockOpening.exists_at?_zero hat
    rw [← hcall]
    exact hnames _ _ hsign ho'
  fun_induction Block.expansion t cursor with
  | case1 cursor hfind => exact fun o ho => by cases ho
  | case2 cursor b hfind later ih =>
    exact ih (h.next hopens (hname cursor b.opening (Block.opening_of_find? hfind).1) hfind)
  | case3 cursor r hnot hfind =>
    intro o ho
    cases ho
    have hfound : BlockOpening.find? t cursor = some o := (Block.opening_of_find? hfind).1
    obtain ⟨c, hc, hmarker, -⟩ := h.exists_call hopens (hname cursor o hfound) hfound
    have hopens' := hopens c hc
    rw [hmarker, Block.opensAt_iff (BlockOpening.at?_of_find? hfound).2] at hopens'
    exact hopens' (Block.opening_of_find? hfind).2

/-- The rule for blocks makes its edits on the way from block to block, and the two rules
agree on what opens one.  When the rule for short calls has replaced nothing in a text
where no opening has the name of an end marker, the rule for blocks halts at most where
an end marker lacks one `@`.  When it halts nowhere, it has expanded the very blocks
whose bodies the rule for short calls has passed over. -/
theorem expansion_of_shortCalls (cx : Context) (nested : BodyCompiler) (t : Text) :
    blocks.edits cx nested t = (((Block.expansion t 0).1.map Block.Reading.closed) ++
        (Block.expansion t 0).2.toList).mapM (blockEdit cx nested t) ∧
    (∀ cursor m o, BlockOpening.at? t cursor m = some o →
      (Block.opensAt t m = true ↔ Block.read t o ≠ .unterminated o)) ∧
    ((∀ m o, callMarker <+: t.drop m → BlockOpening.at? t 0 m = some o →
        o.call.name.beginsWithEnd = false) →
      shortCalls.edits cx nested t = .ok [] →
      ((Block.expansion t 0).2 = none ∧ (Block.expansion t 0).1 = Block.closedBlocks t) ∨
        ∃ o ending, (Block.expansion t 0).2 = some (.malformed o ending)) := by
  refine ⟨edits_of_expansion cx nested t, fun cursor m o h => Block.opensAt_iff h,
    fun hnames hcalls => ?_⟩
  have hhalts := halts_of_inStep (InStep.start t) (opensAt_of_edits_eq_nil hcalls) hnames
  have hclosed := Block.halt_ne_closed t 0
  cases hhalt : (Block.expansion t 0).2 with
  | none => exact .inl ⟨rfl, Block.expansion_eq_closedFrom hhalt⟩
  | some r =>
    cases r with
    | closed b => exact absurd hhalt (hclosed b)
    | malformed o ending => exact .inr ⟨o, ending, rfl⟩
    | unterminated o => exact absurd hhalt (hhalts o)

/-- Two blocks, with a call in the first body and an opening that is not closed in the
second. -/
def paired : Text := "@@a(x):\n@@f()\n@@enda\n  @@b:\n@@c:\n@@endb".toList

theorem expansion_paired :
    (∀ m o, callMarker <+: paired.drop m → BlockOpening.at? paired 0 m = some o →
      o.call.name.beginsWithEnd = false) ∧
    shortCalls.edits Compiler.bare.topContext Compiler.bare.compileBody paired = .ok [] ∧
    (((Block.expansion paired 0).2 = none ∧
        (Block.expansion paired 0).1 = Block.closedBlocks paired) ∨
      ∃ o ending, (Block.expansion paired 0).2 = some (.malformed o ending)) := by
  have hnames : ∀ m o, callMarker <+: paired.drop m → BlockOpening.at? paired 0 m = some o →
      o.call.name.beginsWithEnd = false := by
    intro m o hsign ho
    have hall : ∀ m < paired.length,
        (BlockOpening.at? paired 0 m).any (fun o => o.call.name.beginsWithEnd) = false := by
      decide +kernel
    obtain ⟨after, hafter⟩ := hsign
    have hany := hall m (Text.lt_length_of_drop hafter.symm (by simp [callMarker]))
    rwa [ho, Option.any_some] at hany
  have hcalls : shortCalls.edits Compiler.bare.topContext Compiler.bare.compileBody paired = .ok [] := by
    have hempty : (shortCalls.edits Compiler.bare.topContext Compiler.bare.compileBody
        paired).toOption.any List.isEmpty = true := by decide +kernel
    obtain ⟨es, hes, hnil⟩ := (Option.any_eq_true ..).mp hempty
    rw [CompileError.eq_ok_of_toOption hes, List.isEmpty_iff.mp hnil]
  exact ⟨hnames, hcalls, (expansion_of_shortCalls _ _ paired).2.2 hnames hcalls⟩

end Rule
end TemplateDirectives
