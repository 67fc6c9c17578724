/-
The rules as lists of edits.

A rule lists its edits and applies them in one traversal (`apply_eq_edits`).  The spans
of the list are those of the directives it was made from, so whatever the handlers
answer, they lie in the text one behind the other (`ordered_edits`).  What an edit says
is kept beside it: which directive it replaces, and by what.
-/
import TemplateDirectives.Proofs.Edits.Basic
import TemplateDirectives.Proofs.Steps

namespace TemplateDirectives

open Directive

namespace Directive.Block

theorem outside_of_around?_eq_none {blocks : List Block} {offset : Nat}
    (h : around? blocks offset = none) {b : Block} (hb : b ∈ blocks) :
    offset < b.bodyStart ∨ b.bodyStop ≤ offset := by
  have hnot := List.find?_eq_none.mp h b hb
  simp only [bodyContains, Bool.and_eq_true, decide_eq_true_eq] at hnot
  omega

def Reading.opening : Reading → BlockOpening
  | .closed b => b.opening
  | .malformed o _ => o
  | .unterminated o => o

theorem opening_read (t : Text) (o : BlockOpening) : (read t o).opening = o := by
  have h := isOf_read t o
  cases hr : read t o with
  | closed b =>
    rw [hr] at h
    exact h.1
  | malformed o' ending =>
    rw [hr] at h
    exact h.1
  | unterminated o' =>
    rw [hr] at h
    exact h

theorem next_le_of_read {t rest : Text} {cursor : Nat} {o : BlockOpening}
    (h : o.Stands t cursor rest) : (read t o).next ≤ t.length := by
  have hopening := opening_read t o
  cases hread : read t o with
  | closed b =>
    obtain ⟨lead, rest', hb⟩ := stands_of_read h hread
    exact hb.stop_le
  | malformed o' ending =>
    rw [hread] at hopening
    cases hopening
    exact h.stop_le
  | unterminated o' =>
    rw [hread] at hopening
    cases hopening
    exact h.stop_le

theorem readAll_eq_nil_iff {t : Text} : readAll t = [] ↔ BlockOpening.find? t 0 = none := by
  rw [readAll, Text.scanAll_eq, find?]
  cases BlockOpening.find? t 0 with
  | none => exact ⟨fun _ => rfl, fun _ => rfl⟩
  | some o => exact ⟨fun h => (by cases h), fun h => (by cases h)⟩

end Directive.Block

namespace Rule

/-- The edits that a rule applies to a text, or why it refuses the text. -/
def edits (cx : Context) (nested : BodyCompiler) (t : Text) : Rule → Except CompileError (List Edit)
  | attributes => .ok ((attributesOutsideBodies t).map (attributeEdit cx))
  | shortCalls => do
    let answers ← (callsOutsideBodies t).mapM (callEdit? cx t)
    return answers.filterMap id
  | blocks => (Block.readAll t).mapM (blockEdit cx nested t)

variable {cx : Context} {nested : BodyCompiler} {t : Text} {rule : Rule} {es : List Edit} {e : Edit}

theorem apply_eq_edits (cx : Context) (nested : BodyCompiler) (t : Text) (rule : Rule) :
    rule.apply cx nested t = rule.edits cx nested t >>= fun es => .ok (Edit.applyAll t es) := by
  cases rule with
  | attributes => rfl
  | shortCalls =>
    simp only [apply, applyShortCalls, edits, bind_assoc, pure_bind]
    rfl
  | blocks => rfl

theorem applyBlocks_of_find?_eq_none (h : BlockOpening.find? t 0 = none) :
    applyBlocks cx nested t = .ok t := by
  rw [applyBlocks, Block.readAll_eq_nil_iff.mpr h]
  rfl

/-! ## The directive of an edit -/

/-- What a search finds outside the bodies is found from some cursor, and no body holds the
place by which it is judged. -/
theorem exists_find_of_mem_outside {α : Type} {find : Nat → Option α} {next place : α → Nat}
    {progress : ∀ cursor a, find cursor = some a → cursor < next a ∧ cursor < t.length} {a : α}
    (h : a ∈ (Text.scanAll find next t.length progress 0).filter fun a =>
      (Block.around? (Block.closedBlocks t) (place a)).isNone) :
    (∃ cursor, find cursor = some a) ∧
      ∀ b ∈ Block.closedBlocks t, place a < b.bodyStart ∨ b.bodyStop ≤ place a := by
  obtain ⟨hmem, hout⟩ := List.mem_filter.mp h
  obtain ⟨cursor, -, hfind⟩ := Text.exists_find_of_mem_scanAll hmem
  exact ⟨⟨cursor, hfind⟩, fun b hb =>
    Block.outside_of_around?_eq_none (Option.isNone_iff_eq_none.mp hout) hb⟩

theorem stands_of_mem_attributes {a : Attribute} (h : a ∈ attributesOutsideBodies t) :
    (∃ cursor rest, a.Stands t cursor rest) ∧
      ∀ b ∈ Block.closedBlocks t, a.nameStart < b.bodyStart ∨ b.bodyStop ≤ a.nameStart := by
  obtain ⟨⟨cursor, hfind⟩, hout⟩ := exists_find_of_mem_outside h
  exact ⟨⟨cursor, Attribute.stands_of_find? hfind⟩, hout⟩

theorem stands_of_mem_calls {c : ShortCall} (h : c ∈ callsOutsideBodies t) :
    (∃ cursor rest, c.Stands t cursor rest) ∧
      ∀ b ∈ Block.closedBlocks t, c.marker < b.bodyStart ∨ b.bodyStop ≤ c.marker := by
  obtain ⟨⟨cursor, hfind⟩, hout⟩ := exists_find_of_mem_outside h
  exact ⟨⟨cursor, ShortCall.stands_of_find? hfind⟩, hout⟩

/-- What the rule for short calls puts in the place of a call. -/
structure Calls (cx : Context) (t : Text) (c : ShortCall) (e : Edit) : Prop where
  start : e.start = c.start
  stop : e.stop = c.stop
  replacement : ∃ code, e.replacement = c.blanks ++ code ∧
    cx.expand ⟨cx.handler c.call.name, none, none, c.call.argumentText⟩ (cx.position t c.marker)
      (cx.dialect.host.call (cx.handler c.call.name) c.call.argumentText) = .ok code

theorem calls_of_callEdit? {c : ShortCall} (h : callEdit? cx t c = .ok (some e)) :
    Calls cx t c e := by
  unfold callEdit? at h
  split at h
  next =>
    split at h
    next => cases h
    next => cases h
  next =>
    obtain ⟨code, hcode, h⟩ := CompileError.ok_of_bind h
    cases h
    exact ⟨rfl, rfl, code, rfl, hcode⟩

/-- What the rule for blocks puts in the place of a block. -/
structure Captures (cx : Context) (nested : BodyCompiler) (t : Text) (b : Block) (e : Edit) :
    Prop where
  start : e.start = b.opening.start
  stop : e.stop = b.stop
  replacement : ∃ inner code,
    e.replacement = b.opening.blanks ++ b.opening.indent ++ code ∧
    nested b.body (cx.position t b.bodyStart) (cx.position t b.opening.marker) = .ok inner ∧
    cx.expand ⟨cx.handler b.opening.call.name, some b.opening.indent, some inner,
        b.opening.call.argumentText⟩ (cx.position t b.opening.marker)
      (cx.dialect.host.capture (cx.handler b.opening.call.name) b.opening.indent inner
        b.opening.call.argumentText) = .ok code

/-- Why the rule for blocks refuses a text at one of its blocks: the block does not end, its end
marker lacks a sign, its body does not compile, or the expander of its handler fails. -/
inductive RefusesBlock (cx : Context) (nested : BodyCompiler) (t : Text) :
    Block.Reading → CompileError → Prop
  | unterminated (o : BlockOpening) :
    RefusesBlock cx nested t (.unterminated o)
      (.unterminatedBlock o.call.name.written (cx.position t o.marker))
  | malformed (o : BlockOpening) (ending : EndMarker) :
    RefusesBlock cx nested t (.malformed o ending)
      (.malformedEnd o.call.name.written o.call.argumentText (cx.position t ending.start))
  | body {b : Block} {e : CompileError}
      (hbody : nested b.body (cx.position t b.bodyStart) (cx.position t b.opening.marker) =
        .error e) :
    RefusesBlock cx nested t (.closed b) e
  | expander {b : Block} {inner : Text} {expander : Expander} {reason : HandlerError}
      (hbody : nested b.body (cx.position t b.bodyStart) (cx.position t b.opening.marker) =
        .ok inner)
      (hexpander : cx.dialect.registry.expander? (cx.handler b.opening.call.name) = some expander)
      (hfails : expander ⟨cx.handler b.opening.call.name, some b.opening.indent, some inner,
        b.opening.call.argumentText⟩ = .error reason) :
    RefusesBlock cx nested t (.closed b)
      (.expanderFailed (cx.handler b.opening.call.name) b.opening.call.argumentText
        (cx.position t b.opening.marker) reason)

theorem blockEdit_eq_ok_iff {r : Block.Reading} :
    blockEdit cx nested t r = .ok e ↔ ∃ b, r = .closed b ∧ Captures cx nested t b e := by
  constructor
  · intro h
    cases r with
    | unterminated o => cases h
    | malformed o ending => cases h
    | closed b =>
      obtain ⟨inner, hinner, h⟩ := CompileError.ok_of_bind h
      obtain ⟨code, hcode, h⟩ := CompileError.ok_of_bind h
      cases h
      exact ⟨b, rfl, rfl, rfl, inner, code, rfl, hinner, hcode⟩
  · intro h
    obtain ⟨b, rfl, hstart, hstop, inner, code, hreplacement, hinner, hcode⟩ := h
    obtain ⟨start, stop, replacement⟩ := e
    subst hstart hstop hreplacement
    simp only [blockEdit, hinner]
    show (cx.expand _ _ _ >>= _) = _
    rw [hcode]
    rfl

theorem blockEdit_eq_error_iff {r : Block.Reading} {error : CompileError} :
    blockEdit cx nested t r = .error error ↔ RefusesBlock cx nested t r error := by
  constructor
  · intro h
    cases r with
    | unterminated o =>
      cases h
      exact .unterminated o
    | malformed o ending =>
      cases h
      exact .malformed o ending
    | closed b =>
      rcases CompileError.error_of_bind h with hbody | ⟨inner, hbody, h⟩
      · exact .body hbody
      · have hexpand := CompileError.bind_ok_eq_error_iff.mp h
        obtain ⟨expander, reason, hexpander, hfails, rfl⟩ :=
          Context.expand_eq_error_iff.mp hexpand
        exact .expander hbody hexpander hfails
  · intro h
    cases h with
    | unterminated o => rfl
    | malformed o ending => rfl
    | body hbody =>
      simp only [blockEdit, hbody]
      rfl
    | expander hbody hexpander hfails =>
      simp only [blockEdit, hbody]
      refine CompileError.bind_ok_eq_error_iff.mpr (Context.expand_eq_error_iff.mpr ?_)
      exact ⟨_, _, hexpander, hfails, rfl⟩

theorem exists_attribute_of_mem (h : attributes.edits cx nested t = .ok es) (he : e ∈ es) :
    ∃ a ∈ attributesOutsideBodies t, attributeEdit cx a = e := by
  cases h
  exact List.mem_map.mp he

theorem exists_call_of_mem (h : shortCalls.edits cx nested t = .ok es) (he : e ∈ es) :
    ∃ c ∈ callsOutsideBodies t, Calls cx t c e := by
  obtain ⟨answers, hanswers, h⟩ := CompileError.ok_of_bind h
  cases h
  obtain ⟨answer, hmem, hid⟩ := List.mem_filterMap.mp he
  cases hid
  obtain ⟨c, hc, hedit⟩ := CompileError.exists_of_mem_mapM hanswers hmem
  exact ⟨c, hc, calls_of_callEdit? hedit⟩

theorem exists_block_of_mem (h : blocks.edits cx nested t = .ok es) (he : e ∈ es) :
    ∃ b ∈ Block.closedBlocks t, Captures cx nested t b e := by
  obtain ⟨r, hr, hedit⟩ := CompileError.exists_of_mem_mapM h he
  obtain ⟨b, rfl, hb⟩ := blockEdit_eq_ok_iff.mp hedit
  exact ⟨b, List.mem_filterMap.mpr ⟨_, hr, rfl⟩, hb⟩

/-! ## Order -/

/-- The edits of a rule lie in the text, one behind the other. -/
theorem ordered_edits (h : rule.edits cx nested t = .ok es) : Edit.Ordered t.length 0 es := by
  cases rule with
  | attributes =>
    cases h
    refine Edit.ordered_scanAll (fun k a hk => ?_) (fun k a _ hkeep => ?_) 0
    · obtain ⟨rest, ha⟩ := Attribute.stands_of_find? hk
      have hlt := ha.nameStart_lt
      have hstop := a.marker_lt_stop
      refine ⟨ha.cursor_le_start, ?_, ha.stop_le⟩
      simp only [attributeEdit, Attribute.start]
      omega
    · rw [Option.isNone_iff_eq_none] at hkeep
      simp only [nextAttribute, Block.resume_of_outside hkeep, attributeEdit]
  | shortCalls =>
    obtain ⟨answers, hanswers, h⟩ := CompileError.ok_of_bind h
    cases h
    have hspans : Edit.Ordered t.length 0
        ((callsOutsideBodies t).map fun c => ⟨c.start, c.stop, []⟩) := by
      refine Edit.ordered_scanAll (fun k c hk => ?_) (fun k c _ hkeep => ?_) 0
      · obtain ⟨rest, hc⟩ := ShortCall.stands_of_find? hk
        have hstop := c.marker_lt_stop
        refine ⟨hc.cursor_le_start, ?_, hc.stop_le⟩
        simp only [ShortCall.start]
        omega
      · rw [Option.isNone_iff_eq_none] at hkeep
        simp only [nextCall, Block.resume_of_outside hkeep]
    refine Edit.ordered_of_mapM (fun c answer hanswer e he => ?_) hspans hanswers
    cases he
    have hc := calls_of_callEdit? hanswer
    exact ⟨hc.start, hc.stop⟩
  | blocks =>
    have hspans : Edit.Ordered t.length 0
        (((Block.readAll t).filter fun _ => true).map fun r => ⟨r.opening.start, r.next, []⟩) := by
      refine Edit.ordered_scanAll (fun k r hk => ?_) (fun k r _ _ => rfl) 0
      obtain ⟨o, ho, rfl⟩ := Option.map_eq_some_iff.mp hk
      obtain ⟨rest, hstands⟩ := BlockOpening.stands_of_find? ho
      have hnext := Block.stop_le_next_read t o
      have hmarker := o.marker_lt_stop
      refine ⟨?_, ?_, Block.next_le_of_read hstands⟩
      · rw [Block.opening_read]
        exact hstands.cursor_le_start
      · simp only [Block.opening_read, BlockOpening.start]
        omega
    rw [List.filter_eq_self.mpr fun _ _ => rfl] at hspans
    rw [← List.filterMap_some (l := es)]
    refine Edit.ordered_of_mapM (fun r e hedit e' he => ?_) hspans h
    cases he
    obtain ⟨b, rfl, hb⟩ := blockEdit_eq_ok_iff.mp hedit
    exact ⟨hb.start, hb.stop⟩

end Rule
end TemplateDirectives
