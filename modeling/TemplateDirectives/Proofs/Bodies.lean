/-
What the rules for attributes and short calls do to the bodies of closed blocks.

A directive whose name or marker lies in a body is passed over.  The span of one that
lies outside may still be long: an argument list and an attribute's value end where they
are closed, and that may be behind the beginning of a body.  `Block.Stands.cases_span`
says where such a span can lie, and that it meets a body only by running across its
beginning.  A body that no span runs across is copied with its colon and its end marker
(`apply_keeps_bodies`), except that an attribute may begin inside the end marker, for
names of attributes do not mind an `@` before them.
-/
import TemplateDirectives.Proofs.Edits.Rules
import TemplateDirectives.Proofs.Errors.Place

namespace TemplateDirectives

open Directive

namespace Edit

/-- The span has a character in common with the stretch from `p` to `q`. -/
def Overlaps (e : Edit) (p q : Nat) : Prop := ∃ i, e.start ≤ i ∧ i < e.stop ∧ p ≤ i ∧ i < q

/-- The span begins before an offset and ends behind it. -/
def RunsAcross (e : Edit) (p : Nat) : Prop := e.start < p ∧ p < e.stop

/-- The span begins in the stretch from `p` to `q`. -/
def BeginsIn (e : Edit) (p q : Nat) : Prop := p ≤ e.start ∧ e.start < q

end Edit

/-! ## Where a span can lie -/

/-- The span of a directive that is recognised at `key`: blanks before it, and at its end
a character that is neither a blank nor a colon. -/
structure Directive.Span (t : Text) (key : Nat) (e : Edit) : Prop where
  start_le : e.start ≤ key
  isBlank_before : ∀ i, e.start ≤ i → i < key → ∃ c, t[i]? = some c ∧ Text.isBlank c = true
  last : ∃ c, t[e.stop - 1]? = some c ∧ Text.isBlank c = false ∧ c ≠ ':'

theorem Directive.Attribute.Stands.span {t rest : Text} {cursor : Nat} {a : Attribute}
    (h : a.Stands t cursor rest) (cx : Context) : Span t a.nameStart (Rule.attributeEdit cx a) := by
  have hquote : Text.isBlank a.head.quote = false ∧ a.head.quote ≠ ':' := by
    rcases h.head.quote with hq | hq
    · rw [hq]
      decide
    · rw [hq]
      decide
  exact ⟨Nat.sub_le _ _, fun i hi hin => h.isBlank_before hi hin, a.head.quote, h.getElem?_last,
    hquote⟩

theorem Directive.ShortCall.Stands.span {t rest : Text} {cursor : Nat} {c : ShortCall}
    (h : c.Stands t cursor rest) {e : Edit} (hstart : e.start = c.start) (hstop : e.stop = c.stop) :
    Span t c.marker e := by
  refine ⟨hstart ▸ Nat.sub_le _ _, fun i hi hin => h.isBlank_before (hstart ▸ hi) hin, ?_⟩
  rw [hstop]
  exact h.getElem?_last

namespace Directive.Block

/-- The offset of the colon that opens a block. -/
def colon (b : Block) : Nat := b.opening.stop - 1

namespace Stands

variable {t lead rest : Text} {cursor : Nat} {b : Block}

theorem colon_lt_bodyStart (h : b.Stands t cursor lead rest) : b.colon < b.bodyStart := by
  have := b.opening.marker_lt_stop
  have := h.bodyStart
  simp only [colon]
  omega

theorem bodyStop_lt_stop (h : b.Stands t cursor lead rest) : b.bodyStop < b.stop := by
  rw [h.stop]
  simp only [callMarker, List.length_append, List.length_cons]
  omega

/-- Between the colon and the body there are only blanks. -/
theorem getElem?_lead (h : b.Stands t cursor lead rest) {i : Nat} (hi : b.colon ≤ i)
    (hb : i < b.bodyStart) : ∃ c, t[i]? = some c ∧ (c = ':' ∨ Text.isBlank c = true) := by
  have hcolon : t.drop b.colon = (':' :: lead) ++ _ := h.opening.at_colon
  have hpos := b.opening.marker_lt_stop
  have hlen : b.colon + (':' :: lead).length = b.bodyStart := by
    rw [h.bodyStart, List.length_cons]
    simp only [colon]
    omega
  obtain ⟨c, hc, hget⟩ := Text.mem_of_drop hcolon hi (by omega)
  rcases List.mem_cons.mp hc with rfl | hc
  · exact ⟨_, hget, .inl rfl⟩
  · exact ⟨c, hget, .inr (h.isBlank_lead c hc)⟩

theorem getElem?_bodyStop (h : b.Stands t cursor lead rest) : t[b.bodyStop]? = some '@' := by
  rw [← List.head?_drop, h.at_ending]
  rfl

/-- The span of a directive that is recognised outside of a body lies before the block's
colon or behind its end marker, or it runs across the beginning of the body, or it
begins in the end marker. -/
theorem cases_span (h : b.Stands t cursor lead rest) {key : Nat} {e : Edit} (hs : Span t key e)
    (hout : key < b.bodyStart ∨ b.bodyStop < key) :
    (e.stop ≤ b.colon ∨ b.stop ≤ e.start) ∨ e.RunsAcross b.bodyStart ∨
      e.BeginsIn b.bodyStop b.stop := by
  have hstart := hs.start_le
  rcases hout with hkey | hkey
  · rcases Nat.lt_or_ge b.bodyStart e.stop with hstop | hstop
    · exact .inr (.inl ⟨by omega, hstop⟩)
    · rcases Nat.lt_or_ge b.colon e.stop with hlt | hge
      · -- the span would end with the colon or with a blank behind it
        obtain ⟨c, hc, hblank, hcolon⟩ := hs.last
        obtain ⟨d, hd, hlead⟩ := h.getElem?_lead (i := e.stop - 1) (by omega) (by omega)
        rw [hd] at hc
        cases hc
        rcases hlead with rfl | hlead
        · exact absurd rfl hcolon
        · rw [hblank] at hlead
          cases hlead
      · exact .inl (.inl hge)
  · rcases Nat.lt_or_ge b.bodyStop e.start with hlt | hge
    · rcases Nat.lt_or_ge e.start b.stop with hin | hbehind
      · exact .inr (.inr ⟨by omega, hin⟩)
      · exact .inl (.inr hbehind)
    · -- the blanks before the directive would reach over the end marker
      obtain ⟨c, hc, hblank⟩ := hs.isBlank_before b.bodyStop hge hkey
      rw [h.getElem?_bodyStop] at hc
      cases hc
      cases hblank

theorem overlaps_body_iff (h : b.Stands t cursor lead rest) {key : Nat} {e : Edit}
    (hs : Span t key e) (hout : key < b.bodyStart ∨ b.bodyStop < key) :
    e.Overlaps b.bodyStart b.bodyStop ↔ b.body ≠ [] ∧ e.RunsAcross b.bodyStart := by
  have hcolon := h.colon_lt_bodyStart
  have hending := h.bodyStop_lt_stop
  constructor
  · rintro ⟨i, hstart, hstop, hfrom, hto⟩
    refine ⟨?_, ?_⟩
    · intro hnil
      simp only [bodyStop, hnil, List.length_nil] at hto
      omega
    · rcases h.cases_span hs hout with (hbefore | hbehind) | hacross | hbegins
      · omega
      · omega
      · exact hacross
      · have := hbegins.1
        omega
  · rintro ⟨hbody, hacross⟩
    have hpos := List.length_pos_iff.mpr hbody
    refine ⟨b.bodyStart, Nat.le_of_lt hacross.1, hacross.2, Nat.le_refl _, ?_⟩
    simp only [bodyStop]
    omega

/-- The block from its colon to its end marker. -/
theorem at_colon (h : b.Stands t cursor lead rest) :
    t.drop b.colon = (':' :: (lead ++ (b.body ++ (callMarker ++ (Name.endWord ++
      b.opening.call.name.written))))) ++ rest := by
  have hcolon := h.opening.at_colon
  simpa only [colon, List.cons_append, List.append_assoc] using hcolon

theorem colon_add_length (h : b.Stands t cursor lead rest) :
    b.colon + (':' :: (lead ++ (b.body ++ (callMarker ++ (Name.endWord ++
      b.opening.call.name.written))))).length = b.stop := by
  have hpos := b.opening.marker_lt_stop
  rw [h.stop, bodyStop, h.bodyStart]
  simp only [colon, List.length_cons, List.length_append]
  omega

/-- An end marker is two `@` and a word, without blanks and further `@`. -/
theorem getElem?_ending (h : b.Stands t cursor lead rest) {i : Nat} (hi : b.bodyStop ≤ i)
    (hstop : i < b.stop) :
    ∃ c, t[i]? = some c ∧ Text.isBlank c = false ∧ (b.bodyStop + 2 ≤ i → c ≠ '@') := by
  have hlen : b.bodyStop + callMarker.length + (Name.endWord ++ b.opening.call.name.written).length =
      b.stop := by
    rw [h.stop, Nat.add_assoc, ← List.length_append]
  rcases Nat.lt_or_ge i (b.bodyStop + callMarker.length) with hlt | hge
  · obtain ⟨c, hc, hget⟩ := Text.mem_of_drop h.at_ending hi hlt
    have hat : c = '@' := by simpa [callMarker] using hc
    refine ⟨c, hget, ?_, fun hbehind => ?_⟩
    · rw [hat]
      decide
    · exact absurd hlt (Nat.not_lt.mpr hbehind)
  · have hword := Text.drop_of_drop h.at_ending
    rw [← List.append_assoc] at hword
    obtain ⟨c, hc, hget⟩ := Text.mem_of_drop hword hge (by omega)
    have hname : Name.isNameChar c = true := by
      rcases List.mem_append.mp hc with hc | hc
      · exact List.all_eq_true.mp (rfl : Name.endWord.all Name.isNameChar = true) c hc
      · exact Name.isNameChar_of_mem_written h.isFormed hc
    refine ⟨c, hget, Bool.eq_false_iff.mpr fun hblank => ?_, fun _ => ?_⟩
    · rw [Name.isNameChar_eq_false_of_isBlank hblank] at hname
      cases hname
    · rintro rfl
      cases hname

/-- A call that is met behind a body is met behind the end marker. -/
theorem stop_le_marker (h : b.Stands t cursor lead rest) {rest' : Text} {cursor' : Nat}
    {c : ShortCall} (hc : c.Stands t cursor' rest') (hout : b.bodyStop ≤ c.marker) :
    b.stop ≤ c.marker := by
  have hfirst : t[c.marker]? = some '@' := by
    rw [← List.head?_drop, hc.written]
    rfl
  have hsecond : t[c.marker + 1]? = some '@' := by
    rw [← List.getElem?_drop, hc.written]
    rfl
  have hnot : ∀ i, b.bodyStop + 2 ≤ i → i < b.stop → t[i]? ≠ some '@' := by
    intro i hi hstop hat
    obtain ⟨c, hget, -, hne⟩ := h.getElem?_ending (i := i) (by omega) hstop
    rw [hget] at hat
    exact hne hi (Option.some.inj hat)
  have hlong : b.bodyStop + 2 < b.stop := by
    rw [h.stop]
    simp only [callMarker, Name.endWord, List.length_append, List.length_cons]
    omega
  refine Nat.le_of_not_lt fun hlt => ?_
  rcases Nat.eq_or_lt_of_le hout with heq | hgt
  · -- a name that is read here would begin with the end word
    have hwritten := hc.written
    rw [← heq, h.at_ending, List.append_cancel_left_eq] at hwritten
    have hread := hc.read
    rw [← hwritten] at hread
    obtain ⟨name, hname, hcall⟩ := Option.map_eq_some_iff.mp hread
    have hend := hc.beginsWithEnd
    rw [← hcall, Name.beginsWithEnd_of_read? hname] at hend
    cases hend
  · rcases Nat.eq_or_lt_of_le (show b.bodyStop + 1 ≤ c.marker from hgt) with heq | hgt
    · exact hnot (c.marker + 1) (by omega) (by omega) hsecond
    · exact hnot c.marker hgt hlt hfirst

end Stands
end Directive.Block

/-! ## The rules for attributes and short calls -/

namespace Rule

variable {cx : Context} {nested : BodyCompiler} {t u : Text} {rule : Rule} {es : List Edit} {e : Edit}

/-- Every edit belongs to a directive that is recognised outside of all bodies, and short
calls are not recognised in end markers either. -/
theorem exists_span_of_mem (hrule : rule ≠ blocks) (h : rule.edits cx nested t = .ok es)
    (he : e ∈ es) : ∃ key, Span t key e ∧ ∀ b ∈ Block.closedBlocks t,
      (key < b.bodyStart ∨ b.bodyStop < key) ∧
        (rule = shortCalls → key < b.bodyStart ∨ b.stop ≤ key) := by
  cases rule with
  | attributes =>
    obtain ⟨a, ha, rfl⟩ := exists_attribute_of_mem h he
    obtain ⟨⟨cursor, rest, hstands⟩, hout⟩ := stands_of_mem_attributes ha
    refine ⟨a.nameStart, hstands.span cx, fun b hb => ⟨?_, fun hcalls => by cases hcalls⟩⟩
    obtain ⟨cursor', lead, rest', hblock⟩ := Block.exists_stands_of_mem_closedBlocks hb
    rcases hout b hb with hlt | hge
    · exact .inl hlt
    · -- the name begins with a character of names, the end marker with an `@`
      refine .inr (Nat.lt_of_le_of_ne hge fun heq => ?_)
      have hname := hstands.getElem?_nameStart
      rw [← heq, hblock.getElem?_bodyStop] at hname
      obtain ⟨c, hc, hchar⟩ := hname
      cases hc
      cases hchar
  | shortCalls =>
    obtain ⟨c, hc, hcalls⟩ := exists_call_of_mem h he
    obtain ⟨⟨cursor, rest, hstands⟩, hout⟩ := stands_of_mem_calls hc
    refine ⟨c.marker, hstands.span hcalls.start hcalls.stop, fun b hb => ?_⟩
    obtain ⟨cursor', lead, rest', hblock⟩ := Block.exists_stands_of_mem_closedBlocks hb
    have hending := hblock.bodyStop_lt_stop
    rcases hout b hb with hlt | hge
    · exact ⟨.inl hlt, fun _ => .inl hlt⟩
    · have hbehind := hblock.stop_le_marker hstands hge
      exact ⟨.inr (by omega), fun _ => .inr hbehind⟩
  | blocks => exact absurd rfl hrule

/-- A block that no span touches from its colon to its end marker is copied so far, and
what stands before and behind it is edited on its own. -/
theorem applyAll_around {b : Block} {cursor : Nat} {lead rest : Text}
    (hb : b.Stands t cursor lead rest) (ho : Edit.Ordered t.length 0 es)
    (hkept : ∀ e ∈ es, e.stop ≤ b.colon ∨ b.stop ≤ e.start) :
    Edit.applyAll t es = Edit.applyAll (t.take b.colon) (es.filter fun e => e.stop ≤ b.colon) ++
      (':' :: (lead ++ (b.body ++ (callMarker ++ (Name.endWord ++
        b.opening.call.name.written)))) ++
        Edit.applyFrom b.stop (t.drop b.stop) (es.filter fun e => b.stop ≤ e.start)) := by
  have hlt : b.colon < b.stop := by
    have h1 := hb.colon_lt_bodyStart
    have h2 := hb.bodyStop_lt_stop
    simp only [Block.bodyStop] at h2
    omega
  have hslice := Text.slice_of_drop hb.at_colon
  rw [hb.colon_add_length] at hslice
  have hcut := Edit.applyFrom_kept ho (Nat.zero_le _) hlt hkept
  rw [List.drop_zero, List.drop_zero, hslice] at hcut
  exact hcut

/-- The rules for attributes and short calls keep the bodies of closed blocks, with the
colon before and the end marker behind them, where no span runs across the beginning of
the body and no attribute begins in the end marker.  A span that does run across
overlaps the body. -/
theorem apply_keeps_bodies (hrule : rule ≠ blocks) (h : rule.apply cx nested t = .ok u) :
    ∃ es, rule.edits cx nested t = .ok es ∧ u = Edit.applyAll t es ∧
      ∀ b ∈ Block.closedBlocks t,
        (∀ e ∈ es, e.Overlaps b.bodyStart b.bodyStop ↔ b.body ≠ [] ∧ e.RunsAcross b.bodyStart) ∧
        (rule = shortCalls → ∀ e ∈ es, ¬ e.BeginsIn b.bodyStop b.stop) ∧
        ((∀ e ∈ es, ¬ e.RunsAcross b.bodyStart ∧ ¬ e.BeginsIn b.bodyStop b.stop) →
          ∃ lead, lead.all Text.isBlank = true ∧
            u = Edit.applyAll (t.take b.colon) (es.filter fun e => e.stop ≤ b.colon) ++
              (':' :: (lead ++ (b.body ++ (callMarker ++ (Name.endWord ++
                b.opening.call.name.written)))) ++
                Edit.applyFrom b.stop (t.drop b.stop) (es.filter fun e => b.stop ≤ e.start))) := by
  rw [apply_eq_edits] at h
  obtain ⟨es, hes, h⟩ := CompileError.ok_of_bind h
  cases h
  refine ⟨es, hes, rfl, fun b hb => ?_⟩
  obtain ⟨cursor, lead, rest, hstands⟩ := Block.exists_stands_of_mem_closedBlocks hb
  refine ⟨fun e he => ?_, fun hcalls e he hbegins => ?_, fun hclear => ?_⟩
  · obtain ⟨key, hspan, hout⟩ := exists_span_of_mem hrule hes he
    exact hstands.overlaps_body_iff hspan (hout b hb).1
  · obtain ⟨key, hspan, hout⟩ := exists_span_of_mem hrule hes he
    have hle := hspan.start_le
    obtain ⟨hfrom, hto⟩ := hbegins
    rcases (hout b hb).2 hcalls with hbefore | hbehind
    · simp only [Block.bodyStop] at hfrom
      omega
    · -- the blanks before the marker would begin in the end marker, which has none
      obtain ⟨c, hc, hnot, -⟩ := hstands.getElem?_ending hfrom hto
      obtain ⟨d, hd, hblank⟩ := hspan.isBlank_before e.start (Nat.le_refl _) (by omega)
      rw [hc] at hd
      cases hd
      rw [hnot] at hblank
      cases hblank
  · refine ⟨lead, List.all_eq_true.mpr hstands.isBlank_lead,
      applyAll_around hstands (ordered_edits hes) fun e he => ?_⟩
    obtain ⟨key, hspan, hout⟩ := exists_span_of_mem hrule hes he
    rcases hstands.cases_span hspan (hout b hb).1 with hkept | hacross | hbegins
    · exact hkept
    · exact absurd hacross (hclear e he).1
    · exact absurd hbegins (hclear e he).2

/-- A closed block whose body holds a call, and a call behind it. -/
def boxed : Text := "@@b:\n@@g\n@@endb @@f".toList

theorem apply_keeps_bodies_boxed : shortCalls ≠ blocks ∧
    shortCalls.apply Compiler.bare.topContext Compiler.bare.compileBody boxed =
      .ok "@@b:\n@@g\n@@endb <?php echo Directives::f() ?>".toList ∧
    ∃ es, shortCalls.edits Compiler.bare.topContext Compiler.bare.compileBody boxed = .ok es ∧
      ∀ b ∈ Block.closedBlocks boxed, ∀ e ∈ es, e.Overlaps b.bodyStart b.bodyStop ↔
        b.body ≠ [] ∧ e.RunsAcross b.bodyStart := by
  have hrule : shortCalls ≠ blocks := by decide
  have happly : shortCalls.apply Compiler.bare.topContext Compiler.bare.compileBody boxed =
      .ok "@@b:\n@@g\n@@endb <?php echo Directives::f() ?>".toList :=
    CompileError.eq_ok_of_toOption (by decide +kernel)
  obtain ⟨es, hes, -, hall⟩ := apply_keeps_bodies hrule happly
  exact ⟨hrule, happly, es, hes, fun b hb => (hall b hb).1⟩

/-- An attribute whose expression is closed behind the beginning of a body. -/
def crossing : Text := "x=\"@boolAttr(\n@@b:\ny)\"@@endb".toList

theorem apply_overlaps_crossing :
    attributes.apply Compiler.bare.topContext Compiler.bare.compileBody crossing =
        .ok "<?php echo @@b:\ny ? 'x' : '' ?>@@endb".toList ∧
      ∃ es, attributes.edits Compiler.bare.topContext Compiler.bare.compileBody crossing = .ok es ∧
        ∃ b ∈ Block.closedBlocks crossing, (∃ e ∈ es, e.Overlaps b.bodyStart b.bodyStop) ∧
          ¬ b.body <:+: "<?php echo @@b:\ny ? 'x' : '' ?>@@endb".toList := by
  have happly : attributes.apply Compiler.bare.topContext Compiler.bare.compileBody crossing =
      .ok "<?php echo @@b:\ny ? 'x' : '' ?>@@endb".toList :=
    CompileError.eq_ok_of_toOption (by decide +kernel)
  refine ⟨happly, _, rfl, ?_⟩
  have hblock : (Block.closedBlocks crossing).any (fun b => b.bodyStart = 19 ∧ b.body = "y)\"".toList) =
      true := by decide +kernel
  have hedit : ((attributesOutsideBodies crossing).map
      (attributeEdit Compiler.bare.topContext)).any (fun e => e.start = 0 ∧ e.stop = 22) = true := by
    decide +kernel
  obtain ⟨b, hb, hplace⟩ := List.any_eq_true.mp hblock
  obtain ⟨e, he, hspan⟩ := List.any_eq_true.mp hedit
  obtain ⟨hstart, hbody⟩ := of_decide_eq_true hplace
  obtain ⟨hfrom, hto⟩ := of_decide_eq_true hspan
  refine ⟨b, hb, ⟨e, he, 19, by omega, by omega, by omega, ?_⟩, ?_⟩
  · rw [Block.bodyStop, hstart, hbody]
    decide
  · rw [hbody]
    decide +kernel

end Rule
end TemplateDirectives
