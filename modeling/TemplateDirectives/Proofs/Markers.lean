/-
The number of `@` in a text, from rule to rule.

Without expanders the compiler writes no markers: the code of the host language repeats
arguments, conditions and compiled bodies, and nothing else of the template that can
hold an `@`.  So every rule takes at least the markers of each directive away
(`Rule.count_apply_le`), and a compiled text holds no more of them than the template
(`Compiler.count_nested_le`).
-/
import TemplateDirectives.Proofs.Edits.Rules

namespace TemplateDirectives

open Directive

/-! ## Texts of PHP -/

namespace Text

theorem count_slice_le (t : Text) (d : Char) {a p q b : Nat} (hap : a ≤ p) (hpq : p ≤ q)
    (hqb : q ≤ b) : (t.slice p q).count d ≤ (t.slice a b).count d := by
  rw [← slice_append_slice t hap (Nat.le_trans hpq hqb), ← slice_append_slice t hpq hqb,
    List.count_append, List.count_append]
  omega

theorem count_blanks (t : Text) : (takeEndWhile isBlank t).count '@' = 0 := by
  rw [List.count_eq_zero]
  exact fun h => absurd (takeEndWhile_all _ _ _ h) (by decide)

theorem count_trim_le (t : Text) (d : Char) : (trim t).count d ≤ t.count d := by
  have hend : ∀ u : Text, (trimEnd u).count d ≤ u.count d := by
    intro u
    have hsplit := congrArg (List.count d) (dropEndWhile_append_takeEndWhile isBlank u)
    rw [List.count_append] at hsplit
    rw [trimEnd]
    omega
  exact Nat.le_trans (hend _) ((List.dropWhile_sublist isBlank).count_le d)

end Text

namespace Php

theorem count_singleQuoted (s : Text) : (singleQuoted s).count '@' = s.count '@' := by
  induction s with
  | nil => rfl
  | cons c s ih =>
    unfold singleQuoted
    split
    next => rw [List.count_cons_of_ne (by decide), List.count_cons, List.count_cons, ih]
    next => rw [List.count_cons, List.count_cons, ih]

theorem count_call (handler : HandlerName) (arguments : Text) :
    (call handler arguments).count '@' = handler.written.count '@' + arguments.count '@' := by
  have hopen : "<?php echo ".toList.count '@' = 0 := by decide +kernel
  have hclose : ") ?>".toList.count '@' = 0 := by decide +kernel
  unfold call
  generalize "<?php echo ".toList = opening at hopen ⊢
  generalize ") ?>".toList = closing at hclose ⊢
  rw [List.count_append, List.count_append, List.count_cons_of_ne (by decide), List.count_append,
    hopen, hclose, Nat.zero_add, Nat.add_zero]

theorem count_capture_le (handler : HandlerName) (indent body arguments : Text) :
    (capture handler indent body arguments).count '@' ≤
      handler.written.count '@' + indent.count '@' + body.count '@' + arguments.count '@' := by
  have hstart : "<?php ob_start() ?>".toList.count '@' = 0 := by decide +kernel
  have hopen : "<?php echo ".toList.count '@' = 0 := by decide +kernel
  have hquote : "('".toList.count '@' = 0 := by decide +kernel
  have hget : "',ob_get_clean()".toList.count '@' = 0 := by decide +kernel
  have hclose : ") ?>".toList.count '@' = 0 := by decide +kernel
  have harguments : (if Text.isBlankText arguments then [] else ',' :: arguments).count '@' ≤
      arguments.count '@' := by
    split
    next => exact Nat.zero_le _
    next => exact Nat.le_of_eq (List.count_cons_of_ne (by decide))
  unfold capture
  generalize "<?php ob_start() ?>".toList = start at hstart ⊢
  generalize "<?php echo ".toList = opening at hopen ⊢
  generalize "('".toList = quote at hquote ⊢
  generalize "',ob_get_clean()".toList = get at hget ⊢
  generalize ") ?>".toList = closing at hclose ⊢
  simp only [List.count_append, hstart, hopen, hquote, hget, hclose, count_singleQuoted]
  omega

theorem count_conditional (condition content : Text) :
    (conditional condition content).count '@' = condition.count '@' + content.count '@' := by
  have hopen : "<?php echo ".toList.count '@' = 0 := by decide +kernel
  have hthen : " ? '".toList.count '@' = 0 := by decide +kernel
  have helse : "' : '' ?>".toList.count '@' = 0 := by decide +kernel
  unfold conditional
  generalize "<?php echo ".toList = opening at hopen ⊢
  generalize " ? '".toList = thenText at hthen ⊢
  generalize "' : '' ?>".toList = elseText at helse ⊢
  simp only [List.count_append, hopen, hthen, helse, count_singleQuoted]
  omega

end Php

/-! ## Dialects that write no markers -/

/-- PHP without handlers at compile time, and with a default namespace that holds no
marker. -/
structure Dialect.IsBare (d : Dialect) : Prop where
  host : d.host = .php
  expander? : ∀ handler, d.registry.expander? handler = none
  at_not_mem : '@' ∉ d.defaultSpace

namespace Dialect.IsBare

variable {cx : Context} {n : Name}

theorem expand_eq (hd : cx.dialect.IsBare) (request : ExpandRequest) (position : Position)
    (fallback : Text) : cx.expand request position fallback = .ok fallback := by
  rw [Context.expand, hd.expander?]

theorem count_handler (hd : cx.dialect.IsBare) (hn : n.IsFormed) :
    (cx.handler n).written.count '@' = 0 :=
  List.count_eq_zero.mpr (HandlerName.at_not_mem_written hd.at_not_mem hn)

end Dialect.IsBare

/-! ## What a rule takes away -/

namespace Rule

/-- The number of `@` in the markers of a rule's directives. -/
def marks : Rule → Nat
  | attributes => 1
  | shortCalls => 2
  | blocks => 4

variable {cx : Context} {nested : BodyCompiler} {t u : Text} {rule : Rule} {es : List Edit} {e : Edit}

theorem count_attributeEdit_le (hd : cx.dialect.IsBare) {a : Attribute} {cursor : Nat} {rest : Text}
    (ha : a.Stands t cursor rest) :
    (attributeEdit cx a).replacement.count '@' + attributes.marks ≤
      (t.slice (attributeEdit cx a).start (attributeEdit cx a).stop).count '@' := by
  have hvalue : t.slice a.marker a.stop = a.value.written a.head.quote :=
    Text.slice_of_drop ha.at_marker
  have hle : a.start ≤ a.marker := Nat.le_trans (Nat.sub_le _ _) (Nat.sub_le _ _)
  have hspan := Text.count_slice_le t '@' hle (Nat.le_of_lt a.marker_lt_stop) (Nat.le_refl a.stop)
  have hexpression : a.value.expression.count '@' + 1 ≤ (a.value.written a.head.quote).count '@' := by
    simp only [Attribute.Value.written, attributeMarker, List.count_append, List.count_cons]
    simp
    omega
  have hblanks : a.blanks.count '@' = 0 := by rw [ha.blanks, Text.count_blanks]
  have hname : a.head.name.count '@' = 0 := by
    rw [List.count_eq_zero]
    exact fun h => absurd (ha.head.name _ h) (by decide)
  have htrim := Text.count_trim_le a.value.expression '@'
  rw [hvalue] at hspan
  simp only [attributeEdit, hd.host, HostLanguage.php, Php.count_conditional, List.count_append,
    hblanks, hname, marks]
  omega

theorem count_callWritten (c : Call) : c.argumentText.count '@' ≤ c.written.count '@' := by
  obtain ⟨name, arguments⟩ := c
  cases arguments with
  | none => exact Nat.zero_le _
  | some l =>
    simp only [Call.argumentText, Call.written, ArgumentList.written, Option.map_some, Option.getD_some,
      List.count_append, List.count_cons]
    omega

theorem count_callEdit_le (hd : cx.dialect.IsBare) {c : ShortCall} {cursor : Nat} {rest : Text}
    (hc : c.Stands t cursor rest) (he : Calls cx t c e) :
    e.replacement.count '@' + shortCalls.marks ≤ (t.slice e.start e.stop).count '@' := by
  obtain ⟨code, hreplacement, hcode⟩ := he.replacement
  rw [hd.expand_eq] at hcode
  cases hcode
  have hwritten := hc.written
  rw [← List.append_assoc] at hwritten
  have hcall : t.slice c.marker c.stop = callMarker ++ c.call.written := by
    have hslice := Text.slice_of_drop hwritten
    rwa [List.length_append, ← Nat.add_assoc] at hslice
  have hle : e.start ≤ c.marker := he.start ▸ Nat.sub_le _ _
  have hspan := Text.count_slice_le t '@' hle (Nat.le_of_lt c.marker_lt_stop) (Nat.le_refl c.stop)
  have hblanks : c.blanks.count '@' = 0 := by rw [hc.blanks, Text.count_blanks]
  have hmarker : callMarker.count '@' = 2 := rfl
  have hhandler := hd.count_handler (Call.isFormed_of_read? hc.read)
  have harguments := count_callWritten c.call
  rw [hcall, List.count_append, hmarker] at hspan
  rw [hreplacement, List.count_append, hblanks, hd.host, HostLanguage.php, Php.count_call, hhandler,
    he.stop, marks]
  omega

theorem count_blockEdit_le (hd : cx.dialect.IsBare)
    (hnested : ∀ body o p inner, nested body o p = .ok inner → inner.count '@' ≤ body.count '@')
    {b : Block} {cursor : Nat} {lead rest : Text} (hb : b.Stands t cursor lead rest)
    (he : Captures cx nested t b e) :
    e.replacement.count '@' + blocks.marks ≤ (t.slice e.start e.stop).count '@' := by
  obtain ⟨inner, code, hreplacement, hinner, hcode⟩ := he.replacement
  rw [hd.expand_eq] at hcode
  cases hcode
  have hbody := hnested _ _ _ _ hinner
  have hwritten : t.drop b.opening.marker = (callMarker ++ (b.opening.call.written ++ ':' :: (lead ++
      (b.body ++ (callMarker ++ (Name.endWord ++ b.opening.call.name.written)))))) ++ rest := by
    rw [hb.opening.at_marker]
    simp only [List.append_assoc, List.cons_append]
  have hblock := Text.slice_of_drop hwritten
  have hstop : b.opening.marker + (callMarker ++ (b.opening.call.written ++ ':' :: (lead ++
      (b.body ++ (callMarker ++ (Name.endWord ++ b.opening.call.name.written)))))).length =
        b.stop := by
    rw [hb.stop, Block.bodyStop, hb.bodyStart, BlockOpening.stop]
    simp only [List.length_append, List.length_cons]
    omega
  rw [hstop] at hblock
  have hle : e.start ≤ b.opening.marker := by
    rw [he.start]
    exact Nat.le_trans (Nat.sub_le _ _) (Nat.sub_le _ _)
  have hstop' : b.opening.marker ≤ b.stop := by omega
  have hspan := Text.count_slice_le t '@' hle hstop' (Nat.le_refl b.stop)
  have hblanks : b.opening.blanks.count '@' = 0 := by rw [hb.opening.blanks, Text.count_blanks]
  have hindent : b.opening.indent.count '@' = 0 := by
    rw [List.count_eq_zero]
    exact fun h => absurd (hb.opening.indent _ h) (by decide)
  have hmarker : callMarker.count '@' = 2 := rfl
  have hhandler := hd.count_handler hb.isFormed
  have harguments := count_callWritten b.opening.call
  have hcapture := Php.count_capture_le (cx.handler b.opening.call.name) b.opening.indent inner
    b.opening.call.argumentText
  rw [hblock] at hspan
  simp only [List.count_append, List.count_cons, hmarker] at hspan
  simp only [hreplacement, List.count_append, hblanks, hindent, hd.host, HostLanguage.php, he.stop,
    marks]
  omega

/-- A rule takes at least the markers of every directive away that it replaces. -/
theorem count_apply_le (hd : cx.dialect.IsBare)
    (hnested : ∀ body o p inner, nested body o p = .ok inner → inner.count '@' ≤ body.count '@')
    (h : rule.edits cx nested t = .ok es) :
    (Edit.applyAll t es).count '@' + rule.marks * es.length ≤ t.count '@' := by
  refine Edit.count_applyFrom_add_le '@' rule.marks (ordered_edits h) fun e he => ?_
  cases rule with
  | attributes =>
    obtain ⟨a, ha, rfl⟩ := exists_attribute_of_mem h he
    obtain ⟨⟨cursor, rest, hstands⟩, -⟩ := stands_of_mem_attributes ha
    exact count_attributeEdit_le hd hstands
  | shortCalls =>
    obtain ⟨c, hc, hcalls⟩ := exists_call_of_mem h he
    obtain ⟨⟨cursor, rest, hstands⟩, -⟩ := stands_of_mem_calls hc
    exact count_callEdit_le hd hstands hcalls
  | blocks =>
    obtain ⟨b, hb, hcaptures⟩ := exists_block_of_mem h he
    obtain ⟨cursor, lead, rest, hstands⟩ := Block.exists_stands_of_mem_closedBlocks hb
    exact count_blockEdit_le hd hnested hstands hcaptures

theorem count_applyAttributes_le (hd : cx.dialect.IsBare) (t : Text) :
    (applyAttributes cx t).count '@' + (attributesOutsideBodies t).length ≤ t.count '@' := by
  have hedits : attributes.edits cx (fun body _ _ => .ok body) t =
      .ok ((attributesOutsideBodies t).map (attributeEdit cx)) := rfl
  have hcount := count_apply_le hd (fun body _ _ inner hinner => by cases hinner; exact Nat.le_refl _)
    hedits
  rwa [List.length_map, marks, Nat.one_mul] at hcount

end Rule

/-! ## The compiler -/

namespace Compiler

variable {c : Compiler} {t u : Text}

/-- A level without passes as the edits of its three rules. -/
theorem exists_edits_of_compileLevel (hp : c.passes = []) {levels : Nat} {origin : Position}
    (h : c.compileLevel levels origin t = .ok u) :
    ∃ cx, cx = c.context (c.maxDepth - levels) origin ∧ ∃ called edits edits',
      Rule.shortCalls.edits cx (c.nested levels) (Rule.applyAttributes cx t) = .ok edits ∧
      called = Edit.applyAll (Rule.applyAttributes cx t) edits ∧
      Rule.blocks.edits cx (c.nested levels) called = .ok edits' ∧
      u = Edit.applyAll called edits' := by
  rw [compileLevel_eq, pipeline_eq, hp] at h
  obtain ⟨called, hcalled, h⟩ := CompileError.ok_of_bind h
  obtain ⟨ruled, hruled, h⟩ := CompileError.ok_of_bind h
  cases h
  change Rule.shortCalls.apply _ (c.nested levels) _ = _ at hcalled
  change Rule.blocks.apply _ _ _ = _ at hruled
  rw [Rule.apply_eq_edits] at hcalled hruled
  obtain ⟨edits, hedits, hcalled⟩ := CompileError.ok_of_bind hcalled
  obtain ⟨edits', hedits', hruled⟩ := CompileError.ok_of_bind hruled
  cases hcalled
  cases hruled
  exact ⟨_, rfl, _, edits, edits', hedits, rfl, hedits', rfl⟩

/-- Compiling adds no `@`.  By induction on the levels left, for the bodies. -/
theorem count_nested_le (hp : c.passes = []) (hd : c.dialect.IsBare) (levels : Nat) (body : Text)
    (o p : Position) (inner : Text) (h : c.nested levels body o p = .ok inner) :
    inner.count '@' ≤ body.count '@' := by
  induction levels generalizing body o p inner with
  | zero => cases h
  | succ levels ih =>
    obtain ⟨cx, rfl, called, edits, edits', hcalls, rfl, hblocks, rfl⟩ :=
      exists_edits_of_compileLevel hp h
    have hlevel : (c.context (c.maxDepth - levels) o).dialect.IsBare := hd
    have hattributes := Rule.count_applyAttributes_le hlevel body
    have hcalled := Rule.count_apply_le hlevel ih hcalls
    have hruled := Rule.count_apply_le hlevel ih hblocks
    omega

end Compiler
end TemplateDirectives
