/-
What becomes of the text that an expander answers to a short call.

The answer takes the place of the call, and the rules that have run by then do not look
at it.  The rule for blocks is still to come, and it reads the answer like any other text.
So the outcome is what becomes of the blocks alone (`Rule.OnlyBlocks`): outside of them the
answer is kept as it was given, whatever directives stand in it, and only the body of a
block in it goes through all rules, one level deeper.  An answer that begins no block with
the text around it is in the outcome as it was given.  In the body of a block all this
happens before the block's own handler is asked.
-/
import TemplateDirectives.Proofs.Markup.Levels
import TemplateDirectives.Proofs.Splices

namespace TemplateDirectives

open Directive

namespace Rule

/-- An outcome is what becomes of a text when its blocks are expanded and nothing else.  There
is a result exactly when every block is closed and gives way to its code, and then all else is
kept as it is.  Otherwise the outcome is the error of the first block that is refused. -/
structure OnlyBlocks (cx : Context) (nested : BodyCompiler) (t : Text)
    (outcome : Except CompileError Text) : Prop where
  done : ∀ u, outcome = .ok u ↔ ∃ es,
    List.Forall₂ (fun r e => ∃ b, r = .closed b ∧ Captures cx nested t b e) (Block.readAll t) es ∧
      t = (Edit.splice t 0 es).before ∧ u = (Edit.splice t 0 es).after
  refused : ∀ e, outcome = .error e ↔ ∃ earlier r later,
    Block.readAll t = earlier ++ r :: later ∧ RefusesBlock cx nested t r e ∧
      ∀ d ∈ earlier, ∀ e', ¬ RefusesBlock cx nested t d e'

/-- The rule for blocks does nothing else. -/
theorem onlyBlocks_applyBlocks (cx : Context) (nested : BodyCompiler) (t : Text) :
    OnlyBlocks cx nested t (applyBlocks cx nested t) where
  done u := by
    have hsteps : ∀ es, (Block.readAll t).mapM (blockEdit cx nested t) = .ok es ↔
        List.Forall₂ (fun r e => ∃ b, r = .closed b ∧ Captures cx nested t b e)
          (Block.readAll t) es := by
      intro es
      simp only [CompileError.mapM_eq_ok_iff, blockEdit_eq_ok_iff]
    constructor
    · intro h
      obtain ⟨es, hes, h⟩ := CompileError.ok_of_bind h
      cases h
      have hedits : blocks.edits cx nested t = .ok es := hes
      exact ⟨es, (hsteps es).mp hes, Edit.splice_of_ordered (ordered_edits hedits)⟩
    · intro h
      obtain ⟨es, hcaptures, -, rfl⟩ := h
      have hedits : blocks.edits cx nested t = .ok es := (hsteps es).mpr hcaptures
      rw [← (Edit.splice_of_ordered (ordered_edits hedits)).2]
      exact (apply_eq_edits cx nested t blocks).trans (by rw [hedits]; rfl)
  refused e := by
    have hsteps : applyBlocks cx nested t = .error e ↔
        (Block.readAll t).mapM (blockEdit cx nested t) = .error e :=
      CompileError.bind_ok_eq_error_iff
    simp only [hsteps, CompileError.mapM_eq_error_iff, ne_eq, blockEdit_eq_error_iff]

end Rule

namespace Markup

/-- A call between two texts. -/
def callBetween (before : Text) (n : Name) (after : Text) : Markup :=
  .text before (.call n [] (.text after .nil))

/-- A block between two texts. -/
def blockBetween (before indent : Text) (n : Name) (arguments lead : Text) (body : Markup)
    (after : Text) : Markup :=
  .text before (.block indent n arguments lead body (.text after .nil))

variable {before after : Text} {n : Name}

theorem written_callBetween (before : Text) (n : Name) (after : Text) :
    (callBetween before n after).written =
      before ++ (callMarker ++ ((Call.applied n []).written ++ after)) := by
  simp only [callBetween, written, List.append_nil]

theorem wellFormed_callBetween (hn : n.isProper = true) (hbefore : '@' ∉ before)
    (hlast : before.getLast?.any Text.isWord = false) (hafter : '@' ∉ after)
    (hhead : after.head? ≠ some ':') : (callBetween before n after).WellFormed := by
  refine ⟨hbefore, hn, List.not_mem_nil, rfl, ?_, ?_, hafter, trivial⟩
  · rw [Option.or_none]
    exact hlast
  · rw [written, written, List.append_nil]
    exact hhead

end Markup

namespace Compiler

variable {c : Compiler} {before after r : Text} {n : Name} {expander : Expander}

theorem compileLevel_callBetween (hp : c.passes = [])
    (hm : (Markup.callBetween before n after).WellFormed)
    (hexpander : c.dialect.registry.expander? (HandlerName.ofDirective c.dialect.defaultSpace n) =
      some expander)
    (hr : expander ⟨HandlerName.ofDirective c.dialect.defaultSpace n, none, none, []⟩ = .ok r)
    (levels : Nat) (origin : Position) :
    c.compileLevel levels origin (Markup.callBetween before n after).written =
      Rule.applyBlocks (c.context (c.maxDepth - levels) origin) (c.nested levels)
        (before ++ (r ++ after)) := by
  have hanswer : c.dialect.callText? n [] = some r := by
    rw [Dialect.callText?, Dialect.answer?, hexpander]
    simp only [hr]
    rfl
  have hcall : ∀ cx : Context, cx.dialect = c.dialect → ∀ t,
      (Markup.callBetween before n after).expandCalls cx t 0 =
        .ok (.text before (.text r (.text after .nil))) := by
    intro cx hcx t
    have hanswer' : cx.dialect.callText? n [] = some r := hcx ▸ hanswer
    have hexpand := Context.expand_eq_ok hanswer' (cx.position t (0 + before.length))
    simp only [Markup.callBetween, Markup.expandCalls, Context.handler, hexpand]
    rfl
  rw [compileLevel_eq, pipeline_eq, hp, Markup.applyAttributes_written hm,
    Markup.applyShortCalls_written hm, hcall _ rfl]
  show (Rule.applyBlocks _ _ (before ++ (r ++ (after ++ []))) >>= fun u => pure u) = _
  rw [bind_pure, List.append_nil]

/-- What becomes of a block between two texts, given what has become of its body. -/
def expandBetween (cx : Context) (t front indent : Text) (b : Name) (arguments back : Text)
    (body : Except CompileError Text) : Except CompileError Text :=
  body >>= fun inner =>
    cx.expand ⟨cx.handler b, some indent, some inner, arguments⟩
        (cx.position t (front.length + indent.length))
        (cx.dialect.host.capture (cx.handler b) indent inner arguments) >>= fun code =>
      .ok (front ++ (indent ++ (code ++ back)))

theorem compileLevel_blockBetween (hp : c.passes = []) {front indent arguments lead back : Text}
    {b : Name} {body : Markup}
    (hm : (Markup.blockBetween front indent b arguments lead body back).WellFormed)
    (levels : Nat) (origin : Position) :
    let t := (Markup.blockBetween front indent b arguments lead body back).written
    let cx := c.context (c.maxDepth - (levels + 1)) origin
    c.compileLevel (levels + 1) origin t =
      expandBetween cx t front indent b arguments back
        (c.compileLevel levels
          (cx.position t (Markup.bodyOffset front.length indent b arguments lead)) body.written) := by
  intro t cx
  have hcalls : (Markup.blockBetween front indent b arguments lead body back).expandCalls cx t 0 =
      .ok (Markup.blockBetween front indent b arguments lead body back) := rfl
  rw [compileLevel_eq, pipeline_eq, hp, Markup.applyAttributes_written hm,
    Markup.applyShortCalls_written hm, hcalls]
  show (Rule.applyBlocks cx (c.nested (levels + 1)) t >>= fun u => pure u) = _
  rw [bind_pure, Markup.applyBlocks_written hm]
  simp only [Markup.blockBetween, Markup.expandBlocks, bind_assoc, pure_bind, Nat.zero_add,
    expandBetween]
  conv => rhs; rw [← List.append_nil back]
  rfl

/-- Let `u` be a template with the answer in the place of its call.  On every level the template
becomes what the rule for blocks alone makes of `u`: outside of the blocks that this rule reads,
`u` is kept, and only the bodies of these go through all rules, one level deeper.  A block that
has the template as its body hands its handler what has become of `u` on the level of the body.
When no block begins in `u`, that is `u` itself, as it is for the whole template. -/
theorem compile_spliced (c : Compiler) {template u : Text} (hp : c.passes = [])
    (hn : n.isProper = true)
    (hexpander : c.dialect.registry.expander? (HandlerName.ofDirective c.dialect.defaultSpace n) =
      some expander)
    (hr : expander ⟨HandlerName.ofDirective c.dialect.defaultSpace n, none, none, []⟩ = .ok r)
    (hbefore : '@' ∉ before) (hlast : before.getLast?.any Text.isWord = false)
    (hafter : '@' ∉ after) (hhead : after.head? ≠ some ':')
    (htemplate : template = before ++ (callMarker ++ ((Call.applied n []).written ++ after)))
    (hu : u = before ++ (r ++ after)) :
    (∀ levels origin, ∀ cx : Context, cx = c.context (c.maxDepth - levels) origin →
      c.compileLevel levels origin template = Rule.applyBlocks cx (c.nested levels) u ∧
        Rule.OnlyBlocks cx (c.nested levels) u (c.compileLevel levels origin template)) ∧
    (∀ levels body origin position,
      c.nested 0 body origin position = .error (.nestingTooDeep c.maxDepth position) ∧
        c.nested (levels + 1) body origin position = c.compileLevel levels origin body) ∧
    (BlockOpening.find? u 0 = none →
      c.compile template = .ok u ∧ ∀ cx nested, Rule.applyBlocks cx nested u = .ok u) ∧
    (∀ levels, ∀ cx inside : Context, ∀ t, ∀ b : Block, b.body = template →
      inside = c.context (c.maxDepth - levels) (cx.position t b.bodyStart) →
      Rule.blockEdit cx (c.nested (levels + 1)) t (.closed b) =
        Rule.blockEdit cx (fun _ _ _ => Rule.applyBlocks inside (c.nested levels) u) t
          (.closed b)) ∧
    (∀ front indent b arguments lead back, ∀ body around : Markup, body.written = template →
      around = .blockBetween front indent b arguments lead body back → around.WellFormed →
      ∀ levels origin, ∀ cx inside : Context,
        cx = c.context (c.maxDepth - (levels + 1)) origin →
        inside = c.context (c.maxDepth - levels)
          (cx.position around.written (Markup.bodyOffset front.length indent b arguments lead)) →
        c.compileLevel (levels + 1) origin around.written =
          expandBetween cx around.written front indent b arguments back
            (Rule.applyBlocks inside (c.nested levels) u)) := by
  have hm := Markup.wellFormed_callBetween hn hbefore hlast hafter hhead
  have hlevel : ∀ levels origin, c.compileLevel levels origin template =
      Rule.applyBlocks (c.context (c.maxDepth - levels) origin) (c.nested levels) u := by
    rw [htemplate, hu, ← Markup.written_callBetween]
    exact compileLevel_callBetween hp hm hexpander hr
  refine ⟨?level, fun _ _ _ _ => ⟨rfl, rfl⟩, ?kept, ?body, ?around⟩
  case level =>
    intro levels origin cx hcx
    rw [hlevel, ← hcx]
    exact ⟨rfl, Rule.onlyBlocks_applyBlocks cx (c.nested levels) u⟩
  case kept =>
    intro hnone
    have hsame : ∀ cx nested, Rule.applyBlocks cx nested u = .ok u := fun cx nested =>
      Rule.applyBlocks_of_find?_eq_none hnone
    exact ⟨(hlevel c.maxDepth Position.start).trans (hsame _ _), hsame⟩
  case body =>
    intro levels cx inside t b hbody hinside
    have hnested : c.nested (levels + 1) b.body (cx.position t b.bodyStart)
        (cx.position t b.opening.marker) = Rule.applyBlocks inside (c.nested levels) u := by
      rw [hbody, hinside]
      exact hlevel levels _
    simp only [Rule.blockEdit, hnested]
  case around =>
    intro front indent b arguments lead back body around hbody haround hwell levels origin cx inside
      hcx hinside
    subst haround hinside hcx
    rw [compileLevel_blockBetween hp hwell, hbody, hlevel]

/-- The compiler for PHP with one handler at compile time, which gives `answer`. -/
def answering (answer : Text) : Compiler :=
  ⟨⟨defaultSpace, Registry.empty.addExpander ⟨defaultSpace, ['t']⟩ fun _ => .ok answer, .php⟩, 2, []⟩

/-- An attribute and a call, which are kept as they are, and a block with the same call, which is
expanded there. -/
def mixedAnswer : Text := "x=\"@boolAttr(1)\" @@raw\n@@b:\n@@raw\n@@endb".toList

theorem compile_spliced_attribute :
    (answering "x=\"@boolAttr(1)\" @@raw".toList).compile "a @@t()\n".toList =
        .ok "a x=\"@boolAttr(1)\" @@raw\n".toList ∧
      (answering "x=\"@boolAttr(1)\" @@raw".toList).compile
          "@@b():a @@t()\n@@endb".toList =
        .ok ("<?php ob_start() ?>a x=\"@boolAttr(1)\" @@raw\n".toList ++
          "<?php echo Directives::b('',ob_get_clean()) ?>".toList) ∧
      Rule.OnlyBlocks (answering mixedAnswer).topContext (answering mixedAnswer).compileBody
        ("a ".toList ++ (mixedAnswer ++ "\n".toList))
        ((answering mixedAnswer).compile "a @@t()\n".toList) ∧
      (answering mixedAnswer).compile "a @@t()\n".toList =
        .ok ("a x=\"@boolAttr(1)\" @@raw\n".toList ++
          ("<?php ob_start() ?><?php echo Directives::raw() ?>\n".toList ++
            "<?php echo Directives::b('',ob_get_clean()) ?>\n".toList)) := by
  have hn : Name.isProper ⟨none, ['t']⟩ = true := by decide +kernel
  have hbefore : '@' ∉ "a ".toList := by decide +kernel
  have hlast : "a ".toList.getLast?.any Text.isWord = false := by decide +kernel
  have hafter : '@' ∉ "\n".toList := by decide +kernel
  have hhead : "\n".toList.head? ≠ some ':' := by decide +kernel
  obtain ⟨-, -, hkept, -, haround⟩ := compile_spliced
    (answering "x=\"@boolAttr(1)\" @@raw".toList) rfl hn rfl rfl hbefore hlast hafter hhead rfl rfl
  obtain ⟨hcompile, hsame⟩ := hkept (by decide +kernel)
  have hblock := haround [] [] ⟨none, ['b']⟩ [] [] []
    (.callBetween "a ".toList ⟨none, ['t']⟩ "\n".toList) _ rfl rfl (by decide +kernel) 1 .start _ _
    rfl rfl
  rw [hsame] at hblock
  have hread := (compile_spliced (answering mixedAnswer) rfl hn rfl rfl hbefore hlast hafter
    hhead rfl rfl).1 2 .start _ rfl
  exact ⟨hcompile, hblock, hread.2, CompileError.eq_ok_of_toOption (by decide +kernel)⟩

/-- An answer that is a block is expanded by the rule for blocks. -/
theorem compile_spliced_block :
    (∃ expander, (answering "@@b:x@@endb".toList).dialect.registry.expander? ⟨defaultSpace, ['t']⟩ =
        some expander ∧ ∀ request, expander request = .ok "@@b:x@@endb".toList) ∧
      (answering "@@b:x@@endb".toList).compile "@@t()".toList =
        .ok "<?php ob_start() ?>x<?php echo Directives::b('',ob_get_clean()) ?>".toList ∧
      (answering "@@b:x@@endb".toList).compile "@@t()".toList ≠ .ok "@@b:x@@endb".toList := by
  have hcompile : (answering "@@b:x@@endb".toList).compile "@@t()".toList =
      .ok "<?php ob_start() ?>x<?php echo Directives::b('',ob_get_clean()) ?>".toList :=
    CompileError.eq_ok_of_toOption (by decide +kernel)
  refine ⟨⟨_, rfl, fun _ => rfl⟩, hcompile, fun h => ?_⟩
  rw [hcompile] at h
  exact absurd (Except.ok.inj h) (by decide +kernel)

end Compiler
end TemplateDirectives
