/-
When the argument text of a short call is copied as it is.

The rule for short calls copies it (`applyShortCalls_calling`).  But it is the second of
three rules, and all of them read the whole text: an attribute written in an argument is
rewritten before the call is, and a block on lines of its own in an argument is expanded
behind it.  `Compiler.compile_calling` says that nothing else can go wrong.  Where only PHP
answers, the two conditions are needed: every edit takes an `@` away
(`Rule.count_apply_le`), and between the template and the text that is looked for just
the two of the call's marker are lost.
-/
import TemplateDirectives.Proofs.Errors.Place
import TemplateDirectives.Proofs.Lone
import TemplateDirectives.Proofs.Markers

namespace TemplateDirectives

open Directive

/-- A short call with arguments, between two texts. -/
def calling (before method arguments after : Text) : Text :=
  before ++ (callMarker ++ (method ++ '(' :: (arguments ++ ')' :: after)))

/-- The same with the call in PHP. -/
def phpCalling (space before method arguments after : Text) : Text :=
  before ++ ("<?php echo ".toList ++ (space ++ ("::".toList ++ (method ++ '(' :: (arguments ++
    (") ?>".toList ++ after))))))

section

variable {before method arguments after : Text}

theorem calling_eq (before method arguments after : Text) :
    calling before method arguments after =
      before ++ (callMarker ++ ((Call.applied ⟨none, method⟩ arguments).written ++ after)) := by
  simp only [calling, Call.written_applied, Name.written, List.append_assoc, List.cons_append,
    List.nil_append]

theorem phpCalling_eq (space before method arguments after : Text) :
    phpCalling space before method arguments after =
      before ++ (Php.call ⟨space, method⟩ arguments ++ after) := by
  have hseparator : Name.separator = "::".toList := rfl
  unfold phpCalling Php.call
  rw [← hseparator]
  generalize "<?php echo ".toList = opening
  generalize ") ?>".toList = closing
  simp only [HandlerName.written, List.append_assoc, List.cons_append]

theorem drop_calling (before method arguments after : Text) :
    (calling before method arguments after).drop before.length =
      callMarker ++ ((Call.applied ⟨none, method⟩ arguments).written ++ after) := by
  rw [calling_eq, List.drop_left]

end

/-! ## The rule for short calls -/

namespace Rule

variable {cx : Context} {before method arguments after : Text}

theorem applyShortCalls_calling (hhost : cx.dialect.host = .php)
    (hm : Name.isProper ⟨none, method⟩ = true) (ha : ClosesItself arguments) (hbefore : '@' ∉ before)
    (hlast : before.getLast?.any Text.isWord = false) (hafter : '@' ∉ after)
    (hhead : after.head? ≠ some ':')
    (hexpander : cx.dialect.registry.expander? ⟨cx.dialect.defaultSpace, method⟩ = none) :
    applyShortCalls cx (calling before method arguments after) =
      .ok (phpCalling cx.dialect.defaultSpace before method arguments after) := by
  have hexpand : ∀ request position fallback, request.handler = ⟨cx.dialect.defaultSpace, method⟩ →
      cx.expand request position fallback = .ok fallback := by
    intro request position fallback hrequest
    rw [Context.expand, hrequest, hexpander]
  rw [calling_eq, applyShortCalls_lone cx hbefore hlast (Call.read?_applied hm ha after)
    (Name.isProper_iff.mp hm).2.2.2 hafter, if_neg hhead, hexpand _ _ _ rfl, hhost, phpCalling_eq]
  rfl

/-! ## Attributes -/

/-- An attribute is found behind the call's marker only, with its blanks. -/
theorem lt_start_of_mem_attributes {cursor : Nat} {a : Attribute} {rest : Text}
    (hbefore : '@' ∉ before) (h : a.Stands (calling before method arguments after) cursor rest) :
    before.length + 2 ≤ a.start := by
  have hd := drop_calling before method arguments after
  have hfirst : (calling before method arguments after)[before.length]? = some '@' := by
    rw [← List.head?_drop, hd]
    rfl
  have hsecond : (calling before method arguments after)[before.length + 1]? = some '@' := by
    rw [← List.getElem?_drop, hd]
    rfl
  have hmarker : (calling before method arguments after)[a.marker]? = some '@' := by
    rw [← List.head?_drop, h.at_marker]
    rfl
  have hnext : (calling before method arguments after)[a.marker + 1]? = some 'b' := by
    rw [← List.getElem?_drop, h.at_marker]
    rfl
  have hle := length_le_of_getElem?_at hbefore hmarker
  generalize calling before method arguments after = t at *
  have hnot : ∀ i, a.nameStart ≤ i → i < a.marker → t[i]? ≠ some '@' := by
    intro i hi hlt hat
    have hlen := h.marker
    obtain ⟨c, hc, hget⟩ := Text.mem_of_drop h.written hi (by omega)
    rw [hget] at hat
    cases hat
    exact h.head.at_not_mem hc
  have hblank : ∀ i, a.start ≤ i → i < a.nameStart → t[i]? ≠ some '@' := by
    intro i hi hlt hat
    obtain ⟨c, hget, hc⟩ := h.isBlank_before hi hlt
    rw [hget] at hat
    cases hat
    cases hc
  have hne : a.marker ≠ before.length := by
    intro heq
    rw [heq, hsecond] at hnext
    cases hnext
  have hname := h.nameStart_lt
  refine Nat.le_of_not_lt fun hlt => ?_
  rcases Nat.lt_or_ge (before.length + 1) a.nameStart with hin | hge
  · exact hblank _ (by omega) hin hsecond
  · rcases Nat.eq_or_lt_of_le (show before.length + 1 ≤ a.marker by omega) with heq | hgt
    · exact hnot before.length (by omega) (by omega) hfirst
    · exact hnot _ hge hgt hsecond

/-- The rule for attributes leaves the call's marker where it is. -/
theorem applyAttributes_calling (cx : Context) (method arguments after : Text)
    (hbefore : '@' ∉ before) :
    ∃ more, applyAttributes cx (calling before method arguments after) =
      before ++ (callMarker ++ more) := by
  have hordered : Edit.Ordered (calling before method arguments after).length (before.length + 2)
      ((attributesOutsideBodies (calling before method arguments after)).map
        (attributeEdit cx)) := by
    have hedits : attributes.edits cx (fun body _ _ => .ok body)
        (calling before method arguments after) = .ok _ := rfl
    refine (ordered_edits hedits).strengthen fun e he => ?_
    obtain ⟨a, ha, rfl⟩ := List.mem_map.mp he
    obtain ⟨⟨cursor, rest, hstands⟩, -⟩ := stands_of_mem_attributes ha
    exact lt_start_of_mem_attributes hbefore hstands
  have hslice : (calling before method arguments after).slice 0 (before.length + 2) =
      before ++ callMarker := by
    have hdrop : (calling before method arguments after).drop 0 =
        (before ++ callMarker) ++ (method ++ '(' :: (arguments ++ ')' :: after)) := by
      rw [List.drop_zero, calling, List.append_assoc]
    have hslice := Text.slice_of_drop hdrop
    rwa [Nat.zero_add, List.length_append] at hslice
  have hcopy := Edit.applyFrom_of_le (Nat.zero_le _) hordered
  rw [hslice, List.append_assoc] at hcopy
  exact ⟨_, hcopy⟩

end Rule

/-! ## The compiler -/

namespace Compiler

variable {before method arguments after space : Text}

theorem count_calling (arguments : Text) (hbefore : '@' ∉ before)
    (hm : Name.isProper ⟨none, method⟩ = true) (hafter : '@' ∉ after) :
    (calling before method arguments after).count '@' = arguments.count '@' + 2 := by
  have hmethod : '@' ∉ method := Name.at_not_mem_written (Name.isFormed_of_isProper hm)
  have hmarker : callMarker.count '@' = 2 := rfl
  simp only [calling, List.count_append, List.count_cons_of_ne (by decide : '(' ≠ '@'),
    List.count_cons_of_ne (by decide : ')' ≠ '@'), List.count_eq_zero.mpr hbefore,
    List.count_eq_zero.mpr hmethod, List.count_eq_zero.mpr hafter, hmarker]
  omega

theorem count_phpCalling (arguments : Text) (hspace : '@' ∉ space) (hbefore : '@' ∉ before)
    (hm : Name.isProper ⟨none, method⟩ = true) (hafter : '@' ∉ after) :
    (phpCalling space before method arguments after).count '@' = arguments.count '@' := by
  have hhandler : (HandlerName.written ⟨space, method⟩).count '@' = 0 :=
    List.count_eq_zero.mpr (HandlerName.at_not_mem_written hspace (Name.isFormed_of_isProper hm))
  rw [phpCalling_eq, List.count_append, List.count_append, Php.count_call, hhandler,
    List.count_eq_zero.mpr hbefore, List.count_eq_zero.mpr hafter]
  omega

/-- A short call becomes the call in PHP with its arguments as they are, when the rule
for attributes has nothing to do in the template and no block begins in the outcome.
Without any expander it does so in no other case. -/
theorem compile_calling (c : Compiler) (hp : c.passes = []) (hhost : c.dialect.host = .php)
    (hm : Name.isProper ⟨none, method⟩ = true) (ha : ClosesItself arguments) (hbefore : '@' ∉ before)
    (hlast : before.getLast?.any Text.isWord = false) (hafter : '@' ∉ after)
    (hhead : after.head? ≠ some ':')
    (hexpander : c.dialect.registry.expander? ⟨c.dialect.defaultSpace, method⟩ = none) :
    (Rule.attributesOutsideBodies (calling before method arguments after) = [] →
      BlockOpening.find? (phpCalling c.dialect.defaultSpace before method arguments after) 0 = none →
      c.compile (calling before method arguments after) =
        .ok (phpCalling c.dialect.defaultSpace before method arguments after)) ∧
    (c.dialect.IsBare → c.compile (calling before method arguments after) =
        .ok (phpCalling c.dialect.defaultSpace before method arguments after) →
      Rule.attributesOutsideBodies (calling before method arguments after) = [] ∧
        BlockOpening.find? (phpCalling c.dialect.defaultSpace before method arguments after) 0 =
          none) := by
  have hcalls : ∀ cx : Context, cx.dialect = c.dialect →
      Rule.applyShortCalls cx (calling before method arguments after) =
        .ok (phpCalling c.dialect.defaultSpace before method arguments after) := by
    intro cx hcx
    rw [← hcx]
    exact Rule.applyShortCalls_calling (hcx ▸ hhost) hm ha hbefore hlast hafter hhead
      (hcx ▸ hexpander)
  have hnone : ∀ cx, Rule.attributesOutsideBodies (calling before method arguments after) = [] →
      Rule.applyAttributes cx (calling before method arguments after) =
        calling before method arguments after := by
    intro cx h
    rw [Rule.applyAttributes, h]
    rfl
  refine ⟨fun hattributes hblocks => ?_, fun hd hcompile => ?_⟩
  · rw [compile, compileLevel_eq, pipeline_eq, hp, hnone _ hattributes, hcalls _ rfl]
    show (Rule.applyBlocks _ _ _ >>= fun u => pure u) = _
    rw [bind_pure, Rule.applyBlocks_of_find?_eq_none hblocks]
  · obtain ⟨cx, hcx, called, edits, edits', hedits, hcalled, hedits', hresult⟩ :=
      exists_edits_of_compileLevel hp hcompile
    have hbare : cx.dialect.IsBare := hcx ▸ hd
    have hnested := count_nested_le hp hd c.maxDepth
    have hblocks := Rule.count_apply_le hbare hnested hedits'
    rw [← hresult] at hblocks
    by_cases hattributes : Rule.attributesOutsideBodies (calling before method arguments after) = []
    · refine ⟨hattributes, ?_⟩
      have happly := Rule.apply_eq_edits cx (c.nested c.maxDepth)
        (calling before method arguments after) .shortCalls
      rw [hnone cx hattributes] at hedits hcalled
      rw [hedits, show Rule.apply cx _ _ .shortCalls = _ from hcalls cx (by rw [hcx]; rfl)] at happly
      have hcode : called = phpCalling c.dialect.defaultSpace before method arguments after := by
        rw [hcalled]
        exact (Except.ok.inj happly).symm
      rw [hcode] at hblocks hedits'
      have hlength : edits'.length = 0 := by
        simp only [Rule.marks] at hblocks
        omega
      have hread := CompileError.length_of_mapM hedits'
      rw [hlength] at hread
      exact Block.readAll_eq_nil_iff.mp (List.eq_nil_of_length_eq_zero hread.symm)
    · -- the attributes take an `@` each, so the other rules have found nothing
      exfalso
      have hcount := Rule.count_applyAttributes_le hbare (calling before method arguments after)
      have hcalls := Rule.count_apply_le hbare hnested hedits
      have hpos := List.length_pos_iff.mpr hattributes
      have htemplate := count_calling arguments hbefore hm hafter
      have houtcome := count_phpCalling arguments hd.at_not_mem hbefore hm hafter
      rw [← hcalled] at hcalls
      simp only [Rule.marks] at hcalls hblocks
      have hedits_nil : edits = [] := List.eq_nil_of_length_eq_zero (by omega)
      have hedits'_nil : edits' = [] := List.eq_nil_of_length_eq_zero (by omega)
      obtain ⟨more, hmore⟩ := Rule.applyAttributes_calling cx method arguments after hbefore
      rw [hedits'_nil, Edit.applyAll_nil, hcalled, hedits_nil, Edit.applyAll_nil, hmore, phpCalling,
        List.append_cancel_left_eq] at hresult
      have hfirst := congrArg List.head? hresult
      cases hfirst

theorem isBare_bare : bare.dialect.IsBare := ⟨rfl, fun _ => rfl, by decide +kernel⟩

theorem compile_calling_quoted : ClosesItself "'@@x', 2".toList ∧
    bare.compile (calling "Hi ".toList "say".toList "'@@x', 2".toList ".\n".toList) =
      .ok "Hi <?php echo Directives::say('@@x', 2) ?>.\n".toList ∧
    Rule.attributesOutsideBodies
      (calling "Hi ".toList "say".toList "'@@x', 2".toList ".\n".toList) = [] := by
  have ha : ClosesItself "'@@x', 2".toList := by decide +kernel
  have hm : Name.isProper ⟨none, "say".toList⟩ = true := by decide +kernel
  have hbefore : '@' ∉ "Hi ".toList := by decide +kernel
  have hlast : "Hi ".toList.getLast?.any Text.isWord = false := by decide +kernel
  have hafter : '@' ∉ ".\n".toList := by decide +kernel
  have hhead : ".\n".toList.head? ≠ some ':' := by decide +kernel
  have hcalling := compile_calling bare rfl rfl hm ha hbefore hlast hafter hhead rfl
  have hcompile := hcalling.1 (by decide +kernel) (by decide +kernel)
  exact ⟨ha, hcompile, (hcalling.2 isBare_bare hcompile).1⟩

/-- An argument in which an attribute is written. -/
def attributeArgument : Text := "'x=\"@boolAttr($y)\"'".toList

theorem compile_calling_attribute : ClosesItself attributeArgument ∧
    bare.compile (calling [] ['m'] attributeArgument []) =
      .ok "<?php echo Directives::m('<?php echo $y ? 'x' : '' ?>') ?>".toList ∧
    bare.compile (calling [] ['m'] attributeArgument []) ≠
      .ok (phpCalling defaultSpace [] ['m'] attributeArgument []) := by
  have hcompile : bare.compile (calling [] ['m'] attributeArgument []) =
      .ok "<?php echo Directives::m('<?php echo $y ? 'x' : '' ?>') ?>".toList :=
    CompileError.eq_ok_of_toOption (by decide +kernel)
  refine ⟨by decide +kernel, hcompile, fun h => ?_⟩
  rw [hcompile] at h
  exact absurd (Except.ok.inj h) (by decide +kernel)

end Compiler
end TemplateDirectives
