/-
The meaning of a template, and that the compiler computes it.

`Markup.meaning` says by recursion on the tree what a template stands for: text
stands for itself, a call for what is answered to it, and a block for what is
answered to it when its body means what it means.  The compiler does not recurse
on trees.  It rewrites the text of a level in three passes and starts over on every
body, and the text that it arrives at is the meaning (`toOption_compile_written`).
The induction is on the levels left.  In one level it is on the tree, where the
places that the rules compute do not matter, since they only show in errors.
-/
import TemplateDirectives.Proofs.Markup.Levels

namespace TemplateDirectives

open Directive

namespace Markup

/-! ## Meaning -/

/-- What a template stands for, unless an expander fails. -/
def meaning (d : Dialect) : Markup → Option Text
  | nil => some []
  | text s rest => do
    let after ← rest.meaning d
    return s ++ after
  | call n args rest => do
    let code ← d.callText? n args
    let after ← rest.meaning d
    return code ++ after
  | block indent n args _ body rest => do
    let inner ← body.meaning d
    let code ← d.blockText? n args indent inner
    let after ← rest.meaning d
    return indent ++ (code ++ after)

variable {cx : Context} {t : Text} {m m' : Markup} {offset : Nat}

/-- When a call of the level is refused, the template has no meaning. -/
theorem meaning_eq_none {e : CompileError} (h : m.expandCalls cx t offset = .error e) :
    m.meaning cx.dialect = none := by
  induction m generalizing offset with
  | nil => cases h
  | text s rest ih =>
    rcases CompileError.error_of_bind h with hrest | ⟨rest', -, h⟩
    · rw [meaning, ih hrest]
      rfl
    · cases h
  | call n args rest ih =>
    have hanswer : cx.dialect.callText? n args = (cx.expand ⟨cx.handler n, none, none, args⟩
        (cx.position t offset) (cx.dialect.host.call (cx.handler n) args)).toOption :=
      (cx.toOption_expand _ _ _).symm
    rcases CompileError.error_of_bind h with hcode | ⟨code, -, h⟩
    · rw [meaning, hanswer, hcode]
      rfl
    · rcases CompileError.error_of_bind h with hrest | ⟨rest', -, h⟩
      · rw [meaning, ih hrest]
        cases cx.dialect.callText? n args <;> rfl
      · cases h
  | block indent n args lead body rest ihbody ihrest =>
    rcases CompileError.error_of_bind h with hrest | ⟨rest', -, h⟩
    · rw [meaning, ihrest hrest]
      cases body.meaning cx.dialect with
      | none => rfl
      | some inner =>
        show ((cx.dialect.blockText? n args indent inner).bind fun _ => none) = none
        cases cx.dialect.blockText? n args indent inner <;> rfl
    · cases h

/-- A level whose calls are expanded becomes its meaning, when its bodies do. -/
theorem toOption_expandBlocks {levels : Nat} {nested : Rule.BodyCompiler}
    (hnested : ∀ body : Markup, body.WellFormed → body.nesting < levels →
      body.CallsQuiet cx.dialect → ∀ o p, (nested body.written o p).toOption = body.meaning cx.dialect)
    {before : Option Char} (hm : m.WellFormedAfter before) (hdepth : m.nesting ≤ levels)
    (hq : m.CallsQuiet cx.dialect) (h : m.expandCalls cx t offset = .ok m') (u : Text) (o : Nat) :
    (m'.expandBlocks cx nested u o).toOption = m.meaning cx.dialect := by
  induction m generalizing m' before offset o with
  | nil =>
    cases h
    rfl
  | text s rest ih =>
    obtain ⟨rest', hrest, hm'⟩ := CompileError.ok_of_bind h
    cases hm'
    rw [expandBlocks, CompileError.toOption_bind, ih hm.2 hdepth hq hrest]
    rfl
  | call n args rest ih =>
    obtain ⟨code, hcode, h⟩ := CompileError.ok_of_bind h
    obtain ⟨rest', hrest, hm'⟩ := CompileError.ok_of_bind h
    cases hm'
    have hanswer : cx.dialect.callText? n args = (cx.expand ⟨cx.handler n, none, none, args⟩
        (cx.position t offset) (cx.dialect.host.call (cx.handler n) args)).toOption :=
      (cx.toOption_expand _ _ _).symm
    obtain ⟨-, -, -, -, -, hafter⟩ := hm
    rw [expandBlocks, CompileError.toOption_bind,
      ih hafter hdepth (fun k hk => hq k (List.mem_cons_of_mem _ hk)) hrest, meaning, hanswer, hcode]
    rfl
  | block indent n args lead body rest ihbody ihrest =>
    obtain ⟨rest', hrest, hm'⟩ := CompileError.ok_of_bind h
    cases hm'
    obtain ⟨-, -, -, -, -, -, -, hbody, -, -, hafter⟩ := hm
    rw [nesting] at hdepth
    have hinner := hnested body hbody (by omega) fun k hk => hq k (List.mem_append_left _ hk)
    have hrun := fun o => ihrest hafter (by omega) (fun k hk => hq k (List.mem_append_right _ hk))
      hrest o
    simp only [expandBlocks, CompileError.toOption_bind, hinner, cx.toOption_expand, hrun, meaning]
    rfl

/-! ## Texts without markers -/

theorem isProper_of_mem_calls {before : Option Char} (hm : m.WellFormedAfter before)
    {k : Name × Text} (hk : k ∈ m.calls) : k.1.isProper = true ∧ '@' ∉ k.2 := by
  induction m generalizing before with
  | nil => cases hk
  | text s rest ih => exact ih hm.2 hk
  | call n args rest ih =>
    obtain ⟨hn, ha, -, -, -, hafter⟩ := hm
    rcases List.mem_cons.mp hk with rfl | hk
    · exact ⟨hn, ha⟩
    · exact ih hafter hk
  | block indent n args lead body rest ihbody ihrest =>
    obtain ⟨-, -, -, -, -, -, -, hbody, -, -, hafter⟩ := hm
    rcases List.mem_append.mp hk with hk | hk
    · exact ihbody hbody hk
    · exact ihrest hafter hk

end Markup

/-- A host language that puts no `@` into a call. -/
def HostLanguage.QuietCalls (host : HostLanguage) : Prop :=
  ∀ handler arguments, '@' ∉ handler.written → '@' ∉ arguments → '@' ∉ host.call handler arguments

theorem HostLanguage.quietCalls_php : HostLanguage.php.QuietCalls := by
  intro handler arguments hh ha
  have hopen : '@' ∉ "<?php echo ".toList := by decide +kernel
  have hclose : '@' ∉ '(' :: (arguments ++ ") ?>".toList) := by simp [ha]
  intro h
  rcases List.mem_append.mp h with h | h
  · rcases List.mem_append.mp h with h | h
    · exact hopen h
    · exact hh h
  · exact hclose h

/-- A template's calls are answered without an `@` when its expanders do so. -/
theorem Markup.callsQuiet_of_expanders {d : Dialect}
    (hspace : d.defaultSpace.all Name.isQualifierChar = true) (hhost : d.host.QuietCalls)
    {m : Markup} (hm : m.WellFormed)
    (hexpanders : ∀ k ∈ m.calls, ∀ expander,
      d.registry.expander? (HandlerName.ofDirective d.defaultSpace k.1) = some expander →
      ∀ code, expander ⟨HandlerName.ofDirective d.defaultSpace k.1, none, none, k.2⟩ = .ok code →
        '@' ∉ code) : m.CallsQuiet d := by
  intro k hk code hcode
  obtain ⟨hn, ha⟩ := isProper_of_mem_calls hm hk
  rw [Dialect.callText?, Dialect.answer?] at hcode
  cases hexp : d.registry.expander? (HandlerName.ofDirective d.defaultSpace k.1) with
  | none =>
    simp only [hexp] at hcode
    rw [← Option.some.inj hcode]
    have hspace' : '@' ∉ d.defaultSpace := fun h =>
      absurd (List.all_eq_true.mp hspace _ h) (by decide)
    exact hhost _ _ (HandlerName.at_not_mem_written hspace' (Name.isFormed_of_isProper hn)) ha
  | some expander =>
    simp only [hexp] at hcode
    refine hexpanders k hk expander hexp code ?_
    cases hres : expander ⟨HandlerName.ofDirective d.defaultSpace k.1, none, none, k.2⟩ with
    | error e =>
      rw [hres] at hcode
      cases hcode
    | ok u =>
      rw [hres] at hcode
      cases hcode
      rfl

namespace Compiler

/-- A level of the compiler computes the meaning when the levels below do. -/
theorem toOption_compileLevel_of_nested {c : Compiler} (hp : c.passes = []) {levels : Nat}
    (hnested : ∀ body : Markup, body.WellFormed → body.nesting < levels →
      body.CallsQuiet c.dialect →
        ∀ o p, (c.nested levels body.written o p).toOption = body.meaning c.dialect)
    {m : Markup} (hm : m.WellFormed) (hdepth : m.nesting ≤ levels) (hq : m.CallsQuiet c.dialect)
    (origin : Position) : (c.compileLevel levels origin m.written).toOption = m.meaning c.dialect := by
  rw [compileLevel_written hp hm hq]
  cases h : m.expandCalls (c.context (c.maxDepth - levels) origin) m.written 0 with
  | error e =>
    simp only [h]
    exact (Markup.meaning_eq_none h).symm
  | ok m' =>
    simp only [h]
    exact Markup.toOption_expandBlocks hnested hm hdepth hq h m'.written 0

theorem toOption_compileLevel {c : Compiler} (hp : c.passes = []) {levels : Nat} {m : Markup}
    (hm : m.WellFormed) (hdepth : m.nesting ≤ levels) (hq : m.CallsQuiet c.dialect)
    (origin : Position) : (c.compileLevel levels origin m.written).toOption = m.meaning c.dialect := by
  induction levels generalizing m origin with
  | zero =>
    refine toOption_compileLevel_of_nested hp (fun body _ hlt => ?_) hm hdepth hq origin
    exact absurd hlt (Nat.not_lt_zero _)
  | succ levels ih =>
    refine toOption_compileLevel_of_nested hp (fun body hbody hlt hquiet o p => ?_) hm hdepth hq
      origin
    exact ih hbody (Nat.le_of_lt_succ hlt) hquiet o

/-- The compiler without passes turns a well-formed template into what it means, and
refuses it when it means nothing, provided that the expanders of its short calls
answer without an `@`. -/
theorem toOption_compile_written (c : Compiler) (hp : c.passes = [])
    (hspace : c.dialect.defaultSpace.all Name.isQualifierChar = true)
    (hhost : c.dialect.host.QuietCalls) (m : Markup) (hm : m.WellFormed)
    (hdepth : m.nesting ≤ c.maxDepth)
    (hexpanders : ∀ k ∈ m.calls, ∀ expander,
      c.dialect.registry.expander? (HandlerName.ofDirective c.dialect.defaultSpace k.1) =
        some expander →
      ∀ code, expander ⟨HandlerName.ofDirective c.dialect.defaultSpace k.1, none, none, k.2⟩ =
        .ok code → '@' ∉ code) :
    (c.compile m.written).toOption = m.meaning c.dialect := by
  have hq := Markup.callsQuiet_of_expanders hspace hhost hm hexpanders
  exact toOption_compileLevel hp hm hdepth hq Position.start

def page : Markup :=
  .text "Hi ".toList (.call ⟨none, "token".toList⟩ [] (.text "\n".toList
    (.block "  ".toList ⟨none, "list".toList⟩ "a, (b)".toList "\n    ".toList
      (.block [] ⟨some "App\\Ui".toList, "row".toList⟩ [] " ".toList
        (.text "x".toList .nil) (.text "\n  ".toList .nil))
      (.text "\n".toList .nil))))

/-- The compiler for PHP with the built-in handlers and two levels of blocks. -/
def php : Compiler :=
  ⟨⟨defaultSpace, Registry.empty.addBuiltins defaultSpace, .php⟩, 2, []⟩

theorem toOption_compile_page : page.WellFormed ∧ page.nesting ≤ php.maxDepth ∧
    (php.compile page.written).toOption = page.meaning php.dialect ∧
    (page.meaning php.dialect).map String.ofList = some
      ("Hi <input type=\"hidden\" name=\"_token\" value=\"<?=csrf_token()?>\">\n" ++
        "  <?php ob_start() ?><?php ob_start() ?>x<?php echo App\\Ui::row('',ob_get_clean()) ?>\n" ++
        "  <?php echo Directives::list('  ',ob_get_clean(),a, (b)) ?>\n") := by
  have hm : page.WellFormed := by decide +kernel
  have hdepth : page.nesting ≤ php.maxDepth := by decide
  refine ⟨hm, hdepth, toOption_compile_written php rfl (by decide +kernel)
    HostLanguage.quietCalls_php page hm hdepth fun k hk expander hexp code hcode => ?_,
    by decide +kernel⟩
  have hk : k = (⟨none, "token".toList⟩, []) := by simpa [page, Markup.calls] using hk
  subst hk
  have htoken : some Registry.expandToken = some expander := hexp
  cases htoken
  cases hcode
  decide +kernel

end Compiler
end TemplateDirectives
