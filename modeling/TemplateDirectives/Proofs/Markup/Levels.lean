/-
A level of the compiler on the text of a tree of markup.

What the calls of a level are replaced by is read once more, by the rule for
blocks.  When it holds no marker, the tree with its calls replaced is read back
like the tree itself (`wellFormed_expandCalls`), and a level of the compiler
without passes is the two expansions one after the other (`compileLevel_written`).
-/
import TemplateDirectives.Proofs.Markup.Blocks

namespace TemplateDirectives

open Directive

/-! ## Answers -/

namespace Dialect

/-- What a directive is replaced by, unless its expander fails. -/
def answer? (d : Dialect) (request : ExpandRequest) (fallback : Text) : Option Text :=
  match d.registry.expander? request.handler with
  | none => some fallback
  | some expander => (expander request).toOption

/-- What a short call is replaced by. -/
def callText? (d : Dialect) (n : Name) (arguments : Text) : Option Text :=
  let handler := HandlerName.ofDirective d.defaultSpace n
  d.answer? ⟨handler, none, none, arguments⟩ (d.host.call handler arguments)

/-- What a block is replaced by behind its indentation, given its compiled body. -/
def blockText? (d : Dialect) (n : Name) (arguments indent body : Text) : Option Text :=
  let handler := HandlerName.ofDirective d.defaultSpace n
  d.answer? ⟨handler, some indent, some body, arguments⟩
    (d.host.capture handler indent body arguments)

end Dialect

theorem Context.toOption_expand (cx : Context) (request : ExpandRequest) (position : Position)
    (fallback : Text) :
    (cx.expand request position fallback).toOption = cx.dialect.answer? request fallback := by
  rw [Context.expand, Dialect.answer?]
  cases cx.dialect.registry.expander? request.handler with
  | none => rfl
  | some expander =>
    simp only
    cases expander request <;> rfl

theorem Context.expand_eq_ok {cx : Context} {request : ExpandRequest} {fallback code : Text}
    (h : cx.dialect.answer? request fallback = some code) (position : Position) :
    cx.expand request position fallback = .ok code := by
  rw [← cx.toOption_expand request position] at h
  cases hexpand : cx.expand request position fallback with
  | error e =>
    rw [hexpand] at h
    cases h
  | ok u =>
    rw [hexpand] at h
    cases h
    rfl

namespace Markup

/-- No call of the tree is replaced by a text with an `@` in it. -/
def CallsQuiet (d : Dialect) (m : Markup) : Prop :=
  ∀ k ∈ m.calls, ∀ code, d.callText? k.1 k.2 = some code → '@' ∉ code

/-! ## The tree with its calls replaced -/

theorem expandCalls_of_calls_eq_nil {m : Markup} (hm : m.calls = []) (cx : Context) (t : Text)
    (offset : Nat) : m.expandCalls cx t offset = .ok m := by
  induction m generalizing offset with
  | nil => rfl
  | text s rest ih =>
    rw [expandCalls, ih hm]
    rfl
  | call n args rest ih => cases hm
  | block indent n args lead body rest ihbody ihrest =>
    rw [calls, List.append_eq_nil_iff] at hm
    rw [expandCalls, ihrest hm.2]
    rfl

/-- Behind a word character no call stands, so the text begins as before. -/
theorem head?_expandCalls {m m' : Markup} {before : Option Char} {cx : Context} {t : Text}
    {offset : Nat} (hm : m.WellFormedAfter before) (hb : before.any Text.isWord = true)
    (h : m.expandCalls cx t offset = .ok m') : m'.written.head? = m.written.head? := by
  induction m generalizing m' offset with
  | nil =>
    cases h
    rfl
  | text s rest ih =>
    obtain ⟨rest', hrest, hm'⟩ := CompileError.ok_of_bind h
    cases hm'
    obtain ⟨-, hafter⟩ := hm
    cases s with
    | nil =>
      show rest'.written.head? = rest.written.head?
      exact ih hafter hrest
    | cons c s => rfl
  | call n args rest ih =>
    obtain ⟨-, -, -, hno, -⟩ := hm
    rw [hb] at hno
    cases hno
  | block indent n args lead body rest ihbody ihrest =>
    obtain ⟨rest', hrest, hm'⟩ := CompileError.ok_of_bind h
    cases hm'
    cases indent with
    | nil => rfl
    | cons c indent => rfl

/-- A tree stays well formed when its calls are replaced by texts without `@`.  What
stands before a piece may become another text, but only where a call stood before
it, and then the piece is no block. -/
theorem wellFormedAfter_expandCalls {m m' : Markup} {before before' : Option Char} {cx : Context}
    {t : Text} {offset : Nat} (hm : m.WellFormedAfter before)
    (hb : before' = before ∨ before = some ')') (hq : m.CallsQuiet cx.dialect)
    (h : m.expandCalls cx t offset = .ok m') : m'.WellFormedAfter before' := by
  induction m generalizing m' before before' offset with
  | nil =>
    cases h
    trivial
  | text s rest ih =>
    obtain ⟨rest', hrest, hm'⟩ := CompileError.ok_of_bind h
    cases hm'
    obtain ⟨hs, hafter⟩ := hm
    refine ⟨hs, ih hafter ?_ hq hrest⟩
    cases s.getLast? with
    | none => exact hb
    | some c => exact .inl rfl
  | call n args rest ih =>
    obtain ⟨code, hcode, h⟩ := CompileError.ok_of_bind h
    obtain ⟨rest', hrest, hm'⟩ := CompileError.ok_of_bind h
    cases hm'
    obtain ⟨-, -, -, -, -, hafter⟩ := hm
    have hanswer : cx.dialect.callText? n args = some code := by
      have := cx.toOption_expand ⟨cx.handler n, none, none, args⟩ (cx.position t offset)
        (cx.dialect.host.call (cx.handler n) args)
      rw [hcode] at this
      exact this.symm
    exact ⟨hq _ List.mem_cons_self code hanswer,
      ih hafter (.inr rfl) (fun k hk => hq k (List.mem_cons_of_mem _ hk)) hrest⟩
  | block indent n args lead body rest ihbody ihrest =>
    obtain ⟨rest', hrest, hm'⟩ := CompileError.ok_of_bind h
    cases hm'
    obtain ⟨hn, ha, hcloses, hline, hi, hl, hhead, hbody, hnames, hend, hafter⟩ := hm
    have hb' : before' = before := by
      rcases hb with rfl | rfl
      · rfl
      · cases hline
    obtain ⟨c, hc, hword⟩ := Name.getLast?_written (Name.isFormed_of_isProper hn)
    have hlast : n.written.getLast?.any Text.isWord = true := by
      rw [hc]
      exact hword
    have hq' : rest.CallsQuiet cx.dialect := fun k hk => hq k (List.mem_append_right _ hk)
    exact ⟨hn, ha, hcloses, hb' ▸ hline, hi, hl, hhead, hbody, hnames,
      by rw [head?_expandCalls hafter hlast hrest]; exact hend, ihrest hafter (.inl rfl) hq' hrest⟩

end Markup

/-! ## A level -/

namespace Compiler

theorem compileLevel_written {c : Compiler} (hp : c.passes = []) {m : Markup} (hm : m.WellFormed)
    (hq : m.CallsQuiet c.dialect) (levels : Nat) (origin : Position) :
    c.compileLevel levels origin m.written =
      let cx := c.context (c.maxDepth - levels) origin
      m.expandCalls cx m.written 0 >>= fun m' =>
        m'.expandBlocks cx (c.nested levels) m'.written 0 := by
  simp only [compileLevel_eq, pipeline_eq, hp, List.foldlM_nil, Markup.applyAttributes_written hm,
    Markup.applyShortCalls_written hm, bind_assoc]
  cases h : m.expandCalls (c.context (c.maxDepth - levels) origin) m.written 0 with
  | error e => rfl
  | ok m' =>
    have hm' : m'.WellFormed := Markup.wellFormedAfter_expandCalls hm (.inl rfl) hq h
    show (Rule.applyBlocks _ _ m'.written >>= fun u => pure u) = _
    rw [bind_pure, Markup.applyBlocks_written hm']
    rfl

end Compiler
end TemplateDirectives
