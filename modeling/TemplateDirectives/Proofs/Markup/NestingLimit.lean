/-
The nesting limit on templates of blocks.

`Markup.marks` lists the markers of all blocks in the order of the text, each with
the number of blocks that enclose it.  The compiler meets the limit while it is in
some body, with a counter and the position where that body begins.  `Answers` says
what this comes to for the whole template: the answer is a text when no marker has
as many blocks around it as are allowed, and else the refusal of the first that has
(`answers_compileLevel`).  The induction is on the levels left, and in a level on the
tree: the blocks before a block have all been answered when the block is reached.
-/
import TemplateDirectives.Proofs.Markup.Levels

namespace TemplateDirectives

open Directive

namespace Markup

/-! ## Markers of blocks -/

/-- Where a block's marker stands, what is written behind it, and how many blocks
enclose it. -/
structure Mark where
  offset : Nat
  name : Name
  arguments : Text
  enclosing : Nat
  deriving DecidableEq

/-- The markers of a tree's blocks, with those in bodies, in the order of the text,
when the tree stands at `offset` with `enclosing` blocks around it. -/
def marks : (offset enclosing : Nat) → Markup → List Mark
  | _, _, nil => []
  | offset, enclosing, text s rest => rest.marks (offset + s.length) enclosing
  | offset, enclosing, call n args rest =>
    rest.marks (offset + callMarker.length + (Call.applied n args).written.length) enclosing
  | offset, enclosing, block indent n args lead body rest =>
    ⟨offset + indent.length, n, args, enclosing⟩ ::
      (body.marks (bodyOffset offset indent n args lead) (enclosing + 1) ++
        rest.marks (endOffset offset indent n args lead body) enclosing)

theorem prefix_of_mem_marks {m : Markup} {t post : Text} {offset enclosing : Nat} {k : Mark}
    (hd : t.drop offset = m.written ++ post) (hk : k ∈ m.marks offset enclosing) :
    callMarker ++ ((Call.applied k.name k.arguments).written ++ [':']) <+: t.drop k.offset := by
  induction m generalizing offset enclosing post with
  | nil => cases hk
  | text s rest ih =>
    rw [written, List.append_assoc] at hd
    exact ih (Text.drop_of_drop hd) hk
  | call n args rest ih =>
    rw [written, List.append_assoc, List.append_assoc] at hd
    exact ih (Text.drop_of_drop (Text.drop_of_drop hd)) hk
  | block indent n args lead body rest ihbody ihrest =>
    have hat := blockAt_of_drop hd
    rw [marks, List.mem_cons, List.mem_append] at hk
    rcases hk with rfl | hk | hk
    · simp only [hat.atMarker, List.prefix_append_right_inj]
      exact ⟨_, rfl⟩
    · exact ihbody hat.atBody hk
    · exact ihrest hat.atAfter hk

/-- Enclosing blocks are counted without gaps: a block inside more than `d` blocks lies
in one that is inside exactly `d`. -/
theorem exists_enclosing_eq {m : Markup} {offset enclosing d : Nat} (hd : enclosing ≤ d) {k : Mark}
    (hk : k ∈ m.marks offset enclosing) (hdeep : d ≤ k.enclosing) :
    ∃ k' ∈ m.marks offset enclosing, k'.enclosing = d := by
  induction m generalizing offset enclosing with
  | nil => cases hk
  | text s rest ih => exact ih hd hk
  | call n args rest ih => exact ih hd hk
  | block indent n args lead body rest ihbody ihrest =>
    rw [marks] at hk ⊢
    rcases Nat.eq_or_lt_of_le hd with rfl | hlt
    · exact ⟨_, List.mem_cons_self, rfl⟩
    · rcases List.mem_cons.mp hk with rfl | hk
      · exact absurd hlt (Nat.not_lt.mpr hdeep)
      · rcases List.mem_append.mp hk with hk | hk
        · obtain ⟨k', hk', he⟩ := ihbody hlt hk
          exact ⟨k', List.mem_cons_of_mem _ (List.mem_append_left _ hk'), he⟩
        · obtain ⟨k', hk', he⟩ := ihrest hd hk
          exact ⟨k', List.mem_cons_of_mem _ (List.mem_append_right _ hk'), he⟩

/-! ## Answers under a limit -/

/-- What a run is expected to answer when it comes by the markers `ks` of the text `t`
under the limit `d`. -/
def Answers {α : Type} (d : Nat) (t : Text) (ks : List Mark) (r : Except CompileError α) : Prop :=
  match ks.find? (·.enclosing == d) with
  | none => ∃ a, r = .ok a
  | some k => r = .error (.nestingTooDeep d (Position.start.ofOffset t k.offset))

namespace Answers

variable {α β : Type} {d : Nat} {t : Text} {ks ks' : List Mark} {r : Except CompileError α}

theorem of_ok {a : α} (h : r = .ok a) : Answers d t [] r := ⟨a, h⟩

/-- A second step is taken when no marker of the first is refused. -/
theorem bind {f : α → Except CompileError β} (hr : Answers d t ks r)
    (hf : ∀ a, Answers d t ks' (f a)) : Answers d t (ks ++ ks') (r >>= f) := by
  unfold Answers at hr ⊢
  rw [List.find?_append]
  cases hk : ks.find? (·.enclosing == d) with
  | none =>
    rw [hk] at hr
    obtain ⟨a, rfl⟩ := hr
    exact hf a
  | some k =>
    rw [hk] at hr
    rw [show r = _ from hr]
    rfl

theorem cons_of_ne {k : Mark} (hk : k.enclosing ≠ d) (hr : Answers d t ks r) :
    Answers d t (k :: ks) r := by
  unfold Answers
  rw [List.find?_cons_of_neg (by simpa using hk)]
  exact hr

theorem cons_of_eq {k : Mark} (hk : k.enclosing = d)
    (hr : r = .error (.nestingTooDeep d (Position.start.ofOffset t k.offset))) :
    Answers d t (k :: ks) r := by
  unfold Answers
  rw [List.find?_cons_of_pos (by simpa using hk)]
  exact hr

end Answers

/-- No handler of the tree's blocks fails. -/
def BlocksAnswered (d : Dialect) (m : Markup) : Prop :=
  ∀ n ∈ m.blockNames, ∀ arguments indent body, (d.blockText? n arguments indent body).isSome = true

theorem bodyOffset_add (base offset : Nat) (indent : Text) (n : Name) (args lead : Text) :
    bodyOffset (base + offset) indent n args lead = base + bodyOffset offset indent n args lead := by
  simp only [bodyOffset]
  omega

theorem endOffset_add (base offset : Nat) (indent : Text) (n : Name) (args lead : Text)
    (body : Markup) : endOffset (base + offset) indent n args lead body =
      base + endOffset offset indent n args lead body := by
  simp only [endOffset, bodyOffset]
  omega

/-- The blocks of one level are answered from left to right.  The level `u` begins at
`base` in the template `t`, and its bodies are compiled as `hnested` says. -/
theorem answers_expandBlocks {cx : Context} {nested : Rule.BodyCompiler} {t u post : Text}
    {base enclosing d : Nat} (horigin : cx.origin = Position.start.ofOffset t base)
    (hbase : t.drop base = u ++ post)
    (hnested : ∀ (n : Name) (args : Text) (body : Markup) (p b : Nat) (behind : Text),
      body.WellFormed → body.calls = [] → body.BlocksAnswered cx.dialect →
      t.drop b = body.written ++ behind →
      Answers d t (⟨p, n, args, enclosing⟩ :: body.marks b (enclosing + 1))
        (nested body.written (Position.start.ofOffset t b) (Position.start.ofOffset t p)))
    {m : Markup} {before : Option Char} (hm : m.WellFormedAfter before) (hcalls : m.calls = [])
    (hanswered : m.BlocksAnswered cx.dialect) {offset : Nat} (hd : u.drop offset = m.written) :
    Answers d t (m.marks (base + offset) enclosing) (m.expandBlocks cx nested u offset) := by
  induction m generalizing before offset with
  | nil => exact .of_ok rfl
  | text s rest ih =>
    have hrest := ih hm.2 hcalls hanswered (Text.drop_of_drop hd)
    rw [marks, Nat.add_assoc, ← List.append_nil (rest.marks _ _)]
    exact hrest.bind fun after => .of_ok rfl
  | call n args rest ih => cases hcalls
  | block indent n args lead body rest ihbody ihrest =>
    obtain ⟨-, -, -, -, -, -, -, hbody, -, -, hafter⟩ := hm
    obtain ⟨hcbody, hcrest⟩ := List.append_eq_nil_iff.mp hcalls
    have hat := blockAt_of_drop_eq hd
    have hplace : ∀ o, o ≤ u.length → cx.position u o = Position.start.ofOffset t (base + o) := by
      intro o ho
      rw [Context.position, horigin, Position.ofOffset_of_drop hbase ho]
    have hbodyle : bodyOffset offset indent n args lead ≤ u.length := by
      have := hat.endOffset_le
      simp only [endOffset] at this
      omega
    have hmarkle := Nat.le_of_lt (Text.lt_length_of_drop hat.atMarker (by decide))
    have hbehind : t.drop (base + bodyOffset offset indent n args lead) = body.written ++
        (callMarker ++ (Name.endWord ++ (n.written ++ rest.written)) ++ post) := by
      rw [← List.drop_drop, hbase, List.drop_append_of_le_length hbodyle, hat.atBody,
        List.append_assoc]
    have hinner := hnested n args body (base + (offset + indent.length)) _ _ hbody hcbody
      (fun k hk => hanswered k (List.mem_cons_of_mem _ (List.mem_append_left _ hk))) hbehind
    have hrest := ihrest hafter hcrest
      (fun k hk => hanswered k (List.mem_cons_of_mem _ (List.mem_append_right _ hk))) hat.atAfter
    rw [← hplace _ hbodyle, ← hplace _ hmarkle] at hinner
    rw [marks, expandBlocks, bodyOffset_add, endOffset_add, Nat.add_assoc base offset,
      ← List.cons_append]
    refine hinner.bind fun inner => ?_
    obtain ⟨code, hcode⟩ := Option.isSome_iff_exists.mp
      (hanswered n List.mem_cons_self args indent inner)
    have hexpand : cx.expand ⟨cx.handler n, some indent, some inner, args⟩
        (cx.position u (offset + indent.length))
        (cx.dialect.host.capture (cx.handler n) indent inner args) = .ok code :=
      Context.expand_eq_ok hcode _
    rw [hexpand, ← List.append_nil (rest.marks _ _)]
    exact hrest.bind fun after => .of_ok rfl

end Markup

namespace Compiler

open Markup

theorem answers_compileLevel_of_nested {c : Compiler} (hp : c.passes = []) {t : Text}
    {levels : Nat}
    (hnested : ∀ (n : Name) (args : Text) (body : Markup) (p b : Nat) (behind : Text),
      body.WellFormed → body.calls = [] → body.BlocksAnswered c.dialect →
      t.drop b = body.written ++ behind →
      Answers c.maxDepth t
        (⟨p, n, args, c.maxDepth - levels⟩ :: body.marks b (c.maxDepth - levels + 1))
        (c.nested levels body.written (Position.start.ofOffset t b) (Position.start.ofOffset t p)))
    {m : Markup} (hm : m.WellFormed) (hcalls : m.calls = [])
    (hanswered : m.BlocksAnswered c.dialect) {base : Nat} {behind : Text}
    (hbase : t.drop base = m.written ++ behind) :
    Answers c.maxDepth t (m.marks base (c.maxDepth - levels))
      (c.compileLevel levels (Position.start.ofOffset t base) m.written) := by
  have hq : m.CallsQuiet c.dialect := by
    intro k hk
    rw [hcalls] at hk
    cases hk
  rw [compileLevel_written hp hm hq]
  simp only [expandCalls_of_calls_eq_nil hcalls]
  show Answers c.maxDepth t (m.marks (base + 0) (c.maxDepth - levels))
    (m.expandBlocks (c.context (c.maxDepth - levels) (Position.start.ofOffset t base))
      (c.nested levels) m.written 0)
  exact answers_expandBlocks rfl hbase hnested hm hcalls hanswered List.drop_zero

theorem answers_compileLevel {c : Compiler} (hp : c.passes = []) {t : Text} {levels : Nat}
    (hl : levels ≤ c.maxDepth) {m : Markup} (hm : m.WellFormed) (hcalls : m.calls = [])
    (hanswered : m.BlocksAnswered c.dialect) {base : Nat} {behind : Text}
    (hbase : t.drop base = m.written ++ behind) :
    Answers c.maxDepth t (m.marks base (c.maxDepth - levels))
      (c.compileLevel levels (Position.start.ofOffset t base) m.written) := by
  induction levels generalizing m base behind with
  | zero =>
    refine answers_compileLevel_of_nested hp (fun n args body p b behind' _ _ _ _ => ?_) hm hcalls
      hanswered hbase
    exact .cons_of_eq rfl rfl
  | succ levels ih =>
    refine answers_compileLevel_of_nested hp
      (fun n args body p b behind' hbody hc ha hb => ?_) hm hcalls hanswered hbase
    rw [show c.maxDepth - (levels + 1) + 1 = c.maxDepth - levels by omega]
    exact .cons_of_ne (by simp only; omega) (ih (by omega) hbody hc ha hb)

/-- The nesting limit is exact, and its refusal is located.  A template of blocks
compiles when no block lies in as many blocks as are allowed.  Otherwise the first
block that does is refused, at the line and column of its marker. -/
theorem compile_written_limit (c : Compiler) (hp : c.passes = []) (m : Markup)
    (hm : m.WellFormed) (hcalls : m.calls = []) (hanswered : m.BlocksAnswered c.dialect) :
    ((∃ u, c.compile m.written = .ok u) ↔ ∀ k ∈ m.marks 0 0, k.enclosing < c.maxDepth) ∧
    ((∃ k ∈ m.marks 0 0, c.maxDepth ≤ k.enclosing) →
      ∃ k, (m.marks 0 0).find? (·.enclosing == c.maxDepth) = some k ∧
        callMarker ++ ((Call.applied k.name k.arguments).written ++ [':']) <+:
          m.written.drop k.offset ∧
        c.compile m.written =
          .error (.nestingTooDeep c.maxDepth (Position.start.ofOffset m.written k.offset))) := by
  have hbase : m.written.drop 0 = m.written ++ [] := (List.append_nil _).symm
  have hanswers : Answers c.maxDepth m.written (m.marks 0 0) (c.compile m.written) := by
    have hrun := answers_compileLevel hp (Nat.le_refl _) hm hcalls hanswered hbase
    rwa [Nat.sub_self] at hrun
  unfold Answers at hanswers
  have hdeep : (∃ k ∈ m.marks 0 0, c.maxDepth ≤ k.enclosing) →
      ∃ k, (m.marks 0 0).find? (·.enclosing == c.maxDepth) = some k := by
    rintro ⟨k, hk, hle⟩
    obtain ⟨k', hk', heq⟩ := exists_enclosing_eq (Nat.zero_le _) hk hle
    exact Option.isSome_iff_exists.mp (List.find?_isSome.mpr ⟨k', hk', by simpa using heq⟩)
  refine ⟨⟨?_, ?_⟩, ?_⟩
  · rintro ⟨u, hu⟩ k hk
    refine Nat.lt_of_not_le fun hle => ?_
    obtain ⟨k', hfind⟩ := hdeep ⟨k, hk, hle⟩
    rw [hfind, hu] at hanswers
    cases hanswers
  · intro hall
    have hnone : (m.marks 0 0).find? (·.enclosing == c.maxDepth) = none := by
      refine List.find?_eq_none.mpr fun k hk => ?_
      have := hall k hk
      simp only [beq_iff_eq]
      omega
    rw [hnone] at hanswers
    exact hanswers
  · intro hex
    obtain ⟨k, hfind⟩ := hdeep hex
    rw [hfind] at hanswers
    exact ⟨k, hfind, prefix_of_mem_marks hbase (List.mem_of_find?_eq_some hfind), hanswers⟩

def listPage : Markup :=
  .block [] ⟨none, "list".toList⟩ "1".toList "\n  ".toList
    (.block [] ⟨none, "item".toList⟩ [] [] (.text "x".toList .nil) (.text "\n".toList .nil))
    (.text "\n".toList .nil)

/-- The compiler for PHP without handlers at compile time and with one level of
blocks. -/
def flat : Compiler := ⟨⟨defaultSpace, .empty, .php⟩, 1, []⟩

theorem compile_listPage_limit : listPage.WellFormed ∧ listPage.calls = [] ∧
    listPage.BlocksAnswered flat.dialect ∧
    flat.compile listPage.written = .error (.nestingTooDeep 1 ⟨2, 3⟩) := by
  have hm : listPage.WellFormed := by decide +kernel
  have hcalls : listPage.calls = [] := rfl
  have hanswered : listPage.BlocksAnswered flat.dialect := fun _ _ _ _ _ => rfl
  refine ⟨hm, hcalls, hanswered, ?_⟩
  have hfirst : (listPage.marks 0 0).find? (·.enclosing == flat.maxDepth) =
      some ⟨13, ⟨none, "item".toList⟩, [], 1⟩ := by decide +kernel
  have hplace : Position.start.ofOffset listPage.written 13 = ⟨2, 3⟩ := by decide +kernel
  obtain ⟨k, hfind, -, herror⟩ := (compile_written_limit flat rfl listPage hm hcalls hanswered).2
    ⟨_, List.mem_of_find?_eq_some hfirst, Nat.le_refl 1⟩
  cases Option.some.inj (hfirst.symm.trans hfind)
  rw [hplace] at herror
  exact herror

end Compiler
end TemplateDirectives
