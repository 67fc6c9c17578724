/-
Where the position of an error points.

An error is about a marker, and `Offends` says which markers an error can be about:
it follows the compiler from the template into the body where the error arises, and
keeps what the rules have made of everything ahead.  The position of an error is
read off this rewritten text (`position_of_offends`).  It is the marker's own place
in the template only as far as rewriting has kept line breaks and columns
(`error_located_iff`), and an attribute on the same line is enough to lose it
(`compile_drifted`).
-/
import TemplateDirectives.Proofs.Errors.Trail
import TemplateDirectives.Proofs.Steps

namespace TemplateDirectives

open Directive

/-- A marker that an error is about, in the text where the compiler has met it. -/
structure Offence where
  /-- What the marker has to say: both `@` with the directive's name, or the end
  marker that lacks one. -/
  marker : Text
  /-- Everything before the marker, as it was rewritten up to then. -/
  ahead : Trail
  /-- The text from the marker on. -/
  rest : Trail

namespace Offence

def atOffset (marker : Text) (ahead tr : Trail) (k : Nat) : Offence :=
  ⟨marker, ahead ++ tr.take k, tr.drop k⟩

/-- Where in the template the marker's first character was copied from. -/
def source? (o : Offence) : Option Nat := o.rest.head?.bind Glyph.source?

/-- The marker stands in the template, and `p` is its position there. -/
def IsLocated (o : Offence) (source : Text) (p : Position) : Prop :=
  ∃ i, o.source? = some i ∧ o.marker <+: source.drop i ∧ p = Position.start.ofOffset source i

/-- The marker stands in the template, behind as many line breaks as where the
compiler has met it, and as many characters after the last of them. -/
def KeepsPlace (o : Offence) (source : Text) : Prop :=
  ∃ i, o.source? = some i ∧ o.marker <+: source.drop i ∧
    o.ahead.text.count '\n' = (source.take i).count '\n' ∧
    (Text.takeEndWhile (· != '\n') o.ahead.text).length =
      (Text.takeEndWhile (· != '\n') (source.take i)).length

end Offence

/-- The markers that an error can be about: both `@` with a directive's name, or the end
marker that lacks one. -/
def CompileError.IsAbout (d : Dialect) (marker : Text) : CompileError → Prop
  | malformedEnd directive _ _ => marker = '@' :: (Name.endWord ++ directive)
  | unterminatedBlock directive _ => marker = callMarker ++ directive
  | ambiguousColon directive _ => marker = callMarker ++ directive
  | expanderFailed handler _ _ _ =>
    ∃ n : Name, marker = callMarker ++ n.written ∧ HandlerName.ofDirective d.defaultSpace n = handler
  | nestingTooDeep _ _ => ∃ n : Name, marker = callMarker ++ n.written

/-! ## What the rules refuse -/

namespace Directive.Block.Reading

/-- What is written where a block is refused. -/
def marker : Reading → Text
  | .closed b => callMarker ++ b.opening.call.name.written
  | .malformed o _ => '@' :: (Name.endWord ++ o.call.name.written)
  | .unterminated o => callMarker ++ o.call.name.written

/-- Where a block is refused: at its end marker when that one is malformed, and else
at its opening. -/
def markerOffset : Reading → Nat
  | .closed b => b.opening.marker
  | .malformed _ ending => ending.start
  | .unterminated o => o.marker

theorem marker_isPrefix {t : Text} {r : Reading} (h : r ∈ Block.readAll t) :
    r.marker <+: t.drop r.markerOffset := by
  obtain ⟨cursor, o, hfind, rfl⟩ := Block.exists_read_of_mem_readAll h
  have hof := Block.isOf_read t o
  cases hr : Block.read t o with
  | unterminated o' =>
    rw [hr] at hof
    cases hof
    exact BlockOpening.isPrefix_of_find? hfind
  | malformed o' ending =>
    rw [hr] at hof
    obtain ⟨rfl, hw, k, hend⟩ := hof
    exact EndMarker.isPrefix_of_find? hend hw
  | closed b =>
    rw [hr] at hof
    obtain ⟨rfl, -⟩ := hof
    exact BlockOpening.isPrefix_of_find? hfind

end Directive.Block.Reading

namespace Rule

variable {cx : Context} {t : Text} {e : CompileError}

theorem error_of_callEdit? {k : ShortCall} (h : callEdit? cx t k = .error e) :
    e.position = cx.position t k.marker ∧
      e.IsAbout cx.dialect (callMarker ++ k.call.name.written) := by
  unfold callEdit? at h
  split at h
  next =>
    split at h
    next => cases h
    next =>
      cases h
      exact ⟨rfl, rfl⟩
  next =>
    rcases CompileError.error_of_bind h with hexpand | ⟨code, -, h⟩
    · obtain ⟨expander, reason, -, -, rfl⟩ := Context.expand_eq_error_iff.mp hexpand
      exact ⟨rfl, _, rfl, rfl⟩
    · cases h

theorem error_of_blockEdit {nested : BodyCompiler} {r : Block.Reading}
    (h : blockEdit cx nested t r = .error e) :
    (e.position = cx.position t r.markerOffset ∧ e.IsAbout cx.dialect r.marker) ∨
      ∃ b, r = .closed b ∧ nested b.body (cx.position t b.bodyStart)
        (cx.position t b.opening.marker) = .error e := by
  cases r with
  | unterminated o =>
    cases h
    exact .inl ⟨rfl, rfl⟩
  | malformed o ending =>
    cases h
    exact .inl ⟨rfl, rfl⟩
  | closed b =>
    rcases CompileError.error_of_bind h with hnested | ⟨inner, -, h⟩
    · exact .inr ⟨b, rfl, hnested⟩
    · rcases CompileError.error_of_bind h with hexpand | ⟨code, -, h⟩
      · obtain ⟨expander, reason, -, -, rfl⟩ := Context.expand_eq_error_iff.mp hexpand
        exact .inl ⟨rfl, _, rfl, rfl⟩
      · cases h

end Rule

namespace Compiler

def contextAt (c : Compiler) (levels : Nat) (ahead : Trail) : Context :=
  c.context (c.maxDepth - levels) ahead.position

/-- The markers that an error is about, when it arises in a text with `ahead` before it
and `levels` levels left.  Calls are met when attributes have been rewritten, and
blocks when calls have been, too.  An error in a body is about a marker of the body. -/
inductive Offends (c : Compiler) : (levels : Nat) → (ahead tr : Trail) → CompileError → Offence →
    Prop where
  | call {levels : Nat} {ahead tr u : Trail} {k : ShortCall} {e : CompileError}
      (hu : u = tr.attributed (c.contextAt levels ahead))
      (hk : k ∈ Rule.callsOutsideBodies u.text)
      (he : Rule.callEdit? (c.contextAt levels ahead) u.text k = .error e) :
      Offends c levels ahead tr e (.atOffset (callMarker ++ k.call.name.written) ahead u k.marker)
  | block {levels : Nat} {ahead tr u : Trail} {r : Block.Reading} {e : CompileError}
      (hu : (tr.attributed (c.contextAt levels ahead)).called (c.contextAt levels ahead) = .ok u)
      (hr : r ∈ Block.readAll u.text)
      (he : Rule.blockEdit (c.contextAt levels ahead) (c.nested levels) u.text r = .error e)
      (hown : ∀ b, r = .closed b → 0 < levels → ∃ inner,
        c.nested levels b.body ((c.contextAt levels ahead).position u.text b.bodyStart)
          ((c.contextAt levels ahead).position u.text b.opening.marker) = .ok inner) :
      Offends c levels ahead tr e (.atOffset r.marker ahead u r.markerOffset)
  | body {levels : Nat} {ahead tr u : Trail} {b : Block} {e : CompileError} {o : Offence}
      (hu : (tr.attributed (c.contextAt (levels + 1) ahead)).called
        (c.contextAt (levels + 1) ahead) = .ok u)
      (hb : .closed b ∈ Block.readAll u.text)
      (hinner : Offends c levels (ahead ++ u.take b.bodyStart) (u.slice b.bodyStart b.bodyStop) e o) :
      Offends c (levels + 1) ahead tr e o

variable {c : Compiler} {levels : Nat} {ahead tr : Trail} {e : CompileError} {o : Offence}

/-! ## The marker and the position of an error -/

theorem position_contextAt (c : Compiler) (levels : Nat) (ahead u : Trail) (k : Nat) :
    (c.contextAt levels ahead).position u.text k = (ahead ++ u.take k).position :=
  (Trail.position_append_take ahead u k).symm

/-- The position of an error is read off the rewritten text ahead of the marker. -/
theorem position_of_offends (h : c.Offends levels ahead tr e o) :
    e.position = o.ahead.position ∧ e.IsAbout c.dialect o.marker := by
  induction h with
  | @call levels ahead tr u k e hu hk he =>
    show e.position = (ahead ++ u.take k.marker).position ∧ _
    rw [← position_contextAt c levels]
    exact Rule.error_of_callEdit? he
  | @block levels ahead tr u r e hu hr he hown =>
    show e.position = (ahead ++ u.take r.markerOffset).position ∧ _
    rw [← position_contextAt c levels]
    rcases Rule.error_of_blockEdit he with hself | ⟨b, rfl, hnested⟩
    · exact hself
    · cases levels with
      | zero =>
        cases hnested
        exact ⟨rfl, _, rfl⟩
      | succ levels =>
        obtain ⟨inner, hinner⟩ := hown b rfl (Nat.succ_pos levels)
        rw [hinner] at hnested
        cases hnested
  | body hu hb hinner ih => exact ih

theorem marker_isPrefix_of_offends (h : c.Offends levels ahead tr e o) :
    o.marker <+: o.rest.text := by
  induction h with
  | @call levels ahead tr u k e hu hk he =>
    show _ <+: Trail.text (u.drop k.marker)
    rw [Trail.text_drop]
    obtain ⟨cursor, -, hfind⟩ := Text.exists_find_of_mem_scanAll (List.mem_filter.mp hk).1
    exact ShortCall.isPrefix_of_find? hfind
  | @block levels ahead tr u r e hu hr he hown =>
    show _ <+: Trail.text (u.drop r.markerOffset)
    rw [Trail.text_drop]
    exact Block.Reading.marker_isPrefix hr
  | body hu hb hinner ih => exact ih

/-! ## Every error is about a marker -/

/-- An error of a level is about a marker of its own text, or it is the error of a
body. -/
theorem offends_or_nested (hp : c.passes = [])
    (h : c.compileLevel levels ahead.position tr.text = .error e) :
    (∃ o, c.Offends levels ahead tr e o) ∨
      ∃ u b, (tr.attributed (c.contextAt levels ahead)).called (c.contextAt levels ahead) = .ok u ∧
        .closed b ∈ Block.readAll u.text ∧ 0 < levels ∧
        c.nested levels b.body ((c.contextAt levels ahead).position u.text b.bodyStart)
          ((c.contextAt levels ahead).position u.text b.opening.marker) = .error e := by
  rw [compileLevel_eq, pipeline_eq, hp, ← Trail.text_attributed, ← Trail.text_called] at h
  simp only [List.foldlM_nil, bind_pure, bind_assoc] at h
  change (Trail.attributed (c.contextAt levels ahead) tr).called (c.contextAt levels ahead) >>=
    (fun u => Rule.applyBlocks (c.contextAt levels ahead) (c.nested levels) u.text) = .error e at h
  rcases CompileError.error_of_bind h with hcalled | ⟨u, hu, hblocks⟩
  · rcases CompileError.error_of_bind hcalled with hedits | ⟨edits, -, hpure⟩
    · obtain ⟨k, hk, he⟩ := CompileError.exists_of_mapM_eq_error hedits
      exact .inl ⟨_, .call rfl hk he⟩
    · cases hpure
  · rcases CompileError.error_of_bind hblocks with hedits | ⟨edits, -, hpure⟩
    · obtain ⟨r, hr, he⟩ := CompileError.exists_of_mapM_eq_error hedits
      by_cases hbody : ∃ b, r = .closed b ∧ 0 < levels ∧
          c.nested levels b.body ((c.contextAt levels ahead).position u.text b.bodyStart)
            ((c.contextAt levels ahead).position u.text b.opening.marker) = .error e
      · obtain ⟨b, rfl, hpos, hnested⟩ := hbody
        exact .inr ⟨u, b, hu, hr, hpos, hnested⟩
      · refine .inl ⟨_, .block hu hr he fun b hb hpos => ?_⟩
        subst hb
        cases hnested : c.nested levels b.body
            ((c.contextAt levels ahead).position u.text b.bodyStart)
            ((c.contextAt levels ahead).position u.text b.opening.marker) with
        | ok inner => exact ⟨inner, rfl⟩
        | error e' =>
          simp only [Rule.blockEdit, hnested] at he
          cases he
          exact absurd ⟨b, rfl, hpos, hnested⟩ hbody
    · cases hpure

theorem exists_offends (hp : c.passes = [])
    (h : c.compileLevel levels ahead.position tr.text = .error e) :
    ∃ o, c.Offends levels ahead tr e o := by
  induction levels generalizing ahead tr with
  | zero =>
    rcases offends_or_nested hp h with ho | ⟨u, b, -, -, hlevels, -⟩
    · exact ho
    · exact absurd hlevels (Nat.lt_irrefl 0)
  | succ levels ih =>
    rcases offends_or_nested hp h with ho | ⟨u, b, hu, hb, -, hnested⟩
    · exact ho
    · have hbody : Trail.text (u.slice b.bodyStart b.bodyStop) = b.body := by
        obtain ⟨cursor, o, -, hread⟩ := Block.exists_read_of_mem_readAll hb
        have hof := Block.isOf_read u.text o
        rw [hread] at hof
        rw [Trail.text_slice, hof.2]
      rw [position_contextAt, ← hbody] at hnested
      obtain ⟨o, ho⟩ := ih hnested
      exact ⟨o, .body hu hb ho⟩

/-! ## Errors in a template -/

theorem isLocated_iff_keepsPlace {o : Offence} {source : Text} {p : Position}
    (hp : p = o.ahead.position) : o.IsLocated source p ↔ o.KeepsPlace source := by
  have hplace : ∀ i, p = Position.start.ofOffset source i ↔
      o.ahead.text.count '\n' = (source.take i).count '\n' ∧
        (Text.takeEndWhile (· != '\n') o.ahead.text).length =
          (Text.takeEndWhile (· != '\n') (source.take i)).length := by
    intro i
    rw [hp, Trail.position, Position.ofOffset, Position.foldl_advance_start,
      Position.foldl_advance_start, Position.mk.injEq, Nat.add_right_cancel_iff,
      Nat.add_right_cancel_iff]
  simp only [Offence.IsLocated, Offence.KeepsPlace, hplace]

/-- Every error of the compiler without passes is about a marker, and its position is
that of the marker in the template exactly when rewriting has kept the marker's
place. -/
theorem error_located_iff (c : Compiler) (hp : c.passes = []) (source : Text) {e : CompileError}
    (h : c.compile source = .error e) :
    (∃ o, c.Offends c.maxDepth [] (.copied source) e o) ∧
      ∀ o, c.Offends c.maxDepth [] (.copied source) e o →
        e.IsAbout c.dialect o.marker ∧ o.marker <+: o.rest.text ∧
          (o.IsLocated source e.position ↔ o.KeepsPlace source) := by
  have hlevel : c.compileLevel c.maxDepth (Trail.position []) (Trail.text (.copied source)) =
      .error e := by
    rw [Trail.text_copied]
    exact h
  refine ⟨exists_offends hp hlevel, fun o ho => ?_⟩
  obtain ⟨hposition, habout⟩ := position_of_offends ho
  exact ⟨habout, marker_isPrefix_of_offends ho, isLocated_iff_keepsPlace hposition⟩

/-- The compiler for PHP without handlers at compile time. -/
def bare : Compiler := ⟨⟨defaultSpace, .empty, .php⟩, defaultMaxDepth, []⟩

theorem error_located_iff_second_line :
    bare.compile "<b>\n@@z: t".toList = .error (.ambiguousColon ['z'] ⟨2, 1⟩) ∧
      ∃ o, bare.Offends 16 [] (.copied "<b>\n@@z: t".toList) (.ambiguousColon ['z'] ⟨2, 1⟩) o ∧
        (o.IsLocated "<b>\n@@z: t".toList ⟨2, 1⟩ ↔ o.KeepsPlace "<b>\n@@z: t".toList) := by
  have h : bare.compile "<b>\n@@z: t".toList = .error (.ambiguousColon ['z'] ⟨2, 1⟩) :=
    CompileError.eq_error_of_of? (by decide +kernel)
  obtain ⟨⟨o, ho⟩, hall⟩ := error_located_iff bare rfl _ h
  exact ⟨h, o, ho, (hall o ho).2.2⟩

/-- A template whose marker is reported ten columns behind its place, for the attribute
before it has become longer by ten characters. -/
def drifting : Text := "<a x=\"@boolAttr($y)\">@@z: t".toList

theorem compile_drifted :
    bare.compile drifting = .error (.ambiguousColon ['z'] ⟨1, 32⟩) ∧
      ¬ ∃ i, callMarker ++ ['z'] <+: drifting.drop i ∧
        (⟨1, 32⟩ : Position) = Position.start.ofOffset drifting i := by
  refine ⟨CompileError.eq_error_of_of? (by decide +kernel), ?_⟩
  rintro ⟨i, hmarker, hplace⟩
  have hlen : drifting.length = 27 := by decide +kernel
  have hall : ∀ i, i < 27 → (callMarker ++ ['z']).isPrefixOf (drifting.drop i) = true →
      Position.start.ofOffset drifting i = ⟨1, 22⟩ := by decide +kernel
  rcases Nat.lt_or_ge i 27 with hlt | hge
  · rw [hall i hlt (List.isPrefixOf_iff_prefix.mpr hmarker)] at hplace
    cases hplace
  · rw [List.drop_of_length_le (by omega)] at hmarker
    exact absurd (List.prefix_nil.mp hmarker) (by decide)

end Compiler
end TemplateDirectives
