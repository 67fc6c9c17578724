/-
The rule for blocks on the text of a tree of markup.

The rule asks for the compiled body of every block of the tree's own level, from
left to right, and puts the code of the block in its place.  Calls of the level
stay as they are written, and nothing of what a handler answers is read again
(`applyBlocks_written`).
-/
import TemplateDirectives.Proofs.Markup.Calls

namespace TemplateDirectives

open Directive

namespace Rule

variable {t : Text} {nested : BodyCompiler}

def blocksText (cx : Context) (nested : BodyCompiler) (t : Text) (copied : Nat)
    (readings : List Block.Reading) : Except CompileError Text :=
  readings.mapM (blockEdit cx nested t) >>= fun edits =>
    .ok (Edit.applyFrom copied (t.drop copied) edits)

/-- A closed block is replaced from its marker on, and what stands before it is
copied. -/
theorem blocksText_closed (cx : Context) {copied line : Nat} {b : Block}
    {readings : List Block.Reading} (hmarker : b.opening.marker = line + b.opening.indent.length)
    (hblanks : b.opening.blanks = Text.takeEndWhile Text.isBlank (t.slice copied line))
    (hcopied : copied ≤ line) (hstop : line ≤ b.stop) (hlen : line ≤ t.length) :
    blocksText cx nested t copied (.closed b :: readings) =
      let o := b.opening
      let position := cx.position t o.marker
      nested b.body (cx.position t b.bodyStart) position >>= fun inner =>
        cx.expand ⟨cx.handler o.call.name, some o.indent, some inner, o.call.argumentText⟩ position
            (cx.dialect.host.capture (cx.handler o.call.name) o.indent inner
              o.call.argumentText) >>= fun code =>
          blocksText cx nested t b.stop readings >>= fun u =>
            .ok (t.slice copied line ++ (o.indent ++ (code ++ u))) := by
  have hstart : b.opening.start = line - b.opening.blanks.length := by
    rw [BlockOpening.start, hmarker, Nat.add_sub_cancel]
  simp only [blocksText, List.mapM_cons, blockEdit, bind_assoc, pure_bind]
  congr 1
  funext inner
  congr 1
  funext code
  congr 1
  funext edits
  show Except.ok (Edit.applyFrom copied (t.drop copied)
    (⟨b.opening.start, b.stop, b.opening.blanks ++ b.opening.indent ++ code⟩ :: edits)) = _
  have hcopy := Edit.applyFrom_blanks (b.opening.indent ++ code) edits (Nat.le_refl copied) hcopied
    hstop hlen
  simp only at hcopy
  rw [hstart, List.append_assoc, hblanks, hcopy, List.append_assoc]
  rfl

theorem applyBlocks_eq (cx : Context) (nested : BodyCompiler) (t : Text) :
    applyBlocks cx nested t = blocksText cx nested t 0 (Block.readAll t) := rfl

end Rule

namespace Markup

/-- The text of a tree whose own blocks are expanded, when it stands at `offset` in
`t` and `nested` compiles bodies.  Calls stay as they are written. -/
def expandBlocks (cx : Context) (nested : Rule.BodyCompiler) (t : Text) :
    (offset : Nat) → Markup → Except CompileError Text
  | _, nil => .ok []
  | offset, text s rest => do
    let after ← rest.expandBlocks cx nested t (offset + s.length)
    return s ++ after
  | offset, call n args rest => do
    let after ← rest.expandBlocks cx nested t
      (offset + callMarker.length + (Call.applied n args).written.length)
    return callMarker ++ ((Call.applied n args).written ++ after)
  | offset, block indent n args lead body rest => do
    let handler := cx.handler n
    let position := cx.position t (offset + indent.length)
    let inner ← nested body.written (cx.position t (bodyOffset offset indent n args lead)) position
    let code ← cx.expand ⟨handler, some indent, some inner, args⟩ position
      (cx.dialect.host.capture handler indent inner args)
    let after ← rest.expandBlocks cx nested t (endOffset offset indent n args lead body)
    return indent ++ (code ++ after)

/-- What the rule makes of the text from `copied` on.  By induction on the tree, with
the text copied from the end of the last block on. -/
theorem blocksText_blocksFrom {m : Markup} (cx : Context) (nested : Rule.BodyCompiler) {t : Text}
    {copied offset : Nat} (hm : m.WellFormedAfter (t.before? offset))
    (hd : t.drop offset = m.written) (hcopied : copied ≤ offset) (hlen : offset ≤ t.length) :
    Rule.blocksText cx nested t copied ((m.blocksFrom t copied offset).map .closed) =
      m.expandBlocks cx nested t offset >>= fun u => .ok (t.slice copied offset ++ u) := by
  induction m generalizing copied offset with
  | nil =>
    show Except.ok (t.drop copied) = Except.ok (t.slice copied offset ++ [])
    rw [Text.slice_of_drop_eq_nil hd, List.append_nil]
  | text s rest ih =>
    obtain ⟨-, hrest⟩ := hm
    rw [← Text.before?_of_drop hd] at hrest
    rw [blocksFrom, ih hrest (Text.drop_of_drop hd) (by omega) (Text.add_length_le_of_drop hd hlen),
      expandBlocks]
    simp only [bind_assoc, pure_bind, Text.slice_add_of_drop hcopied hd, List.append_assoc]
  | call n args rest ih =>
    obtain ⟨-, -, -, -, -, hrest⟩ := hm
    have hcall := Text.drop_of_drop hd
    have hle : copied ≤ offset + callMarker.length := Nat.le_trans hcopied (Nat.le_add_right _ _)
    have hlen' := Text.add_length_le_of_drop hcall (Text.add_length_le_of_drop hd hlen)
    rw [← before?_applied hcall] at hrest
    rw [blocksFrom, ih hrest (Text.drop_of_drop hcall) (Nat.le_trans hle (Nat.le_add_right _ _))
      hlen', expandBlocks]
    simp only [bind_assoc, pure_bind, Text.slice_add_of_drop hle hcall,
      Text.slice_add_of_drop hcopied hd, List.append_assoc]
  | block indent n args lead body rest ihbody ihrest =>
    obtain ⟨hn, -, -, -, -, -, -, -, -, -, hrest⟩ := hm
    have hat := blockAt_of_drop_eq hd
    rw [← hat.before?_endOffset hn] at hrest
    have hrun := ihrest hrest hat.atAfter (Nat.le_refl _) hat.endOffset_le
    have hstop : offset ≤ endOffset offset indent n args lead body := by
      simp only [endOffset, bodyOffset]
      omega
    simp only [blocksFrom, List.map_cons]
    rw [Rule.blocksText_closed cx rfl rfl hcopied hstop hlen, expandBlocks]
    simp only [blockOf, hrun, bind_assoc, pure_bind, Text.slice_self, List.nil_append]
    rfl

theorem applyBlocks_written {m : Markup} (hm : m.WellFormed) (cx : Context)
    (nested : Rule.BodyCompiler) :
    Rule.applyBlocks cx nested m.written = m.expandBlocks cx nested m.written 0 := by
  have hrun : Rule.blocksText cx nested m.written 0 ((m.blocksFrom m.written 0 0).map .closed) =
      m.expandBlocks cx nested m.written 0 >>= fun u => .ok (m.written.slice 0 0 ++ u) :=
    blocksText_blocksFrom cx nested hm rfl (Nat.le_refl 0) (Nat.zero_le _)
  rw [Rule.applyBlocks_eq, readAll_written hm, hrun]
  cases m.expandBlocks cx nested m.written 0 <;> rfl

end Markup
end TemplateDirectives
