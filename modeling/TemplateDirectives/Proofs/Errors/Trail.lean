/-
Texts that remember where their characters come from.

The compiler reads a template that it has already rewritten.  A trail is such a
text with the offset in the template beside every character that was copied from
there, and nothing beside a character that a rule has put in.  The rules work on
trails as they do on texts (`text_attributed`, `text_called`), and the position that
an error carries is read off everything that stands ahead of it
(`position_append_take`).
-/
import TemplateDirectives.Compiler.Basic

namespace TemplateDirectives

/-- A character, with the offset that it was copied from. -/
structure Glyph where
  char : Char
  source? : Option Nat

/-- A text whose characters remember where they come from. -/
abbrev Trail := List Glyph

namespace Trail

def text (tr : Trail) : Text := tr.map Glyph.char

/-- The template itself. -/
def copied (t : Text) : Trail := t.zipIdx.map fun c => ⟨c.1, some c.2⟩

def generated (t : Text) : Trail := t.map fun c => ⟨c, none⟩

def slice (tr : Trail) (start stop : Nat) : Trail := (tr.take stop).drop start

/-- Apply edits to the trail that begins at `offset`. -/
def editFrom (offset : Nat) (tr : Trail) : List Edit → Trail
  | [] => tr
  | e :: es =>
    tr.take (e.start - offset) ++ generated e.replacement ++
      editFrom e.stop (tr.drop (e.stop - offset)) es

/-- The position behind a trail that begins the template. -/
def position (tr : Trail) : Position := tr.text.foldl Position.advance Position.start

/-! ## Texts of trails -/

@[simp] theorem text_append (tr tr' : Trail) : (tr ++ tr').text = tr.text ++ tr'.text :=
  List.map_append

@[simp] theorem text_take (tr : Trail) (k : Nat) : Trail.text (tr.take k) = tr.text.take k :=
  List.map_take

@[simp] theorem text_drop (tr : Trail) (k : Nat) : Trail.text (tr.drop k) = tr.text.drop k :=
  List.map_drop

@[simp] theorem text_slice (tr : Trail) (a b : Nat) : (tr.slice a b).text = tr.text.slice a b := by
  rw [slice, text_drop, text_take, Text.slice]

@[simp] theorem text_generated (t : Text) : (generated t).text = t := by
  rw [text, generated, List.map_map]
  exact List.map_id t

@[simp] theorem text_copied (t : Text) : (copied t).text = t := by
  rw [text, copied, List.map_map]
  exact List.zipIdx_map_fst 0 t

theorem text_editFrom (offset : Nat) (tr : Trail) (es : List Edit) :
    (tr.editFrom offset es).text = Edit.applyFrom offset tr.text es := by
  induction es generalizing offset tr with
  | nil => rfl
  | cons e es ih =>
    rw [editFrom, Edit.applyFrom, text_append, text_append, ih, text_take, text_drop, text_generated]

/-- An offset of a trail lies behind what stands ahead of the trail and what stands
before the offset. -/
theorem position_append_take (ahead tr : Trail) (k : Nat) :
    (ahead ++ tr.take k).position = ahead.position.ofOffset tr.text k := by
  rw [position, text_append, text_take, List.foldl_append]
  rfl

/-! ## Rules on trails -/

def attributed (cx : Context) (tr : Trail) : Trail :=
  tr.editFrom 0 ((Rule.attributesOutsideBodies tr.text).map (Rule.attributeEdit cx))

def called (cx : Context) (tr : Trail) : Except CompileError Trail := do
  let edits ← (Rule.callsOutsideBodies tr.text).mapM (Rule.callEdit? cx tr.text)
  return tr.editFrom 0 (edits.filterMap id)

theorem text_attributed (cx : Context) (tr : Trail) :
    (tr.attributed cx).text = Rule.applyAttributes cx tr.text := by
  rw [attributed, text_editFrom]
  rfl

theorem text_called (cx : Context) (tr : Trail) :
    (tr.called cx >>= fun u => .ok u.text) = Rule.applyShortCalls cx tr.text := by
  simp only [called, Rule.applyShortCalls, bind_assoc, pure_bind, text_editFrom]
  rfl

end Trail
end TemplateDirectives
