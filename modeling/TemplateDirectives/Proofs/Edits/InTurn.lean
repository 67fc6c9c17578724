/-
Edits made together and edits made one by one.

`Edit.applyAll` copies a text once and puts all replacements in on the way.  `Edit.inTurn?` makes
one edit after the other, and has to begin with the last: up to there an edit leaves the text as it
was, so the spans of the edits before it still name what they are to replace.  Both give the same
text, and one list of edits can be cut in two wherever the text is (`applyAll_in_turn`).
-/
import TemplateDirectives.Proofs.Edits.Basic
import TemplateDirectives.Text.Utf8

namespace TemplateDirectives

namespace Text

theorem take_append_slice (t : Text) {a b : Nat} (hab : a ≤ b) :
    t.take a ++ t.slice a b = t.take b :=
  slice_append_slice t (Nat.zero_le a) hab

theorem utf8Length_slice (t : Text) {a b : Nat} (hab : a ≤ b) :
    utf8Length (t.slice a b) = t.toUtf8Offset b - t.toUtf8Offset a := by
  rw [toUtf8Offset, toUtf8Offset, ← take_append_slice t hab, utf8Length_append,
    Nat.add_sub_cancel_left]

end Text

namespace Edit

/-! ## One by one -/

/-- Make one edit of a text, if its span lies in the text. -/
def replaceIn? (e : Edit) (t : Text) : Option Text :=
  if e.start ≤ e.stop ∧ e.stop ≤ t.length then
    some (t.take e.start ++ e.replacement ++ t.drop e.stop)
  else none

/-- Make one edit after the other, from the last to the first, each in the text that the one before
has left. -/
def inTurn? (t : Text) (es : List Edit) : Option Text := es.foldrM replaceIn? t

/-- The same edit of what follows the first `p` characters. -/
def shiftBack (p : Nat) (e : Edit) : Edit := ⟨e.start - p, e.stop - p, e.replacement⟩

/-- The bytes in the spans of edits. -/
def removedBytes (t : Text) : List Edit → Nat
  | [] => 0
  | e :: es => t.toUtf8Offset e.stop - t.toUtf8Offset e.start + removedBytes t es

/-- The bytes in the replacements of edits. -/
def insertedBytes : List Edit → Nat
  | [] => 0
  | e :: es => Text.utf8Length e.replacement + insertedBytes es

variable {t u : Text} {offset p : Nat} {e : Edit} {es fs gs : List Edit}

/-- An edit changes nothing in front of its span and nothing behind it. -/
theorem replaceIn?_take_append (hspan : e.start ≤ e.stop) (hstop : e.stop ≤ t.length) (u : Text) :
    e.replaceIn? (t.take e.stop ++ u) = some (t.take e.start ++ e.replacement ++ u) := by
  have hlen : (t.take e.stop).length = e.stop := List.length_take_of_le hstop
  have hin : e.start ≤ e.stop ∧ e.stop ≤ (t.take e.stop ++ u).length := by
    rw [List.length_append]
    omega
  have hfront : (t.take e.stop ++ u).take e.start = t.take e.start := by
    rw [List.take_append_of_le_length (by omega), List.take_take, Nat.min_eq_left hspan]
  have hback : (t.take e.stop ++ u).drop e.stop = u := List.drop_left' hlen
  rw [replaceIn?, if_pos hin, hfront, hback]

/-- Each edit finds the text up to its span as it was, and behind it what the later ones have made
of the rest. -/
theorem inTurn?_eq (ho : Ordered t.length offset es) :
    inTurn? t es = some (t.take offset ++ applyFrom offset (t.drop offset) es) := by
  induction es generalizing offset with
  | nil => exact congrArg some (List.take_append_drop offset t).symm
  | cons e es ih =>
    obtain ⟨hstart, hspan, hstop, hrest⟩ := ho
    have hlater : inTurn? t (e :: es) = inTurn? t es >>= e.replaceIn? := List.foldrM_cons
    rw [hlater, ih hrest]
    show e.replaceIn? _ = _
    rw [replaceIn?_take_append hspan hstop, ← Text.take_append_slice t hstart,
      applyFrom_cons (Nat.le_trans hstart hspan)]
    simp only [List.append_assoc]

/-! ## Bytes -/

theorem utf8Length_applyFrom (ho : Ordered t.length offset es) :
    removedBytes t es ≤ Text.utf8Length (t.drop offset) ∧
      Text.utf8Length (applyFrom offset (t.drop offset) es) + removedBytes t es =
        Text.utf8Length (t.drop offset) + insertedBytes es := by
  induction es generalizing offset with
  | nil => exact ⟨Nat.zero_le _, rfl⟩
  | cons e es ih =>
    obtain ⟨hstart, hspan, -, hrest⟩ := ho
    obtain ⟨hle, heq⟩ := ih hrest
    have hsplit : t.drop offset = t.slice offset e.start ++ (t.slice e.start e.stop ++
        t.drop e.stop) := by
      rw [← Text.drop_of_slice rfl hspan, ← Text.drop_of_slice rfl hstart]
    have hlen := congrArg Text.utf8Length hsplit
    rw [Text.utf8Length_append, Text.utf8Length_append, Text.utf8Length_slice t hspan] at hlen
    rw [applyFrom_cons (Nat.le_trans hstart hspan)]
    simp only [removedBytes, insertedBytes, Text.utf8Length_append]
    omega

/-! ## Cutting a list of edits in two -/

namespace Ordered

theorem of_append_left {bound : Nat} (ho : Ordered bound offset (fs ++ gs))
    (hfs : ∀ e ∈ fs, e.stop ≤ p) : Ordered (min p bound) offset fs := by
  induction fs generalizing offset with
  | nil => trivial
  | cons e fs ih =>
    obtain ⟨hstart, hspan, hstop, hrest⟩ := ho
    obtain ⟨hp, hfs⟩ := List.forall_mem_cons.mp hfs
    exact ⟨hstart, hspan, Nat.le_min.mpr ⟨hp, hstop⟩, ih hrest hfs⟩

theorem of_append_right {bound : Nat} (ho : Ordered bound offset (fs ++ gs))
    (hgs : ∀ e ∈ gs, p ≤ e.start) : Ordered bound p gs := by
  induction fs generalizing offset with
  | nil => exact ho.strengthen hgs
  | cons e fs ih =>
    obtain ⟨-, -, -, hrest⟩ := ho
    exact ih hrest

theorem shiftBack {bound : Nat} (ho : Ordered bound offset es) (hp : p ≤ offset) :
    Ordered (bound - p) (offset - p) (es.map (shiftBack p)) := by
  induction es generalizing offset with
  | nil => trivial
  | cons e es ih =>
    obtain ⟨hstart, hspan, hstop, hrest⟩ := ho
    exact ⟨Nat.sub_le_sub_right hstart p, Nat.sub_le_sub_right hspan p,
      Nat.sub_le_sub_right hstop p, ih hrest (by omega)⟩

end Ordered

/-- Edits up to a place see nothing of the text behind it, and those from there on nothing of the
text before. -/
theorem applyFrom_append (ho : Ordered t.length offset (fs ++ gs)) (hp : offset ≤ p)
    (hfs : ∀ e ∈ fs, e.stop ≤ p) (hgs : ∀ e ∈ gs, p ≤ e.start) :
    applyFrom offset (t.drop offset) (fs ++ gs) =
      applyFrom offset ((t.take p).drop offset) fs ++ applyFrom p (t.drop p) gs := by
  induction fs generalizing offset with
  | nil => exact applyFrom_of_le hp (ho.strengthen hgs)
  | cons e fs ih =>
    obtain ⟨hstart, hspan, -, hrest⟩ := ho
    obtain ⟨hep, hfs⟩ := List.forall_mem_cons.mp hfs
    rw [List.cons_append, applyFrom_cons (Nat.le_trans hstart hspan),
      applyFrom_cons (Nat.le_trans hstart hspan), ih hrest hep hfs,
      Text.slice_take t (Nat.le_trans hspan hep)]
    simp only [List.append_assoc]

/-- Edits go by distances alone. -/
theorem applyFrom_shiftBack {bound : Nat} (ho : Ordered bound offset es) (hp : p ≤ offset)
    (u : Text) : applyFrom (offset - p) u (es.map (shiftBack p)) = applyFrom offset u es := by
  induction es generalizing offset u with
  | nil => rfl
  | cons e es ih =>
    obtain ⟨hstart, hspan, -, hrest⟩ := ho
    have hlater := ih hrest (by omega)
    simp only [List.map_cons, applyFrom, shiftBack, hlater,
      show e.start - p - (offset - p) = e.start - offset by omega,
      show e.stop - p - (offset - p) = e.stop - offset by omega]

/-! ## All together -/

/-- For every text and every list of edits in order: one traversal makes what the same edits make
one by one, from the last to the first, the text loses the bytes of all spans and gains those of all
replacements, and where no span runs across a place the text can be cut there, and its two parts be
edited apart. -/
theorem applyAll_in_turn (ho : Ordered t.length 0 es) :
    inTurn? t es = some (applyAll t es) ∧
      (removedBytes t es ≤ Text.utf8Length t ∧
        Text.utf8Length (applyAll t es) =
          Text.utf8Length t - removedBytes t es + insertedBytes es) ∧
      ∀ p fs gs, es = fs ++ gs → (∀ e ∈ fs, e.stop ≤ p) → (∀ e ∈ gs, p ≤ e.start) →
        Ordered (t.take p).length 0 fs ∧ Ordered (t.drop p).length 0 (gs.map (shiftBack p)) ∧
          applyAll t es = applyAll (t.take p) fs ++ applyAll (t.drop p) (gs.map (shiftBack p)) := by
  refine ⟨inTurn?_eq ho, ?_, ?_⟩
  · obtain ⟨hle, heq⟩ := utf8Length_applyFrom ho
    rw [List.drop_zero] at hle heq
    refine ⟨hle, ?_⟩
    rw [applyAll]
    omega
  · rintro p fs gs rfl hfs hgs
    have hlater := ho.of_append_right hgs
    have hback := hlater.shiftBack (Nat.le_refl p)
    have happly := applyFrom_shiftBack hlater (Nat.le_refl p) (t.drop p)
    rw [Nat.sub_self] at hback happly
    refine ⟨?_, ?_, ?_⟩
    · rw [List.length_take]
      exact ho.of_append_left hfs
    · rw [List.length_drop]
      exact hback
    · rw [applyAll, applyAll, applyAll, happly]
      exact applyFrom_append ho (Nat.zero_le p) hfs hgs

/-- Spans may touch one another and may be empty, and characters may be longer than a byte. -/
theorem applyAll_in_turn_touching :
    Ordered "aé✓b".toList.length 0 [⟨1, 2, "→".toList⟩, ⟨2, 2, "-".toList⟩, ⟨2, 3, []⟩] ∧
      inTurn? "aé✓b".toList [⟨1, 2, "→".toList⟩, ⟨2, 2, "-".toList⟩, ⟨2, 3, []⟩] =
        some "a→-b".toList ∧
      Text.utf8Length "a→-b".toList = 7 - 5 + 4 ∧
      applyAll "aé✓b".toList [⟨1, 2, "→".toList⟩, ⟨2, 2, "-".toList⟩, ⟨2, 3, []⟩] =
        applyAll "aé".toList [⟨1, 2, "→".toList⟩, ⟨2, 2, "-".toList⟩] ++
          applyAll "✓b".toList [⟨0, 1, []⟩] := by
  have ho : Ordered "aé✓b".toList.length 0
      [⟨1, 2, "→".toList⟩, ⟨2, 2, "-".toList⟩, ⟨2, 3, []⟩] := by
    simp [Ordered]
  obtain ⟨hturn, ⟨-, hbytes⟩, hcut⟩ := applyAll_in_turn ho
  have happly : applyAll "aé✓b".toList [⟨1, 2, "→".toList⟩, ⟨2, 2, "-".toList⟩, ⟨2, 3, []⟩] =
      "a→-b".toList := by decide +kernel
  obtain ⟨-, -, hparts⟩ := hcut 2 [⟨1, 2, "→".toList⟩, ⟨2, 2, "-".toList⟩] [⟨2, 3, []⟩] rfl
    (by simp) (by simp)
  refine ⟨ho, happly ▸ hturn, ?_, hparts⟩
  rw [happly] at hbytes
  exact hbytes

end Edit
end TemplateDirectives
