/-
What a rule does to a text, as a cut of the text.

`Edit.splice` cuts a text at the spans of edits: stretches that are kept, and between
them stretches that something else takes the place of.  For edits in order the stretches
together are the text, and the kept ones with the replacements between them are what the
edits make of it.  `Rule.apply_splices` says that every rule works like this and no other
way: each stretch that it removes is a directive as it is written in the text, with the
blanks before it.  The search behind a rule comes to an end since its cursor moves on with
every find, whether the find is replaced, passed over in a body or left to another rule
(`pairwise_cursors`).
-/
import TemplateDirectives.Proofs.Edits.Rules
import TemplateDirectives.Text.Utf8

namespace TemplateDirectives

open Directive

/-! ## Cutting a text at edits -/

namespace Edit

/-- A stretch that is kept, and the one behind it with what takes its place. -/
structure Piece where
  kept : Text
  removed : Text
  put : Text

/-- A text in pieces, and what stands behind the last of them. -/
structure Splice where
  pieces : List Piece
  last : Text

namespace Splice

def before (s : Splice) : Text := s.pieces.flatMap (fun p => p.kept ++ p.removed) ++ s.last

def after (s : Splice) : Text := s.pieces.flatMap (fun p => p.kept ++ p.put) ++ s.last

end Splice

/-- Cut the text from `offset` on at the spans of edits. -/
def splice (t : Text) (offset : Nat) : List Edit → Splice
  | [] => ⟨[], t.drop offset⟩
  | e :: es =>
    let later := splice t e.stop es
    ⟨⟨t.slice offset e.start, t.slice e.start e.stop, e.replacement⟩ :: later.pieces, later.last⟩

variable {t : Text} {offset : Nat} {es : List Edit}

theorem before_splice (ho : Ordered t.length offset es) : (splice t offset es).before = t.drop offset := by
  induction es generalizing offset with
  | nil => rfl
  | cons e es ih =>
    obtain ⟨h1, h2, -, hrest⟩ := ho
    have hlater := ih hrest
    simp only [Splice.before] at hlater
    simp only [Splice.before, splice, List.flatMap_cons, List.append_assoc, hlater]
    rw [← Text.drop_of_slice rfl h2, ← Text.drop_of_slice rfl h1]

theorem after_splice (ho : Ordered t.length offset es) :
    (splice t offset es).after = applyFrom offset (t.drop offset) es := by
  induction es generalizing offset with
  | nil => rfl
  | cons e es ih =>
    obtain ⟨h1, h2, -, hrest⟩ := ho
    have hlater := ih hrest
    simp only [Splice.after] at hlater
    rw [applyFrom_cons (Nat.le_trans h1 h2)]
    simp only [Splice.after, splice, List.flatMap_cons, List.append_assoc, hlater]

/-- Edits in order cut the text, and what they make of it is read off the pieces. -/
theorem splice_of_ordered (ho : Ordered t.length 0 es) :
    t = (splice t 0 es).before ∧ applyAll t es = (splice t 0 es).after := by
  constructor
  · rw [before_splice ho, List.drop_zero]
  · rw [after_splice ho]
    rfl

theorem pairwise_of_ordered {bound : Nat} (ho : Ordered bound offset es) :
    es.Pairwise fun d e => d.stop ≤ e.start := by
  induction es generalizing offset with
  | nil => exact List.Pairwise.nil
  | cons e es ih =>
    obtain ⟨-, -, -, hrest⟩ := ho
    exact List.pairwise_cons.mpr ⟨fun d hd => (hrest.within hd).1, ih hrest⟩

end Edit

/-! ## The cursor of a search -/

namespace Text

theorem pairwise_scanAll {α : Type} {find : Nat → Option α} {next : α → Nat} {bound : Nat}
    {progress : ∀ cursor a, find cursor = some a → cursor < next a ∧ cursor < bound}
    (cursor : Nat) :
    (cursor :: (scanAll find next bound progress cursor).map next).Pairwise (· < ·) := by
  induction hn : bound - cursor using Nat.strongRecOn generalizing cursor with
  | ind n ih =>
    rw [scanAll_eq]
    cases hf : find cursor with
    | none => exact List.pairwise_singleton _ _
    | some a =>
      have hprogress := progress cursor a hf
      have hrest := ih (bound - next a) (by omega) (next a) rfl
      refine List.pairwise_cons.mpr ⟨fun k hk => ?_, hrest⟩
      rcases List.mem_cons.mp hk with rfl | hk
      · exact hprogress.1
      · have := (List.pairwise_cons.mp hrest).1 k hk
        omega

/-- What is written at `p`, with the blanks that stand before it from `cursor` on. -/
theorem slice_blanks {t written rest : Text} {cursor p stop : Nat} (hcursor : cursor ≤ p)
    (hlen : p ≤ t.length) (hwritten : t.drop p = written ++ rest)
    (hstop : stop = p + written.length) :
    t.slice (p - (takeEndWhile isBlank (t.slice cursor p)).length) stop =
      takeEndWhile isBlank (t.slice cursor p) ++ written := by
  have hblanks := drop_sub_takeEndWhile isBlank hcursor hlen
  have hle := length_takeEndWhile_slice_le isBlank t cursor p
  rw [hwritten, ← List.append_assoc] at hblanks
  rw [← slice_of_drop hblanks, List.length_append]
  congr 1
  omega

end Text

/-! ## Directives with their blanks -/

namespace Directive

theorem Attribute.Stands.slice {t rest : Text} {cursor : Nat} {a : Attribute}
    (h : a.Stands t cursor rest) :
    t.slice a.start a.stop = a.blanks ++ (a.head.written ++ a.value.written a.head.quote) := by
  have hlen : a.nameStart ≤ t.length := by
    have := h.nameStart_lt
    have := h.marker_lt
    omega
  have hwritten := h.written
  rw [← List.append_assoc] at hwritten
  rw [Attribute.start, h.blanks]
  refine Text.slice_blanks h.cursor_le hlen hwritten ?_
  rw [Attribute.stop, ← h.marker, List.length_append, Nat.add_assoc]

theorem ShortCall.Stands.slice {t rest : Text} {cursor : Nat} {c : ShortCall}
    (h : c.Stands t cursor rest) :
    t.slice c.start c.stop = c.blanks ++ (callMarker ++ c.call.written) := by
  have hwritten := h.written
  rw [← List.append_assoc] at hwritten
  rw [ShortCall.start, h.blanks]
  refine Text.slice_blanks h.cursor_le (Nat.le_of_lt h.marker_lt) hwritten ?_
  rw [ShortCall.stop, List.length_append, Nat.add_assoc]

/-- A closed block as it is written, from its indentation to its end marker. -/
def Block.written (b : Block) (lead : Text) : Text :=
  b.opening.indent ++ (callMarker ++ (b.opening.call.written ++ ':' :: (lead ++ (b.body ++
    (callMarker ++ (Name.endWord ++ b.opening.call.name.written))))))

theorem Block.Stands.slice {t lead rest : Text} {cursor : Nat} {b : Block}
    (h : b.Stands t cursor lead rest) :
    t.slice b.opening.start b.stop = b.opening.blanks ++ b.written lead := by
  have hmarker := h.opening.marker
  have hlen : b.opening.line ≤ t.length := by
    have := h.opening.marker_lt
    omega
  have hwritten : t.drop b.opening.line = b.written lead ++ rest := by
    rw [h.opening.written]
    simp only [Block.written, List.append_assoc, List.cons_append]
  have hstart : b.opening.start = b.opening.line - b.opening.blanks.length := rfl
  rw [hstart, h.opening.blanks]
  refine Text.slice_blanks h.opening.cursor_le hlen hwritten ?_
  rw [h.stop, Block.bodyStop, h.bodyStart]
  simp only [BlockOpening.stop, Block.written, List.length_append, List.length_cons]
  omega

end Directive

/-! ## The rules -/

namespace Rule

/-- The edit puts a rule's code in the place of one of the rule's directives, which stands
in the text as it is written, with its blanks. -/
def Replaces (cx : Context) (nested : BodyCompiler) (t : Text) (e : Edit) : Rule → Prop
  | attributes => ∃ a ∈ attributesOutsideBodies t, e = attributeEdit cx a ∧
      t.slice e.start e.stop = a.blanks ++ (a.head.written ++ a.value.written a.head.quote)
  | shortCalls => ∃ c ∈ callsOutsideBodies t, Calls cx t c e ∧
      t.slice e.start e.stop = c.blanks ++ (callMarker ++ c.call.written)
  | blocks => ∃ b ∈ Block.closedBlocks t, Captures cx nested t b e ∧ ∃ lead,
      lead.all Text.isBlank = true ∧ t.slice e.start e.stop = b.opening.blanks ++ b.written lead

/-- The cursors that the search of a rule goes through, from the beginning of the text
on. -/
def cursors (t : Text) : Rule → List Nat
  | attributes =>
    let next := nextAttribute (Block.closedBlocks t)
    0 :: (Text.scanAll (Attribute.find? t) next t.length (attribute_progress _) 0).map next
  | shortCalls =>
    let next := nextCall (Block.closedBlocks t)
    0 :: (Text.scanAll (ShortCall.find? t) next t.length (call_progress _) 0).map next
  | blocks => 0 :: (Block.readAll t).map Block.Reading.next

variable {cx : Context} {nested : BodyCompiler} {t : Text} {rule : Rule} {es : List Edit} {e : Edit}

theorem pairwise_cursors (t : Text) (rule : Rule) : (rule.cursors t).Pairwise (· < ·) := by
  cases rule with
  | attributes => exact Text.pairwise_scanAll 0
  | shortCalls => exact Text.pairwise_scanAll 0
  | blocks => exact Text.pairwise_scanAll 0

/-- Cursors stay within a bound when every find leads to one within it. -/
theorem le_of_mem_scanAll {α : Type} {find : Nat → Option α} {next : α → Nat} {bound k : Nat}
    {progress : ∀ cursor a, find cursor = some a → cursor < next a ∧ cursor < bound}
    (hnext : ∀ cursor a, find cursor = some a → next a ≤ bound)
    (h : k ∈ 0 :: (Text.scanAll find next bound progress 0).map next) : k ≤ bound := by
  rcases List.mem_cons.mp h with rfl | h
  · exact Nat.zero_le _
  · obtain ⟨a, ha, rfl⟩ := List.mem_map.mp h
    obtain ⟨cursor, -, hfind⟩ := Text.exists_find_of_mem_scanAll ha
    exact hnext cursor a hfind

theorem resume_le_length {stop : Nat} (offset : Nat) (hstop : stop ≤ t.length) :
    Block.resume (Block.closedBlocks t) offset stop ≤ t.length := by
  cases h : Block.around? (Block.closedBlocks t) offset with
  | none =>
    rw [Block.resume_of_outside h]
    exact hstop
  | some b =>
    obtain ⟨cursor, lead, rest, hb⟩ :=
      Block.exists_stands_of_mem_closedBlocks (List.mem_of_find?_eq_some h)
    rw [Block.resume_of_inside h]
    exact Nat.le_of_lt (Text.lt_length_of_drop hb.at_ending (by simp [callMarker]))

/-- The cursor never leaves the text, so what is still to be searched is a stretch of
it. -/
theorem le_length_of_mem_cursors {k : Nat} (h : k ∈ rule.cursors t) : k ≤ t.length := by
  cases rule with
  | attributes =>
    refine le_of_mem_scanAll (fun cursor a hfind => ?_) h
    obtain ⟨rest, hstands⟩ := Attribute.stands_of_find? hfind
    exact resume_le_length a.nameStart hstands.stop_le
  | shortCalls =>
    refine le_of_mem_scanAll (fun cursor c hfind => ?_) h
    obtain ⟨rest, hstands⟩ := ShortCall.stands_of_find? hfind
    exact resume_le_length c.marker hstands.stop_le
  | blocks =>
    refine le_of_mem_scanAll (fun cursor r hfind => ?_) h
    obtain ⟨o, ho, rfl⟩ := Option.map_eq_some_iff.mp hfind
    obtain ⟨rest, hstands⟩ := BlockOpening.stands_of_find? ho
    exact Block.next_le_of_read hstands

theorem replaces_of_mem (h : rule.edits cx nested t = .ok es) (he : e ∈ es) :
    Replaces cx nested t e rule := by
  cases rule with
  | attributes =>
    obtain ⟨a, ha, rfl⟩ := exists_attribute_of_mem h he
    obtain ⟨⟨cursor, rest, hstands⟩, -⟩ := stands_of_mem_attributes ha
    exact ⟨a, ha, rfl, hstands.slice⟩
  | shortCalls =>
    obtain ⟨c, hc, hcalls⟩ := exists_call_of_mem h he
    obtain ⟨⟨cursor, rest, hstands⟩, -⟩ := stands_of_mem_calls hc
    refine ⟨c, hc, hcalls, ?_⟩
    rw [hcalls.start, hcalls.stop]
    exact hstands.slice
  | blocks =>
    obtain ⟨b, hb, hcaptures⟩ := exists_block_of_mem h he
    obtain ⟨cursor, lead, rest, hstands⟩ := Block.exists_stands_of_mem_closedBlocks hb
    refine ⟨b, hb, hcaptures, lead, List.all_eq_true.mpr hstands.isBlank_lead, ?_⟩
    rw [hcaptures.start, hcaptures.stop]
    exact hstands.slice

/-- Every directive is written with an `@`, so its span is not empty. -/
theorem start_lt_stop_of_replaces (h : Replaces cx nested t e rule) : e.start < e.stop := by
  have hne : t.slice e.start e.stop ≠ [] := by
    cases rule with
    | attributes =>
      obtain ⟨a, -, -, hslice⟩ := h
      rw [hslice]
      simp [Attribute.Value.written, attributeMarker]
    | shortCalls =>
      obtain ⟨c, -, -, hslice⟩ := h
      rw [hslice]
      simp [callMarker]
    | blocks =>
      obtain ⟨b, -, -, lead, -, hslice⟩ := h
      rw [hslice]
      simp [Block.written, callMarker]
  have hpos := List.length_pos_iff.mpr hne
  rw [Text.length_slice] at hpos
  omega

theorem edits_of_cursors (h : rule.cursors t = [0]) : rule.edits cx nested t = .ok [] := by
  cases rule with
  | attributes =>
    have hnone := List.map_eq_nil_iff.mp (List.cons.inj h).2
    simp only [edits, attributesOutsideBodies, hnone]
    rfl
  | shortCalls =>
    have hnone := List.map_eq_nil_iff.mp (List.cons.inj h).2
    simp only [edits, callsOutsideBodies, hnone]
    rfl
  | blocks =>
    have hnone : Block.readAll t = [] := List.map_eq_nil_iff.mp (List.cons.inj h).2
    simp only [edits, hnone]
    rfl

/-- A rule refuses a text, or it cuts the text and puts code in the place of some of the
pieces, each of them a directive of the rule's own kind.  The spans are not empty, lie in
the text one behind the other, and split no character's encoding.  The rule's search moves
on with every find and does not leave the text, and when it finds nothing the text stays
as it is. -/
theorem apply_splices (cx : Context) (nested : BodyCompiler) (t : Text) (rule : Rule) :
    ((∃ e, rule.edits cx nested t = .error e ∧ rule.apply cx nested t = .error e) ∨
      ∃ es, rule.edits cx nested t = .ok es ∧
        t = (Edit.splice t 0 es).before ∧
        rule.apply cx nested t = .ok (Edit.splice t 0 es).after ∧
        (es.Pairwise fun d e => d.stop ≤ e.start) ∧
        ∀ e ∈ es, Replaces cx nested t e rule ∧ e.start < e.stop ∧ e.stop ≤ t.length ∧
          String.Pos.Raw.IsValid (String.ofList t) ⟨t.toUtf8Offset e.start⟩ ∧
          String.Pos.Raw.IsValid (String.ofList t) ⟨t.toUtf8Offset e.stop⟩) ∧
    (rule.cursors t).Pairwise (· < ·) ∧ (∀ k ∈ rule.cursors t, k ≤ t.length) ∧
    (rule.cursors t = [0] → rule.apply cx nested t = .ok t) := by
  refine ⟨?_, pairwise_cursors t rule, fun k hk => le_length_of_mem_cursors hk, fun h => ?_⟩
  · cases hedits : rule.edits cx nested t with
    | error e =>
      refine .inl ⟨e, rfl, ?_⟩
      rw [apply_eq_edits, hedits]
      rfl
    | ok es =>
      have ho := ordered_edits hedits
      obtain ⟨hbefore, hafter⟩ := Edit.splice_of_ordered ho
      refine .inr ⟨es, rfl, hbefore, ?_, Edit.pairwise_of_ordered ho, fun e he => ?_⟩
      · rw [apply_eq_edits, hedits, ← hafter]
        rfl
      · have hreplaces := replaces_of_mem hedits he
        exact ⟨hreplaces, start_lt_stop_of_replaces hreplaces, (ho.within he).2.2,
          Text.isValid_toUtf8Offset t e.start, Text.isValid_toUtf8Offset t e.stop⟩
  · rw [apply_eq_edits, edits_of_cursors h]
    rfl

end Rule
end TemplateDirectives
