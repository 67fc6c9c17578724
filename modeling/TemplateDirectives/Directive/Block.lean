/-
Blocks: `@@name(arguments):`, a body, and `@@endname`.

The opening stands alone at the beginning of its line, apart from indentation,
and its colon follows at once.  The body begins after the blanks that follow the
colon and ends at the first end marker for the name as written.  `Block.readAll`
reads a text from left to right: after a closed block it goes on behind the end
marker, after one that is not closed behind the colon.  Whoever needs the blocks
of a text, or only the stretches that are bodies, takes them from this one list.
-/
import TemplateDirectives.Directive.ShortCall
import TemplateDirectives.Directive.EndMarker

namespace TemplateDirectives
namespace Directive

structure BlockOpening where
  marker : Nat
  /-- Spaces and tabs between the beginning of the line and the marker. -/
  indent : Text
  /-- Blanks before the line that no earlier find has taken. -/
  blanks : Text
  call : Call

namespace BlockOpening

def start (o : BlockOpening) : Nat := o.marker - o.indent.length - o.blanks.length

def stop (o : BlockOpening) : Nat := o.marker + callMarker.length + o.call.written.length + 1

/-- Read the opening whose marker stands at `marker`.  The line must begin at
`cursor` or later, and the blanks before the line are taken back to `cursor` at
most. -/
def at? (t : Text) (cursor marker : Nat) : Option BlockOpening :=
  let indent := Text.takeEndWhile (· != '\n') (t.take marker)
  let lineStart := marker - indent.length
  if lineStart < cursor ∨ indent.all Text.isIndent = false then none
  else
    let afterMarker := t.drop (marker + callMarker.length)
    match Call.read? afterMarker with
    | none => none
    | some call =>
      if (afterMarker.drop call.written.length).head? = some ':' then
        some {
          marker := marker
          indent := indent
          blanks := Text.takeEndWhile Text.isBlank (t.slice cursor lineStart)
          call := call }
      else none

def find? (t : Text) (cursor : Nat) : Option BlockOpening :=
  Text.firstMatch
    (fun marker rest => if callMarker.isPrefixOf rest then at? t cursor marker else none)
    cursor (t.drop cursor)

/-! ## Progress of the search -/

theorem marker_of_at? {t : Text} {cursor marker : Nat} {o : BlockOpening}
    (h : at? t cursor marker = some o) : o.marker = marker := by
  unfold at? at h
  simp only at h
  split at h
  next => simp at h
  next =>
    split at h
    next => simp at h
    next =>
      split at h
      next => rw [← Option.some.inj h]
      next => simp at h

theorem marker_of_find? {t : Text} {cursor : Nat} {o : BlockOpening}
    (h : find? t cursor = some o) : cursor ≤ o.marker ∧ o.marker < t.length := by
  obtain ⟨k, hk, ha⟩ := Text.exists_of_firstMatch h
  split at ha
  next =>
    rw [marker_of_at? ha]
    rw [List.length_drop] at hk
    omega
  next => simp at ha

/-- An opening is found where its marker and its name stand. -/
theorem isPrefix_of_find? {t : Text} {cursor : Nat} {o : BlockOpening}
    (h : find? t cursor = some o) : callMarker ++ o.call.name.written <+: t.drop o.marker := by
  obtain ⟨k, -, ha⟩ := Text.exists_of_firstMatch h
  split at ha
  next hp =>
    rw [marker_of_at? ha]
    rw [List.isPrefixOf_iff_prefix, List.drop_drop] at hp
    obtain ⟨after, hafter⟩ := hp
    unfold at? at ha
    simp only at ha
    split at ha
    next => simp at ha
    next =>
      split at ha
      next => simp at ha
      next call hcall =>
        split at ha
        next =>
          rw [Text.drop_of_drop hafter.symm] at hcall
          rw [← Option.some.inj ha, ← hafter, List.prefix_append_right_inj]
          exact Call.name_isPrefix_of_read? hcall
        next => simp at ha
  next => simp at ha

theorem marker_lt_stop (o : BlockOpening) : o.marker < o.stop := by
  simp only [stop, callMarker, List.length_cons]
  omega

theorem progress {t : Text} (cursor : Nat) (o : BlockOpening) (h : find? t cursor = some o) :
    cursor < o.stop ∧ cursor < t.length := by
  have := marker_of_find? h
  have := o.marker_lt_stop
  omega

/-- All openings at `cursor` or later, each searched from the end of the one
before it. -/
def all (t : Text) (cursor : Nat) : List BlockOpening :=
  Text.scanAll (find? t) stop t.length progress cursor

end BlockOpening

/-- A block with its body and its end marker. -/
structure Block where
  opening : BlockOpening
  bodyStart : Nat
  body : Text
  stop : Nat

namespace Block

def bodyStop (b : Block) : Nat := b.bodyStart + b.body.length

def bodyContains (b : Block) (offset : Nat) : Bool :=
  b.bodyStart ≤ offset && offset < b.bodyStop

/-- What becomes of a block opening. -/
inductive Reading where
  | closed (block : Block)
  /-- The first end marker for its name lacks one `@`. -/
  | malformed (opening : BlockOpening) (ending : EndMarker)
  | unterminated (opening : BlockOpening)

/-- Look for the end of the block that `o` opens. -/
def read (t : Text) (o : BlockOpening) : Reading :=
  let bodyStart := o.stop + ((t.drop o.stop).takeWhile Text.isBlank).length
  match EndMarker.find? t o.call.name.written bodyStart with
  | none => .unterminated o
  | some e =>
    if e.wellFormed then .closed ⟨o, bodyStart, t.slice bodyStart e.start, e.stop⟩
    else .malformed o e

/-- Where the search for the next opening begins. -/
def Reading.next : Reading → Nat
  | .closed b => b.stop
  | .malformed o _ => o.stop
  | .unterminated o => o.stop

def Reading.block? : Reading → Option Block
  | .closed b => some b
  | _ => none

/-- The leftmost opening at `cursor` or later, with its end. -/
def find? (t : Text) (cursor : Nat) : Option Reading :=
  (BlockOpening.find? t cursor).map (read t)

theorem stop_le_next_read (t : Text) (o : BlockOpening) : o.stop ≤ (read t o).next := by
  unfold read
  simp only
  split
  next => exact Nat.le_refl _
  next e he =>
    have := EndMarker.start_of_find? he
    split
    · simp only [Reading.next]
      omega
    · exact Nat.le_refl _

theorem progress {t : Text} (cursor : Nat) (r : Reading) (h : find? t cursor = some r) :
    cursor < r.next ∧ cursor < t.length := by
  obtain ⟨o, ho, rfl⟩ := Option.map_eq_some_iff.mp h
  have h1 := BlockOpening.progress cursor o ho
  have h2 := stop_le_next_read t o
  omega

/-- All blocks of the text's own level, closed or not, from left to right. -/
def readAll (t : Text) : List Reading :=
  Text.scanAll (find? t) Reading.next t.length progress 0

/-- The closed blocks of the text's own level. -/
def closedBlocks (t : Text) : List Block := (readAll t).filterMap Reading.block?

/-- The closed block in whose body an offset lies. -/
def around? (blocks : List Block) (offset : Nat) : Option Block :=
  blocks.find? (·.bodyContains offset)

/-- Where a search goes on after what it has found at `offset`, which ends at `stop`: behind
the body in which the find lies, if it lies in one. -/
def resume (blocks : List Block) (offset stop : Nat) : Nat :=
  match around? blocks offset with
  | some b => b.bodyStop
  | none => stop

/-- A reading of the text is that of an opening in it. -/
theorem exists_read_of_mem_readAll {t : Text} {r : Reading} (h : r ∈ readAll t) :
    ∃ cursor o, BlockOpening.find? t cursor = some o ∧ read t o = r := by
  obtain ⟨cursor, -, hr⟩ := Text.exists_find_of_mem_scanAll h
  obtain ⟨o, ho, hread⟩ := Option.map_eq_some_iff.mp hr
  exact ⟨cursor, o, ho, hread⟩

/-- What a reading says of the opening `o`: a body is the stretch between its two ends,
and a malformed end marker is one for the opening's name. -/
def Reading.IsOf (t : Text) (o : BlockOpening) : Reading → Prop
  | .closed b => b.opening = o ∧ t.slice b.bodyStart b.bodyStop = b.body
  | .malformed o' ending => o' = o ∧ ending.wellFormed = false ∧
    ∃ k, EndMarker.find? t o.call.name.written k = some ending
  | .unterminated o' => o' = o

theorem isOf_read (t : Text) (o : BlockOpening) : (read t o).IsOf t o := by
  unfold read
  simp only
  split
  next => rfl
  next e he =>
    split
    next => exact ⟨rfl, Text.slice_add_length_slice t _ _⟩
    next hw => exact ⟨rfl, Bool.eq_false_iff.mpr hw, _, he⟩

/-- Whether the marker opens a block for which an end marker of either form
follows. -/
def opensAt (t : Text) (marker : Nat) : Bool :=
  match BlockOpening.at? t 0 marker with
  | none => false
  | some o => (EndMarker.find? t o.call.name.written o.stop).isSome

/-! ## Going on behind a body -/

section

variable {blocks : List Block} {cursor offset stop : Nat} {b : Block}

theorem resume_of_outside (h : around? blocks offset = none) : resume blocks offset stop = stop := by
  rw [resume, h]

theorem resume_of_inside (h : around? blocks offset = some b) :
    resume blocks offset stop = b.bodyStop := by
  rw [resume, h]

theorem lt_bodyStop_of_around? (h : around? blocks offset = some b) : offset < b.bodyStop := by
  have := List.find?_some h
  simp only [bodyContains, Bool.and_eq_true, decide_eq_true_eq] at this
  exact this.2

/-- A search moves on with what it finds, in a body or outside. -/
theorem lt_resume (hoffset : cursor ≤ offset) (hstop : cursor < stop) :
    cursor < resume blocks offset stop := by
  cases h : around? blocks offset with
  | none =>
    rw [resume_of_outside h]
    exact hstop
  | some b =>
    rw [resume_of_inside h]
    exact Nat.lt_of_le_of_lt hoffset (lt_bodyStop_of_around? h)

end

end Block
end Directive
end TemplateDirectives
