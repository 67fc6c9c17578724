/-
What the searches find in the text of a tree of markup.

A search that takes no marker of a tree for its own passes over the whole tree
(`rejects_written`).  Boolean attributes are such a search, and so is the search
for the end marker of a name that no block of the tree is read as.  A block is
therefore closed by the end marker written for it, and the blocks found in a tree's
text are the blocks of its own level, each with the body written for it
(`readAll_written`).
-/
import TemplateDirectives.Proofs.Markup.Reading

namespace TemplateDirectives

open Directive

namespace Markup

/-! ## Passing over a tree -/

/-- What stands behind a marker: a name with its arguments, or the end word with the
name of a block. -/
inductive MarkerTail (names : List Name) : Text → Prop where
  | applied {n : Name} (hn : n.isProper = true) (a y : Text) :
      MarkerTail names ((Call.applied n a).written ++ y)
  | ending {n : Name} (hn : n.isProper = true) (hmem : n ∈ names) {y : Text}
      (hy : y.head?.any Name.isNameChar = false) :
      MarkerTail names (Name.endWord ++ (n.written ++ y))

theorem MarkerTail.head? {names : List Name} {x : Text} (h : MarkerTail names x) :
    x.head? ≠ some '@' := by
  cases h with
  | applied hn a y => exact Call.head?_applied hn a y
  | ending hn hmem hy => exact fun h => absurd h (by simp [Name.endWord])

theorem rejects_marker {α : Type} {accept : Nat → Text → Option α} {t x : Text} {a : Nat}
    (hd : t.drop a = callMarker ++ x)
    (h : accept a (callMarker ++ x) = none ∧ accept (a + 1) ('@' :: x) = none) :
    Text.Rejects accept t a (a + callMarker.length) := by
  intro k hak hk
  have hk' : k = a ∨ k = a + 1 := by
    simp only [callMarker, List.length_cons, List.length_nil] at hk
    omega
  rcases hk' with rfl | rfl
  · rw [hd]
    exact h.1
  · rw [← List.drop_drop, hd]
    exact h.2

theorem at_not_mem_of_all {p : Char → Bool} (hp : p '@' = false) {s : Text}
    (hs : s.all p = true) : '@' ∉ s := by
  intro h
  rw [List.all_eq_true.mp hs '@' h] at hp
  cases hp

theorem at_not_mem_colon_lead {lead : Text} (hl : lead.all Text.isBlank = true) :
    '@' ∉ ':' :: lead := by
  have := at_not_mem_of_all (by decide) hl
  simpa using this

theorem at_not_mem_ending {n : Name} (hn : n.IsFormed) : '@' ∉ Name.endWord ++ n.written := by
  have := Name.at_not_mem_written hn
  simpa [Name.endWord] using this

/-- A block's pieces in a text where its line begins at `a`, with `after` behind it. -/
structure BlockAt (t : Text) (a : Nat) (indent : Text) (n : Name) (args lead : Text)
    (body : Markup) (after : Text) : Prop where
  atLine : t.drop a = indent ++ (callMarker ++ ((Call.applied n args).written ++ ':' :: (lead ++
    (body.written ++ (callMarker ++ (Name.endWord ++ (n.written ++ after)))))))
  atMarker : t.drop (a + indent.length) = callMarker ++ ((Call.applied n args).written ++
    ':' :: (lead ++ (body.written ++ (callMarker ++ (Name.endWord ++ (n.written ++ after))))))
  atCall : t.drop (a + indent.length + callMarker.length) = (Call.applied n args).written ++
    ':' :: (lead ++ (body.written ++ (callMarker ++ (Name.endWord ++ (n.written ++ after)))))
  atColon : t.drop (a + indent.length + callMarker.length + (Call.applied n args).written.length)
    = (':' :: lead) ++ (body.written ++ (callMarker ++ (Name.endWord ++ (n.written ++ after))))
  atBody : t.drop (bodyOffset a indent n args lead) =
    body.written ++ (callMarker ++ (Name.endWord ++ (n.written ++ after)))
  atEnding : t.drop (bodyOffset a indent n args lead + body.written.length) =
    callMarker ++ (Name.endWord ++ (n.written ++ after))
  atName : t.drop (bodyOffset a indent n args lead + body.written.length + callMarker.length) =
    (Name.endWord ++ n.written) ++ after
  atAfter : t.drop (endOffset a indent n args lead body) = after

theorem colon_lead_bodyOffset (a : Nat) (indent : Text) (n : Name) (args lead : Text) :
    a + indent.length + callMarker.length + (Call.applied n args).written.length +
      (':' :: lead).length = bodyOffset a indent n args lead := by
  simp only [bodyOffset, List.length_cons]
  omega

theorem ending_endOffset (a : Nat) (indent : Text) (n : Name) (args lead : Text) (body : Markup) :
    bodyOffset a indent n args lead + body.written.length + callMarker.length +
      (Name.endWord ++ n.written).length = endOffset a indent n args lead body := by
  simp only [endOffset, List.length_append]
  omega

theorem endOffset_add_length (a : Nat) (indent : Text) (n : Name) (args lead : Text)
    (body rest : Markup) : endOffset a indent n args lead body + rest.written.length =
      a + (block indent n args lead body rest).written.length := by
  simp only [written, endOffset, bodyOffset, List.length_append, List.length_cons]
  omega

theorem written_block (indent : Text) (n : Name) (args lead : Text) (body rest : Markup) :
    (block indent n args lead body rest).written =
      (block indent n args lead body nil).written ++ rest.written := by
  simp only [written, List.append_assoc, List.cons_append, List.nil_append]

theorem blockAt_of_drop {t : Text} {a : Nat} {indent args lead post : Text} {n : Name}
    {body rest : Markup}
    (hd : t.drop a = (block indent n args lead body rest).written ++ post) :
    BlockAt t a indent n args lead body (rest.written ++ post) := by
  have h1 : t.drop a = indent ++ (callMarker ++ ((Call.applied n args).written ++ ':' :: (lead ++
      (body.written ++ (callMarker ++ (Name.endWord ++ (n.written ++ (rest.written ++ post)))))))) := by
    simpa only [written, List.append_assoc, List.cons_append] using hd
  have h2 := Text.drop_of_drop h1
  have h3 := Text.drop_of_drop h2
  have h4 := Text.drop_of_drop h3
  rw [← List.cons_append] at h4
  have h5 := Text.drop_of_drop h4
  have h6 := Text.drop_of_drop h5
  have h7 := Text.drop_of_drop h6
  rw [← List.append_assoc] at h7
  have h8 := Text.drop_of_drop h7
  rw [colon_lead_bodyOffset] at h5 h6 h7 h8
  rw [ending_endOffset] at h8
  exact ⟨h1, h2, h3, h4, h5, h6, h7, h8⟩

theorem blockAt_of_drop_eq {t : Text} {a : Nat} {indent args lead : Text} {n : Name}
    {body rest : Markup} (hd : t.drop a = (block indent n args lead body rest).written) :
    BlockAt t a indent n args lead body rest.written := by
  have hat : BlockAt t a indent n args lead body (rest.written ++ []) :=
    blockAt_of_drop (by rw [hd, List.append_nil])
  rwa [List.append_nil] at hat

theorem before?_applied {t rest args : Text} {a : Nat} {n : Name}
    (h : t.drop a = (Call.applied n args).written ++ rest) :
    t.before? (a + (Call.applied n args).written.length) = some ')' := by
  rw [Text.before?_of_drop h, Call.getLast?_applied, Option.some_or]

theorem BlockAt.before?_endOffset {t indent args lead after : Text} {a : Nat} {n : Name}
    {body : Markup} (hat : BlockAt t a indent n args lead body after) (hn : n.isProper = true) :
    t.before? (endOffset a indent n args lead body) = n.written.getLast? := by
  have hlast := Text.before?_of_drop hat.atName
  obtain ⟨c, hc, -⟩ := Name.getLast?_written (Name.isFormed_of_isProper hn)
  rw [ending_endOffset, List.getLast?_append, hc, Option.some_or, Option.some_or] at hlast
  rw [hlast, hc]

theorem BlockAt.endOffset_le {t indent args lead after : Text} {a : Nat} {n : Name}
    {body : Markup} (hat : BlockAt t a indent n args lead body after) :
    endOffset a indent n args lead body ≤ t.length := by
  have hlt := Text.lt_length_of_drop hat.atName (by simp [Name.endWord])
  rw [← ending_endOffset]
  exact Text.add_length_le_of_drop hat.atName (Nat.le_of_lt hlt)

/-- A search that accepts only at an `@`, and at none of a tree's markers, finds
nothing in the tree.  By induction on the tree, with the text behind it as given. -/
theorem rejects_written {α : Type} {accept : Nat → Text → Option α} {t : Text}
    {names : List Name} (hplain : ∀ k u, u.head? ≠ some '@' → accept k u = none)
    (hmarker : ∀ k x, t.drop k = callMarker ++ x → MarkerTail names x →
      accept k (callMarker ++ x) = none ∧ accept (k + 1) ('@' :: x) = none)
    {m : Markup} {before : Option Char} (hm : m.WellFormedAfter before)
    (hnames : ∀ n ∈ m.blockNames, n ∈ names) {a : Nat} {post : Text}
    (hd : t.drop a = m.written ++ post) (hpost : post.head?.any Name.isNameChar = false) :
    Text.Rejects accept t a (a + m.written.length) := by
  have hstep : ∀ {k x}, t.drop k = callMarker ++ x → MarkerTail names x →
      Text.Rejects accept t k (k + callMarker.length) :=
    fun hk hx => rejects_marker hk (hmarker _ _ hk hx)
  induction m generalizing before a post with
  | nil => exact Text.Rejects.refl a
  | text s rest ih =>
    obtain ⟨hs, hrest⟩ := hm
    rw [written, List.append_assoc] at hd
    have h1 := Text.Rejects.of_not_mem hd hs hplain
    have h2 := ih hrest hnames (Text.drop_of_drop hd) hpost
    rw [written, List.length_append, ← Nat.add_assoc]
    exact h1.trans h2
  | call n args rest ih =>
    obtain ⟨hn, ha, -, -, -, hrest⟩ := hm
    rw [written, List.append_assoc, List.append_assoc] at hd
    have h1 := hstep hd (.applied hn args _)
    have h2 := Text.Rejects.of_not_mem (Text.drop_of_drop hd) (Call.at_not_mem_applied hn ha) hplain
    have h3 := ih hrest hnames (Text.drop_of_drop (Text.drop_of_drop hd)) hpost
    simp only [written, List.length_append, ← Nat.add_assoc]
    exact (h1.trans h2).trans h3
  | block indent n args lead body rest ihbody ihrest =>
    obtain ⟨hn, ha, -, -, hi, hl, -, hbody, -, hend, hrest⟩ := hm
    have hfollow : (rest.written ++ post).head?.any Name.isNameChar = false := by
      cases hw : rest.written with
      | nil => exact hpost
      | cons c w =>
        rw [hw] at hend
        exact hend
    have hat := blockAt_of_drop hd
    simp only [blockNames, List.mem_cons, List.mem_append] at hnames
    have h1 := Text.Rejects.of_not_mem hat.atLine (at_not_mem_of_all (by decide) hi) hplain
    have h2 := hstep hat.atMarker (.applied hn args _)
    have h3 := Text.Rejects.of_not_mem hat.atCall (Call.at_not_mem_applied hn ha) hplain
    have h4 := Text.Rejects.of_not_mem hat.atColon (at_not_mem_colon_lead hl) hplain
    have h5 := ihbody hbody (fun k hk => hnames k (.inr (.inl hk))) hat.atBody rfl
    have h6 := hstep hat.atEnding (.ending hn (hnames n (.inl rfl)) hfollow)
    have h7 := Text.Rejects.of_not_mem hat.atName
      (at_not_mem_ending (Name.isFormed_of_isProper hn)) hplain
    have h8 := ihrest hrest (fun k hk => hnames k (.inr (.inr hk))) hat.atAfter hpost
    rw [colon_lead_bodyOffset] at h4
    rw [ending_endOffset] at h7
    rw [← endOffset_add_length]
    exact (((((((h1.trans h2).trans h3).trans h4).trans h5).trans h6).trans h7).trans h8)

/-! ## Attributes and end markers -/

/-- A tree has no boolean attribute, whatever its names are. -/
theorem find?_attribute_written {m : Markup} (hm : m.WellFormed) :
    Attribute.find? m.written 0 = none := by
  have hd : m.written.drop 0 = m.written ++ [] := by simp
  have hr : Text.Rejects (Attribute.at? m.written 0) m.written 0 (0 + m.written.length) :=
    rejects_written Attribute.at?_eq_none_of_head
      (fun k x hk _ => Attribute.at?_marker hk) hm (fun n hn => hn) hd rfl
  rw [Nat.zero_add] at hr
  exact Text.firstMatch_eq_none_of_rejects hr (Nat.zero_le _) List.drop_length

theorem rejects_endMarker {m : Markup} {before : Option Char} (hm : m.WellFormedAfter before)
    {outer : Name} (ho : outer.isProper = true)
    (hnames : ∀ n ∈ m.blockNames, outer.isReadAs n = false) {t : Text} {a : Nat} {post : Text}
    (hd : t.drop a = m.written ++ post) (hpost : post.head?.any Name.isNameChar = false) :
    Text.Rejects (EndMarker.at? t outer.written) t a (a + m.written.length) := by
  refine rejects_written EndMarker.at?_eq_none_of_head (fun k x _ hx => ?_) hm
    (fun n hn => hn) hd hpost
  refine EndMarker.at?_marker hx.head? ?_ k
  cases hx with
  | applied hn a y => exact EndMarker.closes_applied hn a y
  | ending hn hmem hy =>
    exact EndMarker.closes_ending (Name.isFormed_of_isProper ho) (Name.isFormed_of_isProper hn)
      (hnames _ hmem) hy

/-! ## Blocks -/

def openingAt (t : Text) (cursor marker : Nat) (rest : Text) : Option BlockOpening :=
  if callMarker.isPrefixOf rest then BlockOpening.at? t cursor marker else none

theorem find?_opening (t : Text) (cursor : Nat) :
    BlockOpening.find? t cursor = Text.firstMatch (openingAt t cursor) cursor (t.drop cursor) := rfl

theorem openingAt_marker (t : Text) (cursor marker : Nat) (x : Text) :
    openingAt t cursor marker (callMarker ++ x) = BlockOpening.at? t cursor marker := by
  rw [openingAt, if_pos (List.isPrefixOf_iff_prefix.mpr (List.prefix_append _ _))]

theorem openingAt_eq_none {t rest : Text} {cursor marker : Nat} (h : ¬ callMarker <+: rest) :
    openingAt t cursor marker rest = none := by
  rw [openingAt, if_neg (by rwa [List.isPrefixOf_iff_prefix])]

theorem openingAt_eq_none_of_head {t : Text} {cursor : Nat} (k : Nat) (u : Text)
    (h : u.head? ≠ some '@') : openingAt t cursor k u = none := by
  refine openingAt_eq_none fun hp => h ?_
  obtain ⟨more, rfl⟩ := hp
  rfl

theorem openingAt_second_eq_none {t x : Text} {cursor marker : Nat} (hx : x.head? ≠ some '@') :
    openingAt t cursor marker ('@' :: x) = none := by
  refine openingAt_eq_none fun hp => hx ?_
  obtain ⟨more, hm⟩ := hp
  rw [← (List.cons.inj hm).2]
  rfl

/-- The block that is read where a tree has one. -/
def blockOf (t : Text) (cursor offset : Nat) (indent : Text) (n : Name) (args lead : Text)
    (body : Markup) : Block where
  opening := {
    marker := offset + indent.length
    indent := indent
    blanks := Text.takeEndWhile Text.isBlank (t.slice cursor offset)
    call := Call.applied n args }
  bodyStart := bodyOffset offset indent n args lead
  body := body.written
  stop := endOffset offset indent n args lead body

/-- The blocks of a tree's own level, when the tree stands at `offset` in `t` and the
search for blocks has come to `cursor`. -/
def blocksFrom (t : Text) (cursor offset : Nat) : Markup → List Block
  | nil => []
  | text s rest => rest.blocksFrom t cursor (offset + s.length)
  | call n args rest =>
    rest.blocksFrom t cursor (offset + callMarker.length + (Call.applied n args).written.length)
  | block indent n args lead body rest =>
    let stop := endOffset offset indent n args lead body
    blockOf t cursor offset indent n args lead body :: rest.blocksFrom t stop stop

section

variable {t indent args lead after : Text} {offset : Nat} {n : Name} {body : Markup}

theorem at?_opening (hat : BlockAt t offset indent n args lead body after)
    (hn : n.isProper = true) (ha : ClosesItself args) (hi : indent.all Text.isIndent = true)
    (hline : (t.before? offset).all (· == '\n') = true) {cursor : Nat} (hc : cursor ≤ offset) :
    BlockOpening.at? t cursor (offset + indent.length) =
      some (blockOf t cursor offset indent n args lead body).opening :=
  BlockOpening.at?_eq_some hat.atLine (Call.read?_applied hn ha _) hi hline hc

theorem stop_blockOf (t : Text) (cursor : Nat) (body : Markup) :
    (blockOf t cursor offset indent n args lead body).opening.stop + lead.length =
      bodyOffset offset indent n args lead := rfl

theorem drop_stop (hat : BlockAt t offset indent n args lead body after) (cursor : Nat) :
    t.drop (blockOf t cursor offset indent n args lead body).opening.stop =
      lead ++ (body.written ++ (callMarker ++ (Name.endWord ++ (n.written ++ after)))) := by
  have hcolon := hat.atColon
  rw [show ':' :: lead = [':'] ++ lead from rfl, List.append_assoc] at hcolon
  exact Text.drop_of_drop hcolon

theorem find?_endMarker (hat : BlockAt t offset indent n args lead body after)
    (hn : n.isProper = true) (hbody : body.WellFormedAfter none)
    (hnames : ∀ k ∈ body.blockNames, n.isReadAs k = false)
    (hafter : after.head?.any Text.isWord = false) {a : Nat}
    (ha : a ≤ bodyOffset offset indent n args lead)
    (hr : Text.Rejects (EndMarker.at? t n.written) t a (bodyOffset offset indent n args lead)) :
    EndMarker.find? t n.written a =
      some ⟨bodyOffset offset indent n args lead + body.written.length,
        endOffset offset indent n args lead body, true⟩ := by
  have hpass := hr.trans (rejects_endMarker hbody hn hnames hat.atBody rfl)
  refine Text.firstMatch_eq_some_of_rejects hpass (by omega) ?_ ?_
  · rw [hat.atEnding]
    exact EndMarker.at?_ending hafter _
  · exact Text.lt_length_of_drop hat.atEnding (by decide)

/-- A block is closed by the end marker written for it, with the body written for
it. -/
theorem read_opening (hat : BlockAt t offset indent n args lead body after)
    (hn : n.isProper = true) (hl : lead.all Text.isBlank = true)
    (hhead : body.written.head?.any Text.isBlank = false) (hbody : body.WellFormedAfter none)
    (hnames : ∀ k ∈ body.blockNames, n.isReadAs k = false)
    (hafter : after.head?.any Text.isWord = false) (cursor : Nat) :
    Block.read t (blockOf t cursor offset indent n args lead body).opening =
      .closed (blockOf t cursor offset indent n args lead body) := by
  have hfollow : (body.written ++ (callMarker ++ (Name.endWord ++ (n.written ++ after)))).head?.any
      Text.isBlank = false := by
    cases hw : body.written with
    | nil => rfl
    | cons c w =>
      rw [hw] at hhead
      exact hhead
  have hlead : (t.drop (blockOf t cursor offset indent n args lead body).opening.stop).takeWhile
      Text.isBlank = lead := by
    rw [drop_stop hat]
    exact Text.takeWhile_append_of_stop (List.all_eq_true.mp hl) hfollow
  have hend := find?_endMarker hat hn hbody hnames hafter (Nat.le_refl _) (Text.Rejects.refl _)
  simp only [Block.read, hlead, stop_blockOf]
  rw [show (blockOf t cursor offset indent n args lead body).opening.call.name.written = n.written
    from rfl, hend]
  simp only [if_true, Text.slice_of_drop hat.atBody]
  rfl

end

theorem find?_block {t indent args lead after : Text} {cursor offset : Nat} {n : Name}
    {body : Markup} (hat : BlockAt t offset indent n args lead body after)
    (hn : n.isProper = true) (ha : ClosesItself args)
    (hline : (t.before? offset).all (· == '\n') = true) (hi : indent.all Text.isIndent = true)
    (hl : lead.all Text.isBlank = true) (hhead : body.written.head?.any Text.isBlank = false)
    (hbody : body.WellFormedAfter none) (hnames : ∀ k ∈ body.blockNames, n.isReadAs k = false)
    (hafter : after.head?.any Text.isWord = false) (hc : cursor ≤ offset)
    (hr : Text.Rejects (openingAt t cursor) t cursor offset) :
    Block.find? t cursor = some (.closed (blockOf t cursor offset indent n args lead body)) := by
  have hpass := hr.trans (Text.Rejects.of_not_mem hat.atLine (at_not_mem_of_all (by decide) hi)
    openingAt_eq_none_of_head)
  have hfind : BlockOpening.find? t cursor =
      some (blockOf t cursor offset indent n args lead body).opening := by
    rw [find?_opening]
    refine Text.firstMatch_eq_some_of_rejects hpass (by omega) ?_ ?_
    · rw [hat.atMarker, openingAt_marker]
      exact at?_opening hat hn ha hi hline hc
    · exact Text.lt_length_of_drop hat.atMarker (by decide)
  rw [Block.find?, hfind, Option.map_some, read_opening hat hn hl hhead hbody hnames hafter]

/-- The search for blocks takes a tree's own blocks one after another.  By induction on
the tree, with the search having come to `cursor` and nothing to find up to the
tree. -/
theorem scanAll_written {m : Markup} {t : Text} {cursor offset : Nat}
    (hm : m.WellFormedAfter (t.before? offset)) (hd : t.drop offset = m.written)
    (hc : cursor ≤ offset) (hr : Text.Rejects (openingAt t cursor) t cursor offset) :
    Text.scanAll (Block.find? t) Block.Reading.next t.length Block.progress cursor =
      (m.blocksFrom t cursor offset).map .closed := by
  induction m generalizing cursor offset with
  | nil =>
    have hnone : Block.find? t cursor = none := by
      rw [Block.find?, find?_opening, Text.firstMatch_eq_none_of_rejects hr hc hd]
      rfl
    rw [Text.scanAll_eq, hnone]
    rfl
  | text s rest ih =>
    obtain ⟨hs, hrest⟩ := hm
    rw [← Text.before?_of_drop hd] at hrest
    exact ih hrest (Text.drop_of_drop hd) (by omega)
      (hr.trans (Text.Rejects.of_not_mem hd hs openingAt_eq_none_of_head))
  | call n args rest ih =>
    obtain ⟨hn, ha, hcloses, -, hcolon, hrest⟩ := hm
    have hmarker : openingAt t cursor offset (callMarker ++ ((Call.applied n args).written ++
        rest.written)) = none ∧ openingAt t cursor (offset + 1) ('@' ::
          ((Call.applied n args).written ++ rest.written)) = none := by
      refine ⟨?_, openingAt_second_eq_none (Call.head?_applied hn args _)⟩
      rw [openingAt_marker]
      exact BlockOpening.at?_eq_none (Text.drop_of_drop hd) (Call.read?_applied hn hcloses _) hcolon
    have hcall := Text.drop_of_drop hd
    rw [← before?_applied hcall] at hrest
    exact ih hrest (Text.drop_of_drop hcall) (by omega)
      ((hr.trans (rejects_marker hd hmarker)).trans
        (Text.Rejects.of_not_mem hcall (Call.at_not_mem_applied hn ha) openingAt_eq_none_of_head))
  | block indent n args lead body rest ihbody ihrest =>
    obtain ⟨hn, ha, hcloses, hline, hi, hl, hhead, hbody, hnames, hafter, hrest⟩ := hm
    have hat := blockAt_of_drop_eq hd
    rw [← hat.before?_endOffset hn] at hrest
    rw [Text.scanAll_eq, find?_block hat hn hcloses hline hi hl hhead hbody hnames
      (Name.any_isWord_of_any_isNameChar hafter) hc hr]
    simp only [blocksFrom, List.map_cons]
    rw [← ihrest hrest hat.atAfter (Nat.le_refl _) (Text.Rejects.refl _)]
    rfl

/-- The blocks of a tree's text are the tree's own blocks, all of them closed. -/
theorem readAll_written {m : Markup} (hm : m.WellFormed) :
    Block.readAll m.written = (m.blocksFrom m.written 0 0).map .closed :=
  scanAll_written hm rfl (Nat.le_refl 0) (Text.Rejects.refl 0)

theorem closedBlocks_written {m : Markup} (hm : m.WellFormed) :
    Block.closedBlocks m.written = m.blocksFrom m.written 0 0 := by
  rw [Block.closedBlocks, readAll_written hm, List.filterMap_map]
  exact List.filterMap_some

end Markup
end TemplateDirectives
