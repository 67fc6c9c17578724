/-
The rule for short calls on the text of a tree of markup.

The rule replaces the short calls of the tree's own level and nothing else:
`applyShortCalls_written` says that what it makes of the text is the text of the
tree with those calls expanded.  The opening of a block is met as a call with a
colon behind it and left alone, since the block is closed.  A call in a body is
either never met or makes the search go on behind the body (`callsFrom_passes_block`), and
then no edit comes from it.
-/
import TemplateDirectives.Proofs.Markup.Scanning

namespace TemplateDirectives

open Directive

namespace Edit

/-- An edit that puts the blanks before its directive back leaves what stands before
the directive as it is. -/
theorem applyFrom_blanks {t : Text} {copied cursor marker stop : Nat} (code : Text)
    (es : List Edit) (hcopied : copied ≤ cursor) (hcursor : cursor ≤ marker)
    (hmarker : marker ≤ stop) (hlen : marker ≤ t.length) :
    let blanks := Text.takeEndWhile Text.isBlank (t.slice cursor marker)
    applyFrom copied (t.drop copied) (⟨marker - blanks.length, stop, blanks ++ code⟩ :: es) =
      t.slice copied marker ++ (code ++ applyFrom stop (t.drop stop) es) := by
  intro blanks
  have hblanks : blanks.length ≤ marker - cursor :=
    Text.length_takeEndWhile_slice_le Text.isBlank t cursor marker
  have htake : (t.drop copied).take (marker - blanks.length - copied)
      = t.slice copied (marker - blanks.length) := by
    rw [Text.slice, List.drop_take]
  have hcopy : t.slice copied (marker - blanks.length) ++ blanks = t.slice copied marker := by
    rw [← Text.slice_append_slice t hcopied (by omega : cursor ≤ marker - blanks.length),
      List.append_assoc, Text.slice_append_takeEndWhile Text.isBlank hlen,
      Text.slice_append_slice t hcopied hcursor]
  have hrest : (t.drop copied).drop (stop - copied) = t.drop stop := by
    rw [List.drop_drop, show copied + (stop - copied) = stop by omega]
  rw [applyFrom, htake, hrest, ← List.append_assoc _ blanks code, hcopy, List.append_assoc]

end Edit

/-- A call is found where the search comes to it. -/
theorem Directive.ShortCall.find?_eq_some {t more : Text} {call : Call} {cursor k : Nat}
    (hd : t.drop k = callMarker ++ (call.written ++ more))
    (hcall : Call.read? (call.written ++ more) = some call)
    (hend : call.name.beginsWithEnd = false) (hbefore : (t.before? k).any Text.isWord = false)
    (hc : cursor ≤ k) (hr : Text.Rejects (at? t cursor) t cursor k) :
    find? t cursor =
      some ⟨k, Text.takeEndWhile Text.isBlank (t.slice cursor k), call, more.head? == some ':'⟩ := by
  refine Text.firstMatch_eq_some_of_rejects hr hc ?_ (Text.lt_length_of_drop hd (by decide))
  rw [hd]
  exact at?_eq_some hbefore hcall hend

namespace Rule

/-- The calls that a search from `cursor` on finds outside of the bodies. -/
def callsFrom (t : Text) (closed : List Block) (cursor : Nat) : List ShortCall :=
  (Text.scanAll (ShortCall.find? t) (nextCall closed) t.length (call_progress closed)
    cursor).filter fun c => (Block.around? closed c.marker).isNone

variable {t : Text} {closed : List Block} {cursor : Nat} {c : ShortCall}

theorem callsFrom_of_none (h : ShortCall.find? t cursor = none) : callsFrom t closed cursor = [] := by
  rw [callsFrom, Text.scanAll_eq, h]
  rfl

theorem callsFrom_of_outside (h : ShortCall.find? t cursor = some c)
    (ha : Block.around? closed c.marker = none) :
    callsFrom t closed cursor = c :: callsFrom t closed c.stop := by
  rw [callsFrom, Text.scanAll_eq, h]
  simp only [nextCall, Block.resume_of_outside ha, ha, List.filter_cons, Option.isNone_none,
    if_true]
  rfl

theorem callsFrom_of_inside {b : Block} (h : ShortCall.find? t cursor = some c)
    (ha : Block.around? closed c.marker = some b) :
    callsFrom t closed cursor = callsFrom t closed b.bodyStop := by
  rw [callsFrom, Text.scanAll_eq, h]
  simp only [nextCall, Block.resume_of_inside ha, ha, List.filter_cons, Option.isNone_some,
    Bool.false_eq_true, if_false]
  rfl

/-- The text from `copied` on, with the edits of some calls applied. -/
def callsText (cx : Context) (t : Text) (copied : Nat) (cs : List ShortCall) :
    Except CompileError Text :=
  cs.mapM (callEdit? cx t) >>= fun edits =>
    .ok (Edit.applyFrom copied (t.drop copied) (edits.filterMap id))

theorem callsText_nil (cx : Context) (t : Text) (copied : Nat) :
    callsText cx t copied [] = .ok (t.drop copied) := rfl

/-- A call without a colon is expanded, and what stands before it is copied. -/
theorem callsText_cons (cx : Context) {copied : Nat} {cs : List ShortCall}
    (hcolon : c.colon = false)
    (hblanks : c.blanks = Text.takeEndWhile Text.isBlank (t.slice cursor c.marker))
    (hcopied : copied ≤ cursor) (hcursor : cursor ≤ c.marker) (hlen : c.marker ≤ t.length) :
    callsText cx t copied (c :: cs) =
      cx.expand ⟨cx.handler c.call.name, none, none, c.call.argumentText⟩ (cx.position t c.marker)
          (cx.dialect.host.call (cx.handler c.call.name) c.call.argumentText) >>= fun code =>
        callsText cx t c.stop cs >>= fun u => .ok (t.slice copied c.marker ++ (code ++ u)) := by
  simp only [callsText, List.mapM_cons, callEdit?, hcolon, Bool.false_eq_true, if_false, bind_assoc,
    pure_bind]
  congr 1
  funext code
  congr 1
  funext edits
  show Except.ok (Edit.applyFrom copied (t.drop copied)
    (⟨c.marker - c.blanks.length, c.stop, c.blanks ++ code⟩ :: edits.filterMap id)) = _
  rw [hblanks]
  exact congrArg Except.ok
    (Edit.applyFrom_blanks code _ hcopied hcursor (Nat.le_of_lt c.marker_lt_stop) hlen)

theorem callsText_opening (cx : Context) {copied : Nat} {cs : List ShortCall}
    (hcolon : c.colon = true) (hopens : Block.opensAt t c.marker = true) :
    callsText cx t copied (c :: cs) = callsText cx t copied cs := by
  simp only [callsText, List.mapM_cons, callEdit?, hcolon, hopens, if_true, bind_assoc]
  rfl

theorem applyAttributes_of_find?_eq_none (cx : Context) (h : Attribute.find? t 0 = none) :
    applyAttributes cx t = t := by
  have hnone : attributesOutsideBodies t = [] := by
    rw [attributesOutsideBodies]
    simp only [Text.scanAll_eq, h, List.filter_nil]
  rw [applyAttributes, hnone]
  rfl

theorem applyShortCalls_eq (cx : Context) (t : Text) :
    applyShortCalls cx t = callsText cx t 0 (callsFrom t (Block.closedBlocks t) 0) := rfl

end Rule

namespace Markup

/-! ## Bodies of the tree's own blocks -/

theorem lt_bodyStart_of_mem {m : Markup} {t : Text} {cursor offset : Nat} {b : Block}
    (hb : b ∈ m.blocksFrom t cursor offset) : offset < b.bodyStart := by
  induction m generalizing cursor offset with
  | nil => simp [blocksFrom] at hb
  | text s rest ih => exact Nat.lt_of_le_of_lt (Nat.le_add_right _ _) (ih hb)
  | call n args rest ih =>
    have := ih hb
    omega
  | block indent n args lead body rest ihbody ihrest =>
    simp only [blocksFrom, List.mem_cons] at hb
    rcases hb with rfl | hb
    · simp only [blockOf, bodyOffset]
      omega
    · have := ihrest hb
      simp only [endOffset, bodyOffset] at this
      omega

theorem marker_lt_bodyStart_of_mem {t indent args lead : Text} {cursor offset : Nat} {n : Name}
    {body rest : Markup} {b : Block}
    (hb : b ∈ (block indent n args lead body rest).blocksFrom t cursor offset) :
    offset + indent.length < b.bodyStart := by
  simp only [blocksFrom, List.mem_cons] at hb
  rcases hb with rfl | hb
  · simp only [blockOf, bodyOffset]
    omega
  · have := lt_bodyStart_of_mem hb
    simp only [endOffset, bodyOffset] at this
    omega

theorem around?_eq_none {blocks : List Block} {offset : Nat}
    (h : ∀ b ∈ blocks, b.bodyStop ≤ offset ∨ offset < b.bodyStart) :
    Block.around? blocks offset = none := by
  rw [Block.around?, List.find?_eq_none]
  intro b hb
  simp only [Block.bodyContains, Bool.and_eq_true, decide_eq_true_eq]
  have := h b hb
  omega

theorem around?_append_eq_none {earlier later : List Block} {offset : Nat}
    (hearlier : ∀ b ∈ earlier, b.bodyStop ≤ offset) (hlater : ∀ b ∈ later, offset < b.bodyStart) :
    Block.around? (earlier ++ later) offset = none := by
  refine around?_eq_none fun b hb => ?_
  rcases List.mem_append.mp hb with hb | hb
  · exact .inl (hearlier b hb)
  · exact .inr (hlater b hb)

theorem around?_eq_some {before after : List Block} {b : Block} {offset : Nat}
    (hbefore : ∀ b ∈ before, b.bodyStop ≤ offset) (hstart : b.bodyStart ≤ offset)
    (hstop : offset < b.bodyStop) : Block.around? (before ++ b :: after) offset = some b := by
  have hnone := around?_eq_none fun b hb => .inl (hbefore b hb)
  rw [Block.around?] at hnone ⊢
  rw [List.find?_append, hnone, Option.none_or, List.find?_cons_of_pos]
  simp only [Block.bodyContains, Bool.and_eq_true, decide_eq_true_eq]
  exact ⟨hstart, hstop⟩

/-- The search for calls passes a block with no find outside of its body.  It stays at the
colon of the block when no call is met in the body, and else goes on from behind the body,
and from there it finds nothing up to the end of the block. -/
theorem callsFrom_passes_block {t : Text} {b : Block} {earlier later : List Block} {colon stop : Nat}
    (hopening : Text.Rejects (ShortCall.at? t colon) t colon b.bodyStart)
    (hending : ∀ k, k ≤ b.bodyStop → Text.Rejects (ShortCall.at? t k) t b.bodyStop stop)
    (hcolon : colon ≤ b.bodyStart) (hbody : b.bodyStop ≤ stop) (hstop : stop ≤ t.length)
    (hearlier : ∀ b' ∈ earlier, b'.bodyStop ≤ b.bodyStart) :
    ∃ k, colon ≤ k ∧ k ≤ stop ∧ Text.Rejects (ShortCall.at? t k) t k stop ∧
      Rule.callsFrom t (earlier ++ b :: later) colon =
        Rule.callsFrom t (earlier ++ b :: later) k := by
  have hle : b.bodyStart ≤ b.bodyStop := Nat.le_add_right b.bodyStart b.body.length
  cases hf : ShortCall.find? t colon with
  | none =>
    exact ⟨colon, Nat.le_refl _, by omega, (Text.rejects_of_firstMatch_eq_none hf).mono hstop, rfl⟩
  | some c =>
    obtain ⟨k, hk, -, hc, hrejects⟩ := Text.rejects_of_firstMatch hf
    obtain rfl := ShortCall.marker_of_at? hc
    rcases Nat.lt_or_ge c.marker b.bodyStop with hin | hout
    · -- the call lies in the body, for nothing is met on the way there
      have hstart : b.bodyStart ≤ c.marker := by
        refine Nat.le_of_not_lt fun hlt => ?_
        rw [hopening c.marker hk hlt] at hc
        cases hc
      have hskip : ∀ b' ∈ earlier, b'.bodyStop ≤ c.marker := fun b' hb' =>
        Nat.le_trans (hearlier b' hb') hstart
      exact ⟨b.bodyStop, by omega, hbody, hending _ (Nat.le_refl _),
        Rule.callsFrom_of_inside hf (around?_eq_some hskip hstart hin)⟩
    · exact ⟨colon, Nat.le_refl _, by omega,
        (hrejects.mono hout).trans (hending colon (by omega)), rfl⟩

/-! ## The calls of a tree's own level -/

/-- The tree with the short calls of its own level expanded, when it stands at `offset`
in `t`.  Bodies stay as they are. -/
def expandCalls (cx : Context) (t : Text) : (offset : Nat) → Markup → Except CompileError Markup
  | _, nil => .ok nil
  | offset, text s rest => do
    let rest ← rest.expandCalls cx t (offset + s.length)
    return text s rest
  | offset, call n args rest => do
    let handler := cx.handler n
    let code ← cx.expand ⟨handler, none, none, args⟩ (cx.position t offset)
      (cx.dialect.host.call handler args)
    let rest ← rest.expandCalls cx t
      (offset + callMarker.length + (Call.applied n args).written.length)
    return text code rest
  | offset, block indent n args lead body rest => do
    let rest ← rest.expandCalls cx t (endOffset offset indent n args lead body)
    return block indent n args lead body rest

section

variable {t indent args lead after : Text} {offset : Nat} {n : Name} {body : Markup}

theorem BlockAt.any_isWord_before (hat : BlockAt t offset indent n args lead body after)
    (hline : (t.before? offset).all (· == '\n') = true) (hi : indent.all Text.isIndent = true) :
    (t.before? (offset + indent.length)).any Text.isWord = false := by
  rw [Text.before?_of_drop hat.atLine]
  cases hlast : indent.getLast? with
  | none =>
    cases hb : t.before? offset with
    | none => rfl
    | some c =>
      rw [hb, Option.all_some, beq_iff_eq] at hline
      rw [hline]
      rfl
  | some c =>
    have hc := List.all_eq_true.mp hi c (List.mem_of_getLast? hlast)
    rcases (by simpa [Text.isIndent] using hc : c = ' ' ∨ c = '\t') with rfl | rfl <;> rfl

/-- The search for calls takes a call or the opening of a block where it comes to it. -/
theorem find?_applied {more : Text} {cursor k : Nat}
    (hd : t.drop k = callMarker ++ ((Call.applied n args).written ++ more))
    (hn : n.isProper = true) (ha : ClosesItself args)
    (hbefore : (t.before? k).any Text.isWord = false) (hc : cursor ≤ k)
    (hr : Text.Rejects (ShortCall.at? t cursor) t cursor k) :
    ShortCall.find? t cursor = some ⟨k, Text.takeEndWhile Text.isBlank (t.slice cursor k),
      Call.applied n args, more.head? == some ':'⟩ :=
  ShortCall.find?_eq_some hd (Call.read?_applied hn ha more) (Name.isProper_iff.mp hn).2.2.2 hbefore
    hc hr

theorem rejects_ending (hat : BlockAt t offset indent n args lead body after)
    (hn : n.isProper = true) (cursor : Nat) :
    Text.Rejects (ShortCall.at? t cursor) t
      (bodyOffset offset indent n args lead + body.written.length)
      (endOffset offset indent n args lead body) := by
  have hmarker : Text.Rejects (ShortCall.at? t cursor) t _ _ := rejects_marker hat.atEnding
    ⟨ShortCall.at?_ending_eq_none _, ShortCall.at?_second_eq_none (by simp [Name.endWord])⟩
  have hname : Text.Rejects (ShortCall.at? t cursor) t _ _ :=
    Text.Rejects.of_not_mem hat.atName (at_not_mem_ending (Name.isFormed_of_isProper hn))
      ShortCall.at?_eq_none_of_head
  rw [ending_endOffset] at hname
  exact hmarker.trans hname

theorem opensAt_block (hat : BlockAt t offset indent n args lead body after)
    (hn : n.isProper = true) (ha : ClosesItself args)
    (hline : (t.before? offset).all (· == '\n') = true) (hi : indent.all Text.isIndent = true)
    (hl : lead.all Text.isBlank = true) (hbody : body.WellFormedAfter none)
    (hnames : ∀ k ∈ body.blockNames, n.isReadAs k = false)
    (hafter : after.head?.any Text.isWord = false) :
    Block.opensAt t (offset + indent.length) = true := by
  have hlead : Text.Rejects (EndMarker.at? t n.written) t _ _ :=
    Text.Rejects.of_not_mem (drop_stop hat 0) (at_not_mem_of_all (by decide) hl)
      EndMarker.at?_eq_none_of_head
  have hle : (blockOf t 0 offset indent n args lead body).opening.stop ≤
      bodyOffset offset indent n args lead := Nat.le_add_right _ lead.length
  have hfind := find?_endMarker hat hn hbody hnames hafter hle hlead
  rw [Block.opensAt, at?_opening hat hn ha hi hline (Nat.zero_le offset)]
  simp only
  rw [show (blockOf t 0 offset indent n args lead body).opening.call.name.written = n.written
    from rfl, hfind]
  rfl

/-- So the search passes a tree's own block, from the colon of its opening to its end. -/
theorem callsFrom_passes_blockOf (hat : BlockAt t offset indent n args lead body after)
    (hn : n.isProper = true) (hl : lead.all Text.isBlank = true) (cursor : Nat)
    {earlier : List Block} (later : List Block) {colon : Nat}
    (hearlier : ∀ b ∈ earlier, b.bodyStop ≤ offset)
    (hcolon : colon =
      offset + indent.length + callMarker.length + (Call.applied n args).written.length) :
    ∃ resume, colon ≤ resume ∧ resume ≤ endOffset offset indent n args lead body ∧
      Text.Rejects (ShortCall.at? t resume) t resume (endOffset offset indent n args lead body) ∧
      Rule.callsFrom t (earlier ++ blockOf t cursor offset indent n args lead body :: later) colon =
        Rule.callsFrom t (earlier ++ blockOf t cursor offset indent n args lead body :: later)
          resume := by
  have hopening : Text.Rejects (ShortCall.at? t colon) t _ _ :=
    Text.Rejects.of_not_mem hat.atColon (at_not_mem_colon_lead hl) ShortCall.at?_eq_none_of_head
  rw [colon_lead_bodyOffset, ← hcolon] at hopening
  refine callsFrom_passes_block hopening (fun k _ => rejects_ending hat hn k) ?_ ?_ hat.endOffset_le ?_
  · simp only [blockOf, bodyOffset, hcolon]
    omega
  · simp only [blockOf, Block.bodyStop, endOffset]
    omega
  · intro b hb
    have := hearlier b hb
    simp only [blockOf, bodyOffset]
    omega

end

theorem slice_block {t indent args lead : Text} {a offset : Nat} {n : Name} {body rest : Markup}
    (ha : a ≤ offset) (hd : t.drop offset = (block indent n args lead body rest).written) :
    t.slice a (endOffset offset indent n args lead body) =
      t.slice a offset ++ (block indent n args lead body nil).written := by
  rw [written_block] at hd
  rw [← Text.slice_add_of_drop ha hd, ← endOffset_add_length]
  rfl

/-- What the rule makes of the text from `copied` on.  By induction on the tree.
`earlier` are the blocks before it.  The search has come to `cursor`, and the text
is copied from `copied` on: meeting the opening of a block moves the search but
copies nothing. -/
theorem callsText_callsFrom {m : Markup} (cx : Context) {t : Text} (earlier : List Block)
    (scanned : Nat) {copied cursor offset : Nat} (hm : m.WellFormedAfter (t.before? offset))
    (hd : t.drop offset = m.written) (hcopied : copied ≤ cursor) (hcursor : cursor ≤ offset)
    (hlen : offset ≤ t.length) (hearlier : ∀ b ∈ earlier, b.bodyStop ≤ offset)
    (hr : Text.Rejects (ShortCall.at? t cursor) t cursor offset) :
    Rule.callsText cx t copied
        (Rule.callsFrom t (earlier ++ m.blocksFrom t scanned offset) cursor) =
      m.expandCalls cx t offset >>= fun m' => .ok (t.slice copied offset ++ m'.written) := by
  induction m generalizing earlier copied cursor scanned offset with
  | nil =>
    have hnone : ShortCall.find? t cursor = none :=
      Text.firstMatch_eq_none_of_rejects hr hcursor hd
    rw [Rule.callsFrom_of_none hnone, Rule.callsText_nil, ← Text.slice_of_drop_eq_nil hd]
    show Except.ok (t.slice copied offset) = Except.ok (t.slice copied offset ++ [])
    rw [List.append_nil]
  | text s rest ih =>
    obtain ⟨hs, hrest⟩ := hm
    rw [← Text.before?_of_drop hd] at hrest
    have hpass := hr.trans (Text.Rejects.of_not_mem hd hs ShortCall.at?_eq_none_of_head)
    have hlen' : offset + s.length ≤ t.length := Text.add_length_le_of_drop hd hlen
    have hrun := ih earlier scanned hrest (Text.drop_of_drop hd) hcopied (by omega) hlen'
      (fun b hb => Nat.le_trans (hearlier b hb) (Nat.le_add_right _ _)) hpass
    rw [blocksFrom, hrun, expandCalls]
    simp only [bind_assoc, pure_bind, written,
      Text.slice_add_of_drop (Nat.le_trans hcopied hcursor) hd, List.append_assoc]
  | call n args rest ih =>
    obtain ⟨hn, ha, hcloses, hbefore, hcolon, hrest⟩ := hm
    have hcall := Text.drop_of_drop hd
    have hlen' := Text.add_length_le_of_drop hcall (Text.add_length_le_of_drop hd hlen)
    rw [← before?_applied hcall] at hrest
    have hfind := find?_applied hd hn hcloses hbefore hcursor hr
    rw [beq_false_of_ne hcolon] at hfind
    have hout : Block.around? (earlier ++ (call n args rest).blocksFrom t scanned offset) offset
        = none := around?_append_eq_none hearlier fun b hb => lt_bodyStart_of_mem hb
    have hrun := ih earlier scanned hrest (Text.drop_of_drop hcall) (Nat.le_refl _)
      (Nat.le_refl _) hlen' (fun b hb => Nat.le_trans (hearlier b hb) (by omega))
      (Text.Rejects.refl _)
    rw [Rule.callsFrom_of_outside hfind hout, Rule.callsText_cons cx rfl rfl hcopied hcursor hlen,
      expandCalls]
    simp only [ShortCall.stop, blocksFrom, hrun, bind_assoc, pure_bind, written, Text.slice_self,
      List.nil_append]
    rfl
  | block indent n args lead body rest ihbody ihrest =>
    obtain ⟨hn, ha, hcloses, hline, hi, hl, hhead, hbody, hnames, hafter, hrest⟩ := hm
    have hat := blockAt_of_drop_eq hd
    rw [← hat.before?_endOffset hn] at hrest
    have hmarker := hr.trans (Text.Rejects.of_not_mem hat.atLine (at_not_mem_of_all (by decide) hi)
      ShortCall.at?_eq_none_of_head)
    have hfind := find?_applied hat.atMarker hn hcloses (hat.any_isWord_before hline hi)
      (Nat.le_trans hcursor (Nat.le_add_right _ _)) hmarker
    have hout : Block.around? (earlier ++ (block indent n args lead body rest).blocksFrom t scanned
        offset) (offset + indent.length) = none :=
      around?_append_eq_none (fun b hb => Nat.le_trans (hearlier b hb) (Nat.le_add_right _ _))
        fun b hb => marker_lt_bodyStart_of_mem hb
    obtain ⟨resume, hcolon, hresume, hpass, hfrom⟩ := callsFrom_passes_blockOf hat hn hl scanned
      (rest.blocksFrom t (endOffset offset indent n args lead body)
        (endOffset offset indent n args lead body)) hearlier rfl
    have hearlier' : ∀ b ∈ earlier ++ [blockOf t scanned offset indent n args lead body],
        b.bodyStop ≤ endOffset offset indent n args lead body := by
      intro b hb
      rcases List.mem_append.mp hb with hb | hb
      · have := hearlier b hb
        omega
      · rw [List.mem_singleton.mp hb]
        simp only [blockOf, Block.bodyStop, endOffset]
        omega
    have hrun := ihrest _ (endOffset offset indent n args lead body) hrest hat.atAfter
      (by omega : copied ≤ resume) hresume hat.endOffset_le hearlier' hpass
    rw [← List.append_cons] at hrun
    have hcopy := slice_block (Nat.le_trans hcopied hcursor) hd
    rw [Rule.callsFrom_of_outside hfind hout,
      Rule.callsText_opening cx rfl (opensAt_block hat hn hcloses hline hi hl hbody hnames
        (Name.any_isWord_of_any_isNameChar hafter)),
      blocksFrom, ShortCall.stop, hfrom, hrun, expandCalls]
    simp only [bind_assoc, pure_bind, hcopy, List.append_assoc]
    congr 1
    funext m'
    rw [written_block _ _ _ _ _ m']

/-! ## The rules for attributes and short calls -/

theorem applyAttributes_written {m : Markup} (hm : m.WellFormed) (cx : Context) :
    Rule.applyAttributes cx m.written = m.written :=
  Rule.applyAttributes_of_find?_eq_none cx (find?_attribute_written hm)

theorem applyShortCalls_written {m : Markup} (hm : m.WellFormed) (cx : Context) :
    Rule.applyShortCalls cx m.written =
      m.expandCalls cx m.written 0 >>= fun m' => .ok m'.written := by
  rw [Rule.applyShortCalls_eq, closedBlocks_written hm]
  exact callsText_callsFrom cx [] 0 hm rfl (Nat.le_refl 0) (Nat.le_refl 0)
    (Nat.zero_le _) (by simp) (Text.Rejects.refl 0)

end Markup
end TemplateDirectives
