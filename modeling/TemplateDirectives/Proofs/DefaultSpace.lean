/-
Plain names, and names with the default namespace in front.

Both stand for the same handler, so a text with one directive means the same with either
spelling: whatever becomes of it is said through the handler of the name
(`compile_lone`, `compile_loneBlock`).  The name as it is written is seen in one place
only, the refusal of a colon that opens no block.  `CompileError.unnamed` takes it out,
and `compile_defaultSpace` says that nothing else differs.
-/
import TemplateDirectives.Proofs.Errors.Place
import TemplateDirectives.Proofs.Lone
import TemplateDirectives.Proofs.Markup.Blocks

namespace TemplateDirectives

open Directive

/-- A text with one short call, whose arguments, if it has any, `after` begins with. -/
def lone (before name after : Text) : Text := before ++ (callMarker ++ (name ++ after))

/-- A text with one block. -/
def enclosing (before name arguments body after : Text) : Text :=
  before ++ (callMarker ++ (name ++ '(' :: (arguments ++ ')' :: ':' :: (body ++ (callMarker ++
    (Name.endWord ++ (name ++ after)))))))

/-- The error without the name that a directive is written with. -/
def CompileError.unnamed : CompileError → CompileError
  | malformedEnd _ arguments p => malformedEnd [] arguments p
  | unterminatedBlock _ p => unterminatedBlock [] p
  | ambiguousColon _ p => ambiguousColon [] p
  | e => e

/-! ## The two spellings -/

namespace Directive.Name

variable {space method : Text}

theorem beginsWithEnd_qualified (hspace : ¬ endWord <+: space) :
    beginsWithEnd ⟨some space, method⟩ = false := by
  refine Bool.eq_false_iff.mpr fun h => ?_
  rw [beginsWithEnd, List.isPrefixOf_iff_prefix] at h
  have h' : endWord <+: space ++ (separator ++ method) := by
    rwa [← List.append_assoc]
  rcases List.prefix_or_prefix_of_prefix h' (List.prefix_append _ _) with hshort | hlong
  · exact hspace hshort
  · -- the end word would go on behind the namespace with a colon
    obtain ⟨more, hmore⟩ := hlong
    rw [← hmore, List.prefix_append_right_inj] at h'
    cases more with
    | nil =>
      rw [List.append_nil] at hmore
      exact hspace (hmore ▸ List.prefix_refl _)
    | cons c more =>
      obtain ⟨hc, -⟩ := List.cons_prefix_cons.mp h'
      have hmem : ':' ∈ endWord := by
        rw [← hmore, hc]
        simp
      exact absurd hmem (by decide)

theorem isProper_plain (hmethod : method ≠ []) (hword : ∀ c ∈ method, Text.isWord c = true)
    (hend : ¬ endWord <+: method) : isProper ⟨none, method⟩ = true := by
  refine isProper_iff.mpr ⟨fun q hq => (by cases hq), hmethod, hword, ?_⟩
  refine Bool.eq_false_iff.mpr fun h => hend ?_
  rwa [beginsWithEnd, List.isPrefixOf_iff_prefix] at h

theorem isProper_qualified (hspace : space ≠ []) (hchars : ∀ c ∈ space, isQualifierChar c = true)
    (hend : ¬ endWord <+: space) (hmethod : method ≠ [])
    (hword : ∀ c ∈ method, Text.isWord c = true) : isProper ⟨some space, method⟩ = true := by
  refine isProper_iff.mpr ⟨fun q hq => ?_, hmethod, hword, beginsWithEnd_qualified hend⟩
  cases hq
  exact ⟨hspace, hchars⟩

end Directive.Name

namespace Compiler

variable {c : Compiler} {before after : Text} {n : Name}

/-! ## One short call -/

theorem exists_arguments (after : Text) :
    ∃ rest, after = ((ArgumentList.read? after).map ArgumentList.written).getD [] ++ rest := by
  cases hread : ArgumentList.read? after with
  | none => exact ⟨after, rfl⟩
  | some l =>
    obtain ⟨rest, hrest⟩ := ArgumentList.written_isPrefix_of_read? hread
    exact ⟨rest, hrest.symm⟩

/-- What becomes of a text with one short call.  The name is in the outcome through its
handler, and as it is written in the refusal of a colon. -/
theorem compile_lone (hp : c.passes = []) (hn : n.isProper = true) (hbefore : '@' ∉ before)
    (hlast : before.getLast?.any Text.isWord = false) (hafter : '@' ∉ after)
    (hhead : after.head?.any Name.isNameChar = false) {rest : Text}
    (hrest : after = ((ArgumentList.read? after).map ArgumentList.written).getD [] ++ rest) :
    let cx := c.topContext
    let position := cx.position before before.length
    let arguments := ((ArgumentList.read? after).map ArgumentList.inner).getD []
    c.compile (lone before n.written after) =
      if rest.head? = some ':' then .error (.ambiguousColon n.written position)
      else
        cx.expand ⟨cx.handler n, none, none, arguments⟩ position
            (cx.dialect.host.call (cx.handler n) arguments) >>= fun code =>
          Rule.applyBlocks cx c.compileBody (before ++ (code ++ rest)) := by
  intro cx position arguments
  have hformed := Name.isFormed_of_isProper hn
  have hwritten : Call.written ⟨n, ArgumentList.read? after⟩ ++ rest = n.written ++ after := by
    rw [Call.written, List.append_assoc, ← hrest]
  have hcall : Call.read? (Call.written ⟨n, ArgumentList.read? after⟩ ++ rest) =
      some ⟨n, ArgumentList.read? after⟩ := by
    rw [hwritten, Call.read?, Name.read?_written hformed hhead, Option.map_some, List.drop_left]
  have hmore : '@' ∉ n.written ++ after := by
    rw [List.mem_append, not_or]
    exact ⟨Name.at_not_mem_written hformed, hafter⟩
  have hat : '@' ∉ rest := fun hat => hafter (hrest ▸ List.mem_append_right _ hat)
  have hcalls := Rule.applyShortCalls_lone cx hbefore hlast hcall (Name.isProper_iff.mp hn).2.2.2 hat
  rw [hwritten] at hcalls
  rw [lone, compile, compileLevel_eq, pipeline_eq, hp,
    Rule.applyAttributes_of_find?_eq_none _ (Attribute.find?_lone hbefore hmore), Nat.sub_self]
  show (Rule.applyShortCalls cx _ >>= _) = _
  rw [hcalls]
  by_cases hcolon : rest.head? = some ':'
  · rw [if_pos hcolon, if_pos hcolon]
    rfl
  · rw [if_neg hcolon, if_neg hcolon, bind_assoc]
    refine congrArg _ (funext fun code => ?_)
    show (Rule.applyBlocks cx c.compileBody _ >>= fun u => pure u) = _
    rw [bind_pure]

/-! ## One block -/

theorem compileLevel_of_not_mem (hp : c.passes = []) {t : Text} (ht : '@' ∉ t) (levels : Nat)
    (origin : Position) : c.compileLevel levels origin t = .ok t := by
  have hm : (Markup.text t .nil).WellFormed := ⟨ht, trivial⟩
  have hwritten : (Markup.text t .nil).written = t := List.append_nil t
  rw [← hwritten, compileLevel_eq, pipeline_eq, hp, Markup.applyAttributes_written hm,
    Markup.applyShortCalls_written hm]
  show (Rule.applyBlocks _ _ (Markup.text t .nil).written >>= fun u => pure u) = _
  rw [bind_pure, Markup.applyBlocks_written hm]
  rfl

theorem compileBody_of_not_mem (hp : c.passes = []) {t : Text} (ht : '@' ∉ t)
    (origin origin' position : Position) :
    c.compileBody t origin position = c.compileBody t origin' position := by
  unfold compileBody nested
  cases c.maxDepth with
  | zero => rfl
  | succ levels =>
    simp only [compileLevel_of_not_mem hp ht]

/-- The pieces of a text with one block, which stands alone on its line and has no other
directive in it. -/
structure LoneBlock where
  front : Text
  indent : Text
  name : Name
  arguments : Text
  lead : Text
  body : Text
  after : Text
  isProper : name.isProper = true
  at_not_mem_front : '@' ∉ front
  newline_front : front.getLast?.all (· == '\n') = true
  isIndent : indent.all Text.isIndent = true
  at_not_mem_arguments : '@' ∉ arguments
  closesItself : ClosesItself arguments
  isBlank_lead : lead.all Text.isBlank = true
  at_not_mem_body : '@' ∉ body
  isBlank_body : body.head?.any Text.isBlank = false
  at_not_mem_after : '@' ∉ after
  isWord_after : after.head?.any Text.isWord = false

namespace LoneBlock

variable (b : LoneBlock)

def written : Text :=
  enclosing (b.front ++ b.indent) b.name.written b.arguments (b.lead ++ b.body) b.after

/-- The block that is read in the text. -/
def block : Block :=
  Markup.blockOf b.written 0 b.front.length b.indent b.name b.arguments b.lead (.text b.body .nil)

theorem drop_front : b.written.drop b.front.length =
    (Markup.block b.indent b.name b.arguments b.lead (.text b.body .nil) .nil).written ++ b.after := by
  rw [written, enclosing, List.append_assoc, List.drop_left]
  simp only [Markup.written, Call.written_applied, List.append_assoc, List.cons_append,
    List.append_nil, List.nil_append]

theorem drop_zero : b.written.drop 0 = b.front ++
    ((Markup.block b.indent b.name b.arguments b.lead (.text b.body .nil) .nil).written ++
      b.after) := by
  rw [← drop_front, written, enclosing, List.append_assoc, List.drop_left]
  rfl

theorem blockAt : Markup.BlockAt b.written b.front.length b.indent b.name b.arguments b.lead
    (.text b.body .nil) b.after :=
  Markup.blockAt_of_drop b.drop_front

theorem before?_front : (b.written.before? b.front.length).all (· == '\n') = true := by
  have hlast := Text.before?_of_drop b.drop_zero
  have hnone : b.written.before? 0 = none := rfl
  rw [Nat.zero_add, hnone, Option.or_none] at hlast
  rw [hlast]
  exact b.newline_front

theorem find?_attribute : Attribute.find? b.written 0 = none := by
  have hname := Name.at_not_mem_written (Name.isFormed_of_isProper b.isProper)
  have hindent := Markup.at_not_mem_of_all (by decide) b.isIndent
  have hlead := Markup.at_not_mem_of_all (by decide) b.isBlank_lead
  have hfront : '@' ∉ b.front ++ b.indent := by simp [b.at_not_mem_front, hindent]
  have hinner : '@' ∉ b.name.written ++ '(' :: (b.arguments ++ ')' :: ':' :: (b.lead ++ b.body)) := by
    simp [hname, b.at_not_mem_arguments, hlead, b.at_not_mem_body]
  have hlast : '@' ∉ Name.endWord ++ (b.name.written ++ b.after) := by
    simp [Name.endWord, hname, b.at_not_mem_after]
  have hopening : b.written.drop 0 = (b.front ++ b.indent) ++ (callMarker ++ ((b.name.written ++
      '(' :: (b.arguments ++ ')' :: ':' :: (b.lead ++ b.body))) ++ (callMarker ++
        (Name.endWord ++ (b.name.written ++ b.after))))) := by
    simp only [List.drop_zero, written, enclosing, List.append_assoc, List.cons_append]
  have hending := Text.drop_of_drop (Text.drop_of_drop hopening)
  have hbehind := Text.drop_of_drop (Text.drop_of_drop hending)
  have hpass := (Attribute.rejects_marker hopening hfront).trans
    (Attribute.rejects_marker hending hinner)
  rw [Attribute.find?, Text.firstMatch_of_rejects hpass (Nat.zero_le _)]
  refine Text.firstMatch_eq_none_of_not_mem ?_ Attribute.at?_eq_none_of_head
  rwa [hbehind]

theorem readAll_written : Block.readAll b.written = [.closed b.block] := by
  have hat := b.blockAt
  have hbody : (Markup.text b.body .nil).WellFormedAfter none := ⟨b.at_not_mem_body, trivial⟩
  have hhead : (Markup.text b.body .nil).written.head?.any Text.isBlank = false := by
    rw [Markup.written, Markup.written, List.append_nil]
    exact b.isBlank_body
  have hfirst : Text.Rejects (Markup.openingAt b.written 0) b.written 0 (0 + b.front.length) :=
    Text.Rejects.of_not_mem b.drop_zero b.at_not_mem_front Markup.openingAt_eq_none_of_head
  rw [Nat.zero_add] at hfirst
  have hfind := Markup.find?_block hat b.isProper b.closesItself b.before?_front b.isIndent
    b.isBlank_lead hhead hbody (fun k hk => by cases hk) b.isWord_after (Nat.zero_le _) hfirst
  have hbehind : Block.find? b.written b.block.stop = none := by
    have hnone : BlockOpening.find? b.written b.block.stop = none := by
      refine Text.firstMatch_eq_none_of_not_mem ?_ Markup.openingAt_eq_none_of_head
      show '@' ∉ b.written.drop (Markup.endOffset ..)
      rw [hat.atAfter]
      exact b.at_not_mem_after
    rw [Block.find?, hnone]
    rfl
  rw [Block.readAll, Text.scanAll_eq, hfind]
  show _ :: Text.scanAll _ _ _ _ b.block.stop = _
  rw [Text.scanAll_eq, hbehind]
  rfl

/-- Behind the opening no call is met: the only marker that follows is an end marker's. -/
theorem find?_inside {cursor : Nat} (hcursor : cursor = b.front.length + b.indent.length +
    callMarker.length + (Call.applied b.name b.arguments).written.length) :
    ShortCall.find? b.written cursor = none := by
  have hat := b.blockAt
  have hbody : '@' ∉ (Markup.text b.body .nil).written := by
    rw [Markup.written, Markup.written, List.append_nil]
    exact b.at_not_mem_body
  have hcolon : Text.Rejects (ShortCall.at? b.written cursor) b.written _ _ :=
    Text.Rejects.of_not_mem hat.atColon (Markup.at_not_mem_colon_lead b.isBlank_lead)
      ShortCall.at?_eq_none_of_head
  rw [Markup.colon_lead_bodyOffset, ← hcursor] at hcolon
  have hpass := (hcolon.trans (Text.Rejects.of_not_mem hat.atBody hbody
    ShortCall.at?_eq_none_of_head)).trans (Markup.rejects_ending hat b.isProper cursor)
  have hle : cursor ≤ Markup.endOffset b.front.length b.indent b.name b.arguments b.lead
      (.text b.body .nil) := by
    simp only [Markup.endOffset, Markup.bodyOffset]
    omega
  rw [ShortCall.find?, Text.firstMatch_of_rejects hpass hle]
  refine Text.firstMatch_eq_none_of_not_mem ?_ ShortCall.at?_eq_none_of_head
  rw [hat.atAfter]
  exact b.at_not_mem_after

theorem applyShortCalls_written (cx : Context) : Rule.applyShortCalls cx b.written = .ok b.written := by
  have hat := b.blockAt
  have hbody : (Markup.text b.body .nil).WellFormedAfter none := ⟨b.at_not_mem_body, trivial⟩
  have hclosed : Block.closedBlocks b.written = [b.block] := by
    rw [Block.closedBlocks, readAll_written]
    rfl
  have hfront : Text.Rejects (ShortCall.at? b.written 0) b.written 0 (0 + b.front.length) :=
    Text.Rejects.of_not_mem b.drop_zero b.at_not_mem_front ShortCall.at?_eq_none_of_head
  rw [Nat.zero_add] at hfront
  have hfirst := hfront.trans (Text.Rejects.of_not_mem hat.atLine
    (Markup.at_not_mem_of_all (by decide) b.isIndent) ShortCall.at?_eq_none_of_head)
  have hfind := Markup.find?_applied hat.atMarker b.isProper b.closesItself
    (hat.any_isWord_before b.before?_front b.isIndent) (Nat.zero_le _) hfirst
  have hopens := Markup.opensAt_block hat b.isProper b.closesItself b.before?_front b.isIndent
    b.isBlank_lead hbody (fun k hk => by cases hk) b.isWord_after
  have hout : Block.around? (Block.closedBlocks b.written) (b.front.length + b.indent.length) =
      none := by
    have hmem : b.block ∈ (Markup.block b.indent b.name b.arguments b.lead (.text b.body .nil)
        .nil).blocksFrom b.written 0 b.front.length := List.mem_cons_self
    refine Markup.around?_eq_none fun b' hb' => .inr ?_
    rw [hclosed, List.mem_singleton] at hb'
    rw [hb']
    exact Markup.marker_lt_bodyStart_of_mem hmem
  rw [Rule.applyShortCalls_eq, Rule.callsFrom_of_outside hfind hout,
    Rule.callsText_opening cx rfl hopens, ShortCall.stop, Rule.callsFrom_of_none (b.find?_inside rfl)]
  rfl

/-- The pieces of a text with one block, when the marker stands at the beginning of its
line. -/
def ofTexts (n : Name) {before arguments body after : Text} (hn : n.isProper = true)
    (hbefore : '@' ∉ before)
    (hline : (Text.takeEndWhile (· != '\n') before).all Text.isIndent = true)
    (harguments : '@' ∉ arguments) (hcloses : ClosesItself arguments) (hbody : '@' ∉ body)
    (hafter : '@' ∉ after) (hnext : after.head?.any Text.isWord = false) : LoneBlock where
  front := Text.dropEndWhile (· != '\n') before
  indent := Text.takeEndWhile (· != '\n') before
  name := n
  arguments := arguments
  lead := body.takeWhile Text.isBlank
  body := body.dropWhile Text.isBlank
  after := after
  isProper := hn
  at_not_mem_front := fun hat => hbefore (by
    rw [← Text.dropEndWhile_append_takeEndWhile (· != '\n') before]
    exact List.mem_append_left _ hat)
  newline_front := by
    rw [Text.dropEndWhile, List.getLast?_reverse]
    have hnot := List.head?_dropWhile_not (· != '\n') before.reverse
    cases hhead : (before.reverse.dropWhile (· != '\n')).head? with
    | none => rfl
    | some ch =>
      rw [hhead] at hnot
      simpa using hnot
  isIndent := hline
  at_not_mem_arguments := harguments
  closesItself := hcloses
  isBlank_lead := List.all_takeWhile
  at_not_mem_body := fun hat => hbody ((List.dropWhile_sublist _).subset hat)
  isBlank_body := by
    have hnot := List.head?_dropWhile_not Text.isBlank body
    cases hhead : (body.dropWhile Text.isBlank).head? with
    | none => rfl
    | some ch =>
      rw [hhead] at hnot
      simpa using hnot
  at_not_mem_after := hafter
  isWord_after := hnext

theorem written_ofTexts (n : Name) {before arguments body after : Text} (hn : n.isProper = true)
    (hbefore : '@' ∉ before)
    (hline : (Text.takeEndWhile (· != '\n') before).all Text.isIndent = true)
    (harguments : '@' ∉ arguments) (hcloses : ClosesItself arguments) (hbody : '@' ∉ body)
    (hafter : '@' ∉ after) (hnext : after.head?.any Text.isWord = false) :
    (ofTexts n hn hbefore hline harguments hcloses hbody hafter hnext).written =
      enclosing before n.written arguments body after := by
  simp only [written, ofTexts, Text.dropEndWhile_append_takeEndWhile, List.takeWhile_append_dropWhile]

end LoneBlock

/-- What becomes of a text with one block.  The name is in the outcome through its
handler. -/
theorem compile_loneBlock (hp : c.passes = []) (b : LoneBlock) :
    let cx := c.topContext
    let position := cx.position (b.front ++ b.indent) (b.front ++ b.indent).length
    c.compile b.written =
      c.compileBody b.body .start position >>= fun inner =>
        cx.expand ⟨cx.handler b.name, some b.indent, some inner, b.arguments⟩ position
            (cx.dialect.host.capture (cx.handler b.name) b.indent inner b.arguments) >>= fun code =>
          .ok (b.front ++ (b.indent ++ (code ++ b.after))) := by
  intro cx position
  have hposition : cx.position b.written (b.front.length + b.indent.length) = position := by
    show cx.origin.ofOffset b.written _ = cx.origin.ofOffset (b.front ++ b.indent) _
    rw [Position.ofOffset, Position.ofOffset, List.take_length, ← List.length_append, LoneBlock.written,
      enclosing, List.take_left]
  have hslice : b.written.slice 0 b.front.length = b.front := by
    have hslice := Text.slice_of_drop b.drop_zero
    rwa [Nat.zero_add] at hslice
  have hstop : b.written.drop b.block.stop = b.after := b.blockAt.atAfter
  have hle : b.front.length ≤ b.written.length := by
    have := congrArg List.length b.drop_zero
    rw [List.drop_zero, List.length_append] at this
    omega
  have hline : b.front.length ≤ b.block.stop := by
    simp only [LoneBlock.block, Markup.blockOf, Markup.endOffset, Markup.bodyOffset]
    omega
  have hbody : b.block.body = b.body := List.append_nil _
  have hnil : Rule.blocksText cx c.compileBody b.written b.block.stop [] = .ok b.after := by
    rw [← hstop]
    rfl
  rw [compile, compileLevel_eq, pipeline_eq, hp, Nat.sub_self,
    Rule.applyAttributes_of_find?_eq_none _ b.find?_attribute, b.applyShortCalls_written]
  show (Rule.applyBlocks cx c.compileBody b.written >>= fun u => pure u) = _
  rw [bind_pure, Rule.applyBlocks_eq, b.readAll_written,
    Rule.blocksText_closed cx rfl rfl (Nat.zero_le _) hline hle, hnil, hslice, hbody]
  show (c.compileBody b.body (cx.position b.written b.block.bodyStart)
      (cx.position b.written (b.front.length + b.indent.length)) >>= fun inner =>
    cx.expand ⟨cx.handler b.name, some b.indent, some inner, b.arguments⟩
        (cx.position b.written (b.front.length + b.indent.length))
        (cx.dialect.host.capture (cx.handler b.name) b.indent inner b.arguments) >>= fun code =>
      .ok (b.front ++ (b.indent ++ (code ++ b.after)))) = _
  rw [hposition,
    compileBody_of_not_mem hp b.at_not_mem_body (cx.position b.written b.block.bodyStart) .start]

/-! ## The two spellings compile alike -/

/-- With the default namespace in front of its method a short call compiles to the same
text, or is refused for the same reason at the same place, up to the name as it is
written.  A block with either spelling compiles to the same result. -/
theorem compile_defaultSpace (c : Compiler) (hp : c.passes = []) {method before : Text}
    (hspace : c.dialect.defaultSpace ≠ [])
    (hchars : ∀ ch ∈ c.dialect.defaultSpace, Name.isQualifierChar ch = true)
    (hspaceEnd : ¬ Name.endWord <+: c.dialect.defaultSpace) (hmethod : method ≠ [])
    (hword : ∀ ch ∈ method, Text.isWord ch = true) (hend : ¬ Name.endWord <+: method)
    (hbefore : '@' ∉ before) :
    let qualified := c.dialect.defaultSpace ++ Name.separator ++ method
    (∀ after, '@' ∉ after → before.getLast?.any Text.isWord = false →
      after.head?.any Name.isNameChar = false →
      (c.compile (lone before method after)).mapError CompileError.unnamed =
        (c.compile (lone before qualified after)).mapError CompileError.unnamed) ∧
    (∀ arguments body after, '@' ∉ arguments → ClosesItself arguments → '@' ∉ body →
      '@' ∉ after → after.head?.any Text.isWord = false →
      (Text.takeEndWhile (· != '\n') before).all Text.isIndent = true →
      c.compile (enclosing before method arguments body after) =
        c.compile (enclosing before qualified arguments body after)) := by
  intro qualified
  have hplain := Name.isProper_plain hmethod hword hend
  have hqualified := Name.isProper_qualified hspace hchars hspaceEnd hmethod hword
  have hhandler : c.topContext.handler ⟨some c.dialect.defaultSpace, method⟩ =
      c.topContext.handler ⟨none, method⟩ := rfl
  constructor
  · intro after hafter hlast hhead
    obtain ⟨rest, hrest⟩ := exists_arguments after
    have hleft := compile_lone hp hplain hbefore hlast hafter hhead hrest
    have hright := compile_lone hp hqualified hbefore hlast hafter hhead hrest
    rw [show lone before method after = lone before (Name.written ⟨none, method⟩) after from rfl,
      show lone before qualified after =
        lone before (Name.written ⟨some c.dialect.defaultSpace, method⟩) after from rfl,
      hleft, hright, hhandler]
    by_cases hcolon : rest.head? = some ':'
    · rw [if_pos hcolon, if_pos hcolon]
      rfl
    · rw [if_neg hcolon, if_neg hcolon]
  · intro arguments body after harguments hcloses hbody hafter hnext hline
    have hleft := LoneBlock.written_ofTexts _ hplain hbefore hline harguments hcloses hbody hafter hnext
    have hright := LoneBlock.written_ofTexts _ hqualified hbefore hline harguments hcloses hbody hafter
      hnext
    show c.compile (enclosing before (Name.written ⟨none, method⟩) arguments body after) =
      c.compile (enclosing before (Name.written ⟨some c.dialect.defaultSpace, method⟩) arguments body
        after)
    rw [← hleft, ← hright, compile_loneBlock hp, compile_loneBlock hp]
    rfl

theorem compile_defaultSpace_indented :
    bare.compile (lone "  ".toList "m".toList "(1): b".toList) =
        .error (.ambiguousColon "m".toList ⟨1, 3⟩) ∧
      (bare.compile (lone "  ".toList "m".toList "(1): b".toList)).mapError CompileError.unnamed =
        (bare.compile (lone "  ".toList "Directives::m".toList "(1): b".toList)).mapError
          CompileError.unnamed ∧
      bare.compile (enclosing "  ".toList "m".toList "1".toList "\n b".toList ": c".toList) =
        bare.compile
          (enclosing "  ".toList "Directives::m".toList "1".toList "\n b".toList ": c".toList) := by
  have hspelling := compile_defaultSpace bare rfl (by decide +kernel)
    (List.all_eq_true.mp (by decide +kernel)) (by decide +kernel)
    (by decide +kernel : "m".toList ≠ []) (List.all_eq_true.mp (by decide +kernel))
    (by decide +kernel) (by decide +kernel : '@' ∉ "  ".toList)
  have hcolon : bare.compile (lone "  ".toList "m".toList "(1): b".toList) =
      .error (.ambiguousColon "m".toList ⟨1, 3⟩) := CompileError.eq_error_of_of? (by decide +kernel)
  exact ⟨hcolon,
    hspelling.1 _ (by decide +kernel) (by decide +kernel) (by decide +kernel),
    hspelling.2 _ _ _ (by decide +kernel) (by decide +kernel) (by decide +kernel) (by decide +kernel)
      (by decide +kernel) (by decide +kernel)⟩

end Compiler
end TemplateDirectives
