/-
Texts with a single short call.

Where one `@@` is all that a text has of directives, there is one thing to find, and no
block is closed.  `Rule.applyShortCalls_lone` says what the rule for short calls makes
of such a text: the code of the call between what stands before and behind it, or the
refusal of a colon that opens no block.
-/
import TemplateDirectives.Proofs.Edits.Finds
import TemplateDirectives.Proofs.Markup.Calls

namespace TemplateDirectives

open Directive

section

variable {before more : Text}

theorem length_le_of_getElem?_at (hbefore : '@' ∉ before) {i : Nat}
    (h : (before ++ more)[i]? = some '@') : before.length ≤ i := by
  refine Nat.le_of_not_lt fun hlt => hbefore ?_
  rw [List.getElem?_append_left hlt] at h
  exact List.mem_of_getElem? h

namespace Directive

/-- A text is no part of a body before its first `@` but one. -/
theorem Block.around?_eq_none_of_not_mem (more : Text) (hbefore : '@' ∉ before) :
    around? (closedBlocks (before ++ more)) before.length = none := by
  refine Markup.around?_eq_none fun b hb => .inr ?_
  obtain ⟨cursor, lead, rest, hstands⟩ := exists_stands_of_mem_closedBlocks hb
  have hmarker : (before ++ more)[b.opening.marker]? = some '@' := by
    rw [← List.head?_drop, hstands.opening.at_marker]
    rfl
  have hle := length_le_of_getElem?_at hbefore hmarker
  have hlt := b.opening.marker_lt_stop
  have hstart := hstands.bodyStart
  omega

theorem Block.opensAt_eq_false {t rest : Text} {marker : Nat} {call : Call}
    (hd : t.drop marker = callMarker ++ (call.written ++ rest))
    (hcall : Call.read? (call.written ++ rest) = some call) (hrest : '@' ∉ rest) :
    opensAt t marker = false := by
  unfold opensAt
  split
  next => rfl
  next o ho =>
    have hmarker := BlockOpening.marker_of_at? ho
    obtain ⟨more, hstands⟩ := BlockOpening.stands_of_at? ⟨_, hd.symm⟩ ho
    have hwritten := hstands.at_marker
    rw [hmarker, hd, List.append_cancel_left_eq] at hwritten
    have hread := hstands.read
    rw [← hwritten, hcall] at hread
    rw [← Option.some.inj hread, List.append_cancel_left_eq] at hwritten
    have hnone : EndMarker.find? t o.call.name.written o.stop = none := by
      refine Text.firstMatch_eq_none_of_not_mem ?_ EndMarker.at?_eq_none_of_head
      rw [hstands.at_stop]
      exact fun hat => hrest (hwritten ▸ List.mem_cons_of_mem _ hat)
    rw [hnone]
    rfl

/-- A stretch with a marker of a call holds no attribute up to behind the marker. -/
theorem Attribute.rejects_marker {t s x : Text} {a : Nat} (hd : t.drop a = s ++ (callMarker ++ x))
    (hs : '@' ∉ s) : Text.Rejects (at? t 0) t a (a + s.length + callMarker.length) := by
  have hmarker := Text.drop_of_drop hd
  exact (Text.Rejects.of_not_mem hd hs at?_eq_none_of_head).trans
    (Markup.rejects_marker hmarker (at?_marker hmarker))

theorem Attribute.find?_lone (hbefore : '@' ∉ before) (hmore : '@' ∉ more) :
    find? (before ++ (callMarker ++ more)) 0 = none := by
  have hd : (before ++ (callMarker ++ more)).drop 0 = before ++ (callMarker ++ more) := rfl
  have hfirst := rejects_marker hd hbefore
  have hbehind := Text.drop_of_drop (Text.drop_of_drop hd)
  rw [find?, Text.firstMatch_of_rejects hfirst (Nat.zero_le _)]
  refine Text.firstMatch_eq_none_of_not_mem ?_ at?_eq_none_of_head
  rwa [hbehind]

end Directive
end

namespace Rule

variable {before rest : Text} {call : Call}

/-- The call of a text with one call. -/
def loneCall (before : Text) (call : Call) (rest : Text) : ShortCall :=
  ⟨before.length, Text.takeEndWhile Text.isBlank before, call, rest.head? == some ':'⟩

theorem callsFrom_lone {t : Text} (ht : t = before ++ (callMarker ++ (call.written ++ rest)))
    (hbefore : '@' ∉ before) (hlast : before.getLast?.any Text.isWord = false)
    (hcall : Call.read? (call.written ++ rest) = some call)
    (hend : call.name.beginsWithEnd = false) (hrest : '@' ∉ rest) :
    callsFrom t (Block.closedBlocks t) 0 = [loneCall before call rest] ∧
      t.drop (loneCall before call rest).stop = rest := by
  have hd : t.drop before.length = callMarker ++ (call.written ++ rest) := by
    rw [ht, List.drop_left]
  have hplace : t.before? before.length = before.getLast? := by
    have hlast := Text.before?_of_drop (show t.drop 0 = _ from ht)
    have hnone : t.before? 0 = none := rfl
    rwa [Nat.zero_add, hnone, Option.or_none] at hlast
  have hslice : t.slice 0 before.length = before := by
    have hslice := Text.slice_of_drop (show t.drop 0 = _ from ht)
    rwa [Nat.zero_add] at hslice
  have hfirst : Text.Rejects (ShortCall.at? t 0) t 0 before.length := by
    have hreject : Text.Rejects (ShortCall.at? t 0) t 0 (0 + before.length) :=
      Text.Rejects.of_not_mem (show t.drop 0 = _ from ht) hbefore ShortCall.at?_eq_none_of_head
    rwa [Nat.zero_add] at hreject
  have hfind := ShortCall.find?_eq_some hd hcall hend (hplace ▸ hlast) (Nat.zero_le _) hfirst
  rw [hslice] at hfind
  have hstop : t.drop (loneCall before call rest).stop = rest :=
    Text.drop_of_drop (Text.drop_of_drop hd)
  have hbehind : ShortCall.find? t (loneCall before call rest).stop = none := by
    refine Text.firstMatch_eq_none_of_not_mem ?_ ShortCall.at?_eq_none_of_head
    rwa [hstop]
  have hout := Block.around?_eq_none_of_not_mem (callMarker ++ (call.written ++ rest)) hbefore
  rw [← ht] at hout
  refine ⟨?_, hstop⟩
  rw [callsFrom_of_outside hfind hout, ← loneCall, callsFrom_of_none hbehind]

/-- What the rule for short calls makes of a text with one call. -/
theorem applyShortCalls_lone (cx : Context) (hbefore : '@' ∉ before)
    (hlast : before.getLast?.any Text.isWord = false)
    (hcall : Call.read? (call.written ++ rest) = some call)
    (hend : call.name.beginsWithEnd = false) (hrest : '@' ∉ rest) :
    applyShortCalls cx (before ++ (callMarker ++ (call.written ++ rest))) =
      if rest.head? = some ':' then
        .error (.ambiguousColon call.name.written (cx.position before before.length))
      else
        cx.expand ⟨cx.handler call.name, none, none, call.argumentText⟩
            (cx.position before before.length)
            (cx.dialect.host.call (cx.handler call.name) call.argumentText) >>= fun code =>
          .ok (before ++ (code ++ rest)) := by
  have hopens : Block.opensAt (before ++ (callMarker ++ (call.written ++ rest))) before.length =
      false := Block.opensAt_eq_false List.drop_left hcall hrest
  have hposition : cx.position (before ++ (callMarker ++ (call.written ++ rest))) before.length =
      cx.position before before.length := by
    simp only [Context.position, Position.ofOffset, List.take_left, List.take_length]
  obtain ⟨hcalls, hstop⟩ := callsFrom_lone rfl hbefore hlast hcall hend hrest
  have hlen : before.length ≤ (before ++ (callMarker ++ (call.written ++ rest))).length := by
    rw [List.length_append]
    exact Nat.le_add_right _ _
  have hslice : (before ++ (callMarker ++ (call.written ++ rest))).slice 0 before.length =
      before := by
    rw [Text.slice, List.drop_zero, List.take_left]
  rw [applyShortCalls_eq, hcalls, ← hposition]
  generalize before ++ (callMarker ++ (call.written ++ rest)) = t at *
  by_cases hcolon : rest.head? = some ':'
  · have hflag : (loneCall before call rest).colon = true := beq_of_eq hcolon
    rw [if_pos hcolon]
    simp only [callsText, List.mapM_cons, callEdit?, hflag, if_true]
    rw [show Block.opensAt t (loneCall before call rest).marker = false from hopens]
    rfl
  · have hflag : (loneCall before call rest).colon = false := beq_false_of_ne hcolon
    have hblanks : (loneCall before call rest).blanks =
        Text.takeEndWhile Text.isBlank (t.slice 0 (loneCall before call rest).marker) := by
      rw [show t.slice 0 (loneCall before call rest).marker = before from hslice]
      rfl
    rw [if_neg hcolon, callsText_cons cx hflag hblanks (Nat.le_refl 0) (Nat.zero_le _) hlen,
      callsText_nil, hstop, show t.slice 0 (loneCall before call rest).marker = before from hslice]
    rfl

end Rule
end TemplateDirectives
