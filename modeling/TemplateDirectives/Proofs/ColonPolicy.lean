/-
Which short calls are refused, and with which error.

The rule for short calls visits the calls of a text from left to right and goes on behind
a body where one stands in it (`Rule.Visits`).  A colon behind a call is no part of it, so
such a call is never replaced: it is left to the rule for blocks when it can open one
(`ShortCall.OpensBlock`), and refused when it cannot.  A call without a colon is refused
when the expander of its handler fails (`Rule.Refuses`).  The first call that is refused
gives the error, and when none is, every call without a colon gives way to its code
(`Rule.apply_refuses_first`).
-/
import TemplateDirectives.Proofs.Grammar.Endings
import TemplateDirectives.Proofs.Grammar.Openings

namespace TemplateDirectives

open Directive

/-! ## Calls with a colon -/

namespace Directive.ShortCall

/-- An end marker for `name` stands at `p`, with both signs, or with one that follows no
word character. -/
def EndsAt (t name : Text) (p : Nat) : Prop :=
  ∃ (wellFormed : Bool) (rest : Text),
    t.drop p = EndMarker.sign wellFormed ++ (Name.endWord ++ (name ++ rest)) ∧
      rest.head?.any Text.isWord = false ∧
      (wellFormed = false → (t.before? p).any Text.isWord = false)

/-- A call with a colon can open a block: nothing but spaces and tabs stands before it on
its line, and behind the colon an end marker for its name as written. -/
structure OpensBlock (t : Text) (c : ShortCall) : Prop where
  line : ∃ lead, Text.IsRunBefore (· != '\n') t 0 c.marker lead ∧ ∀ d ∈ lead, d = ' ' ∨ d = '\t'
  ending : ∃ p, c.stop < p ∧ EndsAt t c.call.name.written p

variable {t name : Text} {cursor offset : Nat} {c : ShortCall}

theorem isSome_find?_ending_iff :
    (EndMarker.find? t name offset).isSome = true ↔ ∃ p, offset ≤ p ∧ EndsAt t name p := by
  constructor
  · intro h
    obtain ⟨e, he⟩ := Option.isSome_iff_exists.mp h
    obtain ⟨rest, hstands⟩ := EndMarker.stands_of_find? he
    obtain ⟨k, -, hat⟩ := Text.exists_of_firstMatch he
    rw [List.drop_drop, ← (EndMarker.start_of_at? hat).1] at hat
    exact ⟨e.start, (EndMarker.start_of_find? he).1, e.wellFormed, rest, hstands.written,
      hstands.isWord_rest, EndMarker.apart_of_at? hat⟩
  · rintro ⟨p, hp, wellFormed, rest, hdrop, hrest, hapart⟩
    obtain ⟨e, hread⟩ : ∃ e, EndMarker.at? t name p (t.drop p) = some e := by
      rw [hdrop]
      exact ⟨_, EndMarker.at?_eq_some hrest hapart⟩
    have hlt : p < t.length := by
      refine Nat.lt_of_not_le fun hle => ?_
      rw [List.drop_eq_nil_iff.mpr hle] at hread
      cases hread
    refine Option.isSome_iff_ne_none.mpr fun hnone => ?_
    rw [Text.rejects_of_firstMatch_eq_none hnone p hp hlt] at hread
    cases hread

theorem isIndent_iff {d : Char} : Text.isIndent d = true ↔ d = ' ' ∨ d = '\t' := by
  simp [Text.isIndent]

/-- The call of an opening at a call's marker is that call. -/
theorem Occurs.eq_of_at? {o : BlockOpening} (h : c.Occurs t cursor)
    (ho : BlockOpening.at? t 0 c.marker = some o) : o.call = c.call ∧ o.stop = c.stop + 1 := by
  obtain ⟨hmarker, hoccurs⟩ := BlockOpening.occurs_of_at? h.valid.sign ho
  have hcall := hoccurs.call
  rw [hmarker] at hcall
  have hsame : o.call = c.call := Option.some.inj
    ((Call.read?_eq_some_iff.mpr ⟨_, hcall⟩).symm.trans (Call.read?_eq_some_iff.mpr ⟨_, h.call⟩))
  refine ⟨hsame, ?_⟩
  rw [BlockOpening.stop, ShortCall.stop, hmarker, hsame]

/-- The rule's test for openings, said without reading. -/
theorem Occurs.opensAt_iff (h : c.Occurs t cursor) (hcolon : c.colon = true) :
    Block.opensAt t c.marker = true ↔ c.OpensBlock t := by
  constructor
  · intro hopens
    unfold Block.opensAt at hopens
    split at hopens
    next => cases hopens
    next o ho =>
      obtain ⟨hcall, hstop⟩ := h.eq_of_at? ho
      obtain ⟨hmarker, hoccurs⟩ := BlockOpening.occurs_of_at? h.valid.sign ho
      obtain ⟨lead, hlead, -, hindent⟩ := hoccurs.opens.line
      rw [hmarker] at hlead
      rw [hcall, hstop] at hopens
      exact ⟨⟨lead, hlead, fun d hd => isIndent_iff.mp (hindent d hd)⟩,
        isSome_find?_ending_iff.mp hopens⟩
  · rintro ⟨⟨lead, hlead, hindent⟩, hending⟩
    obtain ⟨rest, hrest⟩ := h.colon.mp hcolon
    have hcall := h.call
    rw [← hrest] at hcall
    have hline := hlead.floor_le
    have ho := BlockOpening.at?_of_begins h.valid.sign hlead hline
      (fun d hd => isIndent_iff.mpr (hindent d hd)) hcall
    obtain ⟨-, hstop⟩ := h.eq_of_at? ho
    simp only [Block.opensAt, ho, hstop]
    exact isSome_find?_ending_iff.mpr hending

end Directive.ShortCall

/-! ## The rule -/

namespace Rule

/-- The rule visits these calls from `cursor` on: each time the next call, or no call when
the next one stands in a body, and then it goes on behind the body. -/
inductive Visits (t : Text) : Nat → List ShortCall → Prop
  | done {cursor : Nat} (hfind : ShortCall.find? t cursor = none) : Visits t cursor []
  | skip {cursor : Nat} {c : ShortCall} {b : Block} {calls : List ShortCall}
      (hfind : ShortCall.find? t cursor = some c)
      (hbody : Block.around? (Block.closedBlocks t) c.marker = some b)
      (hrest : Visits t b.bodyStop calls) : Visits t cursor calls
  | visit {cursor : Nat} {c : ShortCall} {calls : List ShortCall}
      (hfind : ShortCall.find? t cursor = some c)
      (hbody : Block.around? (Block.closedBlocks t) c.marker = none)
      (hrest : Visits t c.stop calls) : Visits t cursor (c :: calls)

/-- What the expander of a call's handler is asked. -/
def request (cx : Context) (c : ShortCall) : ExpandRequest :=
  ⟨cx.handler c.call.name, none, none, c.call.argumentText⟩

/-- The expander that is registered for a call's handler, if there is one. -/
def expander? (cx : Context) (c : ShortCall) : Option Expander :=
  cx.dialect.registry.expander? (cx.handler c.call.name)

/-- Why a call is refused, with the position of its marker: a colon follows it and it opens
no block, or none does and the expander of its handler fails. -/
inductive Refuses (cx : Context) (t : Text) (c : ShortCall) : CompileError → Prop
  | colon (hcolon : c.colon = true) (hopens : ¬ c.OpensBlock t) :
    Refuses cx t c (.ambiguousColon c.call.name.written (cx.position t c.marker))
  | expander {expander : Expander} {reason : HandlerError} (hcolon : c.colon = false)
      (hexpander : expander? cx c = some expander)
      (hfails : expander (request cx c) = .error reason) :
    Refuses cx t c (.expanderFailed (cx.handler c.call.name) c.call.argumentText
      (cx.position t c.marker) reason)

/-- What a call gives way to: the blanks before it, and the answer of the expander of its
handler, or the host's call of the handler when it has no expander. -/
inductive GivesWay (cx : Context) (c : ShortCall) : Edit → Prop
  | expanded {expander : Expander} {code : Text} (hexpander : expander? cx c = some expander)
      (hanswer : expander (request cx c) = .ok code) :
    GivesWay cx c ⟨c.start, c.stop, c.blanks ++ code⟩
  | called (hexpander : expander? cx c = none) :
    GivesWay cx c ⟨c.start, c.stop,
      c.blanks ++ cx.dialect.host.call (cx.handler c.call.name) c.call.argumentText⟩

variable {cx : Context} {nested : BodyCompiler} {t : Text} {c d : ShortCall} {cursor : Nat}
  {calls : List ShortCall} {e : CompileError}

/-! ### Visited calls -/

theorem visits_callsFrom (t : Text) (cursor : Nat) :
    Visits t cursor (callsFrom t (Block.closedBlocks t) cursor) := by
  induction hn : t.length - cursor using Nat.strongRecOn generalizing cursor with
  | ind n ih =>
    cases hfind : ShortCall.find? t cursor with
    | none =>
      rw [callsFrom_of_none hfind]
      exact .done hfind
    | some c =>
      have hprogress := call_progress (Block.closedBlocks t) cursor c hfind
      cases hbody : Block.around? (Block.closedBlocks t) c.marker with
      | none =>
        rw [nextCall, Block.resume_of_outside hbody] at hprogress
        rw [callsFrom_of_outside hfind hbody]
        exact .visit hfind hbody (ih _ (by omega) c.stop rfl)
      | some b =>
        rw [nextCall, Block.resume_of_inside hbody] at hprogress
        rw [callsFrom_of_inside hfind hbody]
        exact .skip hfind hbody (ih _ (by omega) b.bodyStop rfl)

/-- The visits are determined, and are the calls that the rule's search keeps. -/
theorem visits_iff : Visits t cursor calls ↔ calls = callsFrom t (Block.closedBlocks t) cursor := by
  constructor
  · intro h
    induction h with
    | done hfind => exact (callsFrom_of_none hfind).symm
    | skip hfind hbody _ ih => rw [ih, callsFrom_of_inside hfind hbody]
    | visit hfind hbody _ ih => rw [ih, callsFrom_of_outside hfind hbody]
  · rintro rfl
    exact visits_callsFrom t cursor

theorem exists_occurs_of_mem_calls (hc : c ∈ callsOutsideBodies t) : ∃ k, c.Occurs t k := by
  obtain ⟨k, -, hfind⟩ := Text.exists_find_of_mem_scanAll (List.mem_of_mem_filter hc)
  exact ⟨k, (ShortCall.find?_eq_some_iff.mp hfind).1⟩

theorem pairwise_marker (t : Text) :
    (callsOutsideBodies t).Pairwise fun c d => c.marker < d.marker := by
  have hnext : (Text.scanAll (ShortCall.find? t) (nextCall (Block.closedBlocks t)) t.length
      (call_progress _) 0).Pairwise fun c d => nextCall (Block.closedBlocks t) c ≤ d.marker :=
    Text.pairwise_next_le (fun k c hfind => (ShortCall.marker_of_find? hfind).1) 0
  refine (hnext.filter _).imp_of_mem fun {c d} hc _ hle => ?_
  have hout := Option.isNone_iff_eq_none.mp (List.mem_filter.mp hc).2
  have hstop := c.marker_lt_stop
  rw [nextCall, Block.resume_of_outside hout] at hle
  omega

/-! ### One call -/

theorem callEdit?_eq_error_iff (h : c.Occurs t cursor) :
    callEdit? cx t c = .error e ↔ Refuses cx t c e := by
  cases hcolon : c.colon with
  | true =>
    simp only [callEdit?, hcolon, if_true]
    constructor
    · intro he
      split at he
      next => cases he
      next hopens =>
        cases he
        exact .colon hcolon (mt (h.opensAt_iff hcolon).mpr hopens)
    · intro he
      cases he with
      | colon _ hopens => rw [if_neg (mt (h.opensAt_iff hcolon).mp hopens)]
      | expander hfalse => rw [hcolon] at hfalse; cases hfalse
  | false =>
    simp only [callEdit?, hcolon, Bool.false_eq_true, if_false]
    constructor
    · intro he
      have hexpand := CompileError.bind_ok_eq_error_iff.mp he
      obtain ⟨expander, reason, hexpander, hfails, rfl⟩ := Context.expand_eq_error_iff.mp hexpand
      exact .expander hcolon hexpander hfails
    · intro he
      cases he with
      | colon htrue => rw [hcolon] at htrue; cases htrue
      | expander _ hexpander hfails =>
        refine CompileError.bind_ok_eq_error_iff.mpr (Context.expand_eq_error_iff.mpr ?_)
        exact ⟨_, _, hexpander, hfails, rfl⟩

/-- A call that is not refused gives way to its code, unless a colon follows it. -/
theorem givesWay_of_callEdit? {edit : Option Edit} (h : callEdit? cx t c = .ok edit) :
    c.colon = true ∧ edit = none ∨ c.colon = false ∧ ∃ e, edit = some e ∧ GivesWay cx c e := by
  unfold callEdit? at h
  cases hcolon : c.colon with
  | true =>
    simp only [hcolon, if_true] at h
    split at h
    next =>
      cases h
      exact .inl ⟨rfl, rfl⟩
    next => cases h
  | false =>
    simp only [hcolon, Bool.false_eq_true, if_false] at h
    obtain ⟨code, hcode, h⟩ := CompileError.ok_of_bind h
    cases h
    refine .inr ⟨rfl, _, rfl, ?_⟩
    rcases Context.expand_eq_ok_iff.mp hcode with ⟨hexpander, rfl⟩ | ⟨expander, hexpander, hanswer⟩
    · exact .called hexpander
    · exact .expanded hexpander hanswer

/-! ### All calls -/

theorem apply_eq_error_iff : shortCalls.apply cx nested t = .error e ↔
    (callsOutsideBodies t).mapM (callEdit? cx t) = .error e :=
  CompileError.bind_ok_eq_error_iff

/-- The error is that of the first call that is refused, which is the leftmost one. -/
theorem apply_eq_error_iff_leftmost : shortCalls.apply cx nested t = .error e ↔
    ∃ c ∈ callsOutsideBodies t, Refuses cx t c e ∧
      ∀ d ∈ callsOutsideBodies t, ∀ e', Refuses cx t d e' → c.marker ≤ d.marker := by
  have hrefuses : ∀ c ∈ callsOutsideBodies t, ∀ e',
      callEdit? cx t c = .error e' ↔ Refuses cx t c e' := by
    intro c hc e'
    obtain ⟨k, hoccurs⟩ := exists_occurs_of_mem_calls hc
    exact callEdit?_eq_error_iff hoccurs
  have horder := pairwise_marker t
  rw [apply_eq_error_iff, CompileError.mapM_eq_error_iff]
  generalize callsOutsideBodies t = calls at hrefuses horder
  constructor
  · rintro ⟨before, c, after, rfl, he, hbefore⟩
    have hc : c ∈ before ++ c :: after := List.mem_append_right _ List.mem_cons_self
    refine ⟨c, hc, (hrefuses c hc e).mp he, fun d hd e' hd' => ?_⟩
    obtain ⟨-, hlater, -⟩ := List.pairwise_append.mp horder
    rcases List.mem_append.mp hd with hmem | hmem
    · exact absurd ((hrefuses d hd e').mpr hd') (hbefore d hmem e')
    · rcases List.mem_cons.mp hmem with rfl | hmem
      · exact Nat.le_refl _
      · exact Nat.le_of_lt ((List.pairwise_cons.mp hlater).1 d hmem)
  · rintro ⟨c, hc, he, hleast⟩
    obtain ⟨before, after, rfl⟩ := List.append_of_mem hc
    refine ⟨before, c, after, rfl, (hrefuses c hc e).mpr he, fun d hd e' hd' => ?_⟩
    have hmem : d ∈ before ++ c :: after := List.mem_append_left _ hd
    have hle := hleast d hmem e' ((hrefuses d hmem e').mp hd')
    obtain ⟨-, -, hacross⟩ := List.pairwise_append.mp horder
    have hlt := hacross d hd c List.mem_cons_self
    omega

theorem forall₂_givesWay {edits : List (Option Edit)}
    (h : List.Forall₂ (fun c edit => callEdit? cx t c = .ok edit) calls edits) :
    List.Forall₂ (GivesWay cx) (calls.filter fun c => !c.colon) (edits.filterMap id) := by
  induction h with
  | nil => exact .nil
  | cons hedit _ ih =>
    rcases givesWay_of_callEdit? hedit with ⟨hcolon, rfl⟩ | ⟨hcolon, e, rfl, hgives⟩
    · simpa only [List.filter_cons, hcolon, Bool.not_true, Bool.false_eq_true, if_false,
        List.filterMap_cons, id_eq] using ih
    · simpa only [List.filter_cons, hcolon, Bool.not_false, if_true, List.filterMap_cons, id_eq]
        using List.Forall₂.cons hgives ih

theorem exists_refuses_of_apply (h : shortCalls.apply cx nested t = .error e) :
    ∃ c ∈ callsOutsideBodies t, ∃ e, Refuses cx t c e := by
  obtain ⟨c, hc, hrefuses, -⟩ := apply_eq_error_iff_leftmost.mp h
  exact ⟨c, hc, e, hrefuses⟩

/-- When no call is refused, the calls without a colon give way to their code, and all else
is copied. -/
theorem splices_of_not_refuses (h : ∀ c ∈ callsOutsideBodies t, ∀ e, ¬ Refuses cx t c e) :
    ∃ es, List.Forall₂ (GivesWay cx) ((callsOutsideBodies t).filter fun c => !c.colon) es ∧
      t = (Edit.splice t 0 es).before ∧
      shortCalls.apply cx nested t = .ok (Edit.splice t 0 es).after := by
  cases hedits : shortCalls.edits cx nested t with
  | error e =>
    have hrefused : shortCalls.apply cx nested t = .error e := by
      rw [apply_eq_edits, hedits]
      rfl
    obtain ⟨c, hc, e', hrefuses⟩ := exists_refuses_of_apply hrefused
    exact absurd hrefuses (h c hc e')
  | ok es =>
    obtain ⟨hbefore, hafter⟩ := Edit.splice_of_ordered (ordered_edits hedits)
    obtain ⟨answers, hanswers, hes⟩ := CompileError.ok_of_bind hedits
    cases hes
    refine ⟨_, forall₂_givesWay (CompileError.mapM_eq_ok_iff.mp hanswers), hbefore, ?_⟩
    rw [apply_eq_edits, hedits, ← hafter]
    rfl

/-- The error of a failed expander names the compile-time variant of the call's handler. -/
theorem message_of_refuses {handler : HandlerName} {arguments : Text} {p : Position}
    {reason : HandlerError} (h : Refuses cx t c (.expanderFailed handler arguments p reason)) :
    (CompileError.expanderFailed handler arguments p reason).message =
      "Compile-time handler " ++
        String.ofList ((cx.handler c.call.name).space ++ "::".toList ++
          ((cx.handler c.call.name).method ++ "_compiler".toList)) ++
        " failed at " ++ (cx.position t c.marker).describe ++ " with arguments (" ++
        String.ofList c.call.argumentText ++ "): " ++ reason.message := by
  cases h with
  | expander _ _ _ => rfl

theorem exists_apply_eq_error_iff : (∃ e, shortCalls.apply cx nested t = .error e) ↔
    ∃ c ∈ callsOutsideBodies t, ∃ e, Refuses cx t c e := by
  constructor
  · rintro ⟨e, he⟩
    exact exists_refuses_of_apply he
  · rintro ⟨c, hc, e, hrefuses⟩
    obtain ⟨k, hoccurs⟩ := exists_occurs_of_mem_calls hc
    have hrefused := (callEdit?_eq_error_iff hoccurs).mpr hrefuses
    cases hsteps : (callsOutsideBodies t).mapM (callEdit? cx t) with
    | error e' => exact ⟨e', apply_eq_error_iff.mpr hsteps⟩
    | ok edits =>
      obtain ⟨edit, -, hedit⟩ := CompileError.exists_answer_of_mapM hsteps hc
      rw [hrefused] at hedit
      cases hedit

/-- For every context and every text: the rule for short calls fails exactly when it visits a
call that is refused, and then with the error of the leftmost one, at the position of its
marker.  Otherwise the visited calls without a colon give way to their code, those with a
colon are left to the rule for blocks, and all else is copied. -/
theorem apply_refuses_first (cx : Context) (nested : BodyCompiler) (t : Text) :
    (∀ calls, Visits t 0 calls ↔ calls = callsOutsideBodies t) ∧
    ((∃ e, shortCalls.apply cx nested t = .error e) ↔
      ∃ c ∈ callsOutsideBodies t, ∃ e, Refuses cx t c e) ∧
    (∀ e, shortCalls.apply cx nested t = .error e ↔
      ∃ c ∈ callsOutsideBodies t, Refuses cx t c e ∧
        ∀ d ∈ callsOutsideBodies t, ∀ e', Refuses cx t d e' → c.marker ≤ d.marker) ∧
    (∀ c handler arguments p reason,
      Refuses cx t c (.expanderFailed handler arguments p reason) →
        (CompileError.expanderFailed handler arguments p reason).message =
          "Compile-time handler " ++
            String.ofList ((cx.handler c.call.name).space ++ "::".toList ++
              ((cx.handler c.call.name).method ++ "_compiler".toList)) ++
            " failed at " ++ (cx.position t c.marker).describe ++ " with arguments (" ++
            String.ofList c.call.argumentText ++ "): " ++ reason.message) ∧
    ((∀ c ∈ callsOutsideBodies t, ∀ e, ¬ Refuses cx t c e) →
      ∃ es, List.Forall₂ (GivesWay cx) ((callsOutsideBodies t).filter fun c => !c.colon) es ∧
        t = (Edit.splice t 0 es).before ∧
        shortCalls.apply cx nested t = .ok (Edit.splice t 0 es).after) :=
  ⟨fun _ => visits_iff, exists_apply_eq_error_iff, fun _ => apply_eq_error_iff_leftmost,
    fun _ _ _ _ _ => message_of_refuses, splices_of_not_refuses⟩

/-- The first call opens a block, the second stands in its body, and of the two others both
are refused. -/
example : CompileError.of? (shortCalls.apply Compiler.bare.topContext Compiler.bare.compileBody
    "@@b:\n@@c:\n@@endb @@d: @@e:".toList) = some (.ambiguousColon ['d'] ⟨3, 8⟩) := by
  decide +kernel

end Rule
end TemplateDirectives
