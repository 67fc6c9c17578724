/-
What the readers of directives find at a marker that a tree of markup has written.

A proper name is read back whole, and so is a call with a closed argument list.
The marker of a call or of a block's opening is then read as just that, and no
reader of attributes or of end markers takes it for one of its own.  The end
marker of a name ends the blocks of that name alone, unless the name is read as
another one (`closes_ending`).
-/
import TemplateDirectives.Proofs.Markup.Basic

namespace TemplateDirectives
namespace Directive

/-! ## Names and calls -/

namespace Name

theorem isProper_iff {n : Name} : n.isProper = true ↔
    (∀ q, n.qualifier = some q → q ≠ [] ∧ ∀ c ∈ q, isQualifierChar c = true) ∧ n.method ≠ [] ∧
      (∀ c ∈ n.method, Text.isWord c = true) ∧ n.beginsWithEnd = false := by
  obtain ⟨q, m⟩ := n
  cases q <;> simp [isProper, and_assoc]

/-- A method, with or without a qualifier: the names that are read. -/
structure IsFormed (n : Name) : Prop where
  qualifier : ∀ q, n.qualifier = some q → q ≠ [] ∧ ∀ c ∈ q, isQualifierChar c = true
  method_ne_nil : n.method ≠ []
  method : ∀ c ∈ n.method, Text.isWord c = true

theorem isFormed_of_isProper {n : Name} (hn : n.isProper = true) : n.IsFormed := by
  obtain ⟨hq, hm, hw, -⟩ := isProper_iff.mp hn
  exact ⟨hq, hm, hw⟩

theorem isQualifierChar_of_isWord {c : Char} (h : Text.isWord c = true) :
    isQualifierChar c = true := by
  simp [isQualifierChar, h]

theorem isNameChar_of_isQualifierChar {c : Char} (h : isQualifierChar c = true) :
    isNameChar c = true := by
  simp [isNameChar, h]

theorem any_isWord_of_any_isNameChar {o : Option Char} (h : o.any isNameChar = false) :
    o.any Text.isWord = false :=
  Text.any_eq_false_of_imp (fun _ hc => isNameChar_of_isQualifierChar (isQualifierChar_of_isWord hc))
    h

theorem isNameChar_of_mem_written {n : Name} (hn : n.IsFormed) {c : Char}
    (hc : c ∈ n.written) : isNameChar c = true := by
  obtain ⟨hq, -, hw⟩ := hn
  have hmethod : ∀ d ∈ n.method, isNameChar d = true := fun d hd =>
    isNameChar_of_isQualifierChar (isQualifierChar_of_isWord (hw d hd))
  obtain ⟨q, m⟩ := n
  cases q with
  | none => exact hmethod c hc
  | some q =>
    simp only [written, List.mem_append] at hc
    rcases hc with (hc | hc) | hc
    · exact isNameChar_of_isQualifierChar ((hq q rfl).2 c hc)
    · have : c = ':' := by simpa [separator] using hc
      rw [this]
      rfl
    · exact hmethod c hc

theorem at_not_mem_written {n : Name} (hn : n.IsFormed) : '@' ∉ n.written := by
  intro h
  exact absurd (isNameChar_of_mem_written hn h) (by decide)

theorem written_ne_nil {n : Name} (hn : n.IsFormed) : n.written ≠ [] := by
  obtain ⟨-, hm, -⟩ := hn
  obtain ⟨q, m⟩ := n
  cases q with
  | none => exact hm
  | some q => simp [written, separator]

theorem getLast?_written {n : Name} (hn : n.IsFormed) :
    ∃ c, n.written.getLast? = some c ∧ Text.isWord c = true := by
  obtain ⟨-, hm, hw⟩ := hn
  have hlast : n.written.getLast? = n.method.getLast? := by
    obtain ⟨q, m⟩ := n
    cases q with
    | none => rfl
    | some q => rw [written, List.getLast?_append, List.getLast?_eq_some_getLast hm, Option.some_or]
  refine ⟨n.method.getLast hm, ?_, hw _ (List.getLast_mem hm)⟩
  rw [hlast, List.getLast?_eq_some_getLast hm]

theorem after?_separator_eq_none {rest : Text} (hr : rest.head?.any isNameChar = false) :
    Text.after? separator rest = none := by
  cases rest with
  | nil => rfl
  | cons c rest =>
    have hc : ':' ≠ c := by
      rintro rfl
      cases hr
    simp [Text.after?, separator, List.isPrefixOf, hc]

/-- A name is read whole when no further character of names follows. -/
theorem read?_written {n : Name} (hn : n.IsFormed) {rest : Text}
    (hr : rest.head?.any isNameChar = false) : read? (n.written ++ rest) = some n := by
  obtain ⟨hq, hm, hw⟩ := hn
  obtain ⟨q, m⟩ := n
  have hrq := Text.any_eq_false_of_imp (fun c => isNameChar_of_isQualifierChar) hr
  have hrw := any_isWord_of_any_isNameChar hr
  have hmethod : (m ++ rest).takeWhile Text.isWord = m := Text.takeWhile_append_of_stop hw hrw
  change m ≠ [] at hm
  cases q with
  | none =>
    have hqc : ∀ c ∈ m, isQualifierChar c = true := fun c hc => isQualifierChar_of_isWord (hw c hc)
    have hnone : readQualified? (m ++ rest) = none := by
      simp only [readQualified?, Text.dropWhile_append_of_stop hqc hrq, after?_separator_eq_none hr]
    show (readQualified? (m ++ rest)).or (readPlain? (m ++ rest)) = _
    simp only [hnone, Option.none_or, readPlain?, hmethod, if_neg hm]
  | some q =>
    obtain ⟨hq0, hqc⟩ := hq q rfl
    have hsep : (separator ++ (m ++ rest)).head?.any isQualifierChar = false := rfl
    have hwritten : written ⟨some q, m⟩ ++ rest = q ++ (separator ++ (m ++ rest)) := by
      simp only [written, List.append_assoc]
    have hafter : Text.after? separator (separator ++ (m ++ rest)) = some (m ++ rest) :=
      Text.after?_eq_some.mpr rfl
    rw [hwritten, read?]
    simp only [readQualified?, Text.dropWhile_append_of_stop hqc hsep,
      Text.takeWhile_append_of_stop hqc hsep, hafter, hmethod]
    rw [if_neg (by simp [hq0, hm]), Option.some_or]

/-- A proper name in front of a parenthesis does not go on like an end marker. -/
theorem not_endWord_isPrefix {n : Name} (hn : n.isProper = true) (rest : Text) :
    ¬ endWord <+: n.written ++ '(' :: rest := by
  obtain ⟨-, -, -, he⟩ := isProper_iff.mp hn
  intro h
  rw [show n.written ++ '(' :: rest = (n.written ++ ['(']) ++ rest by simp] at h
  rcases List.prefix_or_prefix_of_prefix h (List.prefix_append _ _) with hp | hp
  · rcases List.prefix_concat_iff.mp hp with heq | hp
    · have : '(' ∈ endWord := by
        rw [heq]
        simp
      exact absurd this (by decide)
    · rw [beginsWithEnd, List.isPrefixOf_iff_prefix.mpr hp] at he
      cases he
  · have : '(' ∈ endWord := hp.subset (by simp)
    exact absurd this (by decide)

end Name

namespace Call

theorem written_applied (n : Name) (a : Text) :
    (applied n a).written = n.written ++ '(' :: (a ++ [')']) := rfl

theorem at_not_mem_applied {n : Name} (hn : n.isProper = true) {a : Text} (ha : '@' ∉ a) :
    '@' ∉ (applied n a).written := by
  simp [written_applied, Name.at_not_mem_written (Name.isFormed_of_isProper hn), ha]

theorem getLast?_applied (n : Name) (a : Text) : (applied n a).written.getLast? = some ')' := by
  rw [written_applied, ← List.cons_append, ← List.append_assoc, List.getLast?_concat]

theorem head?_applied {n : Name} (hn : n.isProper = true) (a y : Text) :
    ((applied n a).written ++ y).head? ≠ some '@' := by
  have hformed := Name.isFormed_of_isProper hn
  obtain ⟨c, w, hw⟩ := List.exists_cons_of_ne_nil (Name.written_ne_nil hformed)
  have hc : c ≠ '@' := by
    rintro rfl
    exact Name.at_not_mem_written hformed (by simp [hw])
  simpa [written_applied, hw] using hc

theorem read?_applied {n : Name} (hn : n.isProper = true) {a : Text} (ha : ClosesItself a)
    (rest : Text) : read? ((applied n a).written ++ rest) = some (applied n a) := by
  have hb : Text.isBlank '(' = false := by decide
  have hsplit : splitClosing? 0 .outside (a ++ [')'] ++ rest) = some (a, [] ++ rest) :=
    splitClosing?_append ha rest
  have hargs : ArgumentList.read? ('(' :: (a ++ [')'] ++ rest)) = some ⟨[], a⟩ := by
    simp only [ArgumentList.read?, List.dropWhile_cons, List.takeWhile_cons, hb,
      Bool.false_eq_true, if_false, hsplit, Option.map_some]
  have hname : Name.read? (n.written ++ '(' :: (a ++ [')'] ++ rest)) = some n :=
    Name.read?_written (Name.isFormed_of_isProper hn) rfl
  rw [read?, written_applied, List.append_assoc, List.cons_append, hname, Option.map_some,
    List.drop_left, hargs]
  rfl

end Call

/-! ## End markers -/

namespace EndMarker

variable {t name x : Text}

theorem at?_eq_none_of_head (offset : Nat) (rest : Text) (h : rest.head? ≠ some '@') :
    at? t name offset rest = none := by
  unfold at?
  split
  next => simp at h
  next => simp at h
  next => rfl

theorem at?_single_eq_none (hx : x.head? ≠ some '@') (hc : closes name x = false) (offset : Nat) :
    at? t name offset ('@' :: x) = none := by
  unfold at?
  split
  next after hr => exact absurd (by rw [(List.cons.inj hr).2]; rfl) hx
  next after _ hr => rw [← (List.cons.inj hr).2, hc]; rfl
  next => rfl

/-- Neither `@` of a marker begins an end marker for `name` when the text behind it
is not the end word with that name. -/
theorem at?_marker (hx : x.head? ≠ some '@') (hc : closes name x = false) (offset : Nat) :
    at? t name offset (callMarker ++ x) = none ∧ at? t name (offset + 1) ('@' :: x) = none :=
  ⟨by simp [at?, callMarker, hc], at?_single_eq_none hx hc (offset + 1)⟩

theorem closes_eq_false (h : ¬ Name.endWord ++ name <+: x) : closes name x = false := by
  rw [closes, Text.after?, if_neg (by rwa [List.isPrefixOf_iff_prefix])]

theorem closes_applied {n : Name} (hn : n.isProper = true) (a y : Text) :
    closes name ((Call.applied n a).written ++ y) = false := by
  refine closes_eq_false fun h => Name.not_endWord_isPrefix hn (a ++ [')'] ++ y) ?_
  rw [Call.written_applied, List.append_assoc, List.cons_append] at h
  exact (List.prefix_append _ _).trans h

/-- The end marker of `n` does not end a block named `outer`, unless `n` is read as
that name. -/
theorem closes_ending {outer n : Name} (ho : outer.IsFormed) (hn : n.IsFormed)
    (hno : outer.isReadAs n = false) {y : Text} (hy : y.head?.any Name.isNameChar = false) :
    closes outer.written (Name.endWord ++ (n.written ++ y)) = false := by
  simp only [Name.isReadAs, Bool.or_eq_false_iff, beq_eq_false_iff_ne] at hno
  obtain ⟨⟨hne, hcolon⟩, hback⟩ := hno
  by_cases hp : Name.endWord ++ outer.written <+: Name.endWord ++ (n.written ++ y)
  · rw [List.prefix_append_right_inj] at hp
    rcases List.prefix_or_prefix_of_prefix hp (List.prefix_append _ _) with ⟨s, hs⟩ | ⟨s, hs⟩
    · -- `n` goes on behind the name of the outer block
      cases s with
      | nil => exact absurd (by simpa using hs.symm) hne
      | cons c s =>
        have hword : Text.isWord c = true := by
          have hc : Name.isNameChar c = true :=
            Name.isNameChar_of_mem_written hn (by rw [← hs]; simp)
          simp only [Name.isNameChar, Name.isQualifierChar, Bool.or_eq_true, beq_iff_eq] at hc
          rcases hc with (hc | rfl) | rfl
          · exact hc
          · rw [← hs, show outer.written ++ '\\' :: s = outer.written ++ ['\\'] ++ s by simp,
              List.isPrefixOf_iff_prefix.mpr (List.prefix_append _ _)] at hback
            cases hback
          · rw [← hs, show outer.written ++ ':' :: s = outer.written ++ [':'] ++ s by simp,
              List.isPrefixOf_iff_prefix.mpr (List.prefix_append _ _)] at hcolon
            cases hcolon
        have hafter : Text.after? (Name.endWord ++ outer.written)
            (Name.endWord ++ (n.written ++ y)) = some (c :: s ++ y) := by
          rw [Text.after?_eq_some, ← hs]
          simp only [List.append_assoc]
        simp [closes, hafter, hword]
    · -- the outer name goes on behind `n`, where no character of names stands
      cases s with
      | nil => exact absurd (by simpa using hs) hne
      | cons c s =>
        have hc : Name.isNameChar c = true :=
          Name.isNameChar_of_mem_written ho (by rw [← hs]; simp)
        rw [← hs, List.prefix_append_right_inj] at hp
        obtain ⟨z, rfl⟩ := hp
        rw [List.cons_append, List.head?_cons, Option.any_some, hc] at hy
        cases hy
  · exact closes_eq_false hp

theorem at?_ending {y : Text} (hy : y.head?.any Text.isWord = false) (offset : Nat) :
    at? t name offset (callMarker ++ (Name.endWord ++ (name ++ y))) =
      some ⟨offset, offset + callMarker.length + Name.endWord.length + name.length, true⟩ := by
  have hafter : Text.after? (Name.endWord ++ name) (Name.endWord ++ (name ++ y)) = some y := by
    rw [Text.after?_eq_some, List.append_assoc]
  have hcloses : closes name (Name.endWord ++ (name ++ y)) = true := by
    simp only [closes, hafter, hy, Bool.not_false]
  simp only [callMarker, List.cons_append, List.nil_append, at?, hcloses, if_true,
    List.length_cons, List.length_nil]

end EndMarker

/-! ## Attributes -/

namespace Attribute

theorem at?_eq_none_of_head {t : Text} {cursor : Nat} (offset : Nat) (rest : Text)
    (h : rest.head? ≠ some '@') : at? t cursor offset rest = none := by
  have hp : attributeMarker.isPrefixOf rest = false := by
    cases rest with
    | nil => rfl
    | cons c rest =>
      have hc : '@' ≠ c := by
        rintro rfl
        exact h rfl
      simp [attributeMarker, List.isPrefixOf, hc]
  simp [at?, hp]

/-- Neither `@` of a marker begins a boolean attribute: the first is followed by the
second, and before the second stands the first in place of a quote. -/
theorem at?_marker {t x : Text} {offset : Nat} (hd : t.drop offset = callMarker ++ x) :
    at? t 0 offset (callMarker ++ x) = none ∧ at? t 0 (offset + 1) ('@' :: x) = none := by
  constructor
  · rfl
  · have hs : Text.slice t 0 (offset + 1) = t.take offset ++ ['@'] := by
      rw [Text.slice, List.drop_zero, List.take_add, hd]
      rfl
    have hnone : Head.readBack? (t.take offset ++ ['@']).reverse = none := by
      rw [List.reverse_append]
      rfl
    unfold at?
    split
    next => rfl
    next => rw [hs, hnone]

end Attribute

/-! ## Openings of blocks -/

namespace BlockOpening

theorem at?_eq_some {t indent more : Text} {call : Call} {cursor offset : Nat}
    (hd : t.drop offset = indent ++ (callMarker ++ (call.written ++ ':' :: more)))
    (hcall : Call.read? (call.written ++ ':' :: more) = some call)
    (hindent : indent.all Text.isIndent = true)
    (hline : (t.before? offset).all (· == '\n') = true) (hcursor : cursor ≤ offset) :
    at? t cursor (offset + indent.length) =
      some ⟨offset + indent.length, indent,
        Text.takeEndWhile Text.isBlank (t.slice cursor offset), call⟩ := by
  have hlt : offset < t.length := by
    have := congrArg List.length hd
    simp only [List.length_drop, List.length_append, callMarker, List.length_cons] at this
    omega
  have htake : t.take (offset + indent.length) = t.take offset ++ indent := by
    rw [List.take_add, hd, List.take_left]
  have hdrop : t.drop (offset + indent.length + callMarker.length) = call.written ++ ':' :: more :=
    Text.drop_of_drop (Text.drop_of_drop hd)
  have hnl : ∀ c ∈ indent, (c != '\n') = true := by
    intro c hc
    have := List.all_eq_true.mp hindent c hc
    rcases (by simpa [Text.isIndent] using this : c = ' ' ∨ c = '\t') with rfl | rfl <;> rfl
  have hstop : (t.take offset).getLast?.any (· != '\n') = false := by
    rw [Text.getLast?_take (Nat.le_of_lt hlt)]
    cases hb : t.before? offset with
    | none => rfl
    | some c =>
      rw [hb, Option.all_some, beq_iff_eq] at hline
      rw [hline]
      rfl
  have hend : Text.takeEndWhile (· != '\n') (t.take (offset + indent.length)) = indent := by
    rw [htake, Text.takeEndWhile_append_of_stop hnl hstop]
  unfold at?
  simp only [hend, Nat.add_sub_cancel, hdrop, hcall, List.drop_left]
  rw [if_neg (by rw [hindent]; simp; omega)]
  simp

theorem at?_eq_none {t more : Text} {call : Call} {cursor marker : Nat}
    (hdrop : t.drop (marker + callMarker.length) = call.written ++ more)
    (hcall : Call.read? (call.written ++ more) = some call) (hcolon : more.head? ≠ some ':') :
    at? t cursor marker = none := by
  unfold at?
  simp only [hdrop, hcall, List.drop_left, if_neg hcolon, ite_self]

end BlockOpening

/-! ## Short calls -/

namespace ShortCall

variable {t : Text}

theorem at?_eq_none_of_not_marker {cursor marker : Nat} {rest : Text}
    (h : ¬ callMarker <+: rest) : at? t cursor marker rest = none := by
  have hafter : Text.after? callMarker rest = none := by
    rw [Text.after?, if_neg (by rwa [List.isPrefixOf_iff_prefix])]
  simp only [at?, hafter]

theorem at?_eq_none_of_head {cursor : Nat} (marker : Nat) (rest : Text)
    (h : rest.head? ≠ some '@') : at? t cursor marker rest = none := by
  refine at?_eq_none_of_not_marker fun hp => h ?_
  obtain ⟨more, rfl⟩ := hp
  rfl

theorem at?_second_eq_none {cursor marker : Nat} {x : Text} (hx : x.head? ≠ some '@') :
    at? t cursor marker ('@' :: x) = none := by
  refine at?_eq_none_of_not_marker fun hp => hx ?_
  obtain ⟨more, hm⟩ := hp
  rw [← (List.cons.inj hm).2]
  rfl

theorem at?_eq_some {call : Call} {cursor marker : Nat} {more : Text}
    (hbefore : (t.before? marker).any Text.isWord = false)
    (hcall : Call.read? (call.written ++ more) = some call)
    (hend : call.name.beginsWithEnd = false) :
    at? t cursor marker (callMarker ++ (call.written ++ more)) =
      some ⟨marker, Text.takeEndWhile Text.isBlank (t.slice cursor marker), call,
        more.head? == some ':'⟩ := by
  have hafter : Text.after? callMarker (callMarker ++ (call.written ++ more))
      = some (call.written ++ more) := Text.after?_eq_some.mpr rfl
  simp only [at?, hafter, hbefore, hcall, hend, List.drop_left, Bool.false_eq_true, if_false]

theorem at?_ending_eq_none {cursor marker : Nat} (x : Text) :
    at? t cursor marker (callMarker ++ (Name.endWord ++ x)) = none := by
  have hafter : Text.after? callMarker (callMarker ++ (Name.endWord ++ x))
      = some (Name.endWord ++ x) := Text.after?_eq_some.mpr rfl
  simp only [at?, hafter]
  split
  next => rfl
  next =>
    cases hc : Call.read? (Name.endWord ++ x) with
    | none => rfl
    | some call =>
      obtain ⟨name, hn, rfl⟩ := Option.map_eq_some_iff.mp hc
      simp only [Name.beginsWithEnd_of_read? hn, if_true]

end ShortCall
end Directive

/-! ## Handlers -/

theorem HandlerName.at_not_mem_written {space : Text} (hspace : '@' ∉ space) {n : Directive.Name}
    (hn : n.IsFormed) : '@' ∉ (HandlerName.ofDirective space n).written := by
  have hqualifier : '@' ∉ n.qualifier.getD space := by
    intro h
    cases hq : n.qualifier with
    | none =>
      rw [hq] at h
      exact hspace h
    | some q =>
      rw [hq] at h
      exact absurd ((hn.qualifier q hq).2 _ h) (by decide)
  have hmethod : '@' ∉ n.method := fun h => absurd (hn.method _ h) (by decide)
  simp only [HandlerName.written, HandlerName.ofDirective, List.mem_append, not_or]
  exact ⟨⟨hqualifier, by decide⟩, hmethod⟩

end TemplateDirectives
