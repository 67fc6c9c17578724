/-
What a call is, said without the readers.

A name is a method, or a qualifier and a method with the separator between them, and the
method goes on as long as word characters do.  Where a qualified name stands, no plain one
is read.  An argument list is what two parentheses enclose of which the second is the first
to close the other, those in string literals not counted.  `Name.Begins`,
`ArgumentList.Begins` and `Call.Begins` say this of the beginning of a text, with what
stands behind it, and the readers read just this.
-/
import TemplateDirectives.Proofs.Grammar.Runs

namespace TemplateDirectives

/-! ## Outside of literals -/

namespace LiteralState

/-- The characters that stand outside string literals, when reading begins in state `s`. -/
def bare : LiteralState → Text → Text
  | _, [] => []
  | s, c :: rest => if s = outside then c :: bare (s.step c) rest else bare (s.step c) rest

end LiteralState

namespace Directive

/-! ## Names -/

namespace Name

/-- The name `n` stands at the beginning of `t` with `rest` behind it: no word character
goes on with its method, and it is qualified if any name that `t` begins with is. -/
structure Begins (n : Name) (t rest : Text) : Prop where
  text : t = n.written ++ rest
  isFormed : n.IsFormed
  longest : rest.head?.any Text.isWord = false
  qualified : ∀ (m : Name) (more : Text), m.IsFormed → t = m.written ++ more →
    m.qualifier.isSome = true → n.qualifier.isSome = true

variable {n : Name} {t q x : Text}

/-- Behind a qualifier and its separator the longest method is read, if there is one. -/
theorem readQualified?_separator (hq : q ≠ []) (hchars : ∀ c ∈ q, isQualifierChar c = true)
    (x : Text) : readQualified? (q ++ (separator ++ x)) =
      if x.takeWhile Text.isWord = [] then none else some ⟨some q, x.takeWhile Text.isWord⟩ := by
  have hstop : (separator ++ x).head?.any isQualifierChar = false := rfl
  have hafter : Text.after? separator (separator ++ x) = some x := Text.after?_eq_some.mpr rfl
  simp only [readQualified?, Text.takeWhile_append_of_stop hchars hstop,
    Text.dropWhile_append_of_stop hchars hstop, hafter, hq, false_or]

theorem eq_of_readQualified? (h : readQualified? t = some n) : ∃ q x, n.qualifier = some q ∧
    n.method = x.takeWhile Text.isWord ∧ t = q ++ (separator ++ x) := by
  unfold readQualified? at h
  simp only at h
  split at h
  next => cases h
  next x hx =>
    split at h
    next => cases h
    next =>
      cases h
      refine ⟨t.takeWhile isQualifierChar, x, rfl, rfl, ?_⟩
      rw [← Text.after?_eq_some.mp hx, List.takeWhile_append_dropWhile]

/-- A text that begins with a qualified name is not read as one with a plain name. -/
theorem isSome_readQualified? (hn : n.IsFormed) (hqualifier : n.qualifier.isSome = true)
    (rest : Text) : (readQualified? (n.written ++ rest)).isSome = true := by
  obtain ⟨q, hq⟩ := Option.isSome_iff_exists.mp hqualifier
  obtain ⟨hne, hchars⟩ := hn.qualifier q hq
  have hwritten : n.written ++ rest = q ++ (separator ++ (n.method ++ rest)) := by
    simp only [written, hq, List.append_assoc]
  have hmethod : (n.method ++ rest).takeWhile Text.isWord ≠ [] := by
    rw [List.takeWhile_append_of_pos hn.method]
    exact List.append_ne_nil_of_left_ne_nil hn.method_ne_nil _
  rw [hwritten, readQualified?_separator hne hchars, if_neg hmethod]
  rfl

theorem read?_eq_some_iff : read? t = some n ↔ ∃ rest, n.Begins t rest := by
  constructor
  · intro h
    have hformed := isFormed_of_read? h
    rw [read?, Option.or_eq_some_iff] at h
    rcases h with h | ⟨hnone, h⟩
    · obtain ⟨q, x, hq, hmethod, rfl⟩ := eq_of_readQualified? h
      refine ⟨x.dropWhile Text.isWord, ?_, hformed, Text.any_head?_dropWhile _ _, fun _ _ _ _ _ => ?_⟩
      · simp only [written, hq, hmethod, List.append_assoc, List.takeWhile_append_dropWhile]
      · rw [hq]
        rfl
    · unfold readPlain? at h
      simp only at h
      split at h
      next => cases h
      next =>
        cases h
        refine ⟨t.dropWhile Text.isWord, List.takeWhile_append_dropWhile.symm, hformed,
          Text.any_head?_dropWhile _ _, fun m more hm htext hqualifier => ?_⟩
        have hsome := isSome_readQualified? hm hqualifier more
        rw [← htext, hnone] at hsome
        cases hsome
  · intro h
    obtain ⟨rest, htext, hformed, hlongest, hqualified⟩ := h
    have hmethod : (n.method ++ rest).takeWhile Text.isWord = n.method :=
      Text.takeWhile_append_of_stop hformed.method hlongest
    cases hq : n.qualifier with
    | some q =>
      obtain ⟨hne, hchars⟩ := hformed.qualifier q hq
      have hwritten : t = q ++ (separator ++ (n.method ++ rest)) := by
        simp only [htext, written, hq, List.append_assoc]
      rw [read?, hwritten, readQualified?_separator hne hchars, hmethod,
        if_neg hformed.method_ne_nil, Option.some_or, ← hq]
    | none =>
      have hwritten : t = n.method ++ rest := by simp only [htext, written, hq]
      have hnone : readQualified? t = none := by
        cases hread : readQualified? t with
        | none => rfl
        | some m =>
          have hm : read? t = some m := by rw [read?, hread, Option.some_or]
          obtain ⟨more, hmore⟩ := written_isPrefix_of_read? hm
          obtain ⟨q, x, hmq, -, -⟩ := eq_of_readQualified? hread
          have hsome := hqualified m more (isFormed_of_read? hm) hmore.symm (by rw [hmq]; rfl)
          rw [hq] at hsome
          cases hsome
      rw [read?, hnone, Option.none_or, readPlain?, hwritten, hmethod]
      simp only [hformed.method_ne_nil, if_false]
      rw [← hq]

theorem beginsWithEnd_eq_false_iff : n.beginsWithEnd = false ↔ ¬ endWord <+: n.written := by
  rw [beginsWithEnd, Bool.eq_false_iff, Ne, List.isPrefixOf_iff_prefix]

theorem Begins.unique {m : Name} {rest more : Text} (hn : n.Begins t rest) (hm : m.Begins t more) :
    n = m := by
  have hread := read?_eq_some_iff.mpr ⟨rest, hn⟩
  rw [read?_eq_some_iff.mpr ⟨more, hm⟩] at hread
  exact (Option.some.inj hread).symm

end Name

/-! ## Argument lists -/

/-- The closing parenthesis behind `inner` is the first that stands where as many are closed
as are opened, when `nested` are open already and reading begins in state `s`. -/
structure ClosesFirst (nested : Nat) (s : LiteralState) (inner : Text) : Prop where
  literals : s.run inner = .outside
  balanced : nested + (s.bare inner).count '(' = (s.bare inner).count ')'
  first : ∀ front, front ++ [')'] <+: inner → s.run front = .outside →
    nested + (s.bare front).count '(' ≠ (s.bare front).count ')'

/-- How many parentheses are open behind `c`. -/
def nestedAfter (nested : Nat) (s : LiteralState) (c : Char) : Nat :=
  if s ≠ .outside then nested
  else if c = '(' then nested + 1
  else if c = ')' then nested - 1
  else nested

section

variable {nested : Nat} {s : LiteralState} {c : Char} {t inner after : Text}

theorem nestedAfter_opening (nested : Nat) : nestedAfter nested .outside '(' = nested + 1 := rfl

theorem nestedAfter_closing (nested : Nat) : nestedAfter nested .outside ')' = nested - 1 := rfl

theorem nestedAfter_of_ne_outside (hs : s ≠ .outside) : nestedAfter nested s c = nested :=
  if_pos hs

theorem nestedAfter_of_ne (hopen : c ≠ '(') (hclose : c ≠ ')') : nestedAfter nested s c = nested := by
  rw [nestedAfter, if_neg hopen, if_neg hclose, ite_self]

/-- Nothing is lost in the count: what was open and what the rest opens and closes is the same
before the character and behind it, unless that one ends the search. -/
theorem nestedAfter_add_count (h : ¬ (s = .outside ∧ c = ')' ∧ nested = 0)) (x : Text) :
    nestedAfter nested s c + ((s.step c).bare x).count '(' + (s.bare (c :: x)).count ')' =
      nested + (s.bare (c :: x)).count '(' + ((s.step c).bare x).count ')' := by
  rw [LiteralState.bare]
  by_cases hs : s = .outside
  · rw [if_pos hs]
    by_cases hopen : c = '('
    · subst hs hopen
      rw [nestedAfter_opening, List.count_cons_self, List.count_cons_of_ne (by decide)]
      omega
    · by_cases hclose : c = ')'
      · have hpos : nested ≠ 0 := fun hzero => h ⟨hs, hclose, hzero⟩
        subst hs hclose
        rw [nestedAfter_closing, List.count_cons_self, List.count_cons_of_ne (by decide)]
        omega
      · rw [nestedAfter_of_ne hopen hclose, List.count_cons_of_ne hopen,
          List.count_cons_of_ne hclose]
  · rw [if_neg hs, nestedAfter_of_ne_outside hs]

theorem splitClosing?_cons (nested : Nat) (s : LiteralState) (c : Char) (rest : Text) :
    splitClosing? nested s (c :: rest) =
      if s = .outside ∧ c = ')' ∧ nested = 0 then some ([], rest)
      else (splitClosing? (nestedAfter nested s c) (s.step c) rest).map fun (a, b) => (c :: a, b) := by
  conv => lhs; unfold splitClosing?
  split
  next => rfl
  next => rfl
  next => rfl
  next hopen hstop hclose =>
    have hafter : nestedAfter nested s c = nested := by
      by_cases hs : s = .outside
      · have hopening : c ≠ '(' := hopen hs
        have hclosing : c ≠ ')' := by
          intro hc
          cases hn : nested with
          | zero => exact hstop hs hc hn
          | succ n => exact hclose n hs hc hn
        exact nestedAfter_of_ne hopening hclosing
      · exact nestedAfter_of_ne_outside hs
    rw [if_neg (fun h => hstop h.1 h.2.1 h.2.2), hafter]

theorem balanced_cons (h : ¬ (s = .outside ∧ c = ')' ∧ nested = 0)) (x : Text) :
    nested + (s.bare (c :: x)).count '(' = (s.bare (c :: x)).count ')' ↔
      nestedAfter nested s c + ((s.step c).bare x).count '(' = ((s.step c).bare x).count ')' := by
  have hcount := nestedAfter_add_count h x
  omega

theorem closesFirst_nil : ClosesFirst nested s [] ↔ s = .outside ∧ nested = 0 := by
  constructor
  · intro h
    exact ⟨h.literals, by simpa [LiteralState.bare] using h.balanced⟩
  · intro h
    obtain ⟨rfl, rfl⟩ := h
    refine ⟨rfl, rfl, fun front hfront => ?_⟩
    have hlen := hfront.length_le
    simp at hlen

theorem closesFirst_cons : ClosesFirst nested s (c :: inner) ↔
    ¬ (s = .outside ∧ c = ')' ∧ nested = 0) ∧
      ClosesFirst (nestedAfter nested s c) (s.step c) inner := by
  constructor
  · intro h
    have hnot : ¬ (s = .outside ∧ c = ')' ∧ nested = 0) := by
      intro hstop
      obtain ⟨rfl, rfl, rfl⟩ := hstop
      exact h.first [] ⟨inner, rfl⟩ rfl rfl
    refine ⟨hnot, h.literals, (balanced_cons hnot inner).mp h.balanced, fun front hfront hout => ?_⟩
    have hne := h.first (c :: front) (List.cons_prefix_cons.mpr ⟨rfl, hfront⟩) hout
    rwa [Ne, balanced_cons hnot] at hne
  · intro h
    obtain ⟨hnot, h⟩ := h
    refine ⟨h.literals, (balanced_cons hnot inner).mpr h.balanced, fun front hfront hout => ?_⟩
    cases front with
    | nil =>
      obtain ⟨rfl, -⟩ := List.cons_prefix_cons.mp hfront
      intro hbalanced
      exact hnot ⟨hout, rfl, hbalanced⟩
    | cons d front =>
      rw [List.cons_append, List.cons_prefix_cons] at hfront
      obtain ⟨rfl, hfront⟩ := hfront
      rw [Ne, balanced_cons hnot]
      exact h.first front hfront hout

/-- The parenthesis at which the text is cut is the first one that closes. -/
theorem splitClosing?_eq_some_iff : splitClosing? nested s t = some (inner, after) ↔
    t = inner ++ ')' :: after ∧ ClosesFirst nested s inner := by
  induction t generalizing nested s inner with
  | nil => simp [splitClosing?]
  | cons c rest ih =>
    rw [splitClosing?_cons]
    by_cases hstop : s = .outside ∧ c = ')' ∧ nested = 0
    · rw [if_pos hstop]
      obtain ⟨rfl, rfl, rfl⟩ := hstop
      cases inner with
      | nil =>
        rw [closesFirst_nil]
        simp
      | cons d inner =>
        rw [closesFirst_cons]
        constructor
        · intro h
          cases h
        · intro h
          obtain ⟨htext, hnot, -⟩ := h
          exact absurd ⟨rfl, (List.cons.inj htext).1.symm, rfl⟩ hnot
    · rw [if_neg hstop]
      cases inner with
      | nil =>
        rw [closesFirst_nil]
        constructor
        · intro h
          obtain ⟨p, -, hp⟩ := Option.map_eq_some_iff.mp h
          cases hp
        · intro h
          obtain ⟨htext, hs, hnested⟩ := h
          exact absurd ⟨hs, (List.cons.inj htext).1, hnested⟩ hstop
      | cons d inner =>
        rw [closesFirst_cons]
        constructor
        · intro h
          obtain ⟨p, hread, hp⟩ := Option.map_eq_some_iff.mp h
          cases hp
          obtain ⟨htext, hcloses⟩ := ih.mp hread
          exact ⟨by rw [htext, List.cons_append], hstop, hcloses⟩
        · intro h
          obtain ⟨htext, -, hcloses⟩ := h
          obtain ⟨rfl, hrest⟩ := List.cons.inj htext
          rw [ih.mpr ⟨hrest, hcloses⟩]
          rfl

end

namespace ArgumentList

/-- The argument list `l` stands at the beginning of `t` with `rest` behind it. -/
structure Begins (l : ArgumentList) (t rest : Text) : Prop where
  text : t = l.written ++ rest
  gap : ∀ c ∈ l.gap, Text.isBlank c = true
  closes : ClosesFirst 0 .outside l.inner

theorem read?_eq_some_iff {t : Text} {l : ArgumentList} :
    read? t = some l ↔ ∃ rest, l.Begins t rest := by
  have hsplit : t = t.takeWhile Text.isBlank ++ t.dropWhile Text.isBlank :=
    List.takeWhile_append_dropWhile.symm
  constructor
  · intro h
    unfold read? at h
    split at h
    next enclosed henclosed =>
      obtain ⟨⟨inner, rest⟩, hread, hl⟩ := Option.map_eq_some_iff.mp h
      obtain ⟨htext, hcloses⟩ := splitClosing?_eq_some_iff.mp hread
      subst hl
      refine ⟨rest, ?_, fun c hc => List.all_eq_true.mp List.all_takeWhile c hc, hcloses⟩
      rw [henclosed, htext] at hsplit
      conv => lhs; rw [hsplit]
      simp only [written, List.append_assoc, List.cons_append, List.nil_append]
    next => cases h
  · intro h
    obtain ⟨rest, htext, hgap, hcloses⟩ := h
    have hwritten : t = l.gap ++ '(' :: (l.inner ++ ')' :: rest) := by
      rw [htext]
      simp only [written, List.append_assoc, List.cons_append, List.nil_append]
    have hstop : ('(' :: (l.inner ++ ')' :: rest)).head?.any Text.isBlank = false := rfl
    have hread : splitClosing? 0 .outside (l.inner ++ ')' :: rest) = some (l.inner, rest) :=
      splitClosing?_eq_some_iff.mpr ⟨rfl, hcloses⟩
    rw [read?, hwritten, Text.dropWhile_append_of_stop hgap hstop]
    simp only [hread, Option.map_some, Text.takeWhile_append_of_stop hgap hstop]

theorem read?_eq_none_iff {t : Text} :
    read? t = none ↔ ∀ (l : ArgumentList) (rest : Text), ¬ l.Begins t rest := by
  rw [Option.eq_none_iff_forall_ne_some]
  simp only [Ne, read?_eq_some_iff, not_exists]

end ArgumentList

/-! ## Calls -/

namespace Call

/-- The call `c` stands at the beginning of `t` with `rest` behind it: its name, and the
argument list behind the name if there is one. -/
inductive Begins (t rest : Text) : Call → Prop
  | plain {name : Name} (hname : name.Begins t rest)
      (hnone : ∀ (l : ArgumentList) (more : Text), ¬ l.Begins rest more) : Begins t rest ⟨name, none⟩
  | applied {name : Name} {l : ArgumentList} {behind : Text} (hname : name.Begins t behind)
      (harguments : l.Begins behind rest) : Begins t rest ⟨name, some l⟩

variable {c : Call} {t rest : Text}

theorem Begins.name (h : Begins t rest c) : ∃ behind, c.name.Begins t behind := by
  cases h with
  | plain hname hnone => exact ⟨rest, hname⟩
  | applied hname harguments => exact ⟨_, hname⟩

theorem Begins.text (h : Begins t rest c) : t = c.written ++ rest := by
  cases h with
  | plain hname hnone =>
    rw [hname.text]
    simp [written]
  | applied hname harguments =>
    rw [hname.text, harguments.text]
    simp [written]

theorem read?_eq_some_iff : read? t = some c ↔ ∃ rest, Begins t rest c := by
  constructor
  · intro h
    obtain ⟨name, hname, rfl⟩ := Option.map_eq_some_iff.mp h
    obtain ⟨behind, hbegins⟩ := Name.read?_eq_some_iff.mp hname
    rw [hbegins.text, List.drop_left, ← hbegins.text]
    cases hread : ArgumentList.read? behind with
    | none => exact ⟨behind, .plain hbegins (ArgumentList.read?_eq_none_iff.mp hread)⟩
    | some l =>
      obtain ⟨rest, harguments⟩ := ArgumentList.read?_eq_some_iff.mp hread
      exact ⟨rest, .applied hbegins harguments⟩
  · intro h
    obtain ⟨rest, h⟩ := h
    cases h with
    | plain hname hnone =>
      rw [read?, Name.read?_eq_some_iff.mpr ⟨rest, hname⟩, Option.map_some]
      conv => lhs; rw [hname.text, List.drop_left, ArgumentList.read?_eq_none_iff.mpr hnone]
    | applied hname harguments =>
      rw [read?, Name.read?_eq_some_iff.mpr ⟨_, hname⟩, Option.map_some]
      conv => lhs; rw [hname.text, List.drop_left, ArgumentList.read?_eq_some_iff.mpr ⟨rest, harguments⟩]

end Call

end Directive
end TemplateDirectives
