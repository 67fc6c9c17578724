/-
Matching parentheses.

A parenthesis in a string literal opens and closes nothing.  What the others enclose can be
said in two ways.  `Text.Balanced` builds the texts in which each has its partner, from pairs,
literals and other characters.  `Text.depthAt` counts how many are open at an offset.  The
partner of an opening parenthesis stands at the first place behind it where the count is even
again (`isLeast_evenAt_iff`), and what lies between the two is balanced
(`closesFirst_iff_balanced`).  The search for the end of an argument list has found the partner
before it would count a closing parenthesis too many (`goesOn_of_unclosed`).
-/
import Mathlib.Data.Nat.Count
import Mathlib.Order.Nat
import TemplateDirectives.Proofs.Grammar.Calls

namespace TemplateDirectives

/-! ## Literals -/

namespace Text

def IsQuote (c : Char) : Prop := c = '\'' ∨ c = '"'

/-- What a literal between two quotes `q` holds.  A backslash takes the character behind it
along, whatever it is. -/
inductive IsQuoted (q : Char) : Text → Prop where
  | nil : IsQuoted q []
  | plain {c : Char} {s : Text} (hquote : c ≠ q) (hbackslash : c ≠ '\\') (h : IsQuoted q s) :
      IsQuoted q (c :: s)
  | escape {c : Char} {s : Text} (h : IsQuoted q s) : IsQuoted q ('\\' :: c :: s)

/-- No literal is open behind the text: it is made of whole literals and of characters that
open none. -/
inductive ClosesLiterals : Text → Prop where
  | nil : ClosesLiterals []
  | bare {c : Char} {t : Text} (hc : ¬ IsQuote c) (h : ClosesLiterals t) : ClosesLiterals (c :: t)
  | literal {q : Char} {s t : Text} (hq : IsQuote q) (hs : IsQuoted q s) (h : ClosesLiterals t) :
      ClosesLiterals (q :: (s ++ q :: t))

end Text

namespace LiteralState

open Text

variable {q c : Char} {s t : Text}

theorem step_quote (hq : IsQuote q) : outside.step q = .inside q := if_pos hq

theorem step_bare (hc : ¬ IsQuote c) : outside.step c = .outside := if_neg hc

theorem step_closing (hq : IsQuote q) : (inside q).step q = .outside := by
  have hne : q ≠ '\\' := by
    intro h
    subst h
    rcases hq with h | h <;> cases h
  rw [step, if_neg hne, if_pos rfl]

theorem step_inside (hquote : c ≠ q) (hbackslash : c ≠ '\\') : (inside q).step c = .inside q := by
  rw [step, if_neg hbackslash, if_neg hquote]

theorem run_quoted (h : IsQuoted q s) : (inside q).run s = .inside q := by
  induction h with
  | nil => rfl
  | plain hquote hbackslash h ih => rw [run_cons, step_inside hquote hbackslash, ih]
  | escape h ih => exact ih

/-- A literal that ends does so at its quote. -/
theorem exists_quoted (h : (inside q).run t = .outside) :
    ∃ s rest, IsQuoted q s ∧ t = s ++ q :: rest := by
  induction hn : t.length using Nat.strongRecOn generalizing t with
  | _ n ih =>
    cases t with
    | nil => cases h
    | cons c t =>
      rw [List.length_cons] at hn
      by_cases hbackslash : c = '\\'
      · subst hbackslash
        cases t with
        | nil => cases h
        | cons d t =>
          rw [List.length_cons] at hn
          obtain ⟨s, rest, hs, rfl⟩ := ih t.length (by omega) (t := t) h rfl
          exact ⟨'\\' :: d :: s, rest, .escape hs, rfl⟩
      · by_cases hquote : c = q
        · subst hquote
          exact ⟨[], t, .nil, rfl⟩
        · rw [run_cons, step_inside hquote hbackslash] at h
          obtain ⟨s, rest, hs, rfl⟩ := ih t.length (by omega) h rfl
          exact ⟨c :: s, rest, .plain hquote hbackslash hs, rfl⟩

theorem run_literal (hq : IsQuote q) (hs : IsQuoted q s) (t : Text) :
    outside.run (q :: (s ++ q :: t)) = outside.run t := by
  rw [run_cons, step_quote hq, run_append, run_quoted hs, run_cons, step_closing hq]

end LiteralState

namespace Text

open LiteralState

variable {t : Text}

/-- The state outside of literals is the one behind texts that close theirs. -/
theorem closesLiterals_iff : ClosesLiterals t ↔ LiteralState.outside.run t = .outside := by
  constructor
  · intro h
    induction h with
    | nil => rfl
    | bare hc h ih => rw [run_cons, step_bare hc, ih]
    | literal hq hs h ih => rw [run_literal hq hs, ih]
  · intro h
    induction hn : t.length using Nat.strongRecOn generalizing t with
    | _ n ih =>
      cases t with
      | nil => exact .nil
      | cons c t =>
        rw [List.length_cons] at hn
        by_cases hc : IsQuote c
        · have hrun : (LiteralState.inside c).run t = .outside := by
            rwa [run_cons, step_quote hc] at h
          obtain ⟨s, rest, hs, rfl⟩ := exists_quoted hrun
          rw [run_literal hc hs] at h
          rw [List.length_append, List.length_cons] at hn
          exact .literal hc hs (ih rest.length (by omega) h rfl)
        · rw [run_cons, step_bare hc] at h
          exact .bare hc (ih t.length (by omega) h rfl)

instance : DecidablePred ClosesLiterals := fun _ => decidable_of_iff _ closesLiterals_iff.symm

end Text

/-! ## Balanced texts -/

namespace Text

/-- Every parenthesis of the text has its partner in it, those in literals left alone, and all
literals are closed. -/
inductive Balanced : Text → Prop where
  | nil : Balanced []
  | bare {c : Char} {t : Text} (hc : ¬ IsQuote c) (hopen : c ≠ '(') (hclose : c ≠ ')')
      (h : Balanced t) : Balanced (c :: t)
  | literal {q : Char} {s t : Text} (hq : IsQuote q) (hs : IsQuoted q s) (h : Balanced t) :
      Balanced (q :: (s ++ q :: t))
  | enclosed {a b : Text} (ha : Balanced a) (hb : Balanced b) : Balanced ('(' :: (a ++ ')' :: b))

end Text

namespace Directive

open Text

variable {n k : Nat} {s : LiteralState} {q c : Char} {x content rest : Text}

theorem nestedAfter_add (h : ¬ (s = .outside ∧ c = ')' ∧ k = 0)) :
    nestedAfter (k + n) s c = nestedAfter k s c + n := by
  by_cases hs : s = .outside
  · subst hs
    by_cases hopen : c = '('
    · subst hopen
      rw [nestedAfter_opening, nestedAfter_opening]
      omega
    · by_cases hclose : c = ')'
      · subst hclose
        have hk : k ≠ 0 := fun hzero => h ⟨rfl, rfl, hzero⟩
        rw [nestedAfter_closing, nestedAfter_closing]
        omega
      · rw [nestedAfter_of_ne hopen hclose, nestedAfter_of_ne hopen hclose]
  · rw [nestedAfter_of_ne_outside hs, nestedAfter_of_ne_outside hs]

/-- A literal has no part in the search. -/
theorem closesFirst_quoted (hq : IsQuote q) (hs : IsQuoted q content) :
    ClosesFirst n (.inside q) (content ++ q :: rest) ↔ ClosesFirst n .outside rest := by
  have hinside : ∀ {s : LiteralState} {c x}, s ≠ .outside →
      (ClosesFirst n s (c :: x) ↔ ClosesFirst n (s.step c) x) := by
    intro s c x hne
    rw [closesFirst_cons, nestedAfter_of_ne_outside hne]
    exact and_iff_right fun hstop => hne hstop.1
  induction hs with
  | nil =>
    rw [List.nil_append, hinside LiteralState.noConfusion, LiteralState.step_closing hq]
  | plain hquote hbackslash h ih =>
    rw [List.cons_append, hinside LiteralState.noConfusion,
      LiteralState.step_inside hquote hbackslash]
    exact ih
  | escape h ih =>
    rw [List.cons_append, List.cons_append, hinside LiteralState.noConfusion,
      hinside LiteralState.noConfusion]
    exact ih

/-- With one parenthesis more open, a search passes the place where the inner ones are closed,
and closes the others in what follows. -/
theorem closesFirst_nested_iff : ClosesFirst (k + (n + 1)) s x ↔
    ∃ a b, x = a ++ ')' :: b ∧ ClosesFirst k s a ∧ ClosesFirst n .outside b := by
  induction x generalizing k s with
  | nil =>
    constructor
    · intro h
      have hzero := (closesFirst_nil.mp h).2
      omega
    · intro h
      obtain ⟨a, b, htext, -⟩ := h
      simp at htext
  | cons c x ih =>
    have hopen : ¬ (s = .outside ∧ c = ')' ∧ k + (n + 1) = 0) := fun h => by omega
    rw [closesFirst_cons, and_iff_right hopen]
    by_cases hstop : s = .outside ∧ c = ')' ∧ k = 0
    · obtain ⟨rfl, rfl, rfl⟩ := hstop
      rw [nestedAfter_closing, show 0 + (n + 1) - 1 = n by omega]
      constructor
      · intro h
        exact ⟨[], x, rfl, closesFirst_nil.mpr ⟨rfl, rfl⟩, h⟩
      · intro h
        obtain ⟨a, b, htext, ha, hb⟩ := h
        cases a with
        | nil =>
          obtain ⟨-, rfl⟩ := List.cons.inj htext
          exact hb
        | cons d a =>
          obtain ⟨rfl, -⟩ := List.cons.inj htext
          exact absurd ⟨rfl, rfl, rfl⟩ (closesFirst_cons.mp ha).1
    · rw [nestedAfter_add hstop, ih]
      constructor
      · intro h
        obtain ⟨a, b, rfl, ha, hb⟩ := h
        exact ⟨c :: a, b, rfl, closesFirst_cons.mpr ⟨hstop, ha⟩, hb⟩
      · intro h
        obtain ⟨a, b, htext, ha, hb⟩ := h
        cases a with
        | nil =>
          obtain ⟨rfl, -⟩ := List.cons.inj htext
          obtain ⟨hs, hk⟩ := closesFirst_nil.mp ha
          exact absurd ⟨hs, rfl, hk⟩ hstop
        | cons d a =>
          obtain ⟨rfl, rfl⟩ := List.cons.inj htext
          exact ⟨a, b, rfl, (closesFirst_cons.mp ha).2, hb⟩

/-- What lies before the first parenthesis that closes is balanced, and nothing else is. -/
theorem closesFirst_iff_balanced : ClosesFirst 0 .outside x ↔ Balanced x := by
  constructor
  · intro h
    induction hn : x.length using Nat.strongRecOn generalizing x with
    | _ n ih =>
      cases x with
      | nil => exact .nil
      | cons c x =>
        obtain ⟨hstop, h⟩ := closesFirst_cons.mp h
        rw [List.length_cons] at hn
        by_cases hopen : c = '('
        · subst hopen
          obtain ⟨a, b, rfl, ha, hb⟩ := closesFirst_nested_iff.mp
            (h : ClosesFirst (0 + (0 + 1)) .outside x)
          rw [List.length_append, List.length_cons] at hn
          exact .enclosed (ih a.length (by omega) ha rfl) (ih b.length (by omega) hb rfl)
        · have hclose : c ≠ ')' := fun hc => hstop ⟨rfl, hc, rfl⟩
          rw [nestedAfter_of_ne hopen hclose] at h
          by_cases hc : IsQuote c
          · rw [LiteralState.step_quote hc] at h
            obtain ⟨s, rest, hs, rfl⟩ := LiteralState.exists_quoted h.literals
            rw [closesFirst_quoted hc hs] at h
            rw [List.length_append, List.length_cons] at hn
            exact .literal hc hs (ih rest.length (by omega) h rfl)
          · rw [LiteralState.step_bare hc] at h
            exact .bare hc hopen hclose (ih x.length (by omega) h rfl)
  · intro h
    induction h with
    | nil => exact closesFirst_nil.mpr ⟨rfl, rfl⟩
    | bare hc hopen hclose h ih =>
      refine closesFirst_cons.mpr ⟨fun hstop => hclose hstop.2.1, ?_⟩
      rwa [nestedAfter_of_ne hopen hclose, LiteralState.step_bare hc]
    | @literal q s t hq hs h ih =>
      have hopen : q ≠ '(' := by rcases hq with rfl | rfl <;> decide
      have hclose : q ≠ ')' := by rcases hq with rfl | rfl <;> decide
      refine closesFirst_cons.mpr ⟨fun hstop => hclose hstop.2.1, ?_⟩
      rwa [nestedAfter_of_ne hopen hclose, LiteralState.step_quote hq, closesFirst_quoted hq hs]
    | enclosed ha hb iha ihb =>
      refine closesFirst_cons.mpr ⟨fun hstop => ?_, ?_⟩
      · cases hstop.2.1
      · exact closesFirst_nested_iff.mpr ⟨_, _, rfl, iha, ihb⟩

end Directive

/-! ## Counting -/

namespace Text

/-- The character `c` stands at offset `i`, and not in a literal. -/
def BareAt (t : Text) (c : Char) (i : Nat) : Prop := t[i]? = some c ∧ ClosesLiterals (t.take i)

instance (t : Text) (c : Char) : DecidablePred (BareAt t c) := fun i =>
  inferInstanceAs (Decidable (t[i]? = some c ∧ ClosesLiterals (t.take i)))

/-- How many parentheses the first `i` characters open, less those that they close.  A text may
close more than it opens. -/
def depthAt (t : Text) (i : Nat) : Int :=
  (Nat.count (BareAt t '(') i : Int) - Nat.count (BareAt t ')') i

/-- A parenthesis closes at offset `i`, and behind it as many are closed as are opened. -/
def EvenAt (t : Text) (i : Nat) : Prop := BareAt t ')' i ∧ depthAt t (i + 1) = 0

instance (t : Text) : DecidablePred (EvenAt t) := fun i =>
  inferInstanceAs (Decidable (BareAt t ')' i ∧ depthAt t (i + 1) = 0))

end Text

namespace LiteralState

theorem bare_append (s : LiteralState) (t u : Text) :
    s.bare (t ++ u) = s.bare t ++ (s.run t).bare u := by
  induction t generalizing s with
  | nil => rfl
  | cons c t ih =>
    rw [List.cons_append]
    simp only [bare, ih, run_cons]
    by_cases hs : s = outside
    · rw [if_pos hs, if_pos hs, List.cons_append]
    · rw [if_neg hs, if_neg hs]

end LiteralState

namespace Text

open LiteralState

variable {rest : Text} {i j : Nat}

/-- The places of a character outside of literals are counted by the characters outside. -/
theorem count_bareAt (t : Text) (c : Char) (i : Nat) :
    Nat.count (BareAt t c) i = (LiteralState.outside.bare (t.take i)).count c := by
  induction i with
  | zero => rfl
  | succ i ih =>
    rw [Nat.count_succ, ih, List.take_add_one, bare_append, List.count_append]
    congr 1
    cases hd : t[i]? with
    | none => simp [BareAt, hd, bare]
    | some d =>
      by_cases hrun : LiteralState.outside.run (t.take i) = .outside
      · simp [BareAt, hd, closesLiterals_iff, hrun, bare, List.count_singleton]
      · simp [BareAt, hd, closesLiterals_iff, hrun, bare]

theorem depthAt_cons (rest : Text) (j : Nat) : depthAt ('(' :: rest) (j + 1) =
    1 + ((LiteralState.outside.bare (rest.take j)).count '(' : Int)
      - (LiteralState.outside.bare (rest.take j)).count ')' := by
  have hbare : LiteralState.outside.bare ('(' :: rest.take j)
      = '(' :: LiteralState.outside.bare (rest.take j) := rfl
  have hne : '(' ≠ ')' := by decide
  rw [depthAt, count_bareAt, count_bareAt, List.take_succ_cons, hbare, List.count_cons_self,
    List.count_cons_of_ne hne]
  omega

/-- Behind an opening parenthesis the count is even where what lies between opens and closes as
many. -/
theorem evenAt_cons_iff : EvenAt ('(' :: rest) (j + 1) ↔ rest[j]? = some ')' ∧
    LiteralState.outside.run (rest.take j) = .outside ∧
    (LiteralState.outside.bare (rest.take j)).count '('
      = (LiteralState.outside.bare (rest.take j)).count ')' := by
  have hrun : LiteralState.outside.run ('(' :: rest.take j)
      = LiteralState.outside.run (rest.take j) := rfl
  rw [EvenAt, BareAt, List.getElem?_cons_succ, List.take_succ_cons, closesLiterals_iff, hrun,
    and_assoc]
  refine and_congr_right fun hclose => and_congr_right fun houtside => ?_
  have hbare : LiteralState.outside.bare (rest.take (j + 1))
      = LiteralState.outside.bare (rest.take j) ++ [')'] := by
    rw [List.take_add_one, hclose, bare_append, houtside]
    rfl
  rw [depthAt_cons, hbare, List.count_append, List.count_append]
  simp
  omega

theorem not_evenAt_zero : ¬ EvenAt ('(' :: rest) 0 := by
  intro h
  cases h.1.1

theorem drop_of_getElem? {t : Text} {c : Char} (h : t[i]? = some c) :
    t.drop i = c :: t.drop (i + 1) := by
  obtain ⟨hlt, hget⟩ := List.getElem?_eq_some_iff.mp h
  rw [List.drop_eq_getElem_cons hlt, hget]

theorem slice_take_append {t : Text} {a b : Nat} (hb : b ≤ t.length) (u : Text) :
    slice (t.take b ++ u) a b = slice t a b := by
  have hlen : (t.take b).length = b := List.length_take_of_le hb
  rw [slice, List.take_append_of_le_length (by omega), List.take_of_length_le (by omega), slice]

end Text

namespace Directive

open Text

variable {rest : Text} {j : Nat}

/-- The first place where the count is even is that of the parenthesis that closes first. -/
theorem isLeast_evenAt_iff : IsLeast {i | EvenAt ('(' :: rest) i} (j + 1) ↔
    rest[j]? = some ')' ∧ ClosesFirst 0 .outside (rest.take j) := by
  constructor
  · intro h
    obtain ⟨heven, hleast⟩ := h
    obtain ⟨hclose, houtside, hcount⟩ := evenAt_cons_iff.mp heven
    refine ⟨hclose, houtside, by rw [Nat.zero_add, hcount], fun front hfront hout hcounts => ?_⟩
    have hlt : front.length < j := by
      have hlen := hfront.length_le
      rw [List.length_append, List.length_singleton, List.length_take] at hlen
      omega
    obtain ⟨back, hback⟩ := hfront.trans (List.take_prefix j rest)
    rw [List.append_assoc] at hback
    have htake : rest.take front.length = front := by rw [← hback, List.take_left]
    have hget : rest[front.length]? = some ')' := by
      rw [← hback, List.getElem?_append_right (Nat.le_refl _), Nat.sub_self]
      rfl
    rw [Nat.zero_add] at hcounts
    have hle : j + 1 ≤ front.length + 1 :=
      hleast (evenAt_cons_iff.mpr ⟨hget, by rw [htake]; exact hout, by rw [htake]; exact hcounts⟩)
    omega
  · intro h
    obtain ⟨hclose, hcloses⟩ := h
    refine ⟨evenAt_cons_iff.mpr ⟨hclose, hcloses.literals, ?_⟩, fun i hi => ?_⟩
    · rw [← hcloses.balanced, Nat.zero_add]
    · cases i with
      | zero => exact absurd hi not_evenAt_zero
      | succ i =>
        obtain ⟨hget, hout, hcounts⟩ := evenAt_cons_iff.mp hi
        by_cases hlt : i < j
        · -- an earlier place would close first
          have hfront : rest.take i ++ [')'] <+: rest.take j := by
            rw [show rest.take i ++ [')'] = rest.take (i + 1) by rw [List.take_add_one, hget]; rfl]
            exact List.take_prefix_take_left (by omega)
          exact absurd (by rw [Nat.zero_add, hcounts]) (hcloses.first _ hfront hout)
        · omega

/-! ## The search -/

/-- The offset behind the parenthesis that closes the one at `start`, as the search finds it. -/
def closingStop? (t : Text) (start : Nat) : Option Nat :=
  (splitClosing? 0 .outside (t.drop (start + 1))).map fun (inner, _) => start + inner.length + 2

/-- Behind `front`, the search goes on with the count `nested` and in the state `s`, whatever
stands there. -/
def GoesOn (front : Text) (nested : Nat) (s : LiteralState) : Prop :=
  ∀ rest, splitClosing? 0 .outside (front ++ rest) =
    (splitClosing? nested s rest).map fun (inner, after) => (front ++ inner, after)

variable {n e start first i : Nat} {s : LiteralState} {c : Char} {t u front : Text}

/-- A search that has found nothing goes on with the count of what it has read. -/
theorem exists_nested_of_eq_none (h : splitClosing? n s front = none) :
    ∃ m, m + (s.bare front).count ')' = n + (s.bare front).count '(' ∧
      ∀ rest, splitClosing? n s (front ++ rest) =
        (splitClosing? m (s.run front) rest).map fun (inner, after) => (front ++ inner, after) := by
  induction front generalizing n s with
  | nil =>
    refine ⟨n, rfl, fun rest => ?_⟩
    rw [List.nil_append, LiteralState.run_nil]
    cases splitClosing? n s rest <;> rfl
  | cons c front ih =>
    rw [splitClosing?_cons] at h
    by_cases hstop : s = .outside ∧ c = ')' ∧ n = 0
    · rw [if_pos hstop] at h
      cases h
    · rw [if_neg hstop, Option.map_eq_none_iff] at h
      obtain ⟨m, hm, hrest⟩ := ih h
      have hcount := nestedAfter_add_count hstop front
      refine ⟨m, by omega, fun rest => ?_⟩
      rw [List.cons_append, splitClosing?_cons, if_neg hstop, hrest rest, LiteralState.run_cons,
        Option.map_map]
      rfl

theorem closingStop?_eq_some_iff_closesFirst : closingStop? t start = some e ↔
    ∃ inner after, t.drop (start + 1) = inner ++ ')' :: after ∧ ClosesFirst 0 .outside inner ∧
      e = start + inner.length + 2 := by
  rw [closingStop?, Option.map_eq_some_iff]
  constructor
  · intro h
    obtain ⟨⟨inner, after⟩, hsplit, he⟩ := h
    obtain ⟨htext, hcloses⟩ := splitClosing?_eq_some_iff.mp hsplit
    exact ⟨inner, after, htext, hcloses, he.symm⟩
  · intro h
    obtain ⟨inner, after, htext, hcloses, he⟩ := h
    exact ⟨(inner, after), splitClosing?_eq_some_iff.mpr ⟨htext, hcloses⟩, he.symm⟩

theorem closingStop?_eq_some_iff_isLeast (h : t[start]? = some '(') : closingStop? t start = some e ↔
    ∃ i, IsLeast {i | EvenAt (t.drop start) i} i ∧ e = start + i + 1 := by
  rw [closingStop?_eq_some_iff_closesFirst, drop_of_getElem? h]
  generalize t.drop (start + 1) = rest
  constructor
  · intro h
    obtain ⟨inner, after, rfl, hcloses, he⟩ := h
    refine ⟨inner.length + 1, isLeast_evenAt_iff.mpr ⟨?_, ?_⟩, he⟩
    · rw [List.getElem?_append_right (Nat.le_refl _), Nat.sub_self]
      rfl
    · rwa [List.take_left]
  · intro h
    obtain ⟨i, hleast, he⟩ := h
    cases i with
    | zero => exact absurd hleast.1 not_evenAt_zero
    | succ j =>
      obtain ⟨hclose, hcloses⟩ := isLeast_evenAt_iff.mp hleast
      obtain ⟨hlt, -⟩ := List.getElem?_eq_some_iff.mp hclose
      refine ⟨rest.take j, rest.drop (j + 1), ?_, hcloses, ?_⟩
      · rw [← drop_of_getElem? hclose, List.take_append_drop]
      · rw [List.length_take, Nat.min_eq_left (Nat.le_of_lt hlt)]
        exact he

theorem closingStop?_eq_none_iff (h : t[start]? = some '(') :
    closingStop? t start = none ↔ ∀ i, ¬ EvenAt (t.drop start) i := by
  constructor
  · intro hnone i hi
    have hleast := Nat.isLeast_find (p := EvenAt (t.drop start)) ⟨i, hi⟩
    have hsome := (closingStop?_eq_some_iff_isLeast h).mpr ⟨_, hleast, rfl⟩
    rw [hnone] at hsome
    cases hsome
  · intro heven
    rw [Option.eq_none_iff_forall_ne_some]
    intro e he
    obtain ⟨i, hleast, -⟩ := (closingStop?_eq_some_iff_isLeast h).mp he
    exact heven i hleast.1

/-- While the search goes on, its count and the parenthesis it began with are what is open.  So
the count is no less than what a closing parenthesis takes from it. -/
theorem goesOn_of_unclosed (h : t[start]? = some '(') (hi : 0 < i)
    (hopen : ∀ e, closingStop? t start = some e → start + i < e) :
    ∃ nested : Nat, depthAt (t.drop start) i = nested + 1 ∧
      GoesOn (t.slice (start + 1) (start + i)) nested
        (LiteralState.outside.run (t.slice (start + 1) (start + i))) := by
  obtain ⟨j, rfl⟩ : ∃ j, i = j + 1 := ⟨i - 1, by omega⟩
  have hfront : t.slice (start + 1) (start + (j + 1)) = (t.drop (start + 1)).take j := by
    rw [slice, List.drop_take, show start + (j + 1) - (start + 1) = j by omega]
  have hnone : splitClosing? 0 .outside ((t.drop (start + 1)).take j) = none := by
    cases hsplit : splitClosing? 0 .outside ((t.drop (start + 1)).take j) with
    | none => rfl
    | some cut =>
      obtain ⟨inner, after⟩ := cut
      obtain ⟨htext, hcloses⟩ := splitClosing?_eq_some_iff.mp hsplit
      have hstop : closingStop? t start = some (start + inner.length + 2) := by
        refine closingStop?_eq_some_iff_closesFirst.mpr
          ⟨inner, after ++ (t.drop (start + 1)).drop j, ?_, hcloses, rfl⟩
        rw [← List.cons_append, ← List.append_assoc, ← htext, List.take_append_drop]
      have hlt := hopen _ hstop
      have hlen := congrArg List.length htext
      rw [List.length_take, List.length_append, List.length_cons] at hlen
      omega
  obtain ⟨nested, hcount, hrest⟩ := exists_nested_of_eq_none hnone
  rw [hfront, drop_of_getElem? h, depthAt_cons]
  exact ⟨nested, by omega, hrest⟩

theorem depthAt_nonneg (h : t[start]? = some '(')
    (hopen : ∀ e, closingStop? t start = some e → start + i ≤ e) : 0 ≤ depthAt (t.drop start) i := by
  by_cases hi : i = 0
  · subst hi
    exact Int.le_refl 0
  · by_cases hend : closingStop? t start = some (start + i)
    · obtain ⟨j, hleast, hj⟩ := (closingStop?_eq_some_iff_isLeast h).mp hend
      rw [show i = j + 1 by omega, hleast.1.2]
    · obtain ⟨nested, hdepth, -⟩ := goesOn_of_unclosed (i := i) h (by omega) fun e he => by
        have hle := hopen e he
        have hne : e ≠ start + i := fun heq => hend (heq ▸ he)
        omega
      omega

/-- What stands before a list and behind it has no part in where it ends. -/
theorem closingStop?_of_slice_eq (h : t[start]? = some '(') (he : closingStop? t start = some e)
    (hslice : u.slice first (first + (e - start)) = t.slice start e) :
    closingStop? u first = some (first + (e - start)) := by
  obtain ⟨inner, after, htext, hcloses, rfl⟩ := closingStop?_eq_some_iff_closesFirst.mp he
  have hdrop : t.drop start = ('(' :: (inner ++ [')'])) ++ after := by
    rw [drop_of_getElem? h, htext, List.cons_append, List.append_assoc, List.singleton_append]
  have hpart : t.slice start (start + inner.length + 2) = '(' :: (inner ++ [')']) := by
    rw [← slice_of_drop hdrop, List.length_cons, List.length_append, List.length_singleton,
      show start + inner.length + 2 = start + (inner.length + 1 + 1) by omega]
  have hu := Text.drop_of_slice (hslice.trans hpart) (Nat.le_add_right _ _)
  refine closingStop?_eq_some_iff_closesFirst.mpr
    ⟨inner, u.drop (first + (start + inner.length + 2 - start)), ?_, hcloses, by omega⟩
  rw [← List.drop_drop, hu, List.cons_append, List.drop_succ_cons, List.drop_zero,
    List.append_assoc, List.singleton_append]

theorem closesLiterals_of_balanced (h : Balanced t) : ClosesLiterals t :=
  closesLiterals_iff.mpr (closesFirst_iff_balanced.mpr h).literals

/-- What the two parentheses enclose is balanced, and no other stretch from the first one to a
closing parenthesis is. -/
theorem closingStop?_eq_some_iff_balanced : closingStop? t start = some e ↔
    start + 2 ≤ e ∧ t[e - 1]? = some ')' ∧ Balanced (t.slice (start + 1) (e - 1)) := by
  rw [closingStop?_eq_some_iff_closesFirst]
  constructor
  · intro h
    obtain ⟨inner, after, htext, hcloses, rfl⟩ := h
    have hstop : start + inner.length + 2 - 1 = start + 1 + inner.length := by omega
    refine ⟨by omega, ?_, ?_⟩
    · rw [hstop, ← List.getElem?_drop, htext, List.getElem?_append_right (Nat.le_refl _),
        Nat.sub_self]
      rfl
    · rw [hstop, slice_of_drop htext]
      exact closesFirst_iff_balanced.mp hcloses
  · intro h
    obtain ⟨hle, hclose, hbalanced⟩ := h
    have hlt := (List.getElem?_eq_some_iff.mp hclose).1
    refine ⟨t.slice (start + 1) (e - 1), t.drop (e - 1 + 1), ?_,
      closesFirst_iff_balanced.mpr hbalanced, ?_⟩
    · rw [← drop_of_getElem? hclose]
      exact Text.drop_of_slice rfl (by omega)
    · rw [length_slice, Nat.min_eq_left (Nat.le_of_lt hlt)]
      omega

theorem closingStop?_take_append (h : t[start]? = some '(') (he : closingStop? t start = some e)
    (u : Text) : closingStop? (t.take e ++ u) start = some e := by
  obtain ⟨hle, hclose, -⟩ := closingStop?_eq_some_iff_balanced.mp he
  have hlt := (List.getElem?_eq_some_iff.mp hclose).1
  have hspan : start + (e - start) = e := by omega
  have hslice : Text.slice (t.take e ++ u) start (start + (e - start)) = t.slice start e := by
    rw [hspan]
    exact slice_take_append (by omega) u
  have hstop := closingStop?_of_slice_eq h he hslice
  rwa [hspan] at hstop

/-- Where a list of arguments begins, its reader ends where the search does. -/
theorem map_read?_eq_closingStop? (h : t[start]? = some '(') :
    (ArgumentList.read? (t.drop start)).map (fun l => start + l.written.length)
      = closingStop? t start := by
  have hblank : Text.isBlank '(' = false := rfl
  rw [drop_of_getElem? h, ArgumentList.read?, closingStop?,
    List.dropWhile_cons_of_neg (by rw [hblank]; exact Bool.false_ne_true)]
  simp only [Option.map_map]
  refine congrFun (congrArg Option.map (funext fun cut => ?_)) _
  rw [Function.comp_apply, ArgumentList.written,
    List.takeWhile_cons_of_neg (by rw [hblank]; exact Bool.false_ne_true)]
  simp
  omega

/-! ## All together -/

/-- For every text and every opening parenthesis in it: the list of arguments that begins there
ends where the search does.  Nowhere up to that end are more closed than opened, and as long as
the search goes on, its own count is what is open without the first one.  It ends behind the
first closing parenthesis at which as many are closed as opened, literals left out, and finds
nothing only when there is no such place.  What the two enclose is balanced and closes its
literals, and the stretch from the one to the other is all that the answer depends on. -/
theorem closingStop?_first_even (h : t[start]? = some '(') :
    (ArgumentList.read? (t.drop start)).map (fun l => start + l.written.length)
      = closingStop? t start ∧
    (∀ i, (∀ e, closingStop? t start = some e → start + i ≤ e) →
      0 ≤ depthAt (t.drop start) i) ∧
    (∀ i, 0 < i → (∀ e, closingStop? t start = some e → start + i < e) →
      ∃ nested : Nat, depthAt (t.drop start) i = nested + 1 ∧
        GoesOn (t.slice (start + 1) (start + i)) nested
          (LiteralState.outside.run (t.slice (start + 1) (start + i)))) ∧
    (∀ e, closingStop? t start = some e ↔
      ∃ i, IsLeast {i | EvenAt (t.drop start) i} i ∧ e = start + i + 1) ∧
    (closingStop? t start = none ↔ ∀ i, ¬ EvenAt (t.drop start) i) ∧
    ∀ e, closingStop? t start = some e →
      Balanced (t.slice (start + 1) (e - 1)) ∧ ClosesLiterals (t.slice (start + 1) (e - 1)) ∧
      (∀ u first, u.slice first (first + (e - start)) = t.slice start e →
        closingStop? u first = some (first + (e - start))) ∧
      ∀ u, closingStop? (t.take e ++ u) start = some e := by
  refine ⟨map_read?_eq_closingStop? h, fun i => depthAt_nonneg h,
    fun i hi => goesOn_of_unclosed h hi, fun e => closingStop?_eq_some_iff_isLeast h,
    closingStop?_eq_none_iff h, fun e he => ?_⟩
  obtain ⟨-, -, hbalanced⟩ := closingStop?_eq_some_iff_balanced.mp he
  exact ⟨hbalanced, closesLiterals_of_balanced hbalanced,
    fun u first => closingStop?_of_slice_eq h he, fun u => closingStop?_take_append h he u⟩

/-- Behind a character of two bytes: an escaped quote in a literal, a parenthesis in each of two
literals, and one list in another. -/
def quotedList : Text := "é(a, '\\')', f(\")\"))→ )".toList

/-- Two parentheses are open in the inner list.  Other text behind the outer one does not change
where it ends, and with its last parenthesis cut off it has no end. -/
theorem closingStop?_first_even_quotedList :
    quotedList[1]? = some '(' ∧ closingStop? quotedList 1 = some 19 ∧
      0 ≤ depthAt (quotedList.drop 1) 18 ∧ depthAt (quotedList.drop 1) 14 = 2 ∧
      Balanced (quotedList.slice 2 18) ∧
      closingStop? (quotedList.take 19 ++ ['"', '(']) 1 = some 19 ∧
      (quotedList.take 18)[1]? = some '(' ∧ ∀ i, ¬ EvenAt ((quotedList.take 18).drop 1) i := by
  have hopen : quotedList[1]? = some '(' := by decide +kernel
  have hstop : closingStop? quotedList 1 = some 19 := by decide +kernel
  have hcut : (quotedList.take 18)[1]? = some '(' := by decide +kernel
  have hnone : closingStop? (quotedList.take 18) 1 = none := by decide +kernel
  obtain ⟨-, hnonneg, -, -, -, hfound⟩ := closingStop?_first_even hopen
  obtain ⟨hbalanced, -, -, hmore⟩ := hfound 19 hstop
  obtain ⟨-, -, -, -, hunclosed, -⟩ := closingStop?_first_even hcut
  have hdepth := hnonneg 18 fun e he => by
    rw [hstop] at he
    cases he
    decide
  exact ⟨hopen, hstop, hdepth, by decide +kernel, hbalanced, hmore ['"', '('], hcut,
    hunclosed.mp hnone⟩

end Directive
end TemplateDirectives
