/-
Text as a list of characters, and the few cuts that every reader makes.

Offsets count characters, so every offset up to the length is a place between
two characters and no cut can split one.  `slice` is the stretch between two
offsets.  The functions on the end of a text (`takeEndWhile`, `dropEndWhile`)
are what `List.takeWhile` and `List.dropWhile` are for its beginning, and
`dropEndWhile_append_takeEndWhile` says that together they lose nothing.
-/

namespace TemplateDirectives

/-- A text is the list of its characters.  Every reader and writer recurses on
it directly. -/
abbrev Text := List Char

namespace Text

/-- The characters from offset `start` up to offset `stop`. -/
def slice (t : Text) (start stop : Nat) : Text := (t.take stop).drop start

/-- The character right before `offset`, if there is one. -/
def before? (t : Text) (offset : Nat) : Option Char :=
  if offset = 0 then none else t[offset - 1]?

/-- The longest end of the text whose characters all satisfy `p`. -/
def takeEndWhile (p : Char → Bool) (t : Text) : Text := (t.reverse.takeWhile p).reverse

/-- What stands before `takeEndWhile p t`. -/
def dropEndWhile (p : Char → Bool) (t : Text) : Text := (t.reverse.dropWhile p).reverse

/-- What follows `opening`, when the text begins with it. -/
def after? (opening t : Text) : Option Text :=
  if opening.isPrefixOf t then some (t.drop opening.length) else none

/-- Remove `opening` from the beginning of the text as often as it stands
there.  An empty `opening` removes nothing. -/
def dropLeading (opening t : Text) : Text :=
  if opening.isPrefixOf t ∧ 0 < opening.length ∧ 0 < t.length then
    dropLeading opening (t.drop opening.length)
  else t
termination_by t.length
decreasing_by simp; omega

/-- Cut at the first place where `mark` stands: what comes before it and what
comes after. -/
def cutAt? (mark : Text) : Text → Option (Text × Text)
  | [] => if mark = [] then some ([], []) else none
  | c :: rest =>
    match after? mark (c :: rest) with
    | some after => some ([], after)
    | none => (cutAt? mark rest).map fun (before, after) => (c :: before, after)

/-- The stretches between the places where `mark` stands, which are searched
from left to right. -/
def splitOn (mark t : Text) : List Text :=
  match _h : cutAt? mark t with
  | none => [t]
  | some (before, after) =>
    if after.length < t.length then before :: splitOn mark after else [t]
termination_by t.length

/-- Cut at the last place where `mark` stands. -/
def cutAtLast? (mark : Text) (t : Text) : Option (Text × Text) :=
  (cutAt? mark.reverse t.reverse).map fun (after, before) => (before.reverse, after.reverse)

/-- A letter, a digit or an underscore of ASCII: the characters of a plain
name. -/
def isWord (c : Char) : Bool := c.isAlphanum || c == '_'

/-- Whether the text comes before another, by the code points of its characters. -/
def precedes (t u : Text) : Bool := t.lex u fun a b => a.toNat.blt b.toNat

/-! ## Laws -/

@[simp] theorem slice_self (t : Text) (a : Nat) : slice t a a = [] := by
  rw [slice, List.drop_eq_nil_iff]
  exact List.length_take_le a t

theorem length_slice (t : Text) (start stop : Nat) :
    (slice t start stop).length = min stop t.length - start := by
  simp [slice]

theorem dropEndWhile_append_takeEndWhile (p : Char → Bool) (t : Text) :
    dropEndWhile p t ++ takeEndWhile p t = t := by
  rw [dropEndWhile, takeEndWhile, ← List.reverse_append, List.takeWhile_append_dropWhile,
    List.reverse_reverse]

theorem length_takeEndWhile_le (p : Char → Bool) (t : Text) :
    (takeEndWhile p t).length ≤ t.length := by
  have h := congrArg List.length (dropEndWhile_append_takeEndWhile p t)
  simp at h
  omega

/-- What is taken from the end of a stretch is no longer than the stretch. -/
theorem length_takeEndWhile_slice_le (p : Char → Bool) (t : Text) (start stop : Nat) :
    (takeEndWhile p (slice t start stop)).length ≤ stop - start := by
  have hle := length_takeEndWhile_le p (slice t start stop)
  rw [length_slice] at hle
  omega

theorem takeEndWhile_all (p : Char → Bool) (t : Text) : ∀ c ∈ takeEndWhile p t, p c = true := by
  intro c hc
  rw [takeEndWhile, List.mem_reverse] at hc
  exact List.all_eq_true.mp List.all_takeWhile c hc

theorem takeEndWhile_concat (p : Char → Bool) (t : Text) (c : Char) :
    takeEndWhile p (t ++ [c]) = if p c then takeEndWhile p t ++ [c] else [] := by
  rw [takeEndWhile, List.reverse_append, List.reverse_singleton, List.singleton_append,
    List.takeWhile_cons]
  cases p c with
  | true => rw [if_pos rfl, if_pos rfl, List.reverse_cons, takeEndWhile]
  | false => rfl

theorem takeWhile_append_of_stop {p : Char → Bool} {s rest : Text} (hs : ∀ c ∈ s, p c = true)
    (hr : rest.head?.any p = false) : (s ++ rest).takeWhile p = s := by
  rw [List.takeWhile_append_of_pos hs]
  cases rest with
  | nil => simp
  | cons c rest =>
    have hc : p c = false := by simpa using hr
    simp [hc]

theorem dropWhile_append_of_stop {p : Char → Bool} {s rest : Text} (hs : ∀ c ∈ s, p c = true)
    (hr : rest.head?.any p = false) : (s ++ rest).dropWhile p = rest := by
  rw [List.dropWhile_append_of_pos hs]
  cases rest with
  | nil => rfl
  | cons c rest =>
    have hc : p c = false := by simpa using hr
    simp [hc]

theorem takeEndWhile_append_of_stop {p : Char → Bool} {s before : Text}
    (hs : ∀ c ∈ s, p c = true) (hb : before.getLast?.any p = false) :
    takeEndWhile p (before ++ s) = s := by
  rw [takeEndWhile, List.reverse_append,
    takeWhile_append_of_stop (fun c hc => hs c (List.mem_reverse.mp hc))
      (by rwa [List.head?_reverse]),
    List.reverse_reverse]

theorem any_eq_false_of_imp {p q : Char → Bool} (h : ∀ c, q c = true → p c = true)
    {o : Option Char} (ho : o.any p = false) : o.any q = false := by
  cases o with
  | none => rfl
  | some c =>
    rw [Option.any_some] at ho ⊢
    cases hq : q c with
    | false => rfl
    | true => rw [h c hq] at ho; exact ho

theorem slice_append_slice (t : Text) {a b c : Nat} (hab : a ≤ b) (hbc : b ≤ c) :
    slice t a b ++ slice t b c = slice t a c := by
  simp only [slice, List.drop_take]
  rw [show c - a = (b - a) + (c - b) by omega, List.take_add, List.drop_drop,
    show a + (b - a) = b by omega]

/-- A stretch that reaches past the end of the text ends there. -/
theorem slice_add_length_slice (t : Text) (a b : Nat) :
    slice t a (a + (slice t a b).length) = slice t a b := by
  simp only [slice, List.drop_take, Nat.add_sub_cancel_left]
  rw [List.length_take, ← List.take_take, List.take_length]

theorem slice_of_drop {t s rest : Text} {a : Nat} (h : t.drop a = s ++ rest) :
    slice t a (a + s.length) = s := by
  rw [slice, List.drop_take, h, Nat.add_sub_cancel_left, List.take_left]

/-- A longer stretch ends with what the text goes on with. -/
theorem slice_add_of_drop {t s rest : Text} {a b : Nat} (hab : a ≤ b) (h : t.drop b = s ++ rest) :
    slice t a (b + s.length) = slice t a b ++ s := by
  rw [← slice_append_slice t hab (Nat.le_add_right b s.length), slice_of_drop h]

theorem slice_of_drop_eq_nil {t : Text} {a b : Nat} (h : t.drop b = []) : slice t a b = t.drop a := by
  rw [slice, List.take_of_length_le (List.drop_eq_nil_iff.mp h)]

theorem drop_of_drop {t s rest : Text} {a : Nat} (h : t.drop a = s ++ rest) :
    t.drop (a + s.length) = rest := by
  rw [← List.drop_drop, h, List.drop_left]

theorem add_length_le_of_drop {t s rest : Text} {a : Nat} (h : t.drop a = s ++ rest)
    (ha : a ≤ t.length) : a + s.length ≤ t.length := by
  have := congrArg List.length h
  rw [List.length_drop, List.length_append] at this
  omega

theorem lt_length_of_drop {t s rest : Text} {a : Nat} (h : t.drop a = s ++ rest)
    (hs : s ≠ []) : a < t.length := by
  have hpos := List.length_pos_iff.mpr hs
  have := congrArg List.length h
  rw [List.length_drop, List.length_append] at this
  omega

/-- The character before the end of a stretch is its last, or the one before it when it
is empty. -/
theorem before?_of_drop {t s rest : Text} {a : Nat} (h : t.drop a = s ++ rest) :
    before? t (a + s.length) = s.getLast?.or (before? t a) := by
  rcases List.eq_nil_or_concat s with rfl | ⟨u, c, rfl⟩
  · rfl
  · rw [List.concat_eq_append] at h ⊢
    have hc : t[a + u.length]? = some c := by
      rw [← List.getElem?_drop, h, List.append_assoc, List.getElem?_append_right (Nat.le_refl _),
        Nat.sub_self]
      rfl
    rw [before?, List.getLast?_concat, Option.some_or, List.length_append, List.length_singleton,
      if_neg (by omega), show a + (u.length + 1) - 1 = a + u.length by omega, hc]

theorem getLast?_take {t : Text} {a : Nat} (ha : a ≤ t.length) :
    (t.take a).getLast? = before? t a := by
  have hsplit : t.drop 0 = t.take a ++ t.drop a := (List.take_append_drop a t).symm
  have h := before?_of_drop hsplit
  rw [Nat.zero_add, List.length_take, Nat.min_eq_left ha] at h
  rw [h, before?, if_pos rfl, Option.or_none]

/-- The end of a stretch that satisfies `p` is cut off it by going back as far. -/
theorem slice_append_takeEndWhile (p : Char → Bool) {t : Text} {a b : Nat} (hb : b ≤ t.length) :
    slice t a (b - (takeEndWhile p (slice t a b)).length) ++ takeEndWhile p (slice t a b)
      = slice t a b := by
  have hlen : (slice t a b).length = b - a := by rw [length_slice, Nat.min_eq_left hb]
  have hsplit := dropEndWhile_append_takeEndWhile p (slice t a b)
  generalize takeEndWhile p (slice t a b) = last at hsplit
  have hcut : slice t a (b - last.length) = (slice t a b).take (b - a - last.length) := by
    simp only [slice, List.drop_take, List.take_take]
    congr 1
    omega
  rw [hcut, ← hlen, ← hsplit, List.length_append, Nat.add_sub_cancel, List.take_left]

theorem after?_eq_some {opening t rest : Text} : after? opening t = some rest ↔ t = opening ++ rest := by
  rw [after?]
  constructor
  · intro h
    split at h
    next hp =>
      rw [← Option.some.inj h]
      exact (List.prefix_iff_eq_append.mp (List.isPrefixOf_iff_prefix.mp hp)).symm
    next => simp at h
  · rintro rfl
    simp [List.isPrefixOf_iff_prefix]

theorem cutAt?_eq_some {mark t before after : Text} (h : cutAt? mark t = some (before, after)) :
    t = before ++ mark ++ after := by
  induction t generalizing before with
  | nil =>
    by_cases hm : mark = [] <;> simp_all [cutAt?]
  | cons c rest ih =>
    unfold cutAt? at h
    split at h
    next found hf =>
      obtain ⟨rfl, rfl⟩ : [] = before ∧ found = after := by simpa using h
      simpa using (after?_eq_some.mp hf)
    next hf =>
      obtain ⟨⟨b, a⟩, hb, hc⟩ := Option.map_eq_some_iff.mp h
      obtain ⟨rfl, rfl⟩ : c :: b = before ∧ a = after := by simpa using hc
      rw [ih hb]
      simp

theorem length_of_cutAt? {mark t before after : Text} (h : cutAt? mark t = some (before, after)) :
    after.length + mark.length ≤ t.length := by
  rw [cutAt?_eq_some h]
  simp only [List.length_append]
  omega

end Text
end TemplateDirectives
