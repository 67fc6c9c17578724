/-
Where end markers stand, said without the search for them.

`EndMarker.Marks` says of an offset that an end marker for a name stands there, in one of
the two forms.  A marker with both signs holds one with a single sign, one character on,
that no search from outside of it must report.  `find?_leftmost_ending` says that none
does: from every offset that is not between two signs the search finds the first end
marker, and the list of all finds is the list of all end markers.
-/
import TemplateDirectives.Proofs.Grammar.Runs

namespace TemplateDirectives
namespace Directive
namespace EndMarker

/-- An end marker for `name` stands at `p`.  With a single sign it stands neither behind a
word character nor behind another sign. -/
structure Marks (t name : Text) (p : Nat) (wellFormed : Bool) : Prop where
  written : ∃ rest, t.drop p = sign wellFormed ++ (Name.endWord ++ (name ++ rest)) ∧
    rest.head?.any Text.isWord = false
  apart : wellFormed = false → (t.before? p).any Text.isWord = false ∧ t.before? p ≠ some '@'

/-- The marker `e` is the one that stands where it begins, and no more than that. -/
structure Occurs (t name : Text) (e : EndMarker) : Prop where
  marks : Marks t name e.start e.wellFormed
  stop : e.stop = e.start + (sign e.wellFormed ++ (Name.endWord ++ name)).length
  span : t.slice e.start e.stop = sign e.wellFormed ++ (Name.endWord ++ name)

/-- The offset lies between the two signs of a marker. -/
def Inside (t : Text) (offset : Nat) : Prop :=
  t.before? offset = some '@' ∧ t[offset]? = some '@'

variable {t name : Text} {p q offset : Nat} {w v : Bool} {e : EndMarker}

theorem sign_eq (w : Bool) : ∃ more, sign w = '@' :: more := by
  cases w with
  | true => exact ⟨['@'], rfl⟩
  | false => exact ⟨[], rfl⟩

namespace Marks

theorem getElem?_start (h : Marks t name p w) : t[p]? = some '@' := by
  obtain ⟨rest, hdrop, -⟩ := h.written
  obtain ⟨more, hsign⟩ := sign_eq w
  rw [← List.head?_drop, hdrop, hsign]
  rfl

theorem start_lt (h : Marks t name p w) : p < t.length := by
  obtain ⟨hlt, -⟩ := List.getElem?_eq_some_iff.mp h.getElem?_start
  exact hlt

theorem unique (h : Marks t name p w) (h' : Marks t name p v) : w = v := by
  obtain ⟨rest, hdrop, -⟩ := h.written
  obtain ⟨rest', hdrop', -⟩ := h'.written
  rw [hdrop] at hdrop'
  cases w with
  | true =>
    cases v with
    | true => rfl
    | false => simp [sign, callMarker, Name.endWord] at hdrop'
  | false =>
    cases v with
    | true => simp [sign, callMarker, Name.endWord] at hdrop'
    | false => rfl

/-- End markers do not overlap. -/
theorem length_le (hname : '@' ∉ name) (h : Marks t name p w) (h' : Marks t name q v)
    (hlt : p < q) : p + (sign w ++ (Name.endWord ++ name)).length ≤ q := by
  obtain ⟨rest, hdrop, -⟩ := h.written
  have hword : t.drop (p + (sign w).length) = (Name.endWord ++ name) ++ rest := by
    rw [List.append_assoc]
    exact Text.drop_of_drop hdrop
  by_cases hle : p + (sign w ++ (Name.endWord ++ name)).length ≤ q
  · exact hle
  · rw [List.length_append] at hle
    by_cases hsign : p + (sign w).length ≤ q
    · obtain ⟨d, hd, hget⟩ := Text.mem_of_drop hword hsign (by omega)
      rw [h'.getElem?_start] at hget
      cases hget
      simp [Name.endWord, hname] at hd
    · -- only a second sign stands between the first and the end word
      cases w with
      | false =>
        simp only [sign, Bool.false_eq_true, if_false, List.length_singleton] at hsign
        omega
      | true =>
        simp only [sign, if_true, callMarker, List.length_cons, List.length_nil] at hsign
        have hq : q = p + 1 := by omega
        have hsecond : t.drop q = '@' :: (Name.endWord ++ (name ++ rest)) := by
          rw [hq, ← List.drop_drop, hdrop]
          rfl
        have hbefore : t.before? q = some '@' := by
          rw [hq, Text.before?, if_neg (by omega), Nat.add_sub_cancel]
          exact h.getElem?_start
        obtain ⟨rest', hdrop', -⟩ := h'.written
        cases v with
        | true =>
          rw [hsecond] at hdrop'
          simp [sign, callMarker, Name.endWord] at hdrop'
        | false => exact absurd hbefore (h'.apart rfl).2

end Marks

/-! ## Reading and searching -/

theorem at?_eq_some {rest : Text} (hrest : rest.head?.any Text.isWord = false)
    (hapart : w = false → (t.before? offset).any Text.isWord = false) :
    at? t name offset (sign w ++ (Name.endWord ++ (name ++ rest))) =
      some ⟨offset, offset + (sign w ++ (Name.endWord ++ name)).length, w⟩ := by
  have hafter : Text.after? (Name.endWord ++ name) (Name.endWord ++ (name ++ rest)) = some rest := by
    rw [Text.after?_eq_some, List.append_assoc]
  have hcloses : closes name (Name.endWord ++ (name ++ rest)) = true := by
    simp only [closes, hafter, hrest, Bool.not_false]
  cases w with
  | true =>
    show (if closes name (Name.endWord ++ (name ++ rest)) = true then _ else _) = _
    rw [if_pos hcloses]
    simp [sign, callMarker, Nat.add_assoc]
    omega
  | false =>
    show (if (closes name (Name.endWord ++ (name ++ rest)) && !(t.before? offset).any Text.isWord) =
      true then _ else _) = _
    rw [hcloses, hapart rfl]
    simp [sign, Nat.add_assoc]
    omega

theorem Marks.at? (h : Marks t name p w) : EndMarker.at? t name p (t.drop p) =
    some ⟨p, p + (sign w ++ (Name.endWord ++ name)).length, w⟩ := by
  obtain ⟨rest, hdrop, hrest⟩ := h.written
  rw [hdrop]
  exact at?_eq_some hrest fun hw => (h.apart hw).1

theorem Marks.occurs (h : Marks t name p w) :
    Occurs t name ⟨p, p + (sign w ++ (Name.endWord ++ name)).length, w⟩ := by
  obtain ⟨rest, hdrop, -⟩ := h.written
  refine ⟨h, rfl, ?_⟩
  rw [← List.append_assoc _ name, ← List.append_assoc] at hdrop
  exact Text.slice_of_drop hdrop

theorem apart_of_at? {x : Text} (h : EndMarker.at? t name p x = some e) (hw : e.wellFormed = false) :
    (t.before? p).any Text.isWord = false := by
  unfold EndMarker.at? at h
  split at h
  next =>
    split at h
    next =>
      cases h
      cases hw
    next => cases h
  next =>
    split at h
    next hc =>
      rw [Bool.and_eq_true, Bool.not_eq_true'] at hc
      exact hc.2
    next => cases h
  next => cases h

/-- What is read is an end marker, or the second sign of one. -/
theorem exists_marks_of_at? (h : EndMarker.at? t name p (t.drop p) = some e) :
    (∃ w, Marks t name p w) ∨ Inside t p ∧ 0 < p ∧ Marks t name (p - 1) true := by
  have hlt : p < t.length := by
    refine Nat.lt_of_not_le fun hle => ?_
    rw [List.drop_eq_nil_iff.mpr hle] at h
    cases h
  have hfind : find? t name p = some e :=
    Text.firstMatch_eq_some_of_rejects (Text.Rejects.refl p) (Nat.le_refl p) h hlt
  obtain ⟨rest, hstands⟩ := stands_of_find? hfind
  have hwritten := hstands.written
  rw [(start_of_at? h).1] at hwritten
  cases hw : e.wellFormed with
  | true =>
    rw [hw] at hwritten
    exact .inl ⟨true, ⟨rest, hwritten, hstands.isWord_rest⟩, fun hfalse => by cases hfalse⟩
  | false =>
    rw [hw] at hwritten
    have hword := apart_of_at? h hw
    by_cases hsecond : t.before? p = some '@'
    · have hpos : p ≠ 0 := by
        intro hzero
        rw [hzero] at hsecond
        cases hsecond
      rw [Text.before?, if_neg hpos] at hsecond
      refine .inr ⟨⟨?_, ?_⟩, by omega, ⟨rest, ?_, hstands.isWord_rest⟩, fun hfalse => by cases hfalse⟩
      · rw [Text.before?, if_neg hpos]
        exact hsecond
      · rw [← List.head?_drop, hwritten]
        rfl
      · obtain ⟨hprev, hget⟩ := List.getElem?_eq_some_iff.mp hsecond
        rw [List.drop_eq_getElem_cons hprev, hget, show p - 1 + 1 = p by omega, hwritten]
        rfl
    · exact .inl ⟨false, ⟨rest, hwritten, hstands.isWord_rest⟩, fun _ => ⟨hword, hsecond⟩⟩

theorem accepts (hoffset : ¬ Inside t offset) :
    Text.Accepts (EndMarker.at? t name) t offset fun p => ∃ w, Marks t name p w where
  place p _ h := by
    obtain ⟨w, hmarks⟩ := h
    exact ⟨hmarks.start_lt, _, hmarks.at?⟩
  accepted p e hp h := by
    rcases exists_marks_of_at? h with hmarks | ⟨hinside, hpos, hmarks⟩
    · exact ⟨p, hp, Nat.le_refl p, hmarks⟩
    · have hne : p ≠ offset := fun heq => hoffset (heq ▸ hinside)
      exact ⟨p - 1, by omega, Nat.sub_le p 1, true, hmarks⟩

theorem find?_eq_none_iff (hoffset : ¬ Inside t offset) :
    find? t name offset = none ↔ ∀ p w, offset ≤ p → ¬ Marks t name p w := by
  rw [find?, Text.firstMatch_eq_none_iff_forall (accepts hoffset)]
  constructor
  · intro h p w hp hmarks
    exact h p hp ⟨w, hmarks⟩
  · intro h p hp hmarks
    obtain ⟨w, hmarks⟩ := hmarks
    exact h p w hp hmarks

theorem find?_eq_some_iff (hoffset : ¬ Inside t offset) : find? t name offset = some e ↔
    e.Occurs t name ∧ offset ≤ e.start ∧
      ∀ p w, offset ≤ p → Marks t name p w → e.start ≤ p := by
  rw [find?, Text.firstMatch_eq_some_iff_least (accepts hoffset)]
  constructor
  · intro h
    obtain ⟨p, hp, hat, ⟨w, hmarks⟩, hleast⟩ := h
    rw [hmarks.at?] at hat
    cases hat
    exact ⟨hmarks.occurs, hp, fun q v hq hmarks => hleast q hq ⟨v, hmarks⟩⟩
  · intro h
    obtain ⟨hoccurs, hstart, hleast⟩ := h
    have hat := hoccurs.marks.at?
    rw [← hoccurs.stop] at hat
    refine ⟨e.start, hstart, hat, ⟨e.wellFormed, hoccurs.marks⟩, fun p hp hmarks => ?_⟩
    obtain ⟨w, hmarks⟩ := hmarks
    exact hleast p w hp hmarks

/-- An end marker ends with a character of the name or of the end word, so no two signs stand
around its end. -/
theorem not_inside_stop (hname : '@' ∉ name) (h : find? t name offset = some e) :
    ¬ Inside t e.stop := by
  obtain ⟨rest, hstands⟩ := stands_of_find? h
  have hword : t.drop (e.start + (sign e.wellFormed).length) = (Name.endWord ++ name) ++ rest := by
    rw [List.append_assoc]
    exact Text.drop_of_drop hstands.written
  have hne : Name.endWord ++ name ≠ [] := List.append_ne_nil_of_left_ne_nil (by decide) name
  have hlast := List.getLast?_eq_some_getLast hne
  have hbefore : t.before? e.stop = some ((Name.endWord ++ name).getLast hne) := by
    have hend := Text.before?_of_drop hword
    rwa [hlast, Option.some_or, Nat.add_assoc, ← List.length_append, ← hstands.stop] at hend
  intro hinside
  rw [hinside.1] at hbefore
  have hmem : '@' ∈ Name.endWord ++ name := by
    rw [Option.some.inj hbefore]
    exact List.getLast_mem hne
  simp [Name.endWord, hname] at hmem

theorem findsLeast (hname : '@' ∉ name) : Text.FindsLeast (find? t name) EndMarker.start stop
    (fun offset => ¬ Inside t offset) (fun p => ∃ w, Marks t name p w) where
  absent _ hoffset h p hp hmarks := by
    obtain ⟨w, hmarks⟩ := hmarks
    exact (find?_eq_none_iff hoffset).mp h p w hp hmarks
  found _ e hoffset h := by
    obtain ⟨hoccurs, -, hleast⟩ := (find?_eq_some_iff hoffset).mp h
    refine ⟨⟨e.wellFormed, hoccurs.marks⟩, fun p hp hmarks => ?_⟩
    obtain ⟨w, hmarks⟩ := hmarks
    exact hleast p w hp hmarks
  moves _ e h := by
    obtain ⟨hstart, hstop, -⟩ := start_of_find? h
    exact ⟨hstart, hstop, not_inside_stop hname h⟩

theorem Occurs.unique {d : EndMarker} (hd : d.Occurs t name) (he : e.Occurs t name)
    (hstart : d.start = e.start) : d = e := by
  have hform : d.wellFormed = e.wellFormed := hd.marks.unique (hstart ▸ he.marks)
  have hstop : d.stop = e.stop := by rw [hd.stop, he.stop, hform, hstart]
  obtain ⟨start, stop, wellFormed⟩ := d
  cases hstart
  cases hstop
  cases hform
  rfl

/-- The list of all finds is the list of all end markers. -/
theorem mem_all_iff (hname : '@' ∉ name) (hoffset : ¬ Inside t offset) :
    e ∈ all t name offset ↔ e.Occurs t name ∧ offset ≤ e.start := by
  have hoccurs : ∀ d ∈ all t name offset, d.Occurs t name ∧ offset ≤ d.start := by
    intro d hd
    obtain ⟨k, hk, hadmits, hfind⟩ := (findsLeast hname).exists_find_of_mem hoffset hd
    obtain ⟨hoccurs, hstart, -⟩ := (find?_eq_some_iff hadmits).mp hfind
    exact ⟨hoccurs, Nat.le_trans hk hstart⟩
  constructor
  · exact hoccurs e
  · intro h
    obtain ⟨he, hstart⟩ := h
    have hapart : ∀ d ∈ all t name offset, ¬ (d.start < e.start ∧ e.start < d.stop) := by
      intro d hd hin
      have hle := (hoccurs d hd).1.marks.length_le hname he.marks hin.1
      rw [← (hoccurs d hd).1.stop] at hle
      omega
    obtain ⟨d, hd, hsame⟩ := ((findsLeast hname).exists_mem_iff hoffset e.start).mpr
      ⟨hstart, ⟨e.wellFormed, he.marks⟩, hapart⟩
    rw [← (hoccurs d hd).1.unique he hsame]
    exact hd

/-- For every text, every name and every offset that is not between two signs: the search
finds the leftmost end marker, in the form in which it stands there, and nothing only when
there is none.  Going on behind each find, it comes by all end markers, one behind the
other. -/
theorem find?_leftmost_ending (t name : Text) (offset : Nat) (hname : '@' ∉ name)
    (hoffset : ¬ Inside t offset) :
    (find? t name offset = none ↔ ∀ p w, offset ≤ p → ¬ Marks t name p w) ∧
    (∀ e, find? t name offset = some e ↔ e.Occurs t name ∧ offset ≤ e.start ∧
      ∀ p w, offset ≤ p → Marks t name p w → e.start ≤ p) ∧
    (∀ e, e ∈ all t name offset ↔ e.Occurs t name ∧ offset ≤ e.start) ∧
    (all t name offset).Pairwise fun d e => d.stop ≤ e.start :=
  ⟨find?_eq_none_iff hoffset, fun _ => find?_eq_some_iff hoffset,
    fun _ => mem_all_iff hname hoffset,
    Text.pairwise_next_le (fun _ _ h => (start_of_find? h).1) offset⟩

/-- Signs that begin no end marker, and end markers for `x` among them. -/
def signsPage : Text := "a@endx @@@endx @endx @@endxy @@endx".toList

theorem find?_leftmost_ending_signsPage : ¬ Inside signsPage 7 ∧
    find? signsPage ['x'] 7 = some ⟨8, 14, true⟩ ∧ Occurs signsPage ['x'] ⟨8, 14, true⟩ ∧
    ∀ p w, 7 ≤ p → Marks signsPage ['x'] p w → 8 ≤ p := by
  have hinside : ¬ Inside signsPage 7 := by
    intro h
    cases h.1
  have hfind : find? signsPage ['x'] 7 = some ⟨8, 14, true⟩ := rfl
  obtain ⟨-, hsome, -, -⟩ := find?_leftmost_ending signsPage ['x'] 7 (by decide) hinside
  obtain ⟨hoccurs, -, hleast⟩ := (hsome ⟨8, 14, true⟩).mp hfind
  exact ⟨hinside, hfind, hoccurs, hleast⟩

end EndMarker
end Directive
end TemplateDirectives
