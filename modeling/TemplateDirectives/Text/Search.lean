/-
Leftmost search, and the list of all that a search finds.

`firstMatch` tries every offset in turn and returns what it accepts first.
`scanAll` repeats a search, each time from the place that the previous find
names.  It asks for a proof that every find moves the cursor forward inside a
bound, and the bound is what makes the list finite.  `Rejects` says of a stretch
that a search finds nothing in it, and such stretches are passed over.
-/
import TemplateDirectives.Text.Basic

namespace TemplateDirectives
namespace Text

/-- What `accept` yields at the least offset where it yields anything.  It is
given the offset and the text that begins there. -/
def firstMatch {α : Type} (accept : Nat → Text → Option α) (offset : Nat) : Text → Option α
  | [] => none
  | c :: rest =>
    match accept offset (c :: rest) with
    | some a => some a
    | none => firstMatch accept (offset + 1) rest

/-- Everything that repeated search finds.  After `a` the search goes on at
`next a`. -/
def scanAll {α : Type} (find : Nat → Option α) (next : α → Nat) (bound : Nat)
    (progress : ∀ cursor a, find cursor = some a → cursor < next a ∧ cursor < bound)
    (cursor : Nat) : List α :=
  match _h : find cursor with
  | none => []
  | some a => a :: scanAll find next bound progress (next a)
termination_by bound - cursor
decreasing_by
  have := progress cursor a _h
  omega

/-! ## Laws -/

/-- A find lies at some offset of the searched text, and that offset accepts
it. -/
theorem exists_of_firstMatch {α : Type} {accept : Nat → Text → Option α} {t : Text} {offset : Nat}
    {a : α} (h : firstMatch accept offset t = some a) :
    ∃ k, k < t.length ∧ accept (offset + k) (t.drop k) = some a := by
  induction t generalizing offset with
  | nil => simp [firstMatch] at h
  | cons c rest ih =>
    unfold firstMatch at h
    split at h
    next b hb =>
      exact ⟨0, by simp, by simpa [Option.some.inj h] using hb⟩
    next =>
      obtain ⟨k, hk, ha⟩ := ih h
      refine ⟨k + 1, by simpa using hk, ?_⟩
      rw [show offset + (k + 1) = offset + 1 + k by omega]
      simpa using ha

/-- No offset before the find accepts anything. -/
theorem firstMatch_eq_some_iff {α : Type} {accept : Nat → Text → Option α} {t : Text}
    {offset : Nat} {a : α} :
    firstMatch accept offset t = some a ↔
      ∃ k, k < t.length ∧ accept (offset + k) (t.drop k) = some a ∧
        ∀ j, j < k → accept (offset + j) (t.drop j) = none := by
  induction t generalizing offset with
  | nil => simp [firstMatch]
  | cons c rest ih =>
    unfold firstMatch
    constructor
    · intro h
      split at h
      next b hb =>
        refine ⟨0, by simp, by simpa [Option.some.inj h] using hb, ?_⟩
        intro j hj
        omega
      next hn =>
        obtain ⟨k, hk, ha, hmin⟩ := ih.mp h
        refine ⟨k + 1, by simpa using hk, ?_, ?_⟩
        · rw [show offset + (k + 1) = offset + 1 + k by omega]
          simpa using ha
        · intro j hj
          cases j with
          | zero => simpa using hn
          | succ j =>
            rw [show offset + (j + 1) = offset + 1 + j by omega]
            simpa using hmin j (by omega)
    · rintro ⟨k, hk, ha, hmin⟩
      cases k with
      | zero =>
        rw [show accept offset (c :: rest) = some a by simpa using ha]
      | succ k =>
        rw [show accept offset (c :: rest) = none by simpa using hmin 0 (by omega)]
        refine ih.mpr ⟨k, by simpa using hk, ?_, ?_⟩
        · rw [show offset + 1 + k = offset + (k + 1) by omega]
          simpa using ha
        · intro j hj
          rw [show offset + 1 + j = offset + (j + 1) by omega]
          simpa using hmin (j + 1) (by omega)

theorem firstMatch_eq_none_iff {α : Type} {accept : Nat → Text → Option α} {t : Text}
    {offset : Nat} :
    firstMatch accept offset t = none ↔
      ∀ k, k < t.length → accept (offset + k) (t.drop k) = none := by
  induction t generalizing offset with
  | nil => simp [firstMatch]
  | cons c rest ih =>
    unfold firstMatch
    constructor
    · intro h
      split at h
      next => simp at h
      next hn =>
        intro k hk
        cases k with
        | zero => simpa using hn
        | succ k =>
          rw [show offset + (k + 1) = offset + 1 + k by omega]
          simpa using ih.mp h k (by simpa using hk)
    · intro h
      rw [show accept offset (c :: rest) = none by simpa using h 0 (by simp)]
      refine ih.mpr fun k hk => ?_
      rw [show offset + 1 + k = offset + (k + 1) by omega]
      simpa using h (k + 1) (by simpa using hk)

/-- One step of the list of finds. -/
theorem scanAll_eq {α : Type} {find : Nat → Option α} {next : α → Nat} {bound : Nat}
    (progress : ∀ cursor a, find cursor = some a → cursor < next a ∧ cursor < bound)
    (cursor : Nat) :
    scanAll find next bound progress cursor =
      match find cursor with
      | none => []
      | some a => a :: scanAll find next bound progress (next a) := by
  rw [scanAll]
  split <;> simp_all

/-- Everything in the list is a find of some search, from the first cursor or a later
one. -/
theorem exists_find_of_mem_scanAll {α : Type} {find : Nat → Option α} {next : α → Nat} {bound : Nat}
    {progress : ∀ cursor a, find cursor = some a → cursor < next a ∧ cursor < bound}
    {cursor : Nat} {a : α} (h : a ∈ scanAll find next bound progress cursor) :
    ∃ k, cursor ≤ k ∧ find k = some a := by
  induction hn : bound - cursor using Nat.strongRecOn generalizing cursor with
  | ind n ih =>
    rw [scanAll_eq] at h
    cases hf : find cursor with
    | none =>
      rw [hf] at h
      cases h
    | some b =>
      rw [hf] at h
      rcases List.mem_cons.mp h with rfl | h
      · exact ⟨cursor, Nat.le_refl _, hf⟩
      · have := progress cursor b hf
        obtain ⟨k, hk, hfind⟩ := ih (bound - next b) (by omega) h rfl
        exact ⟨k, by omega, hfind⟩

/-! ## Stretches without a find -/

/-- No offset from `a` up to `b` is accepted. -/
def Rejects {α : Type} (accept : Nat → Text → Option α) (t : Text) (a b : Nat) : Prop :=
  ∀ k, a ≤ k → k < b → accept k (t.drop k) = none

namespace Rejects

variable {α : Type} {accept : Nat → Text → Option α} {t : Text} {a b c : Nat}

theorem refl (a : Nat) : Rejects accept t a a := by
  intro k hak hka
  omega

theorem trans (hab : Rejects accept t a b) (hbc : Rejects accept t b c) : Rejects accept t a c := by
  intro k hak hkc
  by_cases hk : k < b
  · exact hab k hak hk
  · exact hbc k (by omega) hkc

theorem mono (h : Rejects accept t a c) (hbc : b ≤ c) : Rejects accept t a b :=
  fun k hak hkb => h k hak (Nat.lt_of_lt_of_le hkb hbc)

/-- A search that accepts only where `d` stands rejects a stretch without it. -/
theorem of_not_mem {d : Char} {s rest : Text} (hd : t.drop a = s ++ rest) (hs : d ∉ s)
    (h : ∀ k u, u.head? ≠ some d → accept k u = none) : Rejects accept t a (a + s.length) := by
  intro k hak hk
  refine h k _ fun hhead => hs ?_
  have hlt : k - a < s.length := by omega
  rw [show k = a + (k - a) by omega, ← List.drop_drop, hd,
    List.drop_append_of_le_length (by omega), List.head?_append, List.head?_drop,
    List.getElem?_eq_getElem hlt, Option.some_or] at hhead
  rw [← Option.some.inj hhead]
  exact List.getElem_mem hlt

end Rejects

section

variable {α : Type} {accept : Nat → Text → Option α} {t : Text} {a b : Nat}

/-- A search passes over a stretch that holds no find. -/
theorem firstMatch_of_rejects (h : Rejects accept t a b) (hab : a ≤ b) :
    firstMatch accept a (t.drop a) = firstMatch accept b (t.drop b) := by
  obtain ⟨n, rfl⟩ := Nat.exists_eq_add_of_le hab
  induction n with
  | zero => rfl
  | succ n ih =>
    rw [ih (fun k hak hk => h k hak (by omega)) (by omega)]
    cases hd : t.drop (a + n) with
    | nil =>
      have hnil : t.drop (a + (n + 1)) = [] := by
        rw [List.drop_eq_nil_iff] at hd ⊢
        omega
      rw [hnil]
      rfl
    | cons c rest =>
      have hrest : t.drop (a + (n + 1)) = rest := by
        rw [← Nat.add_assoc, ← List.drop_drop, hd]
        rfl
      have hnone := h (a + n) (by omega) (by omega)
      rw [hd] at hnone
      rw [firstMatch, hnone, hrest]
      rfl

/-- The first accepted offset is where the search ends. -/
theorem firstMatch_eq_some_of_rejects {x : α} (h : Rejects accept t a b) (hab : a ≤ b)
    (hx : accept b (t.drop b) = some x) (hb : b < t.length) :
    firstMatch accept a (t.drop a) = some x := by
  rw [firstMatch_of_rejects h hab, firstMatch_eq_some_iff]
  exact ⟨0, by rw [List.length_drop]; omega, hx, fun j hj => by omega⟩

theorem firstMatch_eq_none_of_rejects (h : Rejects accept t a b) (hab : a ≤ b)
    (hb : t.drop b = []) : firstMatch accept a (t.drop a) = none := by
  rw [firstMatch_of_rejects h hab, hb]
  rfl

/-- A search that accepts only where `d` stands finds nothing where there is none. -/
theorem firstMatch_eq_none_of_not_mem {d : Char} (hd : d ∉ t.drop a)
    (h : ∀ k u, u.head? ≠ some d → accept k u = none) : firstMatch accept a (t.drop a) = none := by
  have hall : t.drop a = t.drop a ++ [] := (List.append_nil _).symm
  refine firstMatch_eq_none_of_rejects (Rejects.of_not_mem hall hd h) (Nat.le_add_right _ _) ?_
  rw [← List.drop_drop, List.drop_length]

/-- Before a find there is nothing that the search accepts. -/
theorem rejects_of_firstMatch {x : α} (h : firstMatch accept a (t.drop a) = some x) :
    ∃ b, a ≤ b ∧ b < t.length ∧ accept b (t.drop b) = some x ∧ Rejects accept t a b := by
  obtain ⟨k, hk, hx, hmin⟩ := firstMatch_eq_some_iff.mp h
  rw [List.length_drop] at hk
  rw [List.drop_drop] at hx
  refine ⟨a + k, by omega, by omega, hx, fun j haj hj => ?_⟩
  have hnone := hmin (j - a) (by omega)
  rwa [List.drop_drop, show a + (j - a) = j by omega] at hnone

theorem rejects_of_firstMatch_eq_none (h : firstMatch accept a (t.drop a) = none) :
    Rejects accept t a t.length := by
  intro k hak hk
  have hnone := firstMatch_eq_none_iff.mp h (k - a) (by rw [List.length_drop]; omega)
  rwa [List.drop_drop, show a + (k - a) = k by omega] at hnone

end

end Text
end TemplateDirectives
