/-
Longest stretches, and searches for the leftmost place.

A reader that goes back from an offset takes the longest stretch of one kind of characters
that ends there, and a floor below which it does not go.  `Text.IsRunBefore` says what such
a stretch is, and `isRunBefore_iff` that the readers take it.  `Text.Reads` says of what a
search accepts that it is what occurs at certain places, and such a search finds what occurs
at the leftmost place (`Reads.firstMatch_eq_some_iff_occurs`).  `Text.FindsLeast` says of a
search that it finds the leftmost place, whatever the cursor.  A list of finds then lacks
only places in the stretches that the finds take with them (`FindsLeast.exists_mem_iff`).
-/
import TemplateDirectives.Proofs.Edits.Finds

namespace TemplateDirectives
namespace Text

/-! ## Stretches before an offset -/

/-- The longest stretch of characters for which `p` holds that ends at `stop` and does not
begin before `floor`. -/
structure IsRunBefore (p : Char → Bool) (t : Text) (floor stop : Nat) (s : Text) : Prop where
  floor_le : floor + s.length ≤ stop
  slice : t.slice (stop - s.length) stop = s
  all : ∀ c ∈ s, p c = true
  longest : floor + s.length = stop ∨ (t.before? (stop - s.length)).any p = false

section

variable {p : Char → Bool} {t s : Text} {floor stop : Nat}

theorem getLast?_slice (h : floor < stop) (hstop : stop ≤ t.length) :
    (t.slice floor stop).getLast? = t.before? stop := by
  have hlen : (t.slice floor stop).length = stop - floor := by
    rw [length_slice, Nat.min_eq_left hstop]
  have hdrop := drop_of_slice (t := t) rfl (Nat.le_of_lt h)
  have hbefore := before?_of_drop hdrop
  have hne : t.slice floor stop ≠ [] := by
    intro hnil
    rw [hnil, List.length_nil] at hlen
    omega
  rw [List.getLast?_eq_some_getLast hne, Option.some_or, hlen,
    show floor + (stop - floor) = stop by omega] at hbefore
  rw [hbefore, List.getLast?_eq_some_getLast hne]

theorem any_head?_dropWhile (p : Char → Bool) (t : Text) : (t.dropWhile p).head?.any p = false := by
  have hnot := List.head?_dropWhile_not p t
  cases hhead : (t.dropWhile p).head? with
  | none => rfl
  | some c =>
    rw [hhead] at hnot
    exact hnot

theorem any_getLast?_dropEndWhile (p : Char → Bool) (t : Text) :
    (dropEndWhile p t).getLast?.any p = false := by
  rw [dropEndWhile, List.getLast?_reverse]
  exact any_head?_dropWhile p t.reverse

/-- Whether a stretch ends with a character for which `p` holds. -/
theorem any_getLast?_slice (h : floor ≤ stop) (hstop : stop ≤ t.length) :
    (t.slice floor stop).getLast?.any p = false ↔
      floor = stop ∨ (t.before? stop).any p = false := by
  by_cases hempty : floor = stop
  · refine iff_of_true ?_ (.inl hempty)
    rw [hempty, slice_self]
    rfl
  · rw [getLast?_slice (by omega) hstop]
    exact (or_iff_right hempty).symm

/-- The readers take the longest stretch. -/
theorem isRunBefore_iff (hfloor : floor ≤ stop) (hstop : stop ≤ t.length) :
    IsRunBefore p t floor stop s ↔ s = takeEndWhile p (t.slice floor stop) := by
  constructor
  · intro h
    have hle := h.floor_le
    have hcut := slice_append_slice t (by omega : floor ≤ stop - s.length)
      (by omega : stop - s.length ≤ stop)
    have hlast : (t.slice floor (stop - s.length)).getLast?.any p = false :=
      (any_getLast?_slice (by omega) (by omega)).mpr (h.longest.imp_left (by omega))
    rw [h.slice] at hcut
    rw [← hcut]
    exact (takeEndWhile_append_of_stop h.all hlast).symm
  · intro h
    subst h
    have hlen := length_takeEndWhile_slice_le p t floor stop
    have hcut := slice_append_takeEndWhile p (a := floor) hstop
    have hsplit := dropEndWhile_append_takeEndWhile p (t.slice floor stop)
    have hlast := any_getLast?_dropEndWhile p (t.slice floor stop)
    have hall := takeEndWhile_all p (t.slice floor stop)
    generalize takeEndWhile p (t.slice floor stop) = w at *
    rw [List.append_cancel_right (hsplit.trans hcut.symm),
      any_getLast?_slice (by omega) (by omega)] at hlast
    refine ⟨by omega, ?_, hall, hlast.imp_left (by omega)⟩
    have hjoin := slice_append_slice t (by omega : floor ≤ stop - w.length)
      (by omega : stop - w.length ≤ stop)
    rw [← hcut] at hjoin
    exact List.append_cancel_left hjoin

/-- A stretch and what stands behind it stand together. -/
theorem IsRunBefore.slice_append {u rest : Text} (h : IsRunBefore p t floor stop s)
    (hdrop : t.drop stop = u ++ rest) :
    t.slice (stop - s.length) (stop + u.length) = s ++ u := by
  rw [slice_add_of_drop (Nat.sub_le _ _) hdrop, h.slice]

theorem takeEndWhile_isSuffix (p : Char → Bool) (u v : Text) :
    takeEndWhile p v <:+ takeEndWhile p (u ++ v) := by
  rw [takeEndWhile, takeEndWhile, List.reverse_suffix, List.reverse_append, List.takeWhile_append]
  by_cases hall : (v.reverse.takeWhile p).length = v.reverse.length
  · rw [if_pos hall]
    exact (List.takeWhile_prefix p).trans (List.prefix_append _ _)
  · exact (if_neg hall).symm ▸ List.prefix_rfl

end

/-! ## Leftmost places -/

/-- A search accepts each place that `P` holds of, and else only what lies behind one. -/
structure Accepts {α : Type} (accept : Nat → Text → Option α) (t : Text) (cursor : Nat)
    (P : Nat → Prop) : Prop where
  place : ∀ m, cursor ≤ m → P m → m < t.length ∧ ∃ a, accept m (t.drop m) = some a
  accepted : ∀ m a, cursor ≤ m → accept m (t.drop m) = some a → ∃ k, cursor ≤ k ∧ k ≤ m ∧ P k

section

variable {α : Type} {accept : Nat → Text → Option α} {t : Text} {cursor : Nat} {P : Nat → Prop}

/-- A search from left to right finds nothing when there is no place for it to stop. -/
theorem firstMatch_eq_none_iff_forall (h : Accepts accept t cursor P) :
    firstMatch accept cursor (t.drop cursor) = none ↔ ∀ m, cursor ≤ m → ¬ P m := by
  constructor
  · intro hnone m hm hplace
    obtain ⟨hlt, a, ha⟩ := h.place m hm hplace
    rw [rejects_of_firstMatch_eq_none hnone m hm hlt] at ha
    cases ha
  · intro hnot
    cases hfind : firstMatch accept cursor (t.drop cursor) with
    | none => rfl
    | some a =>
      obtain ⟨m, hm, -, ha, -⟩ := rejects_of_firstMatch hfind
      obtain ⟨k, hk, -, hplace⟩ := h.accepted m a hm ha
      exact absurd hplace (hnot k hk)

/-- A search from left to right stops at the leftmost place. -/
theorem firstMatch_eq_some_iff_least (h : Accepts accept t cursor P) {a : α} :
    firstMatch accept cursor (t.drop cursor) = some a ↔
      ∃ m, cursor ≤ m ∧ accept m (t.drop m) = some a ∧ P m ∧ ∀ k, cursor ≤ k → P k → m ≤ k := by
  constructor
  · intro hsome
    obtain ⟨m, hm, -, ha, hrejects⟩ := rejects_of_firstMatch hsome
    have hleast : ∀ k, cursor ≤ k → P k → m ≤ k := by
      intro k hk hplace
      obtain ⟨-, b, hb⟩ := h.place k hk hplace
      refine Nat.le_of_not_lt fun hkm => ?_
      rw [hrejects k hk hkm] at hb
      cases hb
    obtain ⟨k, hk, hkm, hplace⟩ := h.accepted m a hm ha
    have heq : k = m := Nat.le_antisymm hkm (hleast k hk hplace)
    exact ⟨m, hm, ha, heq ▸ hplace, hleast⟩
  · intro hsome
    obtain ⟨m, hm, ha, hplace, hleast⟩ := hsome
    refine firstMatch_eq_some_of_rejects (fun k hk hkm => ?_) hm ha (h.place m hm hplace).1
    cases hb : accept k (t.drop k) with
    | none => rfl
    | some b =>
      obtain ⟨i, hi, hik, hbefore⟩ := h.accepted k b hk hb
      have := hleast i hi hbefore
      omega

end

/-- A search reads at each place that `P` holds of, and there it reads what occurs there. -/
structure Reads {α : Type} (accept : Nat → Text → Option α) (t : Text) (cursor : Nat)
    (P : Nat → Prop) (place : α → Nat) (Occurs : α → Prop) : Prop where
  read_iff : ∀ m a, cursor ≤ m → (accept m (t.drop m) = some a ↔ place a = m ∧ Occurs a)
  exists_read : ∀ m, cursor ≤ m → P m → ∃ a, accept m (t.drop m) = some a
  occurs : ∀ a, Occurs a → cursor ≤ place a ∧ place a < t.length ∧ P (place a)

namespace Reads

variable {α : Type} {accept : Nat → Text → Option α} {t : Text} {cursor : Nat} {P : Nat → Prop}
variable {place : α → Nat} {Occurs : α → Prop}

theorem accepts (h : Reads accept t cursor P place Occurs) : Accepts accept t cursor P where
  place m hm hplace := by
    obtain ⟨a, ha⟩ := h.exists_read m hm hplace
    obtain ⟨heq, hoccurs⟩ := (h.read_iff m a hm).mp ha
    exact ⟨heq ▸ (h.occurs a hoccurs).2.1, a, ha⟩
  accepted m a hm ha := by
    obtain ⟨heq, hoccurs⟩ := (h.read_iff m a hm).mp ha
    exact ⟨m, hm, Nat.le_refl m, heq ▸ (h.occurs a hoccurs).2.2⟩

theorem firstMatch_eq_some_iff_occurs (h : Reads accept t cursor P place Occurs) {a : α} :
    firstMatch accept cursor (t.drop cursor) = some a ↔
      Occurs a ∧ ∀ m, cursor ≤ m → P m → place a ≤ m := by
  rw [firstMatch_eq_some_iff_least h.accepts]
  constructor
  · intro hfound
    obtain ⟨m, hm, ha, -, hleast⟩ := hfound
    obtain ⟨heq, hoccurs⟩ := (h.read_iff m a hm).mp ha
    exact ⟨hoccurs, heq ▸ hleast⟩
  · intro hfound
    obtain ⟨hoccurs, hleast⟩ := hfound
    obtain ⟨hcursor, -, hplace⟩ := h.occurs a hoccurs
    exact ⟨place a, hcursor, (h.read_iff _ a hcursor).mpr ⟨rfl, hoccurs⟩, hplace, hleast⟩

end Reads

/-- A search that finds, from every cursor that `admits` holds of, the leftmost of the
places that `P` holds of, and goes on behind it. -/
structure FindsLeast {α : Type} (find : Nat → Option α) (place next : α → Nat)
    (admits P : Nat → Prop) : Prop where
  absent : ∀ cursor, admits cursor → find cursor = none → ∀ m, cursor ≤ m → ¬ P m
  found : ∀ cursor a, admits cursor → find cursor = some a →
    P (place a) ∧ ∀ m, cursor ≤ m → P m → place a ≤ m
  moves : ∀ cursor a, find cursor = some a →
    cursor ≤ place a ∧ place a < next a ∧ admits (next a)

section

variable {α : Type} {find : Nat → Option α} {next : α → Nat} {bound : Nat}
variable {progress : ∀ cursor a, find cursor = some a → cursor < next a ∧ cursor < bound}

/-- Finds that begin at the cursor or later lie one behind the other. -/
theorem pairwise_next_le {begins : α → Nat}
    (hbegins : ∀ cursor a, find cursor = some a → cursor ≤ begins a) (cursor : Nat) :
    (scanAll find next bound progress cursor).Pairwise fun a b => next a ≤ begins b := by
  induction hn : bound - cursor using Nat.strongRecOn generalizing cursor with
  | ind n ih =>
    rw [scanAll_eq]
    cases hf : find cursor with
    | none => exact List.Pairwise.nil
    | some a =>
      have hprogress := progress cursor a hf
      refine List.pairwise_cons.mpr ⟨fun b hb => ?_, ih (bound - next a) (by omega) (next a) rfl⟩
      obtain ⟨k, hk, hfind⟩ := exists_find_of_mem_scanAll hb
      exact Nat.le_trans hk (hbegins k b hfind)

/-- The cursors that the finds come from are all such that `admits` holds of them. -/
theorem FindsLeast.exists_find_of_mem {place : α → Nat} {admits P : Nat → Prop}
    (h : FindsLeast find place next admits P) {cursor : Nat} (hcursor : admits cursor) {a : α}
    (ha : a ∈ scanAll find next bound progress cursor) :
    ∃ k, cursor ≤ k ∧ admits k ∧ find k = some a := by
  induction hn : bound - cursor using Nat.strongRecOn generalizing cursor with
  | ind n ih =>
    rw [scanAll_eq] at ha
    cases hf : find cursor with
    | none =>
      rw [hf] at ha
      cases ha
    | some b =>
      rw [hf] at ha
      have hprogress := progress cursor b hf
      by_cases heq : a = b
      · exact ⟨cursor, Nat.le_refl cursor, hcursor, heq ▸ hf⟩
      · have hlater := (List.mem_cons.mp ha).resolve_left heq
        obtain ⟨k, hk, hadmits, hfind⟩ :=
          ih (bound - next b) (by omega) (h.moves cursor b hf).2.2 hlater rfl
        exact ⟨k, by omega, hadmits, hfind⟩

/-- The list of all finds has every place in it, except those that lie behind the place of
a find in the stretch that the find takes with it. -/
theorem FindsLeast.exists_mem_iff {place : α → Nat} {admits P : Nat → Prop}
    (h : FindsLeast find place next admits P) {cursor : Nat} (hcursor : admits cursor) (m : Nat) :
    (∃ a ∈ scanAll find next bound progress cursor, place a = m) ↔
      cursor ≤ m ∧ P m ∧ ∀ a ∈ scanAll find next bound progress cursor,
        ¬ (place a < m ∧ m < next a) := by
  induction hn : bound - cursor using Nat.strongRecOn generalizing cursor with
  | ind n ih =>
    rw [scanAll_eq]
    cases hf : find cursor with
    | none =>
      have hnone := h.absent cursor hcursor hf
      constructor
      · intro hmem
        obtain ⟨a, ha, -⟩ := hmem
        cases ha
      · intro hplace
        exact absurd hplace.2.1 (hnone m hplace.1)
    | some a =>
      obtain ⟨hPa, hleast⟩ := h.found cursor a hcursor hf
      obtain ⟨hplace, hnext, hadmits⟩ := h.moves cursor a hf
      have hprogress := progress cursor a hf
      have hlater := ih (bound - next a) (by omega) hadmits rfl
      have hbehind : ∀ b ∈ scanAll find next bound progress (next a), next a ≤ place b := by
        intro b hb
        obtain ⟨k, hk, hfind⟩ := exists_find_of_mem_scanAll hb
        have := (h.moves k b hfind).1
        omega
      simp only [List.mem_cons, exists_eq_or_imp, forall_eq_or_imp]
      rw [hlater]
      constructor
      · intro hmem
        rcases hmem with heq | ⟨hm, hP, hout⟩
        · subst heq
          refine ⟨hplace, hPa, by omega, fun b hb => ?_⟩
          have := hbehind b hb
          omega
        · exact ⟨by omega, hP, by omega, hout⟩
      · intro hmem
        obtain ⟨hm, hP, hout, houts⟩ := hmem
        have hle := hleast m hm hP
        by_cases heq : place a = m
        · exact .inl heq
        · exact .inr ⟨by omega, hP, houts⟩

end

end Text
end TemplateDirectives
