/-
Lists of steps that may be refused.

A rule makes its edits one after another and is refused by the first one that it cannot
make.  `mapM_eq_ok_iff` and `mapM_eq_error_iff` say when such a list gives its answers and
when it is refused, and what is said of a single step is read off these two.
-/
import Mathlib.Data.List.Forall2
import TemplateDirectives.Compiler.Error

namespace TemplateDirectives

/-- What stands in the one list is related to something in the other. -/
theorem exists_of_mem_forall₂ {α β : Type} {r : α → β → Prop} {l : List α} {bs : List β}
    (h : List.Forall₂ r l bs) {a : α} (ha : a ∈ l) : ∃ b ∈ bs, r a b := by
  obtain ⟨⟨i, hi⟩, rfl⟩ := List.mem_iff_get.mp ha
  have hb : i < bs.length := h.length_eq ▸ hi
  exact ⟨bs.get ⟨i, hb⟩, List.get_mem bs ⟨i, hb⟩, h.get hi hb⟩

namespace CompileError

variable {α β : Type} {l : List α} {g : α → Except CompileError β} {a : α} {b : β} {bs : List β}
  {e : CompileError}

/-- A list of steps gives the answers of its steps. -/
theorem mapM_eq_ok_iff : l.mapM g = .ok bs ↔ List.Forall₂ (fun a b => g a = .ok b) l bs := by
  induction l generalizing bs with
  | nil =>
    rw [List.forall₂_nil_left_iff]
    constructor
    · intro h
      cases h
      rfl
    · intro h
      rw [h]
      rfl
  | cons a rest ih =>
    rw [List.mapM_cons, List.forall₂_cons_left_iff]
    constructor
    · intro h
      obtain ⟨b, hb, h⟩ := ok_of_bind h
      obtain ⟨bs', hbs, h⟩ := ok_of_bind h
      cases h
      exact ⟨b, bs', hb, ih.mp hbs, rfl⟩
    · intro h
      obtain ⟨b, bs', hb, hbs, h⟩ := h
      rw [hb, ih.mpr hbs, h]
      rfl

/-- A list of steps is refused by the first of them that refuses. -/
theorem mapM_eq_error_iff : l.mapM g = .error e ↔ ∃ before a after, l = before ++ a :: after ∧
    g a = .error e ∧ ∀ b ∈ before, ∀ e', g b ≠ .error e' := by
  induction l with
  | nil =>
    refine iff_of_false (fun h => by cases h) fun ⟨before, a, after, h, _⟩ => ?_
    exact List.append_ne_nil_of_right_ne_nil before (List.cons_ne_nil a after) h.symm
  | cons a rest ih =>
    rw [List.mapM_cons]
    cases ha : g a with
    | error e' =>
      constructor
      · intro h
        cases h
        exact ⟨[], a, rest, rfl, ha, fun b hb => by cases hb⟩
      · rintro ⟨before, a', after, hl, ha', hbefore⟩
        cases before with
        | nil =>
          cases hl
          rw [ha'] at ha
          cases ha
          rfl
        | cons b before =>
          cases hl
          exact absurd ha (hbefore a List.mem_cons_self e')
    | ok b =>
      show (rest.mapM g >>= fun bs => .ok (b :: bs)) = .error e ↔ _
      constructor
      · intro h
        rcases error_of_bind h with hrest | ⟨bs, -, h⟩
        · obtain ⟨before, a', after, rfl, ha', hbefore⟩ := ih.mp hrest
          refine ⟨a :: before, a', after, rfl, ha', fun d hd e' => ?_⟩
          rcases List.mem_cons.mp hd with rfl | hd
          · rw [ha]
            exact fun h => by cases h
          · exact hbefore d hd e'
        · cases h
      · rintro ⟨before, a', after, hl, ha', hbefore⟩
        cases before with
        | nil =>
          cases hl
          rw [ha] at ha'
          cases ha'
        | cons d before =>
          obtain ⟨rfl, hrest⟩ := List.cons.inj hl
          rw [ih.mpr ⟨before, a', after, hrest, ha', fun d hd =>
            hbefore d (List.mem_cons_of_mem _ hd)⟩]
          rfl

theorem length_of_mapM (h : l.mapM g = .ok bs) : bs.length = l.length :=
  (mapM_eq_ok_iff.mp h).length_eq.symm

/-- Every step of a list that gives answers has given one of them. -/
theorem exists_answer_of_mapM (h : l.mapM g = .ok bs) (ha : a ∈ l) : ∃ b ∈ bs, g a = .ok b :=
  exists_of_mem_forall₂ (mapM_eq_ok_iff.mp h) ha

/-- Every answer of a list is that of one of its steps. -/
theorem exists_of_mem_mapM (h : l.mapM g = .ok bs) (hb : b ∈ bs) : ∃ a ∈ l, g a = .ok b :=
  exists_of_mem_forall₂ (List.Forall₂.flip (mapM_eq_ok_iff.mp h)) hb

/-- A list of steps is refused by one of them. -/
theorem exists_of_mapM_eq_error (h : l.mapM g = .error e) : ∃ a ∈ l, g a = .error e := by
  obtain ⟨before, a, after, rfl, ha, -⟩ := mapM_eq_error_iff.mp h
  exact ⟨a, List.mem_append_right before List.mem_cons_self, ha⟩

end CompileError
end TemplateDirectives
