/-
Laws of edits that lie in a text one behind the other.

A repeated search gives such edits (`ordered_scanAll`), whatever they put in the place
of what was found.  From the order alone follows what becomes of the text: what no span
touches is copied (`applyFrom_kept`), and a character gets rarer by what every edit
takes away of it (`count_applyFrom_add_le`).
-/
import TemplateDirectives.Proofs.Edits.Finds

namespace TemplateDirectives

open Directive

theorem Text.slice_take (t : Text) {a b p : Nat} (h : b ≤ p) :
    Text.slice (t.take p) a b = t.slice a b := by
  rw [slice, List.take_take, Nat.min_eq_left h, slice]

namespace Edit

/-! ## Lists in order -/

namespace Ordered

variable {bound offset : Nat} {es : List Edit}

theorem weaken {offset' : Nat} (h : Ordered bound offset es) (ho : offset' ≤ offset) :
    Ordered bound offset' es := by
  cases es with
  | nil => trivial
  | cons e es => exact ⟨Nat.le_trans ho h.1, h.2⟩

theorem strengthen {offset' : Nat} (h : Ordered bound offset es)
    (hes : ∀ e ∈ es, offset' ≤ e.start) : Ordered bound offset' es := by
  cases es with
  | nil => trivial
  | cons e es => exact ⟨hes e List.mem_cons_self, h.2⟩

/-- The spans lie between the offset and the bound. -/
theorem within (h : Ordered bound offset es) {e : Edit} (he : e ∈ es) :
    offset ≤ e.start ∧ e.start ≤ e.stop ∧ e.stop ≤ bound := by
  induction es generalizing offset with
  | nil => cases he
  | cons d es ih =>
    obtain ⟨h1, h2, h3, hrest⟩ := h
    rcases List.mem_cons.mp he with rfl | he
    · exact ⟨h1, h2, h3⟩
    · obtain ⟨hstart, hspan⟩ := ih hrest he
      exact ⟨Nat.le_trans (Nat.le_trans h1 h2) hstart, hspan⟩

end Ordered

/-- The finds of a repeated search lie one behind the other, when each lies at the cursor
or later and the search goes on behind those that are kept. -/
theorem ordered_scanAll {α : Type} {find : Nat → Option α} {next : α → Nat} {bound : Nat}
    {progress : ∀ cursor a, find cursor = some a → cursor < next a ∧ cursor < bound}
    {span : α → Edit} {keep : α → Bool}
    (hfind : ∀ k a, find k = some a →
      k ≤ (span a).start ∧ (span a).start ≤ (span a).stop ∧ (span a).stop ≤ bound)
    (hnext : ∀ k a, find k = some a → keep a = true → next a = (span a).stop) (cursor : Nat) :
    Ordered bound cursor (((Text.scanAll find next bound progress cursor).filter keep).map span) := by
  induction hn : bound - cursor using Nat.strongRecOn generalizing cursor with
  | ind n ih =>
    rw [Text.scanAll_eq]
    cases hf : find cursor with
    | none => trivial
    | some a =>
      have hprogress := progress cursor a hf
      have hrest := ih (bound - next a) (by omega) (next a) rfl
      obtain ⟨h1, h2, h3⟩ := hfind cursor a hf
      cases hk : keep a with
      | false =>
        simp only [List.filter_cons, hk, Bool.false_eq_true, if_false]
        exact hrest.weaken (Nat.le_of_lt hprogress.1)
      | true =>
        simp only [List.filter_cons, hk, if_true, List.map_cons]
        refine ⟨h1, h2, h3, ?_⟩
        rw [← hnext cursor a hf hk]
        exact hrest

/-- Edits made of spans one by one are in order like the spans, also when some spans get
no edit. -/
theorem ordered_of_mapM {α β : Type} {span : α → Edit} {f : α → Except CompileError β}
    {edit? : β → Option Edit}
    (hf : ∀ a b, f a = .ok b → ∀ e, edit? b = some e →
      e.start = (span a).start ∧ e.stop = (span a).stop)
    {bound offset : Nat} {l : List α} {bs : List β} (ho : Ordered bound offset (l.map span))
    (h : l.mapM f = .ok bs) : Ordered bound offset (bs.filterMap edit?) := by
  induction l generalizing offset bs with
  | nil =>
    cases h
    trivial
  | cons a l ih =>
    rw [List.mapM_cons] at h
    obtain ⟨b, hb, h⟩ := CompileError.ok_of_bind h
    obtain ⟨bs', hbs, h⟩ := CompileError.ok_of_bind h
    cases h
    obtain ⟨h1, h2, h3, hrest⟩ := ho
    have hmore := ih hrest hbs
    cases he : edit? b with
    | none =>
      rw [List.filterMap_cons_none he]
      exact hmore.weaken (Nat.le_trans h1 h2)
    | some e =>
      obtain ⟨hstart, hstop⟩ := hf a b hb e he
      rw [List.filterMap_cons_some he]
      refine ⟨hstart ▸ h1, hstart ▸ hstop ▸ h2, hstop ▸ h3, ?_⟩
      rw [hstop]
      exact hmore

/-! ## What edits make of a text -/

variable {t : Text} {offset p q : Nat} {es : List Edit}

/-- The text up to the first span is copied, and behind the span the later edits go on. -/
theorem applyFrom_cons {e : Edit} (h : offset ≤ e.stop) (t : Text) (es : List Edit) :
    applyFrom offset (t.drop offset) (e :: es) =
      t.slice offset e.start ++ e.replacement ++ applyFrom e.stop (t.drop e.stop) es := by
  rw [applyFrom, ← List.drop_take, List.drop_drop, Nat.add_sub_cancel' h, Text.slice]

/-- Up to the first edit a text is copied. -/
theorem applyFrom_of_le (hq : offset ≤ q) (ho : Ordered t.length q es) :
    applyFrom offset (t.drop offset) es = t.slice offset q ++ applyFrom q (t.drop q) es := by
  cases es with
  | nil => exact Text.drop_of_slice rfl hq
  | cons e es =>
    obtain ⟨hqe, hstop, -, -⟩ := ho
    rw [applyFrom_cons (by omega), applyFrom_cons (by omega), ← Text.slice_append_slice t hq hqe]
    simp only [List.append_assoc]

/-- A stretch that no span touches is copied, between what becomes of the text before it
and what becomes of the text behind it. -/
theorem applyFrom_kept (ho : Ordered t.length offset es) (hp : offset ≤ p) (hpq : p < q)
    (hkept : ∀ e ∈ es, e.stop ≤ p ∨ q ≤ e.start) :
    applyFrom offset (t.drop offset) es =
      applyFrom offset ((t.take p).drop offset) (es.filter fun e => e.stop ≤ p) ++
        (t.slice p q ++ applyFrom q (t.drop q) (es.filter fun e => q ≤ e.start)) := by
  induction es generalizing offset with
  | nil =>
    simp only [List.filter_nil, applyFrom]
    rw [← Text.drop_of_slice rfl (Nat.le_of_lt hpq), Text.drop_of_slice rfl hp]
    rfl
  | cons e es ih =>
    obtain ⟨h1, h2, h3, hrest⟩ := ho
    rcases hkept e List.mem_cons_self with hstop | hstart
    · -- the edit lies before the stretch
      have hlater : ¬ q ≤ e.start := by omega
      have hrun := ih hrest hstop fun d hd => hkept d (List.mem_cons_of_mem e hd)
      simp only [List.filter_cons, hstop, hlater, decide_true, decide_false, if_true,
        Bool.false_eq_true, if_false]
      rw [applyFrom_cons (Nat.le_trans h1 h2), applyFrom_cons (Nat.le_trans h1 h2), hrun,
        Text.slice_take t (Nat.le_trans h2 hstop)]
      simp only [List.append_assoc]
    · -- the edit lies behind the stretch, and so do all that follow
      have hlater : Ordered t.length q (e :: es) := ⟨hstart, h2, h3, hrest⟩
      have hnone : (e :: es).filter (fun d => decide (d.stop ≤ p)) = [] := by
        rw [List.filter_eq_nil_iff]
        intro d hd
        have := hlater.within hd
        simp only [decide_eq_true_eq]
        omega
      have hevery : (e :: es).filter (fun d => decide (q ≤ d.start)) = e :: es := by
        rw [List.filter_eq_self]
        intro d hd
        exact decide_eq_true (hlater.within hd).1
      rw [hnone, hevery, applyFrom_of_le (by omega : offset ≤ q) hlater,
        ← Text.slice_append_slice t hp (Nat.le_of_lt hpq), List.append_assoc]
      rfl

/-- When every replacement holds a character at least `k` times less often than its span
does, every edit takes `k` of them away. -/
theorem count_applyFrom_add_le (d : Char) (k : Nat) (ho : Ordered t.length offset es)
    (hes : ∀ e ∈ es, e.replacement.count d + k ≤ (t.slice e.start e.stop).count d) :
    (applyFrom offset (t.drop offset) es).count d + k * es.length ≤ (t.drop offset).count d := by
  induction es generalizing offset with
  | nil => exact Nat.le_refl _
  | cons e es ih =>
    obtain ⟨h1, h2, h3, hrest⟩ := ho
    have hedit := hes e List.mem_cons_self
    have hrun := ih hrest fun d hd => hes d (List.mem_cons_of_mem e hd)
    have hsplit : t.drop offset = t.slice offset e.start ++ (t.slice e.start e.stop ++
        t.drop e.stop) := by
      rw [← Text.drop_of_slice rfl h2]
      exact Text.drop_of_slice rfl h1
    have hcount := congrArg (List.count d) hsplit
    simp only [List.count_append] at hcount
    rw [applyFrom_cons (Nat.le_trans h1 h2)]
    simp only [List.count_append, List.length_cons, Nat.mul_add, Nat.mul_one]
    omega

end Edit
end TemplateDirectives
