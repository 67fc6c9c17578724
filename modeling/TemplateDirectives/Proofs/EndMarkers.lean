/-
Which end markers end which blocks.

The end marker of a name is looked for as a text: the end word, the name, and no word
character behind it.  A colon and a backslash are no word characters although names hold
them, so the marker written for `a::b` also ends a block named `a`.
`ending_of_other_name` says that this is the only confusion of names: the marker of a
name ends the blocks of another one exactly when it is that name with a colon or a
backslash behind it.
-/
import TemplateDirectives.Proofs.Edits.Finds
import TemplateDirectives.Proofs.Markup.Scanning

namespace TemplateDirectives
namespace Directive

/-! ## Where a block is ended -/

/-- The offset of the marker that ends a block or makes it malformed. -/
def Block.Reading.ending? : Block.Reading → Option Nat
  | .closed b => some b.bodyStop
  | .malformed _ ending => some ending.start
  | .unterminated _ => none

theorem Block.exists_find_of_ending? {t : Text} {o : BlockOpening} {p : Nat}
    (h : (read t o).ending? = some p) :
    ∃ offset e, EndMarker.find? t o.call.name.written offset = some e ∧ e.start = p := by
  unfold read at h
  simp only at h
  split at h
  next => cases h
  next e he =>
    have hplace := EndMarker.start_of_find? he
    refine ⟨_, e, he, ?_⟩
    split at h
    next =>
      rw [Reading.ending?, Option.some.injEq, bodyStop] at h
      rw [← h]
      simp only [Text.length_slice]
      omega
    next => exact Option.some.inj h

/-! ## The marker of another name -/

namespace EndMarker

variable {t name rest : Text} {n m : Name} {k : Nat}

/-- The end marker of `m` is one for `n` exactly when `m` is read as `n`. -/
theorem closes_ending_eq (hn : n.IsFormed) (hm : m.IsFormed)
    (hrest : rest.head?.any Name.isNameChar = false) :
    closes n.written (Name.endWord ++ (m.written ++ rest)) = n.isReadAs m := by
  cases hread : n.isReadAs m with
  | false => exact closes_ending hn hm hread hrest
  | true =>
    have hword := Name.any_isWord_of_any_isNameChar hrest
    have hcloses : ∀ u, u.head?.any Text.isWord = false → m.written ++ rest = n.written ++ u →
        closes n.written (Name.endWord ++ (m.written ++ rest)) = true := by
      intro u hu hsplit
      have hafter : Text.after? (Name.endWord ++ n.written) (Name.endWord ++ (n.written ++ u)) =
          some u := by
        rw [Text.after?_eq_some, List.append_assoc]
      rw [hsplit]
      simp only [closes, hafter, hu, Bool.not_false]
    simp only [Name.isReadAs, Bool.or_eq_true, beq_iff_eq, List.isPrefixOf_iff_prefix] at hread
    rcases hread with (heq | ⟨s, hs⟩) | ⟨s, hs⟩
    · exact hcloses rest hword (by rw [heq])
    · exact hcloses (':' :: (s ++ rest)) rfl (by rw [← hs]; simp)
    · exact hcloses ('\\' :: (s ++ rest)) rfl (by rw [← hs]; simp)

/-- No marker for `name` begins in the end marker of a name that is not read as it. -/
theorem rejects_ending (wellFormed : Bool) (hm : m.IsFormed)
    (hc : closes name (Name.endWord ++ (m.written ++ rest)) = false)
    (hd : t.drop k = sign wellFormed ++ (Name.endWord ++ (m.written ++ rest))) :
    Text.Rejects (at? t name) t k (k + (sign wellFormed ++ (Name.endWord ++ m.written)).length) := by
  have hhead : (Name.endWord ++ (m.written ++ rest)).head? ≠ some '@' := by
    simp [Name.endWord]
  have hsign : Text.Rejects (at? t name) t k (k + (sign wellFormed).length) := by
    cases wellFormed with
    | true => exact Markup.rejects_marker hd (at?_marker hhead hc k)
    | false =>
      intro i hki hi
      have hik : i = k := by
        simp only [sign, Bool.false_eq_true, if_false, List.length_cons, List.length_nil] at hi
        omega
      rw [hik, hd]
      exact at?_single_eq_none hhead hc k
  have hword := Text.drop_of_drop hd
  rw [← List.append_assoc] at hword
  rw [List.length_append, ← Nat.add_assoc]
  exact hsign.trans
    (Text.Rejects.of_not_mem hword (Markup.at_not_mem_ending hm) at?_eq_none_of_head)

theorem at?_ending_isSome (wellFormed : Bool)
    (hc : closes name (Name.endWord ++ (m.written ++ rest)) = true) :
    (at? t name 0 (sign wellFormed ++ (Name.endWord ++ (m.written ++ rest)))).isSome = true := by
  cases wellFormed with
  | true =>
    show (if closes name (Name.endWord ++ (m.written ++ rest)) = true then _ else _ :
      Option EndMarker).isSome = true
    rw [if_pos hc]
    rfl
  | false =>
    show (if (closes name (Name.endWord ++ (m.written ++ rest)) && !(t.before? 0).any Text.isWord) =
      true then _ else _ : Option EndMarker).isSome = true
    rw [hc]
    rfl

theorem start_outside {a b offset : Nat} {e : EndMarker} (hr : Text.Rejects (at? t name) t a b)
    (h : find? t name offset = some e) : e.start < a ∨ b ≤ e.start := by
  obtain ⟨i, -, -, hi, -⟩ := Text.rejects_of_firstMatch h
  rw [(start_of_at? hi).1]
  refine Decidable.byContradiction fun hin => ?_
  rw [hr i (by omega) (by omega)] at hi
  cases hi

/-- The end marker of one name ends the blocks of another exactly when it is that name
with a colon or a backslash behind it.  Otherwise no block of the other name is closed by
it or made malformed, wherever it stands. -/
theorem ending_of_other_name (hn : Name.read? n.written = some n)
    (hm : Name.read? m.written = some m) (hne : n ≠ m)
    (hrest : rest.head?.any Name.isNameChar = false) (wellFormed : Bool) :
    ((∃ e, find? (sign wellFormed ++ (Name.endWord ++ (m.written ++ rest))) n.written 0 = some e ∧
        e.start < (sign wellFormed ++ (Name.endWord ++ m.written)).length) ↔
      (n.written ++ [':'] <+: m.written ∨ n.written ++ ['\\'] <+: m.written)) ∧
    (¬ (n.written ++ [':'] <+: m.written ∨ n.written ++ ['\\'] <+: m.written) →
      ∀ t k, t.drop k = sign wellFormed ++ (Name.endWord ++ (m.written ++ rest)) →
        ∀ o : BlockOpening, o.call.name = n → ∀ p, (Block.read t o).ending? = some p →
          p < k ∨ k + (sign wellFormed ++ (Name.endWord ++ m.written)).length ≤ p) := by
  have hnf := Name.read?_written_iff.mp hn
  have hmf := Name.read?_written_iff.mp hm
  have hwritten : m.written ≠ n.written := by
    intro heq
    rw [heq, hn] at hm
    exact hne (Option.some.inj hm)
  have hcloses := closes_ending_eq hnf hmf hrest
  have hreadAs : n.isReadAs m = true ↔
      (n.written ++ [':'] <+: m.written ∨ n.written ++ ['\\'] <+: m.written) := by
    simp only [Name.isReadAs, Bool.or_eq_true, beq_iff_eq, List.isPrefixOf_iff_prefix, hwritten,
      false_or]
  rw [← hreadAs]
  refine ⟨⟨?_, fun hread => ?_⟩, fun hread t k hd o ho p hp => ?_⟩
  · rintro ⟨e, hfind, hlt⟩
    refine Decidable.byContradiction fun hread => ?_
    rw [Bool.not_eq_true] at hread
    rw [hread] at hcloses
    have hr := rejects_ending (k := 0) wellFormed hmf hcloses rfl
    rcases start_outside hr hfind with hbefore | hbehind
    · exact absurd hbefore (Nat.not_lt_zero _)
    · omega
  · rw [hread] at hcloses
    obtain ⟨e, he⟩ := Option.isSome_iff_exists.mp (at?_ending_isSome
      (t := sign wellFormed ++ (Name.endWord ++ (m.written ++ rest))) wellFormed hcloses)
    have hpos : 0 < (sign wellFormed ++ (Name.endWord ++ m.written)).length := by
      simp only [Name.endWord, List.length_append, List.length_cons]
      omega
    refine ⟨e, ?_, ?_⟩
    · refine Text.firstMatch_eq_some_of_rejects (Text.Rejects.refl 0) (Nat.le_refl 0) he ?_
      simp only [Name.endWord, List.length_append, List.length_cons]
      omega
    · rw [(start_of_at? he).1]
      exact hpos
  · rw [Bool.not_eq_true] at hread
    rw [hread] at hcloses
    obtain ⟨offset, e, hfind, rfl⟩ := Block.exists_find_of_ending? hp
    rw [ho] at hfind
    exact start_outside (rejects_ending wellFormed hmf hcloses hd) hfind

/-- A qualified name that begins like another. -/
theorem ending_of_rows :
    Name.read? "App::row".toList = some ⟨some "App".toList, "row".toList⟩ ∧
      Name.read? "App::rows".toList = some ⟨some "App".toList, "rows".toList⟩ ∧
      ∀ o : BlockOpening, o.call.name = ⟨some "App".toList, "row".toList⟩ → ∀ p,
        (Block.read "@@App::row: x@@endApp::rows".toList o).ending? = some p → p < 13 ∨ 27 ≤ p := by
  have hn : Name.read? (Name.written ⟨some "App".toList, "row".toList⟩) =
      some ⟨some "App".toList, "row".toList⟩ := by decide +kernel
  have hm : Name.read? (Name.written ⟨some "App".toList, "rows".toList⟩) =
      some ⟨some "App".toList, "rows".toList⟩ := by decide +kernel
  have hrest : Option.any Name.isNameChar ([] : Text).head? = false := rfl
  have hrun := (ending_of_other_name hn hm (by decide) hrest true).2 (by decide +kernel)
    "@@App::row: x@@endApp::rows".toList 13 rfl
  exact ⟨hn, hm, hrun⟩

/-- The end marker of `a::b` ends a block named `a`. -/
theorem ending_of_qualified : ∃ n m : Name,
    Name.read? n.written = some n ∧ Name.read? m.written = some m ∧ n ≠ m ∧
      ∃ e, find? (callMarker ++ (Name.endWord ++ m.written)) n.written 0 = some e ∧ e.start = 0 :=
  ⟨⟨none, ['a']⟩, ⟨some ['a'], ['b']⟩, by decide, by decide, by decide, _, rfl, rfl⟩

end EndMarker
end Directive
end TemplateDirectives
