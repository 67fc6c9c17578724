/-
Handlers by their written names.

A text is read as a handler's name by cutting it at its last separator.  The methods of directives
have no colon, so the last separator of a directive's name is the one behind its qualifier, and the
name as it stands in the template leads to the same handler as its parts do.  What calls and
messages print for this handler leads back to it, whatever the default namespace is then.  Only a
handler whose namespace is empty is not found again (`ofText_written_of_read?`).
-/
import TemplateDirectives.Proofs.Cuts
import TemplateDirectives.Proofs.Edits.Finds

namespace TemplateDirectives

open Directive

namespace HandlerName

open Name (separator)

variable {d space m : Text} {n : Name} {h : HandlerName}

/-- What calls and what messages print for a handler leads back to it, and to the name of its
compile-time variant, under any default namespace. -/
structure ReadsBack (h : HandlerName) : Prop where
  written : ∀ d, ofText d h.written = h
  compilerWritten : ∀ d, ofText d h.compilerWritten = ⟨h.space, h.compilerMethod⟩

/-! ## Reading names whose methods have no colon -/

theorem ofText_separator_cases (hm : ':' ∉ m) :
    ofText d (space ++ separator ++ m) =
      if space = [] then ⟨d, Text.dropLeading separator (separator ++ m)⟩ else ⟨space, m⟩ := by
  have hcut : Text.cutAtLast? separator (space ++ separator ++ m) = some (space, m) := by
    rw [List.append_assoc]
    exact Text.cutAtLast?_append_of_not_mem hm space [':']
  rw [ofText, hcut]
  cases space with
  | nil => rfl
  | cons c space => rfl

theorem not_separator_isPrefix (hm : ':' ∉ m) : ¬ separator <+: m := fun h =>
  hm (h.subset List.mem_cons_self)

/-- A namespace in front of the last separator is taken. -/
theorem ofText_qualified (hspace : space ≠ []) (hm : ':' ∉ m) :
    ofText d (space ++ separator ++ m) = ⟨space, m⟩ := by
  rw [ofText_separator_cases hm, if_neg hspace]

/-- With nothing in front of its only separator a text names a method alone. -/
theorem ofText_separator (hm : ':' ∉ m) : ofText d (separator ++ m) = ⟨d, m⟩ := by
  have hcases : ofText d ([] ++ separator ++ m) = _ := ofText_separator_cases hm
  have hseparator : separator ≠ [] := List.cons_ne_nil _ _
  rw [List.nil_append, if_pos rfl, Text.dropLeading_append hseparator,
    Text.dropLeading_of_not_isPrefix (not_separator_isPrefix hm)] at hcases
  exact hcases

theorem ofText_plain (hm : ':' ∉ m) : ofText d m = ⟨d, m⟩ := by
  have hcut : Text.cutAtLast? separator m = none :=
    Text.cutAtLast?_eq_none_iff.mpr fun h => hm (h.subset List.mem_cons_self)
  rw [ofText, hcut, Text.dropLeading_of_not_isPrefix (not_separator_isPrefix hm)]

/-- Without a namespace the default one is read into the name that is printed. -/
theorem readsBack_iff (hm : ':' ∉ h.method) : h.ReadsBack ↔ h.space ≠ [] := by
  have hcompiler : ':' ∉ h.compilerMethod := by
    rw [compilerMethod, List.mem_append, not_or]
    exact ⟨hm, by decide⟩
  constructor
  · intro hread hspace
    have hother := congrArg HandlerName.space (hread.written [':'])
    rw [written, hspace, List.nil_append, ofText_separator hm] at hother
    cases hother
  · intro hspace
    exact ⟨fun d => ofText_qualified hspace hm, fun d => ofText_qualified hspace hcompiler⟩

/-! ## Names of directives -/

theorem colon_not_mem_method (hn : n.IsFormed) : ':' ∉ n.method := fun h => by
  cases hn.method ':' h

theorem ofText_written (hn : n.IsFormed) (d : Text) : ofText d n.written = ofDirective d n := by
  have hmethod := colon_not_mem_method hn
  obtain ⟨qualifier, method⟩ := n
  cases qualifier with
  | none => exact ofText_plain hmethod
  | some q => exact ofText_qualified (hn.qualifier q rfl).1 hmethod

theorem space_ofDirective_ne_nil_iff (hn : n.IsFormed) :
    (ofDirective d n).space ≠ [] ↔ (n.qualifier = none → d ≠ []) := by
  obtain ⟨qualifier, method⟩ := n
  cases qualifier with
  | none => exact ⟨fun h _ => h, fun h => h rfl⟩
  | some q => exact iff_of_true (hn.qualifier q rfl).1 fun h => by cases h

/-- For every text and offset where a directive's name is read, and every default namespace: the
name as it stands there is read as the handler that its parts stand for, and what is printed for
this handler leads back to it, unless both the directive and the default leave out the namespace. -/
theorem ofText_written_of_read? {t : Text} {k : Nat} (hread : Name.read? (t.drop k) = some n)
    (d : Text) :
    t.slice k (k + n.written.length) = n.written ∧
      ofText d n.written = ofDirective d n ∧
      ((ofDirective d n).ReadsBack ↔ (n.qualifier = none → d ≠ [])) := by
  have hn := Name.isFormed_of_read? hread
  obtain ⟨rest, hrest⟩ := Name.written_isPrefix_of_read? hread
  refine ⟨Text.slice_of_drop hrest.symm, ofText_written hn d, ?_⟩
  rw [readsBack_iff (colon_not_mem_method hn), space_ofDirective_ne_nil_iff hn]

/-- Of a chain of names only the first two make a name, and the third is left behind it. -/
theorem ofText_written_of_chainedName :
    Name.read? ("@@a::b::c".toList.drop 2) = some ⟨some ['a'], ['b']⟩ ∧
      Text.slice "@@a::b::c".toList 2 6 = "a::b".toList ∧
      ofText "Directives".toList "a::b".toList = ⟨['a'], ['b']⟩ ∧
      ReadsBack ⟨['a'], ['b']⟩ := by
  have hread : Name.read? ("@@a::b::c".toList.drop 2) = some ⟨some ['a'], ['b']⟩ := by decide
  obtain ⟨hslice, htext, hback⟩ := ofText_written_of_read? hread "Directives".toList
  exact ⟨hread, hslice, htext, hback.mpr fun h => by cases h⟩

/-- A separator without a method behind it is no part of the name. -/
example : Name.read? "Forms::(".toList = some ⟨none, "Forms".toList⟩ ∧
    ofText ['D'] "Forms".toList = ⟨['D'], "Forms".toList⟩ :=
  ⟨by decide, ofText_plain (by decide)⟩

end HandlerName
end TemplateDirectives
