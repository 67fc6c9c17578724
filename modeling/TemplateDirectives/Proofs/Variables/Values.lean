/-
Values made of text and references.

A well-formed value is literal text without dollar signs, and references to variables with
or without a default (`Expansion.Part`).  In such a value the check and the expander read
the same references, those that were written.  So a value is refused exactly when a
reference without default lacks its variable, and else each reference gives way to the
variable's value or to the default, which are not read again
(`expandField_written`).
-/
import TemplateDirectives.Proofs.Variables.Required

namespace TemplateDirectives
namespace Expansion

/-- A part of a value. -/
inductive Part where
  | literal (s : Text)
  | reference (name : Text) (fallback : Option Text)
  deriving DecidableEq

namespace Part

/-- What the braces of a reference enclose. -/
def inner (name : Text) (fallback : Option Text) : Text :=
  name ++ (fallback.map (defaultMark ++ ·)).getD []

def written : Part → Text
  | literal s => s
  | reference name fallback => opening ++ (inner name fallback ++ closing)

/-- Literal text has no dollar sign.  A name is made of word characters, as identifiers are,
and a default has neither a dollar sign nor a closing brace. -/
def WellFormed : Part → Prop
  | literal s => '$' ∉ s
  | reference name fallback => name ≠ [] ∧ name.all Text.isWord = true ∧
      ∀ d ∈ fallback, '$' ∉ d ∧ '\x7d' ∉ d

instance : DecidablePred WellFormed
  | literal s => inferInstanceAs (Decidable ('$' ∉ s))
  | reference name fallback => inferInstanceAs (Decidable (name ≠ [] ∧
      name.all Text.isWord = true ∧ ∀ d ∈ fallback, '$' ∉ d ∧ '\x7d' ∉ d))

/-- What a part stands for, when a reference has a variable that is set or a default. -/
def value (env : Environment) : Part → Text
  | literal s => s
  | reference name fallback => (env name).getD (fallback.getD [])

/-- The variable that a part cannot do without. -/
def needed? : Part → Option Text
  | reference name none => some name
  | _ => none

/-- What the expander reads where the part is written. -/
def pieces : Part → List Piece
  | literal s => s.map .char
  | reference name fallback => [.reference (inner name fallback)]

end Part

/-- The parts one behind the other. -/
def written (parts : List Part) : Text := parts.flatMap Part.written

variable {env : Environment} {s name : Text} {fallback : Option Text} {p : Part} {parts : List Part}

/-! ## Reading what was written -/

theorem pieces_literal (hs : '$' ∉ s) (t : Text) :
    pieces (s ++ t) = s.map .char ++ pieces t := by
  induction s with
  | nil => rfl
  | cons c s ih =>
    rw [List.mem_cons, not_or] at hs
    rw [List.cons_append, pieces_char (Ne.symm hs.1), ih hs.2]
    rfl

theorem not_mem_of_isWord {c : Char} (hname : name.all Text.isWord = true)
    (hc : Text.isWord c = false) : c ∉ name := by
  intro hmem
  rw [List.all_eq_true.mp hname c hmem] at hc
  cases hc

theorem not_mem_inner {c : Char} (h : (Part.reference name fallback).WellFormed)
    (hc : c = '$' ∨ c = '\x7d') : c ∉ Part.inner name fallback := by
  obtain ⟨-, hname, hfallback⟩ := h
  have hword : Text.isWord c = false := by
    rcases hc with rfl | rfl <;> decide
  cases fallback with
  | none =>
    simpa [Part.inner] using not_mem_of_isWord hname hword
  | some d =>
    obtain ⟨hdollar, hbrace⟩ := hfallback d rfl
    rcases hc with rfl | rfl <;>
      simp [Part.inner, defaultMark, not_mem_of_isWord hname hword, hdollar, hbrace]

theorem pieces_part (h : p.WellFormed) (t : Text) :
    pieces (p.written ++ t) = p.pieces ++ pieces t := by
  cases p with
  | literal s => exact pieces_literal h t
  | reference name fallback =>
    have hcut : Text.cutAt? closing (Part.inner name fallback ++ '\x7d' :: t) =
        some (Part.inner name fallback, t) :=
      Text.cutAt?_singleton_iff.mpr ⟨rfl, not_mem_inner h (.inr rfl)⟩
    simp only [Part.written, List.append_assoc, closing, List.singleton_append]
    exact pieces_reference hcut

theorem pieces_written (h : ∀ p ∈ parts, p.WellFormed) :
    pieces (written parts) = parts.flatMap Part.pieces := by
  induction parts with
  | nil => rw [written, List.flatMap_nil, pieces]; rfl
  | cons p parts ih =>
    rw [written, List.flatMap_cons, List.flatMap_cons, pieces_part (h p List.mem_cons_self)]
    exact congrArg _ (ih fun q hq => h q (List.mem_cons_of_mem _ hq))

/-- What the expander reads in a well-formed value: characters that are no dollar signs, and the
references. -/
theorem cases_of_mem_pieces (h : ∀ p ∈ parts, p.WellFormed) {q : Piece}
    (hq : q ∈ pieces (written parts)) : (∃ c, q = .char c) ∨
      ∃ name fallback, .reference name fallback ∈ parts ∧
        q = .reference (Part.inner name fallback) := by
  rw [pieces_written h] at hq
  obtain ⟨p, hp, hq⟩ := List.mem_flatMap.mp hq
  cases p with
  | literal s =>
    obtain ⟨c, -, rfl⟩ := List.mem_map.mp hq
    exact .inl ⟨c, rfl⟩
  | reference name fallback => exact .inr ⟨name, fallback, hp, List.mem_singleton.mp hq⟩

theorem dollars_not_mem_pieces (h : ∀ p ∈ parts, p.WellFormed) :
    .dollars ∉ pieces (written parts) := by
  intro hdollars
  rcases cases_of_mem_pieces h hdollars with ⟨c, hc⟩ | ⟨_, _, -, hreference⟩
  · cases hc
  · cases hreference

theorem bare_not_mem_pieces (h : ∀ p ∈ parts, p.WellFormed) (name : Text) :
    .bare name ∉ pieces (written parts) := by
  intro hbare
  rcases cases_of_mem_pieces h hbare with ⟨c, hc⟩ | ⟨_, _, -, hreference⟩
  · cases hc
  · cases hreference

theorem unnested_written (h : ∀ p ∈ parts, p.WellFormed) : Unnested (pieces (written parts)) where
  reference inner hinner hopening := by
    rcases cases_of_mem_pieces h hinner with ⟨c, hc⟩ | ⟨name, fallback, hmem, hreference⟩
    · cases hc
    · cases hreference
      exact not_mem_inner (h _ hmem) (.inl rfl) (hopening.subset List.mem_cons_self)
  dollars hpart := dollars_not_mem_pieces h (hpart.subset List.mem_cons_self)

/-! ## Names and values -/

theorem colon_not_mem (h : (Part.reference name fallback).WellFormed) : ':' ∉ name :=
  not_mem_of_isWord h.2.1 (by decide)

theorem needed?_inner (h : (Part.reference name fallback).WellFormed) :
    (Piece.reference (Part.inner name fallback)).needed? = (Part.reference name fallback).needed? := by
  cases fallback with
  | none =>
    have hmark : ¬ defaultMark <:+: name := fun hmark =>
      colon_not_mem h (hmark.subset List.mem_cons_self)
    simp [Piece.needed?, Part.needed?, Part.inner, hmark]
  | some d =>
    have hmark : defaultMark <:+: name ++ (defaultMark ++ d) := ⟨name, d, List.append_assoc ..⟩
    simp [Piece.needed?, Part.needed?, Part.inner, hmark]

/-- The check asks for the variables that the references without default name. -/
theorem requiredNames_written (h : ∀ p ∈ parts, p.WellFormed) :
    requiredNames (written parts) = parts.filterMap Part.needed? := by
  rw [requiredNames_eq_neededNames (unnested_written h), neededNames, pieces_written h,
    List.filterMap_flatMap, List.filterMap_eq_flatMap_toList]
  refine List.flatMap_congr fun p hp => ?_
  cases p with
  | literal s =>
    rw [Part.pieces, List.filterMap_map]
    exact List.filterMap_eq_nil_iff.mpr fun c _ => rfl
  | reference name fallback =>
    rw [Part.pieces, List.filterMap_eq_flatMap_toList, List.flatMap_singleton,
      needed?_inner (h _ hp)]

theorem reference_inner (h : (Part.reference name fallback).WellFormed)
    (hset : ∀ n ∈ (Part.reference name fallback).needed?, (env n).isSome = true) :
    reference env (Part.inner name fallback) = (Part.reference name fallback).value env := by
  cases fallback with
  | none =>
    have hcut : Text.cutAt? defaultMark name = none := Text.cutAt?_eq_none_iff.mpr fun hmark =>
      colon_not_mem h (hmark.subset List.mem_cons_self)
    obtain ⟨value, hvalue⟩ := Option.isSome_iff_exists.mp (hset name rfl)
    simp [Part.inner, Part.value, reference, hcut, hvalue]
  | some d =>
    have hcut : Text.cutAt? defaultMark (Part.inner name (some d)) = some (name, d) :=
      Text.cutAt?_append_of_not_mem (colon_not_mem h) ['-'] d
    obtain ⟨c, rest, rfl⟩ := List.exists_cons_of_ne_nil h.1
    rw [reference, hcut]
    rfl

theorem flatMap_expanded_written (h : ∀ p ∈ parts, p.WellFormed)
    (hset : ∀ p ∈ parts, ∀ n ∈ p.needed?, (env n).isSome = true) :
    (pieces (written parts)).flatMap (Piece.expanded env) = parts.flatMap (Part.value env) := by
  rw [pieces_written h, List.flatMap_assoc]
  refine List.flatMap_congr fun p hp => ?_
  cases p with
  | literal s => simp [Part.pieces, Part.value, List.flatMap_map, Piece.expanded]
  | reference name fallback =>
    rw [Part.pieces, List.flatMap_singleton, Piece.expanded, reference_inner (h _ hp) (hset _ hp)]

theorem flatMap_expanded_of_not_isInfix (h : ∀ p ∈ parts, p.WellFormed)
    (hopening : ¬ opening <:+: written parts) :
    (pieces (written parts)).flatMap (Piece.expanded env) = written parts := by
  rw [flatMap_expanded_eq_substituted (dollars_not_mem_pieces h)
      fun name hname => absurd hname (bare_not_mem_pieces h name),
    flatMap_substituted_of_not_isInfix env hopening]

/-- The first reference without default whose variable is not set. -/
def FirstLacking (env : Environment) (parts : List Part) (name : Text) : Prop :=
  ∃ before after, parts = before ++ .reference name none :: after ∧ env name = none ∧
    ∀ n, .reference n none ∈ before → env n ≠ none

theorem needed?_eq_some_iff : p.needed? = some name ↔ p = .reference name none := by
  rcases p with s | ⟨n, _ | d⟩ <;> simp [Part.needed?]

theorem find?_filterMap_needed?_iff :
    (parts.filterMap Part.needed?).find? (fun n => (env n).isNone) = some name ↔
      FirstLacking env parts name := by
  rw [List.find?_filterMap, Option.bind_eq_some_iff]
  constructor
  · rintro ⟨p, hfind, hname⟩
    rw [needed?_eq_some_iff] at hname
    obtain ⟨hnone, before, after, hparts, hbefore⟩ := List.find?_eq_some_iff_append.mp hfind
    subst hname
    refine ⟨before, after, hparts, by simpa [Part.needed?] using hnone, fun n hn => ?_⟩
    simpa [Part.needed?, Option.isSome_iff_ne_none] using hbefore _ hn
  · rintro ⟨before, after, hparts, hnone, hbefore⟩
    refine ⟨.reference name none, List.find?_eq_some_iff_append.mpr
      ⟨by simp [Part.needed?, hnone], before, after, hparts, fun p hp => ?_⟩, rfl⟩
    cases hneeded : p.needed? with
    | none => rfl
    | some n =>
      rw [needed?_eq_some_iff] at hneeded
      subst hneeded
      simpa [Option.isSome_iff_ne_none] using hbefore n hp

/-- A reference without default whose variable is not set makes one the first. -/
theorem exists_firstLacking_iff : (∃ name, FirstLacking env parts name) ↔
    ∃ name, .reference name none ∈ parts ∧ env name = none := by
  simp only [← find?_filterMap_needed?_iff, ← Option.isSome_iff_exists, List.find?_isSome,
    List.mem_filterMap, needed?_eq_some_iff, Option.isNone_iff_eq_none]
  simp only [exists_eq_right]

theorem written_reference (name : Text) : String.ofList (Part.reference name none).written =
    "$\x7b" ++ String.ofList name ++ "\x7d" := by
  show String.ofList (opening ++ (name ++ [] ++ closing)) = _
  rw [List.append_nil, String.ofList_append, String.ofList_append, String.append_assoc]
  rfl

/-- The message names the field and shows the reference. -/
theorem message_unsetVariable (field : String) (name : Text) :
    (ConfigError.unsetVariable field name).message = "Environment variable error in " ++ field ++
      ": " ++ String.ofList (Part.reference name none).written ++ " not set" := by
  have hmessage : (ConfigError.unsetVariable field name).message =
      "Environment variable error in " ++ field ++ ": $\x7b" ++ String.ofList name ++
        "\x7d not set" := rfl
  have hbefore : ": $\x7b" = ": " ++ "$\x7b" := by decide +kernel
  have hafter : "\x7d not set" = "\x7d" ++ " not set" := by decide +kernel
  rw [hmessage, hbefore, hafter, written_reference]
  simp only [String.append_assoc]

/-- A well-formed value is refused exactly when a reference without default has a variable
that is not set, and then for the first such reference, with the field and the reference in
the message.  Otherwise every reference has given way to the variable's value or to the
default, as they are. -/
theorem expandField_written (env : Environment) (field : String)
    (h : ∀ p ∈ parts, p.WellFormed) :
    ((∃ e, Config.expandField env field (some (written parts)) = .error e) ↔
      ∃ name, .reference name none ∈ parts ∧ env name = none) ∧
    (∀ name, FirstLacking env parts name →
      ∃ e, Config.expandField env field (some (written parts)) = .error e ∧
        e = .unsetVariable field name ∧
        e.message = "Environment variable error in " ++ field ++ ": " ++
          String.ofList (Part.reference name none).written ++ " not set") ∧
    ((∀ name, .reference name none ∈ parts → env name ≠ none) →
      Config.expandField env field (some (written parts)) =
        .ok (some (parts.flatMap (Part.value env)))) := by
  have hexpand : ∀ name, expand env (written parts) = .error name ↔ FirstLacking env parts name := by
    intro name
    rw [expand_eq_error_iff, requiredNames_written h, find?_filterMap_needed?_iff]
  refine ⟨?_, ?_, ?_⟩
  · simp only [← exists_firstLacking_iff, ← hexpand, expandField_eq_error_iff]
    constructor
    · rintro ⟨e, name, -, hname⟩
      exact ⟨name, hname⟩
    · rintro ⟨name, hname⟩
      exact ⟨_, name, rfl, hname⟩
  · intro name hname
    exact ⟨_, expandField_eq_error_iff.mpr ⟨name, rfl, (hexpand name).mpr hname⟩, rfl,
      message_unsetVariable field name⟩
  · intro hset
    have hneeded : ∀ p ∈ parts, ∀ n ∈ p.needed?, (env n).isSome = true := by
      intro p hp n hn
      rw [Option.mem_def, needed?_eq_some_iff] at hn
      subst hn
      exact Option.isSome_iff_ne_none.mpr (hset n hp)
    refine expandField_eq_some_iff.mpr ⟨?_, ?_⟩
    · rw [requiredNames_written h]
      intro n hn
      obtain ⟨p, hp, hpn⟩ := List.mem_filterMap.mp hn
      exact hneeded p hp n hpn
    · rw [← flatMap_expanded_written h hneeded]
      split
      next => rfl
      next hopening => exact flatMap_expanded_of_not_isInfix h hopening

/-- A variable whose value looks like a reference, and a default with the mark in it. -/
def pathParts : List Part :=
  [.literal "a/".toList, .reference ['A'] none, .literal "\x7d/".toList,
    .reference ['B'] (some "x:-y".toList), .reference ['C'] none]

def pathEnvironment : Environment := fun name =>
  if name = ['A'] then some "$\x7bB\x7d".toList else if name = ['C'] then some ['c'] else none

theorem expandField_pathParts : (∀ p ∈ pathParts, p.WellFormed) ∧
    Config.expandField pathEnvironment Config.sourceField (some (written pathParts)) =
      .ok (some "a/$\x7bB\x7d\x7d/x:-yc".toList) ∧
    ∃ e, Config.expandField (fun _ => none) Config.sourceField (some (written pathParts)) = .error e ∧
      e.message = "Environment variable error in templates.source_dir: $\x7bA\x7d not set" := by
  have hwell : ∀ p ∈ pathParts, p.WellFormed := by decide +kernel
  refine ⟨hwell, ?_, ?_⟩
  · have hset : ∀ name, .reference name none ∈ pathParts → pathEnvironment name ≠ none := by
      simp only [pathParts, List.mem_cons, Part.reference.injEq, reduceCtorEq, and_false, false_or,
        and_true, List.not_mem_nil, or_false]
      rintro name (rfl | rfl) <;> decide
    rw [(expandField_written pathEnvironment Config.sourceField hwell).2.2 hset]
    decide +kernel
  · have hlacking : FirstLacking (fun _ => none) pathParts ['A'] :=
      ⟨[.literal "a/".toList], _, rfl, rfl, fun n hn => by cases List.mem_singleton.mp hn⟩
    obtain ⟨e, he, -, hmessage⟩ :=
      (expandField_written (fun _ => none) Config.sourceField hwell).2.1 ['A'] hlacking
    exact ⟨e, he, hmessage.trans (by decide +kernel)⟩

end Expansion
end TemplateDirectives
