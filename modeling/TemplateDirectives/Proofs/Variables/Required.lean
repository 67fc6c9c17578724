/-
Which variables a value is checked for.

Before anything is replaced, a value is cut at the openings, and the variables that must be
set are read off the stretches.  `Expansion.IsRequired` says the same of the value itself:
a reference stands in it whose braces hold no other opening and no default.  The expander
reads references in another way, from one dollar sign to the next, and `neededNames` are the
variables that it cannot do without.  Where no opening stands inside of a reference or right
behind a pair of dollar signs, both come by the same names (`requiredNames_eq_neededNames`).
-/
import TemplateDirectives.Proofs.Variables.Pieces

namespace TemplateDirectives

/-! ## Splitting at a mark -/

namespace Text

variable {mark t before after : Text} {c : Char}

theorem splitOn_of_cutAt? (hmark : mark ≠ []) (h : cutAt? mark t = some (before, after)) :
    splitOn mark t = before :: splitOn mark after := by
  have hpos := List.length_pos_iff.mpr hmark
  have hlen := length_of_cutAt? h
  rw [splitOn]
  split
  next h' =>
    rw [h] at h'
    cases h'
  next h' =>
    rw [h] at h'
    cases h'
    rw [if_pos (by omega)]

theorem splitOn_of_not_isInfix (h : ¬ mark <:+: t) : splitOn mark t = [t] := by
  rw [← cutAt?_eq_none_iff] at h
  rw [splitOn]
  split
  next => rfl
  next h' =>
    rw [h] at h'
    cases h'

theorem splitOn_append_mark (hmark : mark ≠ []) (t : Text) :
    splitOn mark (mark ++ t) = [] :: splitOn mark t := by
  obtain ⟨c, rest, rfl⟩ := List.exists_cons_of_ne_nil hmark
  refine splitOn_of_cutAt? hmark ?_
  rw [List.cons_append, cutAt?, ← List.cons_append, after?_eq_some.mpr rfl]

/-- A character that begins no mark goes to the first stretch. -/
theorem splitOn_cons (hmark : mark ≠ []) (h : ¬ mark <+: c :: t) : ∃ first more,
    splitOn mark t = first :: more ∧ splitOn mark (c :: t) = (c :: first) :: more := by
  cases hcut : cutAt? mark t with
  | none =>
    have hpart : ¬ mark <:+: c :: t := by
      rw [List.infix_cons_iff, not_or]
      exact ⟨h, cutAt?_eq_none_iff.mp hcut⟩
    exact ⟨t, [], splitOn_of_not_isInfix (cutAt?_eq_none_iff.mp hcut), splitOn_of_not_isInfix hpart⟩
  | some cut =>
    obtain ⟨before, after⟩ := cut
    have hcons : cutAt? mark (c :: t) = some (c :: before, after) := by
      rw [cutAt?, after?_eq_none_iff.mpr h, hcut]
      rfl
    exact ⟨before, splitOn mark after, splitOn_of_cutAt? hmark hcut, splitOn_of_cutAt? hmark hcons⟩

end Text

namespace Expansion

/-! ## Required names -/

/-- The name that a stretch behind an opening asks for. -/
def nameIn? (stretch : Text) : Option Text :=
  match Text.cutAt? closing stretch with
  | none => none
  | some (inner, _) => if (Text.cutAt? defaultMark inner).isSome then none else some inner

/-- What can stand between the braces of a reference that needs its variable. -/
structure IsPlainName (name : Text) : Prop where
  closed : '\x7d' ∉ name
  innermost : ¬ opening <:+: name
  noDefault : ¬ defaultMark <:+: name

/-- The value has a reference to the variable, without a default and without another
opening in it. -/
def IsRequired (t name : Text) : Prop :=
  IsPlainName name ∧ opening ++ (name ++ closing) <:+: t

variable {t name rest s : Text} {c : Char}

theorem opening_ne_nil : opening ≠ [] := List.cons_ne_nil _ _

theorem not_opening_isPrefix_of_ne (h : c ≠ '$') : ¬ opening <+: c :: rest :=
  fun hopening => h (List.cons_prefix_cons.mp hopening).1.symm

theorem not_opening_isPrefix_of_brace (h : ∀ more, rest ≠ '\x7b' :: more) :
    ¬ opening <+: '$' :: rest := by
  rintro ⟨more, hmore⟩
  exact h more (List.cons.inj hmore).2.symm

theorem requiredNames_eq (t : Text) :
    requiredNames t = (Text.splitOn opening t).tail.filterMap nameIn? := by
  rw [← List.drop_one]
  rfl

theorem requiredNames_of_not_isInfix (h : ¬ opening <:+: t) : requiredNames t = [] := by
  rw [requiredNames_eq, Text.splitOn_of_not_isInfix h]
  rfl

theorem requiredNames_cons (h : ¬ opening <+: c :: rest) :
    requiredNames (c :: rest) = requiredNames rest := by
  obtain ⟨first, more, hrest, hcons⟩ := Text.splitOn_cons opening_ne_nil h
  rw [requiredNames_eq, requiredNames_eq, hrest, hcons]
  rfl

theorem requiredNames_opening (rest : Text) : requiredNames (opening ++ rest) =
    ((Text.splitOn opening rest).head?.bind nameIn?).toList ++ requiredNames rest := by
  rw [requiredNames_eq, requiredNames_eq, Text.splitOn_append_mark opening_ne_nil, List.tail_cons]
  cases Text.splitOn opening rest with
  | nil => rfl
  | cons first more =>
    rw [List.filterMap_cons, List.head?_cons, Option.bind_some, List.tail_cons]
    cases nameIn? first <;> rfl

theorem nameIn?_eq_some_iff : nameIn? s = some name ↔
    name ++ closing <+: s ∧ '\x7d' ∉ name ∧ ¬ defaultMark <:+: name := by
  unfold nameIn?
  constructor
  · intro h
    split at h
    next => cases h
    next inner after hcut =>
      obtain ⟨rfl, hclosed⟩ := Text.cutAt?_singleton_iff.mp hcut
      split at h
      next => cases h
      next hdefault =>
        cases h
        rw [Option.not_isSome_iff_eq_none, Text.cutAt?_eq_none_iff] at hdefault
        exact ⟨⟨after, by simp [closing]⟩, hclosed, hdefault⟩
  · rintro ⟨⟨after, rfl⟩, hclosed, hdefault⟩
    have hcut : Text.cutAt? closing (name ++ closing ++ after) = some (name, after) :=
      Text.cutAt?_singleton_iff.mpr ⟨by simp [closing], hclosed⟩
    rw [hcut]
    simp only [Text.cutAt?_eq_none_iff.mpr hdefault, Option.isSome_none, Bool.false_eq_true,
      if_false]

/-- The first stretch begins with a closed name just if the text does and the name holds no
opening. -/
theorem isPrefix_head_splitOn_iff {first : Text} (h : (Text.splitOn opening rest).head? = some first) :
    name ++ closing <+: first ↔ name ++ closing <+: rest ∧ ¬ opening <:+: name := by
  induction rest generalizing first name with
  | nil =>
    rw [Text.splitOn_of_not_isInfix (by simp [opening])] at h
    cases h
    simp [closing]
  | cons c rest ih =>
    by_cases hopening : opening <+: c :: rest
    · obtain ⟨rest', hrest⟩ := hopening
      rw [← hrest, Text.splitOn_append_mark opening_ne_nil] at h
      cases h
      rw [← hrest]
      refine iff_of_false (by simp [closing]) ?_
      rintro ⟨hname, hnot⟩
      refine hnot ?_
      -- the name reaches over the opening, since it is closed later
      rcases name with _ | ⟨d, _ | ⟨d', name⟩⟩
      · simp [opening, closing] at hname
      · simp [opening, closing] at hname
      · simp only [opening, closing, List.cons_append, List.cons_prefix_cons, List.nil_append]
          at hname
        obtain ⟨rfl, rfl, -⟩ := hname
        exact ⟨[], name, rfl⟩
    · obtain ⟨first', more, hrest, hcons⟩ := Text.splitOn_cons opening_ne_nil hopening
      rw [hcons] at h
      cases h
      have hrest : (Text.splitOn opening rest).head? = some first' := by
        rw [hrest]
        rfl
      cases name with
      | nil => simp [closing, opening]
      | cons d name =>
        simp only [List.cons_append, List.cons_prefix_cons, ih hrest, List.infix_cons_iff, not_or]
        constructor
        · rintro ⟨rfl, hname, hnot⟩
          refine ⟨⟨rfl, hname⟩, fun hfront => hopening ?_, hnot⟩
          exact hfront.trans (List.cons_prefix_cons.mpr
            ⟨rfl, (List.prefix_append name closing).trans hname⟩)
        · rintro ⟨⟨rfl, hname⟩, -, hnot⟩
          exact ⟨rfl, hname, hnot⟩

/-- The stretch behind an opening asks for a name just if a reference to it begins there. -/
theorem head?_bind_nameIn?_iff : (Text.splitOn opening rest).head?.bind nameIn? = some name ↔
    IsPlainName name ∧ name ++ closing <+: rest := by
  rw [Option.bind_eq_some_iff]
  constructor
  · rintro ⟨first, hfirst, hname⟩
    obtain ⟨hfront, hclosed, hdefault⟩ := nameIn?_eq_some_iff.mp hname
    obtain ⟨hrest, hopening⟩ := (isPrefix_head_splitOn_iff hfirst).mp hfront
    exact ⟨⟨hclosed, hopening, hdefault⟩, hrest⟩
  · rintro ⟨hplain, hrest⟩
    have hne : Text.splitOn opening rest ≠ [] := by
      rw [Text.splitOn]
      split
      next => simp
      next => split <;> simp
    obtain ⟨first, hfirst⟩ := Option.isSome_iff_exists.mp (List.isSome_head?.mpr hne)
    exact ⟨first, hfirst, nameIn?_eq_some_iff.mpr
      ⟨(isPrefix_head_splitOn_iff hfirst).mpr ⟨hrest, hplain.innermost⟩, hplain.closed,
        hplain.noDefault⟩⟩

/-- The check asks for the variables that are required. -/
theorem mem_requiredNames_iff : name ∈ requiredNames t ↔ IsRequired t name := by
  rw [IsRequired]
  induction t with
  | nil =>
    rw [requiredNames_of_not_isInfix (by simp [opening])]
    simp [opening]
  | cons c rest ih =>
    rw [List.infix_cons_iff]
    by_cases hopening : opening <+: c :: rest
    · obtain ⟨rest', hrest⟩ := hopening
      obtain ⟨rfl, hbrace⟩ := List.cons.inj hrest
      have hskip : requiredNames rest = requiredNames rest' := by
        rw [← hbrace]
        exact requiredNames_cons (by simp [opening])
      rw [← hrest, requiredNames_opening, ← hskip, List.mem_append, Option.mem_toList, ih,
        head?_bind_nameIn?_iff, List.prefix_append_right_inj, and_or_left]
    · have hnone : ¬ opening ++ (name ++ closing) <+: c :: rest :=
        fun h => hopening ((List.prefix_append _ _).trans h)
      rw [requiredNames_cons hopening, ih]
      simp only [hnone, false_or]

/-! ## Needed names -/

/-- The variable that a piece cannot do without. -/
def Piece.needed? : Piece → Option Text
  | reference inner => if defaultMark <:+: inner then none else some inner
  | _ => none

/-- The variables of the references without default, as the expander reads them. -/
def neededNames (t : Text) : List Text := (pieces t).filterMap Piece.needed?

theorem requiredNames_append_of_not_mem (hs : '$' ∉ s) (rest : Text) :
    requiredNames (s ++ rest) = requiredNames rest := by
  induction s with
  | nil => rfl
  | cons c s ih =>
    rw [List.mem_cons, not_or] at hs
    rw [List.cons_append, requiredNames_cons (not_opening_isPrefix_of_ne (Ne.symm hs.1)), ih hs.2]

theorem requiredNames_append_closing (hs : ¬ opening <:+: s) (rest : Text) :
    requiredNames (s ++ '\x7d' :: rest) = requiredNames rest := by
  induction s with
  | nil => exact requiredNames_cons (by simp [opening])
  | cons c s ih =>
    rw [List.infix_cons_iff, not_or] at hs
    have hopening : ¬ opening <+: c :: (s ++ '\x7d' :: rest) := by
      intro h
      cases s with
      | nil => simp [opening] at h
      | cons d s =>
        refine hs.1 ?_
        simpa [opening, List.cons_prefix_cons] using h
    rw [List.cons_append, requiredNames_cons hopening, ih hs.2]

/-- Behind an opening the check and the expander read the same name, if there is no other
opening before the closing. -/
theorem head?_bind_nameIn?_of_cutAt? {inner after : Text}
    (h : Text.cutAt? closing rest = some (inner, after)) (hinner : ¬ opening <:+: inner) :
    (Text.splitOn opening rest).head?.bind nameIn? = (Piece.reference inner).needed? := by
  obtain ⟨rfl, hclosed⟩ := Text.cutAt?_singleton_iff.mp h
  refine Option.ext fun name => ?_
  rw [head?_bind_nameIn?_iff, Piece.needed?]
  constructor
  · rintro ⟨hplain, more, hmore⟩
    have hcut : Text.cutAt? closing (inner ++ '\x7d' :: after) = some (name, more) :=
      Text.cutAt?_singleton_iff.mpr ⟨by rw [← hmore]; simp [closing], hplain.closed⟩
    rw [h] at hcut
    cases hcut
    rw [if_neg hplain.noDefault]
  · intro hname
    split at hname
    next => cases hname
    next hdefault =>
      cases hname
      exact ⟨⟨hclosed, hinner, hdefault⟩, after, by simp [closing]⟩

theorem head?_bind_nameIn?_of_not_closed (h : Text.cutAt? closing rest = none) :
    (Text.splitOn opening rest).head?.bind nameIn? = none := by
  refine Option.eq_none_iff_forall_ne_some.mpr fun name hname => ?_
  obtain ⟨-, hfront⟩ := head?_bind_nameIn?_iff.mp hname
  exact Text.cutAt?_eq_none_iff.mp h ((List.suffix_append name closing).isInfix.trans hfront.isInfix)

theorem isNameChar_dollar : isNameChar '$' = false := by decide +kernel

/-- No opening stands inside of a reference, and none uses the second of a pair of dollar
signs. -/
structure Unnested (ps : List Piece) : Prop where
  reference : ∀ inner, .reference inner ∈ ps → ¬ opening <:+: inner
  dollars : ¬ [.dollars, .char '\x7b'] <:+: ps

theorem Unnested.tail {p : Piece} {ps : List Piece} (h : Unnested (p :: ps)) : Unnested ps where
  reference inner hinner := h.reference inner (List.mem_cons_of_mem _ hinner)
  dollars hpart := h.dollars (hpart.trans (List.suffix_cons _ _).isInfix)

/-- The check asks for what the expander needs, in the order of the references. -/
theorem requiredNames_eq_neededNames (h : Unnested (pieces t)) : requiredNames t = neededNames t := by
  rw [neededNames]
  revert h
  fun_induction pieces t with
  | case1 rest hcut ih =>
    intro h
    have hopening := requiredNames_opening rest
    rw [head?_bind_nameIn?_of_not_closed hcut, Option.toList_none, List.nil_append,
      ih h.tail.tail] at hopening
    rw [List.filterMap_cons_none rfl, List.filterMap_cons_none rfl]
    exact hopening
  | case2 rest inner after hcut ih =>
    intro h
    have hinner := h.reference inner List.mem_cons_self
    have hbehind : requiredNames rest = requiredNames after := by
      rw [(Text.cutAt?_singleton_iff.mp hcut).1, requiredNames_append_closing hinner]
    have hopening := requiredNames_opening rest
    rw [head?_bind_nameIn?_of_cutAt? hcut hinner, hbehind, ih h.tail] at hopening
    cases hneeded : (Piece.reference inner).needed? with
    | none =>
      rw [hneeded] at hopening
      rw [List.filterMap_cons_none hneeded]
      exact hopening
    | some name =>
      rw [hneeded] at hopening
      rw [List.filterMap_cons_some hneeded]
      exact hopening
  | case3 rest ih =>
    intro h
    have hbrace : ¬ opening <+: '$' :: rest := by
      rintro ⟨more, hmore⟩
      obtain ⟨-, rfl⟩ := List.cons.inj hmore
      refine h.dollars ⟨[], pieces more, ?_⟩
      show _ = Piece.dollars :: pieces ('\x7b' :: more)
      rw [pieces_char (by decide)]
      rfl
    rw [requiredNames_cons (by simp [opening]), requiredNames_cons hbrace, ih h.tail,
      List.filterMap_cons_none rfl]
  | case4 rest hopening hdollar name hname ih =>
    intro h
    rw [requiredNames_cons (not_opening_isPrefix_of_brace hopening), ih h.tail,
      List.filterMap_cons_none rfl]
  | case5 rest hopening hdollar name hname ih =>
    intro h
    have hsign : '$' ∉ rest.takeWhile isNameChar := by
      intro hmem
      have htrue := List.all_eq_true.mp List.all_takeWhile '$' hmem
      rw [isNameChar_dollar] at htrue
      cases htrue
    have hbehind : requiredNames rest = requiredNames (rest.dropWhile isNameChar) := by
      conv => lhs; rw [← List.takeWhile_append_dropWhile (p := isNameChar) (l := rest),
        requiredNames_append_of_not_mem hsign]
    rw [requiredNames_cons (not_opening_isPrefix_of_brace hopening), hbehind, ih h.tail,
      List.filterMap_cons_none rfl]
  | case6 c rest hopening hdollar hsign ih =>
    intro h
    rw [requiredNames_cons (not_opening_isPrefix_of_ne hsign), ih h.tail,
      List.filterMap_cons_none rfl]
  | case7 =>
    intro _
    exact requiredNames_of_not_isInfix (by simp [opening])

/-! ## Expanding -/

section

variable {env : Environment} {field : String} {e : ConfigError} {u : Option Text}

theorem isNone_cutAt?_opening : (Text.cutAt? opening t).isNone = true ↔ ¬ opening <:+: t := by
  rw [Option.isNone_iff_eq_none, Text.cutAt?_eq_none_iff]

/-- A value is refused for the first name that the check asks for and that is not set. -/
theorem expand_eq_error_iff : expand env t = .error name ↔
    (requiredNames t).find? (fun n => (env n).isNone) = some name := by
  unfold expand
  split
  next h =>
    rw [requiredNames_of_not_isInfix (isNone_cutAt?_opening.mp h)]
    exact iff_of_false (fun h => by cases h) fun h => by cases h
  next =>
    cases (requiredNames t).find? fun n => (env n).isNone with
    | none => exact iff_of_false (fun h => by cases h) fun h => by cases h
    | some n => simp

theorem expand_eq_ok_iff : expand env t = .ok s ↔ (∀ n ∈ requiredNames t, (env n).isSome = true) ∧
    s = if opening <:+: t then (pieces t).flatMap (Piece.expanded env) else t := by
  unfold expand
  split
  next h =>
    rw [isNone_cutAt?_opening] at h
    rw [requiredNames_of_not_isInfix h, if_neg h, Except.ok.injEq, eq_comm]
    simp
  next h =>
    rw [isNone_cutAt?_opening, Classical.not_not] at h
    rw [if_pos h, ← replaceAll_eq_flatMap]
    cases hfind : (requiredNames t).find? fun n => (env n).isNone with
    | none =>
      rw [List.find?_eq_none] at hfind
      simp only [Bool.not_eq_true, Option.isNone_eq_false_iff] at hfind
      rw [Except.ok.injEq, eq_comm]
      exact (and_iff_right hfind).symm
    | some n =>
      refine iff_of_false (fun h => by cases h) fun h => ?_
      have hnone := List.find?_some hfind
      have hsome := h.1 n (List.mem_of_find?_eq_some hfind)
      simp_all

theorem expandField_eq_ok_iff : Config.expandField env field (some t) = .ok u ↔
    ∃ s, u = some s ∧ expand env t = .ok s := by
  simp only [Config.expandField]
  cases expand env t with
  | ok s => simp [eq_comm]
  | error name => simp

theorem expandField_eq_some_iff : Config.expandField env field (some t) = .ok (some s) ↔
    (∀ n ∈ requiredNames t, (env n).isSome = true) ∧
      s = if opening <:+: t then (pieces t).flatMap (Piece.expanded env) else t := by
  rw [expandField_eq_ok_iff, ← expand_eq_ok_iff]
  constructor
  · rintro ⟨u, hu, hexpand⟩
    cases hu
    exact hexpand
  · intro h
    exact ⟨s, rfl, h⟩

theorem expandField_eq_error_iff : Config.expandField env field (some t) = .error e ↔
    ∃ name, e = .unsetVariable field name ∧ expand env t = .error name := by
  simp only [Config.expandField]
  cases expand env t with
  | ok s => simp
  | error name => simp [eq_comm]

/-- Some name lacks just if the check finds one. -/
theorem exists_expand_eq_error_iff :
    (∃ n, expand env t = .error n) ↔ ∃ n ∈ requiredNames t, env n = none := by
  simp only [expand_eq_error_iff, ← Option.isSome_iff_exists, List.find?_isSome,
    Option.isNone_iff_eq_none]

end

end Expansion
end TemplateDirectives
