/-
What writing leaves.

A write makes the directories that are missing on the way and then puts one file
in its place.  `Rewrites before after targets` says how little this changes: no
directory goes away, and only at the targets can a file be another one.  Every
operation on a tree is given such a list of targets, `Rewrites.trans` puts the
lists of consecutive operations together, and `Rewrites.status` carries a file
that was written through whatever is written elsewhere later.
-/
import TemplateDirectives.Proofs.Files.Paths

namespace TemplateDirectives
namespace FileTree

/-- A tree that has all directories of another, and the same files everywhere but
at the targets. -/
structure Rewrites (before after : FileTree) (targets : List Location) : Prop where
  directories : ∀ l, before.node? l = some .directory → after.node? l = some .directory
  files : ∀ l ∉ targets, ∀ c, after.node? l = some (.file c) ↔ before.node? l = some (.file c)

namespace Rewrites

variable {t t' t'' : FileTree} {targets more : List Location}

theorem refl (t : FileTree) (targets : List Location) : Rewrites t t targets :=
  ⟨fun _ h => h, fun _ _ _ => Iff.rfl⟩

theorem trans (h : Rewrites t t' targets) (h' : Rewrites t' t'' more) :
    Rewrites t t'' (targets ++ more) where
  directories l hl := h'.directories l (h.directories l hl)
  files l hl c := by
    rw [List.mem_append, not_or] at hl
    rw [h'.files l hl.2 c, h.files l hl.1 c]

/-- A path that leads to a file elsewhere still leads to it. -/
theorem status (h : Rewrites t t' targets) {here : Location} {p : Text} {c : Content}
    (elsewhere : locate here p ∉ targets) (hp : t.status here p = .ok (.file c)) :
    t'.status here p = .ok (.file c) := by
  obtain ⟨hne, hends, m, hwalk, hm⟩ := status_eq_file.mp hp
  rw [← eq_locate_of_walk hwalk] at elsewhere
  exact status_eq_file.mpr
    ⟨hne, hends, m, walk_of_directories h.directories hwalk, (h.files m elsewhere c).mpr hm⟩

end Rewrites

/-! ## Single entries -/

section

variable {t : FileTree} {l : Location} {targets : List Location}

theorem rewrites_add {name : EntryName} {n : Node} (fresh : t.node? (l ++ [name.text]) = none)
    (held : t.node? l = some .directory)
    (ofFile : ∀ c, n = .file c → l ++ [name.text] ∈ targets) :
    Rewrites t (t.add l name n fresh held) targets where
  directories m hm := by
    have hne : m ≠ l ++ [name.text] := by
      rintro rfl
      rw [fresh] at hm
      cases hm
    rw [node?_add, if_neg hne, hm]
  files m hm c := by
    rw [node?_add]
    by_cases hne : m = l ++ [name.text]
    · subst hne
      rw [if_pos rfl, fresh]
      constructor
      · intro h
        exact absurd (ofFile c (Option.some.inj h)) hm
      · intro h
        cases h
    · rw [if_neg hne]

theorem rewrites_replace (c : Content) (hl : l ∈ targets) :
    Rewrites t (t.replace l c) targets where
  directories m hm := by
    rw [node?_replace, hm]
    split <;> rfl
  files m hm d := by
    have hne : m ≠ l := by
      rintro rfl
      exact hm hl
    rw [node?_replace, if_neg hne]

end

/-! ## Directories -/

section

variable {t : FileTree} {here l : Location} {p : Text} {name : EntryName}

/-- The place of a path is where the path leads. -/
theorem walk_of_place (h : t.place here p = .ok (l, some name)) :
    p ≠ [] ∧ t.node? l = some .directory ∧
      t.walk (origin here p) (names p) = .ok (l ++ [name.text]) := by
  rw [place] at h
  split at h
  next => cases h
  next hp =>
    split at h
    next => cases h
    next k hwalk =>
      split at h
      next => cases h
      next m hm =>
        obtain ⟨hdir, rfl⟩ := directoryAt_eq_ok.mp hm
        split at h
        next => cases h
        next part hlast =>
          split at h
          next hvalid =>
            obtain ⟨rfl, rfl⟩ : k = l ∧ ⟨part, hvalid⟩ = name := by simpa using h
            refine ⟨hp, hdir, ?_⟩
            obtain ⟨front, hfront⟩ := List.getLast?_eq_some_iff.mp hlast
            rw [hfront, List.dropLast_concat] at hwalk
            rw [hfront]
            refine walk_append hwalk (walk_cons.mpr ⟨hdir, ?_⟩)
            rw [step_of_isEntryName hvalid]
            rfl
          next => cases h

theorem rewrites_makeDirectory (t : FileTree) (here : Location) (p : Text) :
    Rewrites t (t.makeDirectory here p).1 [] := by
  rw [makeDirectory]
  split
  · exact .refl t []
  · exact .refl t []
  · split
    next h =>
      refine rewrites_add h.1 h.2 ?_
      intro c hc
      cases hc
    next => exact .refl t []

theorem rewrites_makeAllOf (t : FileTree) (here : Location) (ps : List Text) :
    Rewrites t (t.makeAllOf here ps).1 [] := by
  -- a directory that could not be made leaves the tree to those made before it
  fun_induction makeAllOf t here ps
  case case1 => exact .refl t []
  case case2 => exact .refl t []
  case case3 p rest hp made hmade =>
    have h := rewrites_makeDirectory t here p
    rwa [hmade] at h
  case case4 p rest hp made hmade held e hheld ih =>
    rwa [hheld] at ih
  case case5 p rest hp made hmade held hheld last hlast ih =>
    rw [hheld] at ih
    have h := rewrites_makeDirectory held here p
    rw [hlast] at h
    exact ih.trans h
  case case6 p rest hp made hmade held hheld last e hlast hthere ih =>
    rwa [hheld] at ih
  case case7 p rest hp made hmade held hheld last e hlast hthere ih =>
    rwa [hheld] at ih
  case case8 => exact .refl t []
  case case9 => exact .refl t []

end

/-! ## Files -/

section

variable {t : FileTree} {here : Location} {p : Text} {c : Content}

/-- A tree after a write: the path leads to the file, and no other file has changed. -/
structure Wrote (t : FileTree) (here : Location) (p : Text) (c : Content) (t' : FileTree) :
    Prop where
  rewrites : Rewrites t t' [locate here p]
  status : t'.status here p = .ok (.file c)

theorem wrote_of_place {t' : FileTree} {l : Location} {name : EntryName}
    (hplace : t.place here p = .ok (l, some name)) (hends : ¬ endsWithSlash p = true)
    (rewrites : Rewrites t t' [l ++ [name.text]])
    (written : t'.node? (l ++ [name.text]) = some (.file c)) : Wrote t here p c t' := by
  obtain ⟨hp, -, hwalk⟩ := walk_of_place hplace
  constructor
  · rwa [eq_locate_of_walk hwalk] at rewrites
  · exact status_eq_file.mpr ⟨hp, Bool.eq_false_iff.mpr hends, _,
      walk_of_directories rewrites.directories hwalk, written⟩

theorem writeInPlace_cases (t : FileTree) (here : Location) (p : Text) (c : Content) :
    (∃ e, t.writeInPlace here p c = (t, .error e)) ∨
      ∃ t', t.writeInPlace here p c = (t', .ok ()) ∧ Wrote t here p c t' := by
  rw [writeInPlace]
  split
  next e _ => exact .inl ⟨e, rfl⟩
  next => exact .inl ⟨_, rfl⟩
  next l name hplace =>
    split
    next => exact .inl ⟨_, rfl⟩
    next hends =>
      split
      next => exact .inl ⟨_, rfl⟩
      next d hd =>
        refine .inr ⟨_, rfl, wrote_of_place hplace hends
          (rewrites_replace c (List.mem_singleton_self _)) ?_⟩
        rw [node?_replace, if_pos rfl, hd]
        rfl
      next fresh =>
        split
        next held =>
          refine .inr ⟨_, rfl, wrote_of_place hplace hends
            (rewrites_add fresh held fun _ _ => List.mem_singleton_self _) ?_⟩
          rw [node?_add, if_pos rfl]
        next => exact .inl ⟨_, rfl⟩

/-- A write leaves a file at its path and all other files as they were, or stops before
any file has changed. -/
theorem write_cases (t : FileTree) (here : Location) (p : Text) (c : Content) :
    (∃ e t', t.write here p c = (t', .error e) ∧ Rewrites t t' []) ∨
      ∃ t', t.write here p c = (t', .ok ()) ∧ Wrote t here p c t' := by
  rw [write]
  split
  next x up _ =>
    have hmade : Rewrites t (t.makeDirectories here (x :: up)).1 [] :=
      rewrites_makeAllOf t here (Path.ancestors (x :: up))
    cases hm : t.makeDirectories here (x :: up) with
    | mk held result =>
      rw [hm] at hmade
      cases result with
      | error e => exact .inl ⟨e, held, rfl, hmade⟩
      | ok _ =>
        rcases writeInPlace_cases held here p c with ⟨e, h⟩ | ⟨t', h, hwrote⟩
        · exact .inl ⟨e, held, h, hmade⟩
        · exact .inr ⟨t', h, hmade.trans hwrote.rewrites, hwrote.status⟩
  next =>
    rcases writeInPlace_cases t here p c with ⟨e, h⟩ | ⟨t', h, hwrote⟩
    · exact .inl ⟨e, t, h, .refl t []⟩
    · exact .inr ⟨t', h, hwrote⟩

end

end FileTree
end TemplateDirectives
