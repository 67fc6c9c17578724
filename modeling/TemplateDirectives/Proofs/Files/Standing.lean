/-
Writing again.

A write leaves a file with every directory on the way to it (`Stands`), and it leaves this
also when the file was there before.  So writing the same content once more changes nothing
(`Stands.write_eq`): no directory is missing, and the file has this content already.
-/
import TemplateDirectives.Proofs.Files.Writing

namespace TemplateDirectives
namespace FileTree

theorem eq_of_entries {t t' : FileTree} (h : t.entries = t'.entries) : t = t' := by
  cases t
  cases t'
  cases h
  rfl

/-- Replacing a content by itself changes nothing. -/
theorem replace_eq_self {t : FileTree} {l : Location} {c : Content}
    (h : t.node? l = some (.file c)) : t.replace l c = t := by
  apply eq_of_entries
  show t.entries.map (refill l c) = t.entries
  refine (List.map_congr_left fun e he => ?_).trans (List.map_id t.entries)
  obtain ⟨m, node⟩ := e
  rw [refill]
  by_cases hm : m = l
  · subst hm
    have hnode := node?_of_mem he
    rw [h] at hnode
    cases hnode
    simp [fill]
  · simp [hm]

section

variable {t : FileTree} {here l m : Location} {p : Text}

theorem walk_concat {front : List Text} {part : Text} (h : t.walk l (front ++ [part]) = .ok m) :
    ∃ k, t.walk l front = .ok k ∧ t.node? k = some .directory ∧ m = step k part := by
  induction front generalizing l with
  | nil =>
    obtain ⟨hdir, hstep⟩ := walk_cons.mp h
    exact ⟨l, rfl, hdir, (Except.ok.inj hstep).symm⟩
  | cons first rest ih =>
    obtain ⟨hdir, hrest⟩ := walk_cons.mp h
    obtain ⟨k, hk, hkdir, hm⟩ := ih hrest
    exact ⟨k, walk_cons.mpr ⟨hdir, hk⟩, hkdir, hm⟩

theorem place_of_walk {front : List Text} {part : Text} (hp : p ≠ [])
    (hnames : names p = front ++ [part]) (h : t.walk (origin here p) front = .ok l)
    (hdir : t.node? l = some .directory) :
    t.place here p =
      .ok (l, if valid : IsEntryName part then some ⟨part, valid⟩ else none) := by
  have hlast : (names p).getLast? = some part := by rw [hnames, List.getLast?_concat]
  rw [place, if_neg hp, hnames, List.dropLast_concat, h]
  simp only [directoryAt_eq_ok.mpr ⟨hdir, rfl⟩, ← hnames, hlast]
  split <;> rfl

/-! ## Directories that are there -/

theorem makeDirectory_of_isDirectory (h : t.isDirectory here p = true) :
    t.makeDirectory here p = (t, .error .alreadyExists) := by
  obtain ⟨hp, m, hwalk, hdir⟩ := isDirectory_iff_walk.mp h
  rcases List.eq_nil_or_concat (names p) with hnames | ⟨front, part, hnames⟩
  · have hplace : t.place here p = .ok (m, none) := by
      rw [hnames] at hwalk
      rw [place, if_neg hp, hnames, List.dropLast_nil, hwalk]
      simp only [directoryAt_eq_ok.mpr ⟨hdir, rfl⟩]
      rfl
    rw [makeDirectory, hplace]
  · rw [List.concat_eq_append] at hnames
    rw [hnames] at hwalk
    obtain ⟨l, hl, hldir, rfl⟩ := walk_concat hwalk
    rw [makeDirectory, place_of_walk hp hnames hl hldir]
    by_cases valid : IsEntryName part
    · rw [step_of_isEntryName valid] at hdir
      simp only [valid, dif_pos, hdir]
      simp
    · simp only [valid, dif_neg, not_false_eq_true]

theorem isDirectory_of_makeDirectory {t' : FileTree} (h : t.makeDirectory here p = (t', .ok ())) :
    t'.isDirectory here p = true := by
  have hkept := (rewrites_makeDirectory t here p).directories
  rw [h] at hkept
  rw [makeDirectory] at h
  split at h
  next => cases h
  next => cases h
  next l name hplace =>
    split at h
    next hfresh =>
      obtain ⟨hp, -, hwalk⟩ := walk_of_place hplace
      have hnode : t'.node? (l ++ [name.text]) = some .directory := by
        cases h
        rw [node?_add, if_pos rfl]
      exact isDirectory_iff_walk.mpr ⟨hp, _, walk_of_directories hkept hwalk, hnode⟩
    next => cases h

/-- Directories that have been made are there. -/
theorem isDirectory_of_makeAllOf {t' : FileTree} {holders : List Text} (hp : p ≠ [])
    (h : t.makeAllOf here (p :: holders) = (t', .ok ())) : t'.isDirectory here p = true := by
  rw [makeAllOf, if_neg hp] at h
  split at h
  next made hmade =>
    cases h
    exact isDirectory_of_makeDirectory hmade
  next =>
    split at h
    next => cases h
    next held _ =>
      split at h
      next made hmade =>
        cases h
        exact isDirectory_of_makeDirectory hmade
      next =>
        split at h
        next hthere =>
          cases h
          exact hthere
        next => cases h
  next =>
    split at h
    next hthere =>
      cases h
      exact hthere
    next => cases h

theorem exists_ancestors (p : Text) : ∃ holders, Path.ancestors p = p :: holders := by
  rw [Path.ancestors]
  generalize p.length = fuel
  cases fuel with
  | zero => exact ⟨[], rfl⟩
  | succ fuel =>
    rw [Path.ancestorsWithin]
    cases Path.parent? p with
    | none => exact ⟨[], rfl⟩
    | some up => exact ⟨_, rfl⟩

theorem isDirectory_of_makeDirectories {t' : FileTree} (hp : p ≠ [])
    (h : t.makeDirectories here p = (t', .ok ())) : t'.isDirectory here p = true := by
  obtain ⟨holders, hholders⟩ := exists_ancestors p
  rw [makeDirectories, hholders] at h
  exact isDirectory_of_makeAllOf hp h

theorem makeDirectories_of_isDirectory (h : t.isDirectory here p = true) :
    t.makeDirectories here p = (t, .ok ()) := by
  have hp : p ≠ [] := by
    rintro rfl
    cases h
  obtain ⟨holders, hholders⟩ := exists_ancestors p
  rw [makeDirectories, hholders, makeAllOf, if_neg hp, makeDirectory_of_isDirectory h]
  simp only [h, if_true]

/-! ## Files that are there -/

/-- A path whose parts are all empty has nothing but slashes in it. -/
theorem eq_slash_of_mem_ofParts {parts : List Text} (h : ∀ part ∈ parts, part = []) {c : Char}
    (hc : c ∈ Path.ofParts parts) : c = '/' := by
  induction parts with
  | nil => cases hc
  | cons first rest ih =>
    have hfirst := h first List.mem_cons_self
    subst hfirst
    cases rest with
    | nil => cases hc
    | cons second more =>
      rw [Path.ofParts, List.intercalate_cons_cons] at hc
      rcases List.mem_cons.mp hc with hc | hc
      · exact hc
      · exact ih (fun part hpart => h part (List.mem_cons_of_mem _ hpart)) hc

/-- A path that does not end with a slash has a part with a name in it. -/
theorem names_ne_nil (hp : p ≠ []) (hends : endsWithSlash p = false) : names p ≠ [] := by
  intro hnames
  have hempty : ∀ part ∈ Path.parts p, part = [] := by
    intro part hpart
    simpa using List.filter_eq_nil_iff.mp hnames part hpart
  have hjoin : Path.ofParts (Path.parts p) = p := List.intercalate_splitOn '/'
  obtain ⟨front, c, hfront⟩ := (List.eq_nil_or_concat p).resolve_left hp
  have hc : c = '/' := by
    refine eq_slash_of_mem_ofParts hempty ?_
    rw [hjoin, hfront]
    simp
  rw [endsWithSlash, hfront, List.concat_eq_append, List.getLast?_concat, hc] at hends
  cases hends

/-- A file that a path leads to stands in the place where a write would put it. -/
theorem place_of_status {c : Content} (h : t.status here p = .ok (.file c)) :
    ∃ l name, t.place here p = .ok (l, some name) ∧
      t.node? (l ++ [name.text]) = some (.file c) := by
  obtain ⟨hp, hends, m, hwalk, hm⟩ := status_eq_file.mp h
  obtain ⟨front, part, hnames⟩ :=
    (List.eq_nil_or_concat (names p)).resolve_left (names_ne_nil hp hends)
  rw [List.concat_eq_append] at hnames
  rw [hnames] at hwalk
  obtain ⟨l, hl, hdir, rfl⟩ := walk_concat hwalk
  have hplace := place_of_walk hp hnames hl hdir
  have valid : IsEntryName part := by
    -- a dotted name would lead to a directory
    rw [step] at hm
    split at hm
    next =>
      rw [hdir] at hm
      cases hm
    next =>
      split at hm
      next =>
        by_cases hl : l = []
        · subst hl
          cases hm
        · rw [node?_dropLast hl hdir] at hm
          cases hm
      next => exact isEntryName_of_node? hm part (by simp)
  rw [dif_pos valid] at hplace
  rw [step_of_isEntryName valid] at hm
  exact ⟨l, ⟨part, valid⟩, hplace, hm⟩

/-- A file stands at a path, with the directory that holds it. -/
structure Stands (t : FileTree) (here : Location) (p : Text) (c : Content) : Prop where
  status : t.status here p = .ok (.file c)
  held : ∀ up, Path.parent? p = some up → up ≠ [] → t.isDirectory here up = true

theorem Rewrites.isDirectory {t' : FileTree} {targets : List Location}
    (h : Rewrites t t' targets) (hp : t.isDirectory here p = true) :
    t'.isDirectory here p = true := by
  obtain ⟨hne, m, hwalk, hdir⟩ := isDirectory_iff_walk.mp hp
  exact isDirectory_iff_walk.mpr
    ⟨hne, m, walk_of_directories h.directories hwalk, h.directories m hdir⟩

namespace Stands

variable {t' : FileTree} {c : Content}

/-- What stands at a path is kept by writing elsewhere. -/
theorem of_rewrites {targets : List Location} (h : t.Stands here p c)
    (rewrites : Rewrites t t' targets) (elsewhere : locate here p ∉ targets) :
    t'.Stands here p c :=
  ⟨rewrites.status elsewhere h.status, fun up hup hne => rewrites.isDirectory (h.held up hup hne)⟩

/-- After a write the file stands at its path. -/
theorem of_write (h : t.write here p c = (t', .ok ())) : t'.Stands here p c := by
  have hinPlace : ∀ u : FileTree, u.writeInPlace here p c = (t', .ok ()) → Wrote u here p c t' := by
    intro u hu
    rcases writeInPlace_cases u here p c with ⟨e, he⟩ | ⟨u', hu', hwrote⟩
    · rw [he] at hu
      cases hu
    · rw [hu'] at hu
      cases hu
      exact hwrote
  rw [write] at h
  split at h
  next x up hparent =>
    split at h
    next held hmade =>
      have hwrote := hinPlace held h
      refine ⟨hwrote.status, fun up' hup' hne => ?_⟩
      rw [hparent] at hup'
      cases hup'
      exact hwrote.rewrites.isDirectory (isDirectory_of_makeDirectories hne hmade)
    next => cases h
  next hparent =>
    refine ⟨(hinPlace t h).status, fun up hup hne => ?_⟩
    obtain ⟨x, rest, rfl⟩ := List.exists_cons_of_ne_nil hne
    exact absurd hup (hparent x rest)

/-- Writing a file that stands at its path with this content changes nothing. -/
theorem write_eq (h : t.Stands here p c) : t.write here p c = (t, .ok ()) := by
  have hinPlace : t.writeInPlace here p c = (t, .ok ()) := by
    obtain ⟨l, name, hplace, hnode⟩ := place_of_status h.status
    have hends := (status_eq_file.mp h.status).2.1
    rw [writeInPlace, hplace]
    simp only [hends, Bool.false_eq_true, if_false]
    split
    next hdir =>
      rw [hnode] at hdir
      cases hdir
    next =>
      rw [replace_eq_self hnode]
    next hfresh =>
      rw [hnode] at hfresh
      cases hfresh
  rw [write]
  split
  next x up hparent =>
    rw [makeDirectories_of_isDirectory (h.held _ hparent (List.cons_ne_nil x up))]
    exact hinPlace
  next => exact hinPlace

end Stands

end

end FileTree
end TemplateDirectives
