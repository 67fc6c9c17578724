/-
The directories above a location.

The ancestors of an absolute path are texts, found by cutting off parts at the end.  For a
path that spells a location they are the paths of the directories on the way to it, so
searching them for something is searching these directories from the lowest up
(`find?_ancestors`).
-/
import TemplateDirectives.Proofs.Files.Paths

namespace TemplateDirectives

/-- Among the directories on the way to `here` that satisfy `P`, the one farthest down. -/
structure IsNearest (P : Location → Prop) (here l : Location) : Prop where
  above : l <+: here
  holds : P l
  farthest : ∀ m, m <+: here → P m → m <+: l

theorem isNearest_concat_of_holds {P : Location → Prop} {here : Location} {name : Text}
    (h : P (here ++ [name])) {l : Location} :
    IsNearest P (here ++ [name]) l ↔ l = here ++ [name] := by
  constructor
  · intro hl
    exact hl.above.eq_of_length_le (hl.farthest _ (List.prefix_refl _) h).length_le
  · rintro rfl
    exact ⟨List.prefix_refl _, h, fun _ hm _ => hm⟩

theorem isNearest_concat_of_not {P : Location → Prop} {here : Location} {name : Text}
    (h : ¬ P (here ++ [name])) {l : Location} :
    IsNearest P (here ++ [name]) l ↔ IsNearest P here l := by
  have hiff : ∀ m, P m → (m <+: here ++ [name] ↔ m <+: here) := by
    intro m hm
    rw [List.prefix_concat_iff]
    refine or_iff_right ?_
    rintro rfl
    exact h hm
  constructor
  · intro hl
    exact ⟨(hiff l hl.holds).mp hl.above, hl.holds, fun m hm hp =>
      hl.farthest m ((hiff m hp).mpr hm) hp⟩
  · intro hl
    exact ⟨(hiff l hl.holds).mpr hl.above, hl.holds, fun m hm hp =>
      hl.farthest m ((hiff m hp).mp hm) hp⟩

theorem exists_isNearest {P : Location → Prop} {here : Location}
    (h : ∃ m, m <+: here ∧ P m) : ∃ l, IsNearest P here l := by
  induction here using List.reverseRecOn with
  | nil =>
    obtain ⟨m, hm, hp⟩ := h
    obtain rfl := List.prefix_nil.mp hm
    exact ⟨[], List.prefix_refl _, hp, fun _ hm _ => hm⟩
  | append_singleton front name ih =>
    by_cases hname : P (front ++ [name])
    · exact ⟨_, (isNearest_concat_of_holds hname).mpr rfl⟩
    · obtain ⟨m, hm, hp⟩ := h
      rcases List.prefix_concat_iff.mp hm with rfl | hm
      · exact absurd hp hname
      · obtain ⟨l, hl⟩ := ih ⟨m, hm, hp⟩
        exact ⟨l, (isNearest_concat_of_not hname).mpr hl⟩

theorem isNearest_congr {P Q : Location → Prop} {here l : Location}
    (h : ∀ m, m <+: here → (P m ↔ Q m)) : IsNearest P here l ↔ IsNearest Q here l := by
  constructor
  · intro hl
    exact ⟨hl.above, (h l hl.above).mp hl.holds, fun m hm hq => hl.farthest m hm ((h m hm).mpr hq)⟩
  · intro hl
    exact ⟨hl.above, (h l hl.above).mpr hl.holds, fun m hm hp => hl.farthest m hm ((h m hm).mp hp)⟩

namespace Path

/-- The absolute path of a location. -/
def ofLocation (l : Location) : Text := '/' :: ofParts l

theorem dropIdle_of_valid {relative : Bool} {ns : List Text}
    (valid : ∀ name ∈ ns, IsEntryName name) : dropIdle relative ns = ns := by
  cases ns with
  | nil => rfl
  | cons name rest =>
    have hname := valid name List.mem_cons_self
    cases rest with
    | nil => simp [dropIdle, hname.1, hname.2.2.1]
    | cons _ _ => simp [dropIdle, isIdle, hname.1, hname.2.2.1]

/-- The parent of an absolute path, from the parts behind the first slash. -/
theorem parent?_slash (p : Text) : parent? ('/' :: p) =
    match dropIdle false (parts p).reverse with
    | [] => none
    | _ :: earlier => some ('/' :: ofParts (dropIdle false earlier).reverse) := rfl

theorem parent?_ofLocation_nil : parent? (ofLocation []) = none := by
  decide

section

variable {ns : List Text} {name : Text} (valid : ∀ n ∈ ns ++ [name], IsEntryName n)
include valid

theorem parent?_ofLocation : parent? (ofLocation (ns ++ [name])) = some (ofLocation ns) := by
  have hback : ∀ n ∈ name :: ns.reverse, IsEntryName n := by
    intro n hn
    apply valid
    rw [← List.mem_reverse, List.reverse_append]
    exact hn
  have hup : ∀ n ∈ ns.reverse, IsEntryName n := fun n hn => hback n (List.mem_cons_of_mem name hn)
  have hparts : (parts (ofParts (ns ++ [name]))).reverse = name :: ns.reverse := by
    rw [parts_ofParts (by simp) valid, List.reverse_append]
    rfl
  rw [ofLocation, parent?_slash, hparts, dropIdle_of_valid hback]
  show some ('/' :: ofParts (dropIdle false ns.reverse).reverse) = _
  rw [dropIdle_of_valid hup, List.reverse_reverse, ofLocation]

end

theorem length_le_length_ofParts {ns : List Text} (valid : ∀ name ∈ ns, IsEntryName name) :
    ns.length ≤ (ofParts ns).length := by
  induction ns with
  | nil => exact Nat.zero_le _
  | cons name rest ih =>
    have hname := List.length_pos_iff.mpr (valid name List.mem_cons_self).1
    have hrest := ih fun n hn => valid n (List.mem_cons_of_mem name hn)
    cases rest with
    | nil => simpa [ofParts, Nat.succ_le_iff] using hname
    | cons next more =>
      rw [ofParts, List.intercalate_cons_cons]
      rw [ofParts] at hrest
      simp only [List.length_append, List.length_cons, List.length_nil] at hrest ⊢
      omega

theorem find?_ancestorsWithin {ns : List Text} (valid : ∀ name ∈ ns, IsEntryName name)
    (p : Text → Bool) {fuel : Nat} (hfuel : ns.length ≤ fuel) (q : Text) :
    (ancestorsWithin fuel (ofLocation ns)).find? p = some q ↔
      ∃ l, IsNearest (fun l => p (ofLocation l) = true) ns l ∧ q = ofLocation l := by
  induction ns using List.reverseRecOn generalizing fuel with
  | nil =>
    have hlist : ancestorsWithin fuel (ofLocation []) = [ofLocation []] := by
      cases fuel with
      | zero => rfl
      | succ fuel => rw [ancestorsWithin, parent?_ofLocation_nil]
    rw [hlist, List.find?_singleton]
    constructor
    · intro h
      split at h
      next hp => exact ⟨[], ⟨List.prefix_refl _, hp, fun _ hm _ => hm⟩, (Option.some.inj h).symm⟩
      next => cases h
    · rintro ⟨l, hl, rfl⟩
      obtain rfl := List.prefix_nil.mp hl.above
      rw [if_pos hl.holds]
  | append_singleton front name ih =>
    obtain ⟨fuel, rfl⟩ : ∃ k, fuel = k + 1 := by
      rw [List.length_append, List.length_singleton] at hfuel
      exact ⟨fuel - 1, by omega⟩
    rw [List.length_append, List.length_singleton] at hfuel
    rw [ancestorsWithin, parent?_ofLocation valid]
    by_cases hp : p (ofLocation (front ++ [name])) = true
    · rw [List.find?_cons_of_pos hp, Option.some_inj]
      simp only [isNearest_concat_of_holds (P := fun l => p (ofLocation l) = true) hp,
        exists_eq_left]
      exact eq_comm
    · rw [List.find?_cons_of_neg hp,
        ih (fun n hn => valid n (List.mem_append_left _ hn)) (by omega)]
      simp only [isNearest_concat_of_not (P := fun l => p (ofLocation l) = true) hp]

/-- A search through the ancestors of a location's path finds the nearest directory. -/
theorem find?_ancestors {here : Location} (valid : ∀ name ∈ here, IsEntryName name)
    (p : Text → Bool) (q : Text) :
    (ancestors (ofLocation here)).find? p = some q ↔
      ∃ l, IsNearest (fun l => p (ofLocation l) = true) here l ∧ q = ofLocation l := by
  refine find?_ancestorsWithin valid p ?_ q
  rw [ofLocation, List.length_cons]
  exact Nat.le_succ_of_le (length_le_length_ofParts valid)

end Path

/-! ## Files in these directories -/

namespace FileTree

section

variable {l : Location} (valid : ∀ name ∈ l, IsEntryName name)
include valid

theorem names_ofLocation : names (Path.ofLocation l) = l := by
  have hslash : names (Path.ofLocation l) = names [] ++ names (Path.ofParts l) :=
    names_append_slash [] (Path.ofParts l)
  rw [hslash]
  cases l with
  | nil => rfl
  | cons name rest =>
    rw [names_ofParts (List.cons_ne_nil name rest) valid]
    rfl

theorem locate_ofLocation (here : Location) : locate here (Path.ofLocation l) = l := by
  have horigin : origin here (Path.ofLocation l) = [] := rfl
  rw [locate, names_ofLocation valid, horigin, foldl_step valid, List.nil_append]

variable {t : FileTree}

theorem walk_ofLocation (here : Location) (h : t.node? l = some .directory) :
    t.walk (origin here (Path.ofLocation l)) (names (Path.ofLocation l)) = .ok l := by
  rw [names_ofLocation valid]
  exact walk_of_node? (l := []) h

/-- A file that a directory's path and a name lead to stands in this directory. -/
theorem isFile_join_ofLocation (here : Location) {name : Text} (hname : IsEntryName name) :
    t.isFile here (Path.join (Path.ofLocation l) name) = true ↔
      ∃ c, t.node? (l ++ [name]) = some (.file c) := by
  have hnames : ∀ n ∈ [name], IsEntryName n := by
    intro n hn
    rwa [List.mem_singleton.mp hn]
  have hparts : Path.ofParts [name] = name := by simp [Path.ofParts]
  rw [isFile]
  constructor
  · intro h
    split at h
    next c hstatus =>
      obtain ⟨-, -, m, hwalk, hm⟩ := status_eq_file.mp hstatus
      rw [eq_locate_of_walk hwalk, ← hparts, locate_join (List.cons_ne_nil name []) hnames,
        locate_ofLocation valid] at hm
      exact ⟨c, hm⟩
    next => cases h
  · rintro ⟨c, hc⟩
    have hdir := node?_of_append (List.cons_ne_nil name []) hc
    have hstatus := status_join (List.cons_ne_nil name []) (walk_ofLocation valid here hdir) hc
    rw [hparts] at hstatus
    rw [hstatus]

end

end FileTree

end TemplateDirectives
