/-
What a registry holds after a series of registrations.

A registration fills one slot of one name, and the built-in handlers fill two.  The registry
is read off the series of these fills: a slot holds what was put into it last, a name that
got no renderer is unknown to the host, and a name counts once for both of its slots
(`records_registrations`).  A name is the pair of its parts, so two names that are spelled alike
are still two.
-/
import Mathlib.Data.Finset.Card
import Mathlib.Data.List.Induction
import TemplateDirectives.Handler.Registry

namespace TemplateDirectives
namespace Registry

/-! ## Registrations -/

/-- A call that registers handlers. -/
inductive Registration where
  | expander (name : HandlerName) (e : Expander)
  | renderer (name : HandlerName) (f : Renderer)
  /-- The built-in handlers, in a namespace. -/
  | builtins (space : Text)

def register (r : Registry) : Registration → Registry
  | .expander name e => r.addExpander name e
  | .renderer name f => r.addRenderer name f
  | .builtins space => r.addBuiltins space

/-- The registry after registrations one after another. -/
def ofRegistrations (rs : List Registration) : Registry := rs.foldl register empty

/-- A slot of a name, and what it is filled with. -/
inductive Fill where
  | expander (name : HandlerName) (e : Expander)
  | renderer (name : HandlerName) (f : Renderer)

namespace Fill

def name : Fill → HandlerName
  | expander name _ => name
  | renderer name _ => name

def expander? : Fill → Option (HandlerName × Expander)
  | expander name e => some (name, e)
  | renderer _ _ => none

def renderer? : Fill → Option (HandlerName × Renderer)
  | expander _ _ => none
  | renderer name f => some (name, f)

end Fill

def fill (r : Registry) : Fill → Registry
  | .expander name e => r.addExpander name e
  | .renderer name f => r.addRenderer name f

namespace Registration

/-- The slots that a registration fills, in order. -/
def fills : Registration → List Fill
  | expander name e => [.expander name e]
  | renderer name f => [.renderer name f]
  | builtins space =>
    [.expander ⟨space, "php".toList⟩ expandHostCode, .expander ⟨space, "token".toList⟩ expandToken]

/-- The expanders that registrations put in, in order. -/
def expanders (rs : List Registration) : List (HandlerName × Expander) :=
  (rs.flatMap fills).filterMap Fill.expander?

def renderers (rs : List Registration) : List (HandlerName × Renderer) :=
  (rs.flatMap fills).filterMap Fill.renderer?

/-- The names that registrations fill a slot of. -/
def names (rs : List Registration) : List HandlerName := (rs.flatMap fills).map Fill.name

end Registration

/-- In a series of writes, the last one to this name. -/
def IsLast {α : Type} (name : HandlerName) (a : α) (writes : List (HandlerName × α)) : Prop :=
  ∃ earlier later, writes = earlier ++ (name, a) :: later ∧ name ∉ later.map Prod.fst

open Registration (expanders renderers names)

/-- What a registry answers that has taken these registrations, from an empty one on. -/
structure Records (r : Registry) (rs : List Registration) : Prop where
  expander : ∀ name e, r.expander? name = some e ↔ IsLast name e (expanders rs)
  no_expander : ∀ name, r.expander? name = none ↔ name ∉ (expanders rs).map Prod.fst
  renders : ∀ name f, IsLast name f (renderers rs) → ∀ request, r.render name request = f request
  unknown : ∀ name, name ∉ (renderers rs).map Prod.fst → ∀ request,
    r.render name request = .error (.unknown (name.space ++ "::".toList ++ name.method))
  /-- A name counts once, whichever of its slots are filled. -/
  size : r.size = (names rs).toFinset.card
  isEmpty : r.isEmpty = true ↔ rs = []
  mem_namespaces : ∀ space, space ∈ r.namespaces ↔ ∃ name ∈ names rs, name.space = space
  nodup_namespaces : r.namespaces.Nodup

/-- A registration changes no slot but those that it fills. -/
structure Spares (r : Registry) (w : Registration) : Prop where
  expander : ∀ name, name ∉ (expanders [w]).map Prod.fst →
    (r.register w).expander? name = r.expander? name
  renderer : ∀ name, name ∉ (renderers [w]).map Prod.fst →
    (r.register w).renderer? name = r.renderer? name

/-! ## The last write -/

section

variable {α : Type} {name m : HandlerName} {a b : α} {writes : List (HandlerName × α)}

theorem not_isLast_nil : ¬ IsLast name a [] := by
  rintro ⟨earlier, later, h, -⟩
  exact List.append_ne_nil_of_right_ne_nil earlier (List.cons_ne_nil _ later) h.symm

theorem isLast_concat_self : IsLast name a (writes ++ [(name, b)]) ↔ b = a := by
  constructor
  · rintro ⟨earlier, later, h, hlater⟩
    rcases List.eq_nil_or_concat later with rfl | ⟨later, w, rfl⟩
    · exact congrArg Prod.snd (List.append_singleton_inj.mp h).2
    · rw [List.concat_eq_append, ← List.cons_append, ← List.append_assoc] at h
      refine absurd ?_ hlater
      rw [List.concat_eq_append, ← (List.append_singleton_inj.mp h).2, List.map_append]
      exact List.mem_append_right _ List.mem_cons_self
  · rintro rfl
    exact ⟨writes, [], rfl, List.not_mem_nil⟩

theorem isLast_concat_of_ne (hne : name ≠ m) :
    IsLast name a (writes ++ [(m, b)]) ↔ IsLast name a writes := by
  constructor
  · rintro ⟨earlier, later, h, hlater⟩
    rcases List.eq_nil_or_concat later with rfl | ⟨later, w, rfl⟩
    · exact absurd (congrArg Prod.fst (List.append_singleton_inj.mp h).2).symm hne
    · rw [List.concat_eq_append, ← List.cons_append, ← List.append_assoc] at h
      refine ⟨earlier, later, (List.append_singleton_inj.mp h).1, fun hmem => hlater ?_⟩
      rw [List.concat_eq_append, List.map_append]
      exact List.mem_append_left _ hmem
  · rintro ⟨earlier, later, rfl, hlater⟩
    refine ⟨earlier, later ++ [(m, b)], by rw [List.append_assoc, List.cons_append], ?_⟩
    rw [List.map_append, List.mem_append, not_or]
    exact ⟨hlater, fun h => hne (List.mem_singleton.mp h)⟩

/-- The last write is the first one that a look-up from the end meets. -/
theorem lookup_reverse_eq_some_iff :
    writes.reverse.lookup name = some a ↔ IsLast name a writes := by
  induction writes using List.reverseRecOn with
  | nil => exact iff_of_false (fun h => by cases h) not_isLast_nil
  | append_singleton writes w ih =>
    obtain ⟨m, b⟩ := w
    rw [List.reverse_append, List.reverse_singleton, List.singleton_append]
    by_cases h : name = m
    · subst h
      rw [List.lookup_cons_self, isLast_concat_self, Option.some_inj]
    · rw [List.lookup_cons, beq_eq_false_iff_ne.mpr h, isLast_concat_of_ne h]
      exact ih

theorem lookup_reverse_eq_none_iff :
    writes.reverse.lookup name = none ↔ name ∉ writes.map Prod.fst := by
  rw [List.lookup_eq_none_iff, List.mem_map, not_exists]
  constructor
  · rintro h ⟨m, a⟩ ⟨hmem, rfl⟩
    have hne := h (m, a) (List.mem_reverse.mpr hmem)
    rw [bne_self_eq_false] at hne
    cases hne
  · intro h w hw
    exact bne_iff_ne.mpr fun heq => h w ⟨List.mem_reverse.mp hw, heq.symm⟩

end

/-! ## One slot filled -/

section

variable {α : Type} (slot : Slots → Option α) {change : Slots → Slots}

/-- A change of one name's slots that puts something into this slot of it, or leaves the slot
alone. -/
theorem bind_get?_update (put : Option α) (hempty : slot Slots.empty = none)
    (hchange : ∀ slots, slot (change slots) = put.or (slot slots)) (r : Registry)
    (name n : HandlerName) :
    ((r.update name change).get? n).bind slot =
      ((put.map fun a => (name, a)).toList.lookup n).or ((r.get? n).bind slot) := by
  rw [get?_update]
  by_cases h : n = name
  · subst h
    have hslot : slot ((r.get? n).getD Slots.empty) = (r.get? n).bind slot := by
      cases r.get? n with
      | none => exact hempty
      | some slots => rfl
    rw [if_pos rfl, Option.bind_some, hchange, hslot]
    cases put with
    | none => rfl
    | some a => rw [Option.map_some, Option.toList_some, List.lookup_cons_self]
  · rw [if_neg h]
    cases put with
    | none => rfl
    | some a =>
      rw [Option.map_some, Option.toList_some, List.lookup_cons, beq_eq_false_iff_ne.mpr h]
      rfl

theorem expander?_fill (r : Registry) (w : Fill) (name : HandlerName) :
    (r.fill w).expander? name = (w.expander?.toList.lookup name).or (r.expander? name) := by
  cases w with
  | expander m e =>
    refine bind_get?_update Slots.expander (some e) rfl (fun slots => ?_) r m name
    rfl
  | renderer m f =>
    refine bind_get?_update Slots.expander none rfl (fun slots => ?_) r m name
    rfl

theorem renderer?_fill (r : Registry) (w : Fill) (name : HandlerName) :
    (r.fill w).renderer? name = (w.renderer?.toList.lookup name).or (r.renderer? name) := by
  cases w with
  | expander m e =>
    refine bind_get?_update Slots.renderer none rfl (fun slots => ?_) r m name
    rfl
  | renderer m f =>
    refine bind_get?_update Slots.renderer (some f) rfl (fun slots => ?_) r m name
    rfl

end

/-! ## The names of a registry -/

/-- The names in the list of entries. -/
def entryNames (r : Registry) : List HandlerName := r.entries.map Prod.fst

theorem map_fst_updateIn (name : HandlerName) (change : Slots → Slots)
    (entries : List (HandlerName × Slots)) :
    (updateIn name change entries).map Prod.fst =
      if name ∈ entries.map Prod.fst then entries.map Prod.fst
      else entries.map Prod.fst ++ [name] := by
  induction entries with
  | nil => rfl
  | cons e rest ih =>
    obtain ⟨m, slots⟩ := e
    rw [updateIn]
    by_cases h : m = name
    · subst h
      rw [if_pos rfl, List.map_cons, List.map_cons, if_pos List.mem_cons_self]
    · rw [if_neg h, List.map_cons, List.map_cons, ih]
      simp only [List.mem_cons, Ne.symm h, false_or]
      split <;> rfl

/-- A registry lists the names that have been filled, each once. -/
structure Lists (r : Registry) (filled : List HandlerName) : Prop where
  nodup : r.entryNames.Nodup
  mem_iff : ∀ n, n ∈ r.entryNames ↔ n ∈ filled

namespace Lists

variable {r : Registry} {filled : List HandlerName}

theorem update (h : r.Lists filled) (name : HandlerName) (change : Slots → Slots) :
    (r.update name change).Lists (filled ++ [name]) := by
  have hnames : (r.update name change).entryNames =
      if name ∈ r.entryNames then r.entryNames else r.entryNames ++ [name] :=
    map_fst_updateIn name change r.entries
  by_cases hname : name ∈ r.entryNames
  · rw [if_pos hname] at hnames
    refine ⟨hnames ▸ h.nodup, fun n => ?_⟩
    rw [hnames, h.mem_iff, List.mem_append, List.mem_singleton]
    exact ⟨.inl, fun hn => hn.elim id fun heq => (h.mem_iff n).mp (heq ▸ hname)⟩
  · rw [if_neg hname] at hnames
    refine ⟨?_, fun n => ?_⟩
    · rw [hnames, ← List.concat_eq_append]
      exact h.nodup.concat hname
    · rw [hnames, List.mem_append, List.mem_append, h.mem_iff]

theorem fill (h : r.Lists filled) (w : Fill) : (r.fill w).Lists (filled ++ [w.name]) := by
  cases w with
  | expander name e => exact h.update name _
  | renderer name f => exact h.update name _

theorem size (h : r.Lists filled) : r.size = filled.toFinset.card := by
  have hfinset : filled.toFinset = r.entryNames.toFinset := by
    ext n
    rw [List.mem_toFinset, List.mem_toFinset, h.mem_iff]
  rw [hfinset, List.toFinset_card_of_nodup h.nodup, entryNames, List.length_map, Registry.size]

theorem isEmpty_iff (h : r.Lists filled) : r.isEmpty = true ↔ filled = [] := by
  have hentries : r.isEmpty = true ↔ r.entryNames = [] := by
    rw [Registry.isEmpty, List.isEmpty_iff, entryNames, List.map_eq_nil_iff]
  rw [hentries, List.eq_nil_iff_forall_not_mem, List.eq_nil_iff_forall_not_mem]
  exact forall_congr' fun n => not_congr (h.mem_iff n)

theorem mem_namespaces (h : r.Lists filled) (space : Text) :
    space ∈ r.namespaces ↔ ∃ name ∈ filled, name.space = space := by
  rw [namespaces, List.mem_mergeSort, List.mem_eraseDups, List.mem_map]
  constructor
  · rintro ⟨e, he, rfl⟩
    exact ⟨e.1, (h.mem_iff e.1).mp (List.mem_map_of_mem he), rfl⟩
  · rintro ⟨name, hname, rfl⟩
    obtain ⟨e, he, rfl⟩ := List.mem_map.mp ((h.mem_iff name).mpr hname)
    exact ⟨e, he, rfl⟩

end Lists

theorem nodup_eraseDups : ∀ ts : List Text, ts.eraseDups.Nodup
  | [] => List.nodup_nil
  | t :: ts => by
    rw [List.eraseDups_cons, List.nodup_cons, List.mem_eraseDups]
    exact ⟨by simp, nodup_eraseDups _⟩
termination_by ts => ts.length
decreasing_by exact Nat.lt_succ_of_le (List.length_filter_le _ _)

theorem nodup_namespaces (r : Registry) : r.namespaces.Nodup := by
  rw [namespaces, (List.mergeSort_perm _ _).nodup_iff]
  exact nodup_eraseDups _

/-! ## A series of fills -/

section

variable (r : Registry) (fills : List Fill) (name : HandlerName)

/-- A slot into which every fill puts what `put?` says holds the last of it. -/
theorem foldl_fill_eq {α : Type} {held : Registry → HandlerName → Option α}
    {put? : Fill → Option (HandlerName × α)}
    (hfill : ∀ r w n, held (fill r w) n = ((put? w).toList.lookup n).or (held r n)) :
    held (fills.foldl fill r) name =
      ((fills.filterMap put?).reverse.lookup name).or (held r name) := by
  induction fills using List.reverseRecOn with
  | nil => rfl
  | append_singleton fills w ih =>
    have hlast : ([w].filterMap put?).reverse = (put? w).toList := by
      rw [List.filterMap_cons]
      cases put? w <;> rfl
    rw [List.foldl_concat, hfill, ih, List.filterMap_append, List.reverse_append, hlast,
      List.lookup_append, Option.or_assoc]

theorem lists_foldl_fill : (fills.foldl fill empty).Lists (fills.map Fill.name) := by
  induction fills using List.reverseRecOn with
  | nil => exact ⟨List.nodup_nil, fun _ => Iff.rfl⟩
  | append_singleton fills w ih =>
    rw [List.foldl_concat, List.map_append]
    exact ih.fill w

end

/-! ## A series of registrations -/

theorem register_eq (r : Registry) (w : Registration) : r.register w = w.fills.foldl fill r := by
  cases w <;> rfl

theorem ofRegistrations_eq (rs : List Registration) :
    ofRegistrations rs = (rs.flatMap Registration.fills).foldl fill empty := by
  rw [List.foldl_flatMap, ofRegistrations]
  congr 1
  funext r w
  exact register_eq r w

section

variable (rs : List Registration) (name : HandlerName)

theorem expander?_ofRegistrations :
    (ofRegistrations rs).expander? name = (expanders rs).reverse.lookup name := by
  rw [ofRegistrations_eq, foldl_fill_eq _ _ _ expander?_fill, show empty.expander? name = none from rfl,
    Option.or_none, expanders]

theorem renderer?_ofRegistrations :
    (ofRegistrations rs).renderer? name = (renderers rs).reverse.lookup name := by
  rw [ofRegistrations_eq, foldl_fill_eq _ _ _ renderer?_fill, show empty.renderer? name = none from rfl,
    Option.or_none, renderers]

theorem lists_ofRegistrations : (ofRegistrations rs).Lists (names rs) := by
  rw [ofRegistrations_eq]
  exact lists_foldl_fill _

end

theorem names_eq_nil_iff {rs : List Registration} : names rs = [] ↔ rs = [] := by
  rw [names, List.map_eq_nil_iff, List.flatMap_eq_nil_iff]
  constructor
  · intro h
    refine List.eq_nil_iff_forall_not_mem.mpr fun w hw => ?_
    have hnil := h w hw
    cases w <;> cases hnil
  · rintro rfl w hw
    cases hw

theorem render_of_renderer? {r : Registry} {name : HandlerName} {f : Renderer}
    (h : r.renderer? name = some f) (request : RenderRequest) :
    r.render name request = f request := by
  rw [render, h]

theorem render_of_renderer?_eq_none {r : Registry} {name : HandlerName}
    (h : r.renderer? name = none) (request : RenderRequest) :
    r.render name request = .error (.unknown name.written) := by
  rw [render, h]

theorem spares (r : Registry) (w : Registration) : r.Spares w where
  expander name h := by
    rw [register_eq, foldl_fill_eq _ _ _ expander?_fill]
    rw [expanders, List.flatMap_singleton, ← lookup_reverse_eq_none_iff] at h
    rw [h, Option.none_or]
  renderer name h := by
    rw [register_eq, foldl_fill_eq _ _ _ renderer?_fill]
    rw [renderers, List.flatMap_singleton, ← lookup_reverse_eq_none_iff] at h
    rw [h, Option.none_or]

/-- A registry that has taken any registrations answers by the last fill of the slot that is asked
for, counts and lists the names that were registered, and the next registration changes no other
slot. -/
theorem records_registrations (rs : List Registration) :
    (ofRegistrations rs).Records rs ∧ ∀ w, (ofRegistrations rs).Spares w := by
  refine ⟨?_, spares _⟩
  have hlists := lists_ofRegistrations rs
  constructor
  case expander =>
    intro name e
    rw [expander?_ofRegistrations, lookup_reverse_eq_some_iff]
  case no_expander =>
    intro name
    rw [expander?_ofRegistrations, lookup_reverse_eq_none_iff]
  case renders =>
    intro name f h
    rw [← lookup_reverse_eq_some_iff, ← renderer?_ofRegistrations] at h
    exact render_of_renderer? h
  case unknown =>
    intro name h
    rw [← lookup_reverse_eq_none_iff, ← renderer?_ofRegistrations] at h
    exact render_of_renderer?_eq_none h
  case size => exact hlists.size
  case isEmpty => exact hlists.isEmpty_iff.trans names_eq_nil_iff
  case mem_namespaces => exact hlists.mem_namespaces
  case nodup_namespaces => exact nodup_namespaces _

/-- Two names that are spelled alike do not answer for each other. -/
example (f : Renderer) (request : RenderRequest) :
    (ofRegistrations [.renderer ⟨"a::b".toList, "c".toList⟩ f]).render
      ⟨"a".toList, "b::c".toList⟩ request = .error (.unknown "a::b::c".toList) := by
  rfl

end Registry
end TemplateDirectives
