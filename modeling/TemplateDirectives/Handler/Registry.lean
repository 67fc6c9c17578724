/-
The registry of handlers.

Every handler name has two slots: an expander, which runs while a template is
compiled and whose text takes the place of the directive, and a renderer, which
the host runs when the generated code executes.  Registering fills one slot of
one name and replaces what was there.  `get?` is the view: `get?_update` says that
registration changes the slots of one name and of no other.

Two handlers can be given to every registry.  `token` writes the hidden form field
that carries the request token.  `php` writes its body as host code, and only a
block has a body.
-/
import TemplateDirectives.Handler.Name

namespace TemplateDirectives

inductive HandlerError where
  | unknown (name : Text)
  | failed (reason : String)
  deriving DecidableEq

def HandlerError.message : HandlerError → String
  | .unknown name => s!"unknown handler {String.ofList name}"
  | .failed reason => reason

/-- What an expander is given: the name it is called by, the raw argument text,
and for a block its indentation and its compiled body. -/
structure ExpandRequest where
  handler : HandlerName
  indent : Option Text
  body : Option Text
  arguments : Text

/-- What a renderer is given: the evaluated arguments, and for a block its
indentation and its rendered body. -/
structure RenderRequest where
  indent : Option Text
  body : Option Text
  arguments : List Text

/-- A handler that runs at compile time. -/
abbrev Expander := ExpandRequest → Except HandlerError Text

/-- A handler that runs at render time. -/
abbrev Renderer := RenderRequest → Except HandlerError Text

namespace Registry

/-- The two slots of a name. -/
structure Slots where
  expander : Option Expander
  renderer : Option Renderer

def Slots.empty : Slots := ⟨none, none⟩

end Registry

/-- A registry lists the registered names, each once, with their slots. -/
structure Registry where
  entries : List (HandlerName × Registry.Slots)

namespace Registry

def empty : Registry := ⟨[]⟩

/-- Change the slots of one name in a list of entries, from empty slots when the
name is new. -/
def updateIn (name : HandlerName) (change : Slots → Slots) :
    List (HandlerName × Slots) → List (HandlerName × Slots)
  | [] => [(name, change Slots.empty)]
  | (n, slots) :: rest =>
    if n = name then (n, change slots) :: rest else (n, slots) :: updateIn name change rest

def update (r : Registry) (name : HandlerName) (change : Slots → Slots) : Registry :=
  ⟨updateIn name change r.entries⟩

def addExpander (r : Registry) (name : HandlerName) (e : Expander) : Registry :=
  r.update name fun slots => { slots with expander := some e }

def addRenderer (r : Registry) (name : HandlerName) (f : Renderer) : Registry :=
  r.update name fun slots => { slots with renderer := some f }

/-- The slots of a name that has been registered. -/
def get? (r : Registry) (name : HandlerName) : Option Slots := r.entries.lookup name

def expander? (r : Registry) (name : HandlerName) : Option Expander :=
  (r.get? name).bind Slots.expander

def renderer? (r : Registry) (name : HandlerName) : Option Renderer :=
  (r.get? name).bind Slots.renderer

def render (r : Registry) (name : HandlerName) (request : RenderRequest) :
    Except HandlerError Text :=
  match r.renderer? name with
  | none => .error (.unknown name.written)
  | some f => f request

def size (r : Registry) : Nat := r.entries.length

def isEmpty (r : Registry) : Bool := r.entries.isEmpty

/-- Whether a text comes before another by code points, or is the same. -/
def textLe (t u : Text) : Bool := !u.precedes t

/-- The namespaces of the registered names, each once, in ascending order. -/
def namespaces (r : Registry) : List Text :=
  (r.entries.map fun e => e.1.space).eraseDups.mergeSort textLe

/-! ## Built-in handlers -/

/-- The hidden field of the request token. -/
def tokenField : Text :=
  "<input type=\"hidden\" name=\"_token\" value=\"<?=csrf_token()?>\">".toList

def expandToken : Expander := fun _ => .ok tokenField

/-- The body of a block as host code, indented like the block. -/
def expandHostCode : Expander := fun request =>
  match request.body with
  | none => .error (.failed "@@php must be used as a block")
  | some body => .ok ("<?php\n".toList ++ request.indent.getD [] ++ body ++ "?>".toList)

def addBuiltins (r : Registry) (space : Text) : Registry :=
  (r.addExpander ⟨space, "php".toList⟩ expandHostCode).addExpander ⟨space, "token".toList⟩
    expandToken

/-! ## Laws -/

theorem lookup_updateIn (name n : HandlerName) (change : Slots → Slots)
    (entries : List (HandlerName × Slots)) :
    (updateIn name change entries).lookup n =
      if n = name then some (change ((entries.lookup name).getD Slots.empty))
      else entries.lookup n := by
  induction entries with
  | nil =>
    by_cases h : n = name
    · simp [updateIn, h]
    · simp [updateIn, List.lookup_cons, h, beq_eq_false_iff_ne.mpr h]
  | cons e rest ih =>
    obtain ⟨m, slots⟩ := e
    by_cases hm : m = name
    · subst hm
      by_cases h : n = m
      · simp [updateIn, h]
      · simp [updateIn, List.lookup_cons, h, beq_eq_false_iff_ne.mpr h]
    · by_cases h : n = m
      · subst h
        simp [updateIn, hm]
      · rw [updateIn, if_neg hm]
        simp only [List.lookup_cons, beq_eq_false_iff_ne.mpr h, ih,
          beq_eq_false_iff_ne.mpr (Ne.symm hm)]

/-- A change of one name's slots leaves those of every other name as they were. -/
theorem get?_update (r : Registry) (name n : HandlerName) (change : Slots → Slots) :
    (r.update name change).get? n =
      if n = name then some (change ((r.get? name).getD Slots.empty)) else r.get? n :=
  lookup_updateIn name n change r.entries

end Registry
end TemplateDirectives
