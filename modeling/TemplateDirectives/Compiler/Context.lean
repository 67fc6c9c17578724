/-
What a pass over a template knows.

A dialect says what the directives of a template mean: the namespace of plain
names, the handlers, and the host language.  A context adds where the text at
hand lies: how many block bodies enclose it, and the position in the template
where it begins.
-/
import TemplateDirectives.Compiler.Error
import TemplateDirectives.HostLanguage

namespace TemplateDirectives

/-- What directives mean. -/
structure Dialect where
  defaultSpace : Text
  registry : Registry
  host : HostLanguage

/-- The dialect, and the place of the text that is compiled. -/
structure Context where
  dialect : Dialect
  depth : Nat
  origin : Position

namespace Context

/-- The position of an offset of the text at hand, in the whole template. -/
def position (cx : Context) (t : Text) (offset : Nat) : Position := cx.origin.ofOffset t offset

/-- The handler that a directive's name stands for. -/
def handler (cx : Context) (name : Directive.Name) : HandlerName :=
  HandlerName.ofDirective cx.dialect.defaultSpace name

/-- Run the expander of the requested handler.  Without one the answer is
`fallback`. -/
def expand (cx : Context) (request : ExpandRequest) (position : Position) (fallback : Text) :
    Except CompileError Text :=
  match cx.dialect.registry.expander? request.handler with
  | none => .ok fallback
  | some expander =>
    match expander request with
    | .ok t => .ok t
    | .error reason =>
      .error (.expanderFailed request.handler request.arguments position reason)

section

variable {cx : Context} {request : ExpandRequest} {position : Position} {fallback code : Text}
  {e : CompileError}

theorem expand_eq_ok_iff : cx.expand request position fallback = .ok code ↔
    (cx.dialect.registry.expander? request.handler = none ∧ fallback = code) ∨
      ∃ expander, cx.dialect.registry.expander? request.handler = some expander ∧
        expander request = .ok code := by
  constructor
  · intro h
    unfold expand at h
    split at h
    next hexpander =>
      cases h
      exact .inl ⟨hexpander, rfl⟩
    next expander hexpander =>
      split at h
      next hanswer =>
        cases h
        exact .inr ⟨expander, hexpander, hanswer⟩
      next => cases h
  · intro h
    rcases h with ⟨hexpander, rfl⟩ | ⟨expander, hexpander, hanswer⟩
    · simp only [expand, hexpander]
    · simp only [expand, hexpander, hanswer]

/-- The refusal of an expander names what was asked of it and where. -/
theorem expand_eq_error_iff : cx.expand request position fallback = .error e ↔
    ∃ expander reason, cx.dialect.registry.expander? request.handler = some expander ∧
      expander request = .error reason ∧
      e = .expanderFailed request.handler request.arguments position reason := by
  constructor
  · intro h
    unfold expand at h
    split at h
    next => cases h
    next expander hexpander =>
      split at h
      next => cases h
      next reason hfails =>
        cases h
        exact ⟨expander, reason, hexpander, hfails, rfl⟩
  · intro h
    obtain ⟨expander, reason, hexpander, hfails, rfl⟩ := h
    simp only [expand, hexpander, hfails]

end

end Context
end TemplateDirectives
