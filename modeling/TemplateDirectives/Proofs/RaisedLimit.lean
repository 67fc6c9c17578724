/-
A higher nesting limit changes no answer but the refusal of deep nesting.

`Settled` holds of the answers that the limit did not decide.  A run of the
compiler asks for the compiled bodies one after another and stops at the first
error.  So when its own answer is settled, the answers it has used are settled
too, and a compiler of bodies that agrees on those leads to the same answer
(`applyBlocks_eq_of_settled`).  Induction on the levels left carries this from
the innermost bodies to the template (`compileLevel_eq_of_settled`).
-/
import TemplateDirectives.Compiler.Basic

namespace TemplateDirectives

/-- An answer other than the refusal of deep nesting. -/
def Settled {α : Type} (r : Except CompileError α) : Prop :=
  ∀ limit p, r ≠ .error (.nestingTooDeep limit p)

namespace Settled

variable {α β : Type}

theorem of_toOption {r : Except CompileError α} (h : r.toOption.isSome = true) : Settled r := by
  intro limit p hr
  rw [hr] at h
  cases h

theorem left {r : Except CompileError α} {f : α → Except CompileError β}
    (h : Settled (r >>= f)) : Settled r := by
  intro limit p hr
  rw [hr] at h
  exact h limit p rfl

theorem right {r : Except CompileError α} {f : α → Except CompileError β} {a : α}
    (h : Settled (r >>= f)) (hr : r = .ok a) : Settled (f a) := by
  rw [hr] at h
  exact h

end Settled

/-- Two steps agree when the first steps do, as far as they are settled, and the
second steps do after every answer. -/
theorem bind_eq_of_settled {α β : Type} {r r' : Except CompileError α}
    {f f' : α → Except CompileError β} (hr : Settled r → r' = r)
    (hf : ∀ a, Settled (f a) → f' a = f a) (h : Settled (r >>= f)) :
    r' >>= f' = r >>= f := by
  rw [hr h.left]
  cases ha : r with
  | error e => rfl
  | ok a => exact hf a (h.right ha)

theorem mapM_eq_of_settled {α β : Type} {f f' : α → Except CompileError β}
    (hf : ∀ a, Settled (f a) → f' a = f a) {l : List α} (h : Settled (l.mapM f)) :
    l.mapM f' = l.mapM f := by
  induction l with
  | nil => rfl
  | cons a rest ih =>
    rw [List.mapM_cons] at h
    rw [List.mapM_cons, List.mapM_cons]
    exact bind_eq_of_settled (hf a) (fun b => bind_eq_of_settled ih fun _ _ => rfl) h

namespace Rule

variable {cx : Context} {nested nested' : BodyCompiler} {t : Text}

theorem applyBlocks_eq_of_settled
    (hn : ∀ body o p, Settled (nested body o p) → nested' body o p = nested body o p)
    (h : Settled (applyBlocks cx nested t)) :
    applyBlocks cx nested' t = applyBlocks cx nested t := by
  refine bind_eq_of_settled (mapM_eq_of_settled fun reading => ?_) (fun _ _ => rfl) h
  cases reading with
  | unterminated o => exact fun _ => rfl
  | malformed o ending => exact fun _ => rfl
  | closed b => exact bind_eq_of_settled (hn b.body _ _) fun _ _ => rfl

end Rule

namespace Compiler

def withMaxDepth (c : Compiler) (d : Nat) : Compiler := { c with maxDepth := d }

theorem pipeline_eq_of_settled {c c' : Compiler} (hp : c'.passes = c.passes) {cx : Context}
    {nested nested' : Rule.BodyCompiler} {t : Text}
    (hn : ∀ body o p, Settled (nested body o p) → nested' body o p = nested body o p)
    (h : Settled (c.pipeline cx nested t)) : c'.pipeline cx nested' t = c.pipeline cx nested t := by
  rw [pipeline_eq] at h ⊢
  rw [pipeline_eq, hp]
  exact bind_eq_of_settled (fun _ => rfl)
    (fun called => bind_eq_of_settled (Rule.applyBlocks_eq_of_settled hn) fun _ _ => rfl) h

/-- With `k` more levels allowed in all, a text that has `k` more levels left lies at
the same depth, so its rules and passes run in the same context.  The induction is
on the levels left under the lower limit. -/
theorem compileLevel_eq_of_settled (c : Compiler) {d k levels : Nat} (hl : levels ≤ d)
    {origin : Position} {t : Text}
    (h : Settled ((c.withMaxDepth d).compileLevel levels origin t)) :
    (c.withMaxDepth (d + k)).compileLevel (levels + k) origin t =
      (c.withMaxDepth d).compileLevel levels origin t := by
  induction levels generalizing origin t with
  | zero =>
    rw [compileLevel_eq] at h
    rw [compileLevel_eq, compileLevel_eq,
      show (c.withMaxDepth (d + k)).maxDepth - (0 + k) = (c.withMaxDepth d).maxDepth - 0 from by
        simp only [withMaxDepth]; omega]
    refine pipeline_eq_of_settled rfl (fun body o p hb => ?_) h
    exact absurd rfl (hb d p)
  | succ levels ih =>
    rw [compileLevel_eq] at h
    rw [compileLevel_eq, compileLevel_eq,
      show (c.withMaxDepth (d + k)).maxDepth - (levels + 1 + k)
        = (c.withMaxDepth d).maxDepth - (levels + 1) from by simp only [withMaxDepth]; omega,
      show levels + 1 + k = levels + k + 1 by omega]
    exact pipeline_eq_of_settled rfl (fun body o p hb => ih (by omega) hb) h

/-- Every answer but the refusal of deep nesting stays the same under a higher
limit: the compiled text, and every other error with all that it carries. -/
theorem compile_eq_of_maxDepth_le (c : Compiler) {d d' : Nat} (hd : d ≤ d') (t : Text)
    (h : Settled ((c.withMaxDepth d).compile t)) :
    (c.withMaxDepth d').compile t = (c.withMaxDepth d).compile t := by
  obtain ⟨k, rfl⟩ := Nat.exists_eq_add_of_le hd
  exact compileLevel_eq_of_settled c (Nat.le_refl d) h

/-- A compiler for PHP with a short call that is replaced by a block, and a pass that
puts a line at the end. -/
def growing : Compiler where
  dialect := {
    defaultSpace := defaultSpace
    registry := Registry.empty.addExpander ⟨defaultSpace, "grow".toList⟩
      fun _ => .ok "@@box():x@@endbox".toList
    host := .php }
  maxDepth := 1
  passes := [.plain "line".toList (· ++ ['\n'])]

theorem compile_growing_eq : Settled ((growing.withMaxDepth 1).compile "@@grow()".toList) ∧
    (growing.withMaxDepth 3).compile "@@grow()".toList =
      (growing.withMaxDepth 1).compile "@@grow()".toList := by
  have h : Settled ((growing.withMaxDepth 1).compile "@@grow()".toList) :=
    .of_toOption (by decide +kernel)
  exact ⟨h, compile_eq_of_maxDepth_le growing (by decide) _ h⟩

end Compiler
end TemplateDirectives
