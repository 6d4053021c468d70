set_option autoImplicit false
set_option relaxedAutoImplicit false

namespace CommandGrammar

/-- From related states both programs give the same answer, and leave related states. -/
def Agree {σ τ α : Type} (R : σ → τ → Prop) (x : StateM σ α) (y : StateM τ α) : Prop :=
  ∀ ⦃s s'⦄, R s s' → (y s').1 = (x s).1 ∧ R (x s).2 (y s').2

namespace Agree

variable {σ τ α β : Type} {R : σ → τ → Prop}

theorem pure (a : α) : Agree (α := α) R (Pure.pure a) (Pure.pure a) :=
  fun _ _ h => ⟨rfl, h⟩

theorem bind {x : StateM σ α} {y : StateM τ α} {f : α → StateM σ β} {g : α → StateM τ β}
    (first : Agree R x y) (next : ∀ a, Agree R (f a) (g a)) : Agree R (x >>= f) (y >>= g) := by
  intro s s' h
  obtain ⟨hanswer, hleft⟩ := first h
  change (g (y s').1 (y s').2).1 = _ ∧ R _ (g (y s').1 (y s').2).2
  rw [hanswer]
  exact next (x s).1 hleft

end Agree

end CommandGrammar
