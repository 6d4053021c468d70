import Mathlib.Data.List.Forall2

set_option autoImplicit false
set_option relaxedAutoImplicit false

namespace CommandGrammar.Places

variable {α β γ : Type}

theorem getElem?_flatMap_add {f : α → List β} {xs : List α} {i j : Nat} {x : α}
    (hx : xs[i]? = some x) (hj : j < (f x).length) :
    (xs.flatMap f)[((xs.take i).flatMap f).length + j]? = (f x)[j]? := by
  induction xs generalizing i with
  | nil => simp at hx
  | cons first xs ih =>
    cases i with
    | zero =>
      simp only [List.getElem?_cons_zero, Option.some.injEq] at hx
      subst hx
      rw [List.flatMap_cons, List.take_zero, List.flatMap_nil, List.length_nil, Nat.zero_add]
      exact List.getElem?_append_left hj
    | succ i =>
      rw [List.flatMap_cons, List.take_succ_cons, List.flatMap_cons, List.length_append,
        Nat.add_assoc, List.getElem?_append_right (Nat.le_add_right _ _), Nat.add_sub_cancel_left]
      exact ih (by simpa using hx)

theorem flatMap_zipIdx {f : α × Nat → List β} {parts : α → List β}
    (h : ∀ x i, f (x, i) = parts x) (xs : List α) : xs.zipIdx.flatMap f = xs.flatMap parts := by
  have hf : f = fun pair => parts pair.1 := funext fun pair => h pair.1 pair.2
  rw [hf, ← List.flatMap_map, List.zipIdx_map_fst]

section Sizes

variable {f : α × Nat → List β} {parts : α → List γ}
  (alike : ∀ x i, (f (x, i)).length = (parts x).length)
include alike

theorem length_flatMap_zipIdx (xs : List α) :
    (xs.zipIdx.flatMap f).length = (xs.flatMap parts).length := by
  have hf : (fun pair => (f pair).length) = (fun x => (parts x).length) ∘ Prod.fst :=
    funext fun pair => alike pair.1 pair.2
  rw [List.length_flatMap, List.length_flatMap, hf, ← List.map_map, List.zipIdx_map_fst]

theorem getElem?_flatMap_zipIdx_add {xs : List α} {i j : Nat} {x : α} (hx : xs[i]? = some x)
    (hj : j < (parts x).length) :
    (xs.zipIdx.flatMap f)[((xs.take i).flatMap parts).length + j]? = (f (x, i))[j]? := by
  have hplaced : xs.zipIdx[i]? = some (x, i) := by
    rw [List.getElem?_zipIdx, hx]
    simp
  have hbefore : xs.zipIdx.take i = (xs.take i).zipIdx := by
    apply List.ext_getElem?
    intro n
    rw [List.getElem?_take, List.getElem?_zipIdx, List.getElem?_zipIdx, List.getElem?_take]
    split <;> rfl
  rw [← length_flatMap_zipIdx alike, ← hbefore]
  exact getElem?_flatMap_add hplaced (by rwa [alike])

end Sizes

theorem pairwise_flatMap_zipIdx {f : α × Nat → List β} {R : β → β → Prop} {xs : List α}
    (within : ∀ x i, (f (x, i)).Pairwise R)
    (between : ∀ x i y j, i < j → ∀ a ∈ f (x, i), ∀ b ∈ f (y, j), R a b) :
    (xs.zipIdx.flatMap f).Pairwise R := by
  have hplaces : xs.zipIdx.Pairwise fun first second => first.2 < second.2 := by
    rw [← List.pairwise_map, List.zipIdx_map_snd]
    exact List.pairwise_lt_range'
  rw [List.pairwise_flatMap]
  refine ⟨fun first _ => within first.1 first.2, hplaces.imp ?_⟩
  rintro ⟨x, i⟩ ⟨y, j⟩ hlt
  exact between x i y j hlt

theorem exists_place_of_lt_length_flatMap {f : α → List β} {xs : List α} {n : Nat}
    (h : n < (xs.flatMap f).length) :
    ∃ i x j, xs[i]? = some x ∧ j < (f x).length ∧ ((xs.take i).flatMap f).length + j = n := by
  induction xs generalizing n with
  | nil => simp at h
  | cons first xs ih =>
    rw [List.flatMap_cons, List.length_append] at h
    rcases Nat.lt_or_ge n (f first).length with hn | hn
    · exact ⟨0, first, n, rfl, hn, by simp⟩
    · obtain ⟨i, x, j, hx, hj, he⟩ := ih (n := n - (f first).length) (by omega)
      refine ⟨i + 1, x, j, by simpa using hx, hj, ?_⟩
      rw [List.take_succ_cons, List.flatMap_cons, List.length_append]
      omega

theorem exists_first {P : α → Prop} {xs : List α} (h : ¬∀ x ∈ xs, P x) :
    ∃ before x after, xs = before ++ x :: after ∧ (∀ y ∈ before, P y) ∧ ¬P x := by
  induction xs with
  | nil => simp at h
  | cons x xs ih =>
    by_cases hx : P x
    · have hrest : ¬∀ y ∈ xs, P y := fun hall => h (List.forall_mem_cons.mpr ⟨hx, hall⟩)
      obtain ⟨before, y, after, rfl, hbefore, hy⟩ := ih hrest
      exact ⟨x :: before, y, after, rfl, List.forall_mem_cons.mpr ⟨hx, hbefore⟩, hy⟩
    · exact ⟨[], x, xs, rfl, by simp, hx⟩

theorem map_mapIdx (f : β → γ) (given : Nat → α → β) (xs : List α) :
    (xs.mapIdx given).map f = xs.mapIdx fun i x => f (given i x) := by
  apply List.ext_getElem?
  intro i
  rw [List.getElem?_map, List.getElem?_mapIdx, List.getElem?_mapIdx, Option.map_map]
  rfl

theorem mapIdx_map (f : α → β) (given : Nat → β → γ) (xs : List α) :
    (xs.map f).mapIdx given = xs.mapIdx fun i x => given i (f x) := by
  apply List.ext_getElem?
  intro i
  rw [List.getElem?_mapIdx, List.getElem?_mapIdx, List.getElem?_map, Option.map_map]
  rfl

theorem mapIdx_const (f : α → β) (xs : List α) : (xs.mapIdx fun _ x => f x) = xs.map f := by
  apply List.ext_getElem?
  intro i
  rw [List.getElem?_mapIdx, List.getElem?_map]

theorem forall₂_mapIdx {R : α → β → Prop} {given : Nat → α → β} (h : ∀ i x, R x (given i x))
    (xs : List α) : List.Forall₂ R xs (xs.mapIdx given) := by
  induction xs generalizing given with
  | nil => exact .nil
  | cons x xs ih =>
    rw [List.mapIdx_cons]
    exact .cons (h 0 x) (ih fun i => h (i + 1))

theorem length_flatMap_of_forall₂ {δ : Type} (f : α → List γ) (g : β → List δ) {xs : List α}
    {ys : List β} (h : List.Forall₂ (fun x y => (f x).length = (g y).length) xs ys) :
    (xs.flatMap f).length = (ys.flatMap g).length := by
  induction h with
  | nil => rfl
  | cons hxy _ ih =>
    rw [List.flatMap_cons, List.flatMap_cons, List.length_append, List.length_append, hxy, ih]

end CommandGrammar.Places
