import Mathlib.Data.List.Forall2

set_option autoImplicit false
set_option relaxedAutoImplicit false

namespace CommandGrammar.Outcome

variable {ε ε' α β : Type}

theorem bind_eq_ok {x : Except ε α} {f : α → Except ε β} {b : β} :
    (x >>= f) = .ok b ↔ ∃ a, x = .ok a ∧ f a = .ok b := by
  cases x <;> simp [bind, Except.bind]

theorem bind_eq_error {x : Except ε α} {f : α → Except ε β} {e : ε} :
    (x >>= f) = .error e ↔ x = .error e ∨ ∃ a, x = .ok a ∧ f a = .error e := by
  cases x <;> simp [bind, Except.bind]

theorem map_eq_ok {x : Except ε α} {f : α → β} {b : β} :
    x.map f = .ok b ↔ ∃ a, x = .ok a ∧ f a = b := by
  cases x <;> simp [Except.map]

theorem map_eq_error {x : Except ε α} {f : α → β} {e : ε} : x.map f = .error e ↔ x = .error e := by
  cases x <;> simp [Except.map]

theorem mapError_eq_ok {x : Except ε α} {rename : ε → ε'} {a : α} :
    x.mapError rename = .ok a ↔ x = .ok a := by
  cases x with
  | error e => simp [Except.mapError]
  | ok b => simp [Except.mapError]

theorem mapError_eq_error {x : Except ε α} {rename : ε → ε'} {e : ε'} :
    x.mapError rename = .error e ↔ ∃ e', x = .error e' ∧ rename e' = e := by
  cases x <;> simp [Except.mapError]

theorem mapM_eq_ok {f : α → Except ε β} {xs : List α} {ys : List β} :
    xs.mapM f = .ok ys ↔ List.Forall₂ (fun x y => f x = .ok y) xs ys := by
  induction xs generalizing ys with
  | nil => cases ys <;> simp [pure, Except.pure]
  | cons x xs ih =>
    rw [List.mapM_cons, bind_eq_ok]
    constructor
    · rintro ⟨y, hy, h⟩
      obtain ⟨tail, ht, he⟩ := bind_eq_ok.mp h
      cases he
      exact .cons hy (ih.mp ht)
    · intro h
      cases h with
      | cons hy ht => exact ⟨_, hy, bind_eq_ok.mpr ⟨_, ih.mpr ht, rfl⟩⟩

theorem exists_mem_of_mapM {f : α → Except ε β} {xs : List α} {ys : List β}
    (h : xs.mapM f = .ok ys) {y : β} (hy : y ∈ ys) : ∃ x ∈ xs, f x = .ok y := by
  rw [mapM_eq_ok] at h
  induction h with
  | nil => cases hy
  | @cons x y' xs ys hx _ ih =>
    rcases List.mem_cons.mp hy with rfl | hy
    · exact ⟨x, List.mem_cons_self, hx⟩
    · obtain ⟨x', hm, hf⟩ := ih hy
      exact ⟨x', List.mem_cons_of_mem x hm, hf⟩

theorem getElem?_of_mapM {f : α → Except ε β} {xs : List α} {ys : List β}
    (h : xs.mapM f = .ok ys) {i : Nat} {x : α} (hx : xs[i]? = some x) :
    ∃ y, ys[i]? = some y ∧ f x = .ok y := by
  rw [mapM_eq_ok] at h
  induction h generalizing i with
  | nil => simp at hx
  | cons hxy _ ih =>
    cases i with
    | zero =>
      cases hx
      exact ⟨_, rfl, hxy⟩
    | succ i => exact ih (by simpa using hx)

theorem length_of_mapM {f : α → Except ε β} {xs : List α} {ys : List β}
    (h : xs.mapM f = .ok ys) : ys.length = xs.length :=
  (mapM_eq_ok.mp h).length_eq.symm

theorem exists_mapM {f : α → Except ε β} {xs : List α} (h : ∀ x ∈ xs, ∃ y, f x = .ok y) :
    ∃ ys, xs.mapM f = .ok ys := by
  induction xs with
  | nil => exact ⟨[], rfl⟩
  | cons x xs ih =>
    obtain ⟨y, hy⟩ := h x List.mem_cons_self
    obtain ⟨ys, hys⟩ := ih fun z hz => h z (List.mem_cons_of_mem x hz)
    exact ⟨y :: ys, mapM_eq_ok.mpr (.cons hy (mapM_eq_ok.mp hys))⟩

theorem mapM_of_first_error {f : α → Except ε β} {before after : List α} {x : α} {e : ε}
    (succeed : ∀ y ∈ before, ∃ b, f y = .ok b) (fail : f x = .error e) :
    (before ++ x :: after).mapM f = .error e := by
  induction before with
  | nil =>
    rw [List.nil_append, List.mapM_cons, fail]
    rfl
  | cons first before ih =>
    rw [List.forall_mem_cons] at succeed
    obtain ⟨b, hb⟩ := succeed.1
    rw [List.cons_append, List.mapM_cons, hb, ih succeed.2]
    rfl

theorem exists_mem_of_mapM_eq_error {f : α → Except ε β} {xs : List α} {e : ε}
    (h : xs.mapM f = .error e) : ∃ x ∈ xs, f x = .error e := by
  induction xs with
  | nil => cases h
  | cons x xs ih =>
    rw [List.mapM_cons] at h
    rcases bind_eq_error.mp h with hx | ⟨y, -, hrest⟩
    · exact ⟨x, List.mem_cons_self, hx⟩
    · rcases bind_eq_error.mp hrest with htail | ⟨ys, -, hdone⟩
      · obtain ⟨x', hx', hfails⟩ := ih htail
        exact ⟨x', List.mem_cons_of_mem x hx', hfails⟩
      · cases hdone

theorem forall₂_of_mapM {γ : Type} {f : α → Except ε β} {g : α → Except ε' γ} {R : β → γ → Prop}
    {xs : List α} (step : ∀ x y z, f x = .ok y → g x = .ok z → R y z) {ys : List β} {zs : List γ}
    (hf : xs.mapM f = .ok ys) (hg : xs.mapM g = .ok zs) : List.Forall₂ R ys zs := by
  rw [mapM_eq_ok] at hf hg
  induction hf generalizing zs with
  | nil =>
    cases hg
    exact .nil
  | cons hy _ ih =>
    cases hg with
    | cons hz htail => exact .cons (step _ _ _ hy hz) (ih htail)

theorem mapM_mapIdx {γ : Type} {f : β → Except ε γ} {given : Nat → α → β} {result : Nat → α → γ}
    {xs : List α} (h : ∀ i x, xs[i]? = some x → f (given i x) = .ok (result i x)) :
    (xs.mapIdx given).mapM f = .ok (xs.mapIdx result) := by
  rw [mapM_eq_ok]
  induction xs generalizing given result with
  | nil => simp
  | cons x xs ih =>
    rw [List.mapIdx_cons, List.mapIdx_cons]
    refine .cons (h 0 x rfl) (ih ?_)
    intro i y hy
    exact h (i + 1) y (by simpa using hy)

theorem forM_eq_ok {f : α → Except ε Unit} {xs : List α} :
    xs.forM f = .ok () ↔ ∀ x ∈ xs, f x = .ok () := by
  induction xs with
  | nil => simp [pure, Except.pure]
  | cons x xs ih =>
    change (f x >>= fun _ => xs.forM f) = .ok () ↔ _
    rw [bind_eq_ok, List.forall_mem_cons, ← ih]
    constructor
    · rintro ⟨⟨⟩, hx, ht⟩
      exact ⟨hx, ht⟩
    · rintro ⟨hx, ht⟩
      exact ⟨(), hx, ht⟩

theorem exists_mem_of_forM_eq_error {f : α → Except ε Unit} {xs : List α} {e : ε}
    (h : xs.forM f = .error e) : ∃ x ∈ xs, f x = .error e := by
  induction xs with
  | nil => cases h
  | cons x xs ih =>
    rcases bind_eq_error.mp h with hx | ⟨_, _, ht⟩
    · exact ⟨x, List.mem_cons_self, hx⟩
    · obtain ⟨y, hy, hf⟩ := ih ht
      exact ⟨y, List.mem_cons_of_mem x hy, hf⟩

theorem forM_congr {f : α → Except ε Unit} {g : β → Except ε Unit} {xs : List α} {ys : List β}
    (h : List.Forall₂ (fun x y => g y = f x) xs ys) : ys.forM g = xs.forM f := by
  induction h with
  | nil => rfl
  | @cons x y xs ys hstep _ ih =>
    change (g y >>= fun _ => ys.forM g) = (f x >>= fun _ => xs.forM f)
    rw [hstep, ih]

theorem foldlM_keeps {σ : Type} {f : σ → α → Except ε σ} {P : σ → Prop} {xs : List α}
    (step : ∀ s x s', x ∈ xs → P s → f s x = .ok s' → P s') {s s' : σ} (start : P s)
    (h : xs.foldlM f s = .ok s') : P s' := by
  induction xs generalizing s with
  | nil =>
    cases h
    exact start
  | cons x xs ih =>
    obtain ⟨next, hn, ht⟩ := bind_eq_ok.mp h
    have kept : P next := step s x next List.mem_cons_self start hn
    exact ih (fun s x s' hx => step s x s' (List.mem_cons_of_mem _ hx)) kept ht

theorem foldlM_eq_error {σ : Type} {f : σ → α → Except ε σ} {xs : List α} {s : σ} {e : ε} :
    xs.foldlM f s = .error e ↔ ∃ before x after reached, xs = before ++ x :: after ∧
      before.foldlM f s = .ok reached ∧ f reached x = .error e := by
  constructor
  · intro h
    induction xs generalizing s with
    | nil => cases h
    | cons x xs ih =>
      rcases bind_eq_error.mp h with hx | ⟨next, hnext, hrest⟩
      · exact ⟨[], x, xs, s, rfl, rfl, hx⟩
      · obtain ⟨before, y, after, reached, rfl, hbefore, hy⟩ := ih hrest
        exact ⟨x :: before, y, after, reached, rfl, bind_eq_ok.mpr ⟨next, hnext, hbefore⟩, hy⟩
  · rintro ⟨before, x, after, reached, rfl, hbefore, hx⟩
    have hstep : (x :: after).foldlM f reached = .error e := bind_eq_error.mpr (.inl hx)
    rw [List.foldlM_append, hbefore]
    exact hstep

section Translate

variable {ε ε' α α' β β' : Type}

def translate (failed : ε → ε') (done : α → β) : Except ε α → Except ε' β
  | .error e => .error (failed e)
  | .ok a => .ok (done a)

variable {failed : ε → ε'}

theorem bind_translate {done : α → α'} {done' : β → β'} {x : Except ε α} {next : α → Except ε β}
    {next' : α' → Except ε' β'}
    (h : ∀ a, x = .ok a → next' (done a) = translate failed done' (next a)) :
    (translate failed done x >>= next') = translate failed done' (x >>= next) := by
  cases x with
  | error e => rfl
  | ok a => exact h a rfl

theorem mapError_translate {ε₁ ε₂ : Type} {done : α → β} {wrap : ε → ε₁} {wrap' : ε' → ε₂}
    {failed' : ε₁ → ε₂} (h : ∀ e, wrap' (failed e) = failed' (wrap e)) (x : Except ε α) :
    (translate failed done x).mapError wrap' = translate failed' done (x.mapError wrap) := by
  cases x with
  | error e => exact congrArg Except.error (h e)
  | ok a => rfl

theorem map_translate {done : α → α'} {done' : β → β'} {f : α → β} {f' : α' → β'}
    (h : ∀ a, f' (done a) = done' (f a)) (x : Except ε α) :
    (translate failed done x).map f' = translate failed done' (x.map f) := by
  cases x with
  | error e => rfl
  | ok a => exact congrArg Except.ok (h a)

theorem foldlM_translate {σ σ' : Type} {done : σ → σ'} {given : α → α'} {step : σ → α → Except ε σ}
    {step' : σ' → α' → Except ε' σ'}
    (h : ∀ s x, step' (done s) (given x) = translate failed done (step s x)) (xs : List α) (s : σ) :
    (xs.map given).foldlM step' (done s) = translate failed done (xs.foldlM step s) := by
  induction xs generalizing s with
  | nil => rfl
  | cons x xs ih =>
    rw [List.map_cons, List.foldlM_cons, List.foldlM_cons, h]
    exact bind_translate fun next _ => ih next

theorem forM_translate {given : α → α'} {f : α → Except ε Unit} {f' : α' → Except ε' Unit}
    (h : ∀ x, f' (given x) = translate failed id (f x)) (xs : List α) :
    (xs.map given).forM f' = translate failed id (xs.forM f) := by
  induction xs with
  | nil => rfl
  | cons x xs ih =>
    change (f' (given x) >>= fun _ => (xs.map given).forM f') = _
    rw [h]
    exact bind_translate fun _ _ => ih

theorem mapM_translate {done : β → β'} {f : α → Except ε β} {f' : α → Except ε' β'}
    (h : ∀ x, f' x = translate failed done (f x)) (xs : List α) :
    xs.mapM f' = translate failed (List.map done) (xs.mapM f) := by
  induction xs with
  | nil => rfl
  | cons x xs ih =>
    rw [List.mapM_cons, List.mapM_cons, h, ih]
    exact bind_translate fun y _ => bind_translate fun ys _ => rfl

end Translate

end CommandGrammar.Outcome
