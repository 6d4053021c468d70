import CommandGrammar.Logged
import CommandGrammar.Proofs.Outcome

set_option autoImplicit false
set_option relaxedAutoImplicit false

namespace CommandGrammar.Logged

variable {ν ε α β γ : Type}

theorem bind_of_ok {x : Logged ν ε α} {a : α} (h : x.result = .ok a) (f : α → Logged ν ε β) :
    x >>= f = ⟨x.log ++ (f a).log, (f a).result⟩ := by
  change x.andThen f = _
  unfold andThen
  rw [h]

theorem bind_of_error {x : Logged ν ε α} {e : ε} (h : x.result = .error e)
    (f : α → Logged ν ε β) : x >>= f = ⟨x.log, .error e⟩ := by
  change x.andThen f = _
  unfold andThen
  rw [h]

theorem result_bind_eq_ok {x : Logged ν ε α} {f : α → Logged ν ε β} {b : β} :
    (x >>= f).result = .ok b ↔ ∃ a, x.result = .ok a ∧ (f a).result = .ok b := by
  cases hx : x.result with
  | error e => simp [bind_of_error hx]
  | ok a => simp [bind_of_ok hx]

theorem result_tell_bind (log : List ν) (f : Unit → Logged ν ε β) :
    (tell log >>= f).result = (f ()).result :=
  rfl

theorem andThen_ok (x : Logged ν ε α) : x.andThen ok = x := by
  obtain ⟨log, result⟩ := x
  cases result with
  | error e => rfl
  | ok a => simp only [andThen, ok, List.append_nil]

theorem andThen_assoc (x : Logged ν ε α) (f : α → Logged ν ε β) (g : β → Logged ν ε γ) :
    (x.andThen f).andThen g = x.andThen fun a => (f a).andThen g := by
  cases hx : x.result with
  | error e =>
    have hfirst : x.andThen f = ⟨x.log, .error e⟩ := bind_of_error hx f
    rw [hfirst]
    exact (bind_of_error hx _).symm
  | ok a =>
    have hfirst : x.andThen f = ⟨x.log ++ (f a).log, (f a).result⟩ := bind_of_ok hx f
    have hall : (x.andThen fun a => (f a).andThen g) =
        ⟨x.log ++ ((f a).andThen g).log, ((f a).andThen g).result⟩ := bind_of_ok hx _
    rw [hfirst, hall]
    unfold andThen
    cases (f a).result with
    | error e => rfl
    | ok b => simp only [List.append_assoc]

instance : LawfulMonad (Logged ν ε) :=
  LawfulMonad.mk' (Logged ν ε) andThen_ok (fun _ _ => rfl) andThen_assoc

section Translate

variable {ν' ε' α' β' : Type}

def translate (noted : ν → ν') (failed : ε → ε') (done : α → α') (x : Logged ν ε α) :
    Logged ν' ε' α' where
  log := x.log.map noted
  result := Outcome.translate failed done x.result

variable {noted : ν → ν'} {failed : ε → ε'} {done : α → α'} {done' : β → β'}

theorem bind_translate {x : Logged ν ε α} {next : α → Logged ν ε β} {next' : α' → Logged ν' ε' β'}
    (h : ∀ a, x.result = .ok a → next' (done a) = (next a).translate noted failed done') :
    x.translate noted failed done >>= next' = (x >>= next).translate noted failed done' := by
  cases hx : x.result with
  | error e =>
    have hx' : (x.translate noted failed done).result = .error (failed e) := by
      unfold translate
      rw [hx]
      rfl
    rw [bind_of_error hx, bind_of_error hx']
    rfl
  | ok a =>
    have hx' : (x.translate noted failed done).result = .ok (done a) := by
      unfold translate
      rw [hx]
      rfl
    rw [bind_of_ok hx, bind_of_ok hx', h a hx]
    simp only [translate, List.map_append]

theorem tell_bind_translate {log : List ν} {log' : List ν'} {next : Unit → Logged ν ε β}
    {next' : Unit → Logged ν' ε' β'} (hlog : log' = log.map noted)
    (h : next' () = (next ()).translate noted failed done') :
    tell log' >>= next' = (tell log >>= next).translate noted failed done' := by
  subst hlog
  have hbind : (tell log).translate noted failed id >>= next' =
      (tell log >>= next).translate noted failed done' := bind_translate fun _ _ => h
  exact hbind

theorem ofExcept_bind_translate {ε₁ ε₂ : Type} {wrap : ε₁ → ε} {wrap' : ε₂ → ε'}
    {failed₁ : ε₁ → ε₂} {x : Except ε₁ α} {x' : Except ε₂ α'} {next : α → Logged ν ε β}
    {next' : α' → Logged ν' ε' β'} (hx : x' = Outcome.translate failed₁ done x)
    (hwrap : ∀ e, wrap' (failed₁ e) = failed (wrap e))
    (h : ∀ a, x = .ok a → next' (done a) = (next a).translate noted failed done') :
    ofExcept (x'.mapError wrap') >>= next' =
      (ofExcept (x.mapError wrap) >>= next).translate noted failed done' := by
  have hstage : ofExcept (x'.mapError wrap') =
      (ofExcept (x.mapError wrap)).translate noted failed done := by
    rw [hx]
    exact congrArg ofExcept (Outcome.mapError_translate hwrap x)
  rw [hstage]
  apply bind_translate
  intro a ha
  exact h a (Outcome.mapError_eq_ok.mp ha)

end Translate

end CommandGrammar.Logged
