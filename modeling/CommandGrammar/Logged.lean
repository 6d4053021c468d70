set_option autoImplicit false
set_option relaxedAutoImplicit false

namespace CommandGrammar

structure Logged (ν ε α : Type) where
  log : List ν
  result : Except ε α

namespace Logged

variable {ν ε α β : Type}

def ok (a : α) : Logged ν ε α := ⟨[], .ok a⟩

def ofExcept (result : Except ε α) : Logged ν ε α := ⟨[], result⟩

def tell (log : List ν) : Logged ν ε Unit := ⟨log, .ok ()⟩

/-- Continues after a result; the logs are put one after the other. -/
def andThen (x : Logged ν ε α) (f : α → Logged ν ε β) : Logged ν ε β :=
  match x.result with
  | .error e => ⟨x.log, .error e⟩
  | .ok a => ⟨x.log ++ (f a).log, (f a).result⟩

instance : Monad (Logged ν ε) where
  pure := ok
  bind := andThen

end Logged

end CommandGrammar
