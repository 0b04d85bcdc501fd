import SoapTypes.Notice

/-!
# Reports

A run of the generator tells what it did in a list of notices and ends in a value or an error.
Notices that came before an error are kept.
-/

namespace SoapTypes

/-- The notices of a run, and how it ended. -/
structure Report (ε α : Type) where
  notices : List Notice
  result : Except ε α

namespace Report

variable {ε ε' α β : Type}

/-- A run that ends in a value at once. -/
def ok (a : α) : Report ε α := ⟨[], .ok a⟩

/-- A run that fails at once. -/
def fail (e : ε) : Report ε α := ⟨[], .error e⟩

/-- A run that tells of notices only. -/
def tell (notices : List Notice) : Report ε Unit := ⟨notices, .ok ()⟩

/-- Goes on with the value of a run; an error ends it. -/
def bind (r : Report ε α) (f : α → Report ε β) : Report ε β :=
  match r.result with
  | .ok a =>
    let next := f a
    ⟨r.notices ++ next.notices, next.result⟩
  | .error e => ⟨r.notices, .error e⟩

instance : Monad (Report ε) where
  pure := ok
  bind := bind

@[simp] theorem pure_eq_ok (a : α) : (pure a : Report ε α) = ok a := rfl

@[simp] theorem bind_eq_bind (r : Report ε α) (f : α → Report ε β) : (r >>= f) = r.bind f := rfl

@[simp] theorem ok_bind (a : α) (f : α → Report ε β) : (ok a).bind f = f a := rfl

/-- The value of the last step is the value of the whole. -/
@[simp] theorem result_bind (r : Report ε α) (f : α → Report ε β) :
    (r.bind f).result = r.result.bind fun a => (f a).result := by
  rcases r with ⟨notices, result⟩
  cases result <;> rfl

/-- The notices of a step follow those of the steps before it. -/
theorem notices_bind_of_result_eq_ok {r : Report ε α} {a : α} (h : r.result = .ok a)
    (f : α → Report ε β) : (r.bind f).notices = r.notices ++ (f a).notices := by
  simp [bind, h]

/-- A run without notices. -/
def ofExcept (x : Except ε α) : Report ε α := ⟨[], x⟩

@[simp] theorem result_ok (a : α) : (ok a : Report ε α).result = .ok a := rfl

@[simp] theorem result_tell (notices : List Notice) :
    (tell notices : Report ε Unit).result = .ok () := rfl

@[simp] theorem result_ofExcept (x : Except ε α) : (ofExcept x).result = x := rfl

/-- The same run with its error seen as another kind of error. -/
def mapError (f : ε → ε') (r : Report ε α) : Report ε' α :=
  ⟨r.notices, r.result.mapError f⟩

/-- Runs `f` on each member of a list in order and keeps the values that it gives. -/
def collect (f : α → Report ε (Option β)) : List α → Report ε (List β)
  | [] => ok []
  | a :: as => (f a).bind fun b => (collect f as).bind fun bs => ok (b.toList ++ bs)

end Report

end SoapTypes
