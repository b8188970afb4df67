/-!
# Faults

Some operations make sense only where what they ask for is there: the next
character of a text that has not ended, the variable of a name that a scope
has, the quotient by a number that is not zero. Programs that use them do so
behind a guard, or because of something they know. A checked computation uses
the operations as they are, and stops with a fault where one of them is asked
for what is not there.
-/

namespace Scriptlet

/-- An operation that is asked for what is not there. -/
inductive Fault where
  /-- The next character at the end of a text. -/
  | character
  /-- The next round of a loop that does not move. -/
  | round
  /-- A scope outside the chain of an environment. -/
  | scope
  /-- The variable of a name in a scope that does not have it. -/
  | variable (name : String)
  /-- The quotient of a division by zero. -/
  | quotient
  /-- The remainder of an infinite dividend, or of a division by zero. -/
  | remainder

/-- A computation that may stop with a fault, or fail. -/
abbrev Checked (ε σ : Type) := EStateM (Fault ⊕ ε) σ

namespace Checked

variable {ε σ α β : Type}

/-- Stops with a fault. -/
def fault (f : Fault) : Checked ε σ α :=
  throw (.inl f)

/-- An outcome without a fault. -/
def outcome : EStateM.Result ε σ α → EStateM.Result (Fault ⊕ ε) σ α
  | .ok a t => .ok a t
  | .error e t => .error (.inr e) t

/-- A computation that has no operation to check. -/
def lift (x : EStateM ε σ α) : Checked ε σ α :=
  fun s => outcome (x s)

/-- The outcome of an operation that may be at fault. -/
def ofExcept : Except Fault α → Checked ε σ α
  | .ok a => pure a
  | .error f => fault f

/-- Computations one after the other have nothing to check if each has not. -/
theorem lift_bind (x : EStateM ε σ α) (f : α → EStateM ε σ β) :
    lift (x >>= f) = lift x >>= fun a => lift (f a) := by
  funext s
  change lift (EStateM.bind x f) s = EStateM.bind (lift x) (fun a => lift (f a)) s
  unfold lift EStateM.bind
  dsimp only
  cases x s <;> rfl

/-- After a success, the second of two computations goes on. -/
theorem bind_of_ok {x : Checked ε σ α} {f : α → Checked ε σ β} {s t : σ} {a : α}
    (h : x s = .ok a t) : (x >>= f) s = f a t := by
  change EStateM.bind x f s = f a t
  rw [EStateM.bind, h]

/-- After a fault or a failure, nothing follows. -/
theorem bind_of_error {x : Checked ε σ α} {f : α → Checked ε σ β} {s t : σ} {e : Fault ⊕ ε}
    (h : x s = .error e t) : (x >>= f) s = .error e t := by
  change EStateM.bind x f s = .error e t
  rw [EStateM.bind, h]

/-- What follows two computations that come to the same comes to the same. -/
theorem bind_congr {x y : Checked ε σ α} {f : α → Checked ε σ β} {s t : σ} (h : x s = y t) :
    (x >>= f) s = (y >>= f) t := by
  change EStateM.bind x f s = EStateM.bind y f t
  rw [EStateM.bind, EStateM.bind, h]

end Checked

end Scriptlet
