import Mathlib

/-!
# Values with a trace

A computation that reads memory is modelled as its value *together with the
events it caused on the way* — the offsets it read, the buffers it freed, the
handlers it called. `Traced ε α` is that pair, and its monad is the obvious
one: sequencing appends the traces. Nothing is lost when a branch is cut
short, because a branch that does not run contributes no events.

A function written in this monad cannot use a byte without the read showing
up in its trace, which is what makes "every byte it reads lies inside the
buffer" a statement about the function itself and not about a second,
hand-kept list of offsets.
-/

namespace LinuxNet

/-- A value together with the events that computing it caused, oldest first. -/
structure Traced (ε α : Type) where
  val : α
  log : List ε

namespace Traced

variable {ε α β : Type}

/-- Cause one event. -/
def emit (e : ε) : Traced ε Unit := ⟨(), [e]⟩

instance : Monad (Traced ε) where
  pure a := ⟨a, []⟩
  bind x f := ⟨(f x.val).val, x.log ++ (f x.val).log⟩

@[simp] theorem val_emit (e : ε) : (emit e).val = () := rfl

@[simp] theorem log_emit (e : ε) : (emit e).log = [e] := rfl

@[simp] theorem val_pure (a : α) : (pure a : Traced ε α).val = a := rfl

@[simp] theorem log_pure (a : α) : (pure a : Traced ε α).log = [] := rfl

@[simp] theorem val_bind (x : Traced ε α) (f : α → Traced ε β) :
    (x >>= f).val = (f x.val).val := rfl

@[simp] theorem log_bind (x : Traced ε α) (f : α → Traced ε β) :
    (x >>= f).log = x.log ++ (f x.val).log := rfl

@[simp] theorem val_ite (c : Prop) [Decidable c] (x y : Traced ε α) :
    (if c then x else y).val = if c then x.val else y.val := by
  split <;> rfl

@[simp] theorem log_ite (c : Prop) [Decidable c] (x y : Traced ε α) :
    (if c then x else y).log = if c then x.log else y.log := by
  split <;> rfl

/-- The same computation with its events renamed. -/
abbrev mapLog {ε' : Type} (f : ε → ε') (x : Traced ε α) : Traced ε' α := ⟨x.val, x.log.map f⟩

/-! ## Events that are all good -/

/-- Every event the computation causes satisfies `p`. -/
def All (p : ε → Prop) (x : Traced ε α) : Prop := ∀ e ∈ x.log, p e

variable {p : ε → Prop}

@[simp] theorem all_pure (a : α) : All p (pure a : Traced ε α) := nofun

/-- A sequence is good exactly if both parts are. -/
@[simp] theorem all_bind (x : Traced ε α) (f : α → Traced ε β) :
    All p (x >>= f) ↔ All p x ∧ All p (f x.val) := by
  unfold All
  rw [log_bind]
  exact List.forall_mem_append

@[simp] theorem all_ite (c : Prop) [Decidable c] (x y : Traced ε α) :
    All p (if c then x else y) ↔ (c → All p x) ∧ (¬ c → All p y) := by
  split
  next h => simp [h]
  next h => simp [h]

end Traced

end LinuxNet
