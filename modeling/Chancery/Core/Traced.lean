/-
Computations that log what they do and may fail.

What was logged before a failure stays in the log. `logs_bind` splits a statement about every logged entry along a
computation, `value_bind` forgets the log.
Nothing here knows the repository.
-/
import Mathlib.Tactic
import Chancery.Core.Py

namespace Chancery.Core

structure Traced (κ ε α : Type) where
  log : List κ
  value : Except ε α

namespace Traced

variable {κ ε α β : Type} {P : κ → Prop}

instance : Monad (Traced κ ε) where
  pure a := ⟨[], .ok a⟩
  bind x f :=
    match x.value with
    | .error e => ⟨x.log, .error e⟩
    | .ok a => ⟨x.log ++ (f a).log, (f a).value⟩

/-- a computation that logs nothing -/
def lift (x : Except ε α) : Traced κ ε α := ⟨[], x⟩

def emit (k : κ) : Traced κ ε Unit := ⟨[k], .ok ()⟩

/-! ## Values -/

@[simp] theorem value_lift (x : Except ε α) : (lift x : Traced κ ε α).value = x := rfl

@[simp] theorem value_emit (k : κ) : (emit k : Traced κ ε Unit).value = .ok () := rfl

@[simp] theorem value_bind (x : Traced κ ε α) (f : α → Traced κ ε β) :
    (x >>= f).value = x.value >>= fun a => (f a).value := by
  show (match x.value with
    | .error e => (⟨x.log, .error e⟩ : Traced κ ε β)
    | .ok a => ⟨x.log ++ (f a).log, (f a).value⟩).value = _
  cases x.value <;> rfl

/-! ## Logs -/

/-- every logged entry has the property -/
def Logs (P : κ → Prop) (x : Traced κ ε α) : Prop := ∀ k ∈ x.log, P k

theorem logs_lift (x : Except ε α) : Logs P (lift x) := fun _ hk => absurd hk List.not_mem_nil

theorem logs_emit {k : κ} (h : P k) : Logs P (emit k : Traced κ ε Unit) := by
  intro k' hk'
  rw [List.mem_singleton.1 hk']
  exact h

theorem logs_bind {x : Traced κ ε α} {f : α → Traced κ ε β} (hx : Logs P x)
    (hf : ∀ a, x.value = .ok a → Logs P (f a)) : Logs P (x >>= f) := by
  have hlog : (x >>= f).log = match x.value with
      | .error _ => x.log
      | .ok a => x.log ++ (f a).log := by
    show (match x.value with
      | .error e => (⟨x.log, .error e⟩ : Traced κ ε β)
      | .ok a => ⟨x.log ++ (f a).log, (f a).value⟩).log = _
    cases x.value <;> rfl
  intro k hk
  rw [hlog] at hk
  cases hv : x.value with
  | error e =>
    rw [hv] at hk
    exact hx k hk
  | ok a =>
    rw [hv] at hk
    rcases List.mem_append.1 hk with hk | hk
    · exact hx k hk
    · exact hf a hv k hk

/-- nothing is logged by what is lifted -/
theorem logs_lift_bind {x : Except ε α} {f : α → Traced κ ε β} (hf : ∀ a, x = .ok a → Logs P (f a)) :
    Logs P (lift x >>= f) := logs_bind (logs_lift x) hf

end Traced

end Chancery.Core
