/-
A loop whose body can fail, goes on with another state or ends with a result. `run` iterates it with
fuel and fails with an error of its own when the fuel runs out. The rule for total correctness asks for
an invariant and a measure; what it concludes tells both how the loop ends and that it does.
-/
import Mathlib.Data.Nat.Basic

/-- The body of a loop: from a state it fails, goes on with a state, or ends with a result. -/
abbrev TryLoop (ε σ ρ : Type*) := σ → Except ε (σ ⊕ ρ)

namespace TryLoop

variable {ε σ ρ : Type*} (l : TryLoop ε σ ρ) (outOfFuel : ε)

/-- At most `fuel` iterations. -/
def run : (fuel : ℕ) → σ → Except ε ρ
  | 0, _ => .error outOfFuel
  | n + 1, s =>
    match l s with
    | .error e => .error e
    | .ok (.inl s') => run n s'
    | .ok (.inr r) => .ok r

/-- What an iteration may do in a state `s` with the invariant `I`, the measure `m` and the postcondition `Q`. -/
def Steps (I : σ → Prop) (m : σ → ℕ) (Q : Except ε ρ → Prop) (s : σ) : Except ε (σ ⊕ ρ) → Prop
  | .error e => Q (.error e)
  | .ok (.inl s') => I s' ∧ m s' < m s
  | .ok (.inr r) => Q (.ok r)

variable {l outOfFuel}

theorem run_error {e : ε} {s : σ} (n : ℕ) (h : l s = .error e) : l.run outOfFuel (n + 1) s = .error e := by
  simp only [run, h]

theorem run_next {s s' : σ} (n : ℕ) (h : l s = .ok (.inl s')) :
    l.run outOfFuel (n + 1) s = l.run outOfFuel n s' := by
  simp only [run, h]

theorem run_end {s : σ} {r : ρ} (n : ℕ) (h : l s = .ok (.inr r)) : l.run outOfFuel (n + 1) s = .ok r := by
  simp only [run, h]

/-- Total correctness: with fuel above the measure the loop ends, with a result or an error of its body that the
iterations vouch for. -/
theorem run_spec {I : σ → Prop} {m : σ → ℕ} {Q : Except ε ρ → Prop} (hstep : ∀ s, I s → Steps I m Q s (l s)) :
    ∀ {n : ℕ} {s : σ}, I s → m s < n → Q (l.run outOfFuel n s)
  | 0, s, _, hn => absurd hn (Nat.not_lt_zero _)
  | n + 1, s, hs, hn => by
    have h := hstep s hs
    rcases hl : l s with e | s' | r
    · rw [run_error n hl]
      rw [hl] at h
      exact h
    · rw [run_next n hl]
      rw [hl] at h
      exact run_spec hstep h.1 (lt_of_lt_of_le h.2 (Nat.le_of_lt_succ hn))
    · rw [run_end n hl]
      rw [hl] at h
      exact h

/-- Partial correctness: a result comes from a state with the invariant. -/
theorem run_inv {I : σ → Prop} {Q : ρ → Prop} (hstep : ∀ s s', I s → l s = .ok (.inl s') → I s')
    (hend : ∀ s r, I s → l s = .ok (.inr r) → Q r) :
    ∀ {n : ℕ} {s : σ} {r : ρ}, I s → l.run outOfFuel n s = .ok r → Q r
  | 0, s, r, _, hrun => by cases hrun
  | n + 1, s, r, hs, hrun => by
    rcases hl : l s with e | s' | r'
    · rw [run_error n hl] at hrun
      cases hrun
    · rw [run_next n hl] at hrun
      exact run_inv hstep hend (hstep s s' hs hl) hrun
    · rw [run_end n hl] at hrun
      cases hrun
      exact hend s r hs hl

end TryLoop
