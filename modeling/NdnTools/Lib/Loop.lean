/-
A while loop on an explicit state, with fuel: `run` iterates the body as long as the guard holds,
`Each` says that every iteration starts in a state that meets a condition. The rules carry an
invariant through the loop, and show that fuel above a decreasing measure is enough: the guard
fails at the end.
-/
import Mathlib.Data.Nat.Basic

/-- A loop: its guard and its body. -/
structure Loop (σ : Type*) where
  guard : σ → Bool
  body : σ → σ

namespace Loop

variable {σ : Type*} (l : Loop σ)

/-- At most `fuel` iterations. -/
def run : (fuel : ℕ) → σ → σ
  | 0, s => s
  | n + 1, s => if l.guard s then run n (l.body s) else s

/-- Every iteration starts in a state that meets `P`. -/
def Each (P : σ → Prop) : (fuel : ℕ) → σ → Prop
  | 0, _ => True
  | n + 1, s => l.guard s = true → P s ∧ Each P n (l.body s)

instance decidableEach (P : σ → Prop) [DecidablePred P] : (fuel : ℕ) → (s : σ) → Decidable (l.Each P fuel s)
  | 0, _ => isTrue trivial
  | n + 1, s =>
    haveI := decidableEach P n (l.body s)
    inferInstanceAs (Decidable (l.guard s = true → P s ∧ l.Each P n (l.body s)))

/-- What `obs` notes of the states in which the iterations start, in order. -/
def log {τ : Type*} (obs : σ → List τ) : (fuel : ℕ) → σ → List τ
  | 0, _ => []
  | n + 1, s => if l.guard s then obs s ++ log obs n (l.body s) else []

theorem run_succ (n : ℕ) (s : σ) : l.run (n + 1) s = if l.guard s then l.run n (l.body s) else s := rfl

theorem log_succ {τ : Type*} (obs : σ → List τ) (n : ℕ) (s : σ) :
    l.log obs (n + 1) s = if l.guard s then obs s ++ l.log obs n (l.body s) else [] := rfl

variable {l}

/-- A loop that another follows iteration by iteration, in the states that `f` gives. -/
theorem run_map {τ : Type*} {l' : Loop τ} {f : σ → τ} (hguard : ∀ s, l'.guard (f s) = l.guard s)
    (hbody : ∀ s, l'.body (f s) = f (l.body s)) : ∀ (n : ℕ) (s : σ), l'.run n (f s) = f (l.run n s)
  | 0, _ => rfl
  | n + 1, s => by
    rw [run_succ, run_succ, hguard, hbody, run_map hguard hbody n]
    split <;> rfl

/-- An invariant of the iterations that meet `P` holds when the loop ends. -/
theorem run_inv {I P : σ → Prop} (hbody : ∀ s, l.guard s = true → I s → P s → I (l.body s)) :
    ∀ {n : ℕ} {s : σ}, I s → l.Each P n s → I (l.run n s)
  | 0, _, hs, _ => hs
  | n + 1, s, hs, hp => by
    rw [run_succ]
    split
    · rename_i hg
      exact run_inv hbody (hbody s hg hs (hp hg).1) (hp hg).2
    · exact hs

theorem Each.imp {P Q : σ → Prop} (h : ∀ s, P s → Q s) : ∀ {n : ℕ} {s : σ}, l.Each P n s → l.Each Q n s
  | 0, _, _ => trivial
  | _ + 1, _, hp => fun hg => ⟨h _ (hp hg).1, Each.imp h (hp hg).2⟩

theorem each_of_forall {P : σ → Prop} (h : ∀ s, P s) : ∀ {n : ℕ} {s : σ}, l.Each P n s
  | 0, _ => trivial
  | _ + 1, _ => fun _ => ⟨h _, each_of_forall h⟩

/-- An invariant of the state and of what was noted so far holds when the loop ends. -/
theorem run_log_inv {τ : Type*} {obs : σ → List τ} {I : σ → List τ → Prop}
    (hbody : ∀ s h, l.guard s = true → I s h → I (l.body s) (h ++ obs s)) :
    ∀ {n : ℕ} {s : σ} {h : List τ}, I s h → I (l.run n s) (h ++ l.log obs n s)
  | 0, s, h, hs => by rw [log, List.append_nil]; exact hs
  | n + 1, s, h, hs => by
    rw [run_succ, log_succ]
    split
    · rename_i hg
      rw [← List.append_assoc]
      exact run_log_inv hbody (hbody s h hg hs)
    · rw [List.append_nil]; exact hs

/-- A property of what is noted holds at the end exactly if it held at the start and every iteration
starts in a state that meets `c`. -/
theorem log_iff_each {τ : Type*} {obs : σ → List τ} {I : σ → List τ → Prop} {Q : List τ → Prop} {c : σ → Prop}
    (hbody : ∀ s h, l.guard s = true → I s h → I (l.body s) (h ++ obs s))
    (hiff : ∀ s h, l.guard s = true → I s h → (Q (h ++ obs s) ↔ Q h ∧ c s)) :
    ∀ {n : ℕ} {s : σ} {h : List τ}, I s h → (Q (h ++ l.log obs n s) ↔ Q h ∧ l.Each c n s)
  | 0, s, h, _ => by rw [log, List.append_nil]; exact (and_iff_left trivial).symm
  | n + 1, s, h, hs => by
    rw [log_succ]
    split
    · rename_i hg
      rw [← List.append_assoc, log_iff_each hbody hiff (hbody s h hg hs), hiff s h hg hs, and_assoc]
      exact and_congr_right fun _ => ⟨fun hc _ => hc, fun hc => hc hg⟩
    · rename_i hg
      rw [List.append_nil]
      exact (and_iff_left fun hg' => absurd hg' hg).symm

/-- With fuel above a measure that every iteration decreases the guard fails at the end. -/
theorem guard_run {m : σ → ℕ} (hdec : ∀ s, l.guard s = true → m (l.body s) < m s)
    (hzero : ∀ s, m s = 0 → l.guard s = false) : ∀ {n : ℕ} {s : σ}, m s ≤ n → l.guard (l.run n s) = false
  | 0, s, hn => hzero s (Nat.le_zero.1 hn)
  | n + 1, s, hn => by
    rw [run_succ]
    split
    · rename_i hg
      exact guard_run hdec hzero (Nat.le_of_lt_succ (lt_of_lt_of_le (hdec s hg) hn))
    · rename_i hg
      exact Bool.not_eq_true _ ▸ hg

end Loop
