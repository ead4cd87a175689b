/-
Runs of a deterministic transition system: a state, a step function and an enabling condition.
A run is a list of events, each enabled in the state before it; `Each` says that every step of a
run meets a condition on the state before it and the event, `Always` that every state the run
visits has a property. The rules carry an invariant along a run, and turn a step-level
equivalence between a condition and a property into the equivalence for whole runs.
-/
import Mathlib.Data.List.Basic

/-- A deterministic transition system. -/
structure Machine (σ ε : Type*) where
  enabled : σ → ε → Prop
  step : σ → ε → σ

namespace Machine

variable {σ ε : Type*} (m : Machine σ ε)

/-- The state a list of events leads to. -/
def exec (s : σ) (es : List ε) : σ := es.foldl m.step s

/-- Every event is enabled in the state before it. -/
def Runs : σ → List ε → Prop
  | _, [] => True
  | s, e :: es => m.enabled s e ∧ Runs (m.step s e) es

/-- Every step meets the condition `c` on the state before it and its event. -/
def Each (c : σ → ε → Prop) : σ → List ε → Prop
  | _, [] => True
  | s, e :: es => c s e ∧ Each c (m.step s e) es

/-- Every state visited, the first and the last included, has the property `P`. -/
def Always (P : σ → Prop) : σ → List ε → Prop
  | s, [] => P s
  | s, e :: es => P s ∧ Always P (m.step s e) es

/-- What `obs` notes of the steps of a run, in order. -/
def log {τ : Type*} (obs : σ → ε → List τ) : σ → List ε → List τ
  | _, [] => []
  | s, e :: es => obs s e ++ log obs (m.step s e) es

/-- What is seen of the states of a run, the first and the last included. -/
def trace {τ : Type*} (view : σ → τ) : σ → List ε → List τ
  | s, [] => [view s]
  | s, e :: es => view s :: trace view (m.step s e) es

/-- The system in which an event that is not enabled does nothing. -/
def skipping [∀ s e, Decidable (m.enabled s e)] : Machine σ ε where
  enabled _ _ := True
  step s e := if m.enabled s e then m.step s e else s

instance decidableRuns [∀ s e, Decidable (m.enabled s e)] : (s : σ) → (es : List ε) → Decidable (m.Runs s es)
  | _, [] => isTrue trivial
  | s, e :: es =>
    haveI := decidableRuns (m.step s e) es
    inferInstanceAs (Decidable (m.enabled s e ∧ m.Runs (m.step s e) es))

instance decidableEach (c : σ → ε → Prop) [∀ s e, Decidable (c s e)] :
    (s : σ) → (es : List ε) → Decidable (m.Each c s es)
  | _, [] => isTrue trivial
  | s, e :: es =>
    haveI := decidableEach c (m.step s e) es
    inferInstanceAs (Decidable (c s e ∧ m.Each c (m.step s e) es))

@[simp] theorem exec_nil (s : σ) : m.exec s [] = s := rfl

@[simp] theorem exec_cons (s : σ) (e : ε) (es : List ε) : m.exec s (e :: es) = m.exec (m.step s e) es := rfl

theorem exec_append (s : σ) (es es' : List ε) : m.exec s (es ++ es') = m.exec (m.exec s es) es' :=
  List.foldl_append

@[simp] theorem runs_nil (s : σ) : m.Runs s [] := trivial

@[simp] theorem runs_cons (s : σ) (e : ε) (es : List ε) :
    m.Runs s (e :: es) ↔ m.enabled s e ∧ m.Runs (m.step s e) es := Iff.rfl

theorem runs_append (s : σ) (es es' : List ε) :
    m.Runs s (es ++ es') ↔ m.Runs s es ∧ m.Runs (m.exec s es) es' := by
  induction es generalizing s with
  | nil => simp
  | cons e es ih => simp [ih, and_assoc]

@[simp] theorem each_nil (c : σ → ε → Prop) (s : σ) : m.Each c s [] := trivial

@[simp] theorem each_cons (c : σ → ε → Prop) (s : σ) (e : ε) (es : List ε) :
    m.Each c s (e :: es) ↔ c s e ∧ m.Each c (m.step s e) es := Iff.rfl

/-- A condition on every step, said of the places where a run can be split. -/
theorem each_iff_split (c : σ → ε → Prop) {s : σ} {es : List ε} :
    m.Each c s es ↔ ∀ before e after, es = before ++ e :: after → c (m.exec s before) e := by
  constructor
  · rintro h before e after rfl
    induction before generalizing s with
    | nil => exact h.1
    | cons e' before ih => exact ih h.2
  · intro h
    induction es generalizing s with
    | nil => trivial
    | cons e es ih => exact ⟨h [] e es rfl, ih fun before e' after heq => h (e :: before) e' after (by rw [heq]; rfl)⟩

theorem log_append {τ : Type*} (obs : σ → ε → List τ) (s : σ) (es es' : List ε) :
    m.log obs s (es ++ es') = m.log obs s es ++ m.log obs (m.exec s es) es' := by
  induction es generalizing s with
  | nil => rfl
  | cons e es ih => rw [List.cons_append, log, log, ih, List.append_assoc, exec_cons]

variable {m}

/-- What was noted was noted of some step. -/
theorem of_mem_log {τ : Type*} {obs : σ → ε → List τ} {t : τ} :
    ∀ {s : σ} {es : List ε}, t ∈ m.log obs s es → ∃ s' e, e ∈ es ∧ t ∈ obs s' e
  | s, e :: es, h => by
    rcases List.mem_append.1 h with h | h
    · exact ⟨s, e, List.mem_cons_self, h⟩
    · obtain ⟨s', e', he', h'⟩ := of_mem_log h
      exact ⟨s', e', List.mem_cons_of_mem _ he', h'⟩

/-- Where every event is enabled, any events are a run. -/
theorem runs_of_enabled (h : ∀ s e, m.enabled s e) : ∀ (s : σ) (es : List ε), m.Runs s es
  | _, [] => trivial
  | s, e :: es => ⟨h s e, runs_of_enabled h (m.step s e) es⟩

theorem each_of_runs : ∀ {s : σ} {es : List ε}, m.Runs s es → m.Each m.enabled s es
  | _, [], _ => trivial
  | _, _ :: _, hr => ⟨hr.1, each_of_runs hr.2⟩

section
variable {τ : Type*} {m' : Machine τ ε} {f : σ → τ} (hstep : ∀ s e, m'.step (f s) e = f (m.step s e))
include hstep

/-- A machine that another follows step by step, in the states that `f` gives. -/
theorem exec_map : ∀ (s : σ) (es : List ε), m'.exec (f s) es = f (m.exec s es)
  | _, [] => rfl
  | s, e :: es => by rw [exec_cons, exec_cons, hstep, exec_map (m.step s e) es]

/-- What is noted of both machines is the same if it is at every step. -/
theorem log_map {ρ : Type*} {obs : σ → ε → List ρ} {obs' : τ → ε → List ρ}
    (hobs : ∀ s e, obs' (f s) e = obs s e) :
    ∀ (s : σ) (es : List ε), m'.log obs' (f s) es = m.log obs s es
  | _, [] => rfl
  | s, e :: es => by rw [log, log, hobs, hstep, log_map hobs (m.step s e) es]

theorem runs_map (henabled : ∀ s e, m'.enabled (f s) e ↔ m.enabled s e) :
    ∀ (s : σ) (es : List ε), m'.Runs (f s) es ↔ m.Runs s es
  | _, [] => Iff.rfl
  | s, e :: es => by rw [runs_cons, runs_cons, henabled, hstep, runs_map henabled (m.step s e) es]

end

theorem Always.head {P : σ → Prop} : ∀ {s : σ} {es : List ε}, m.Always P s es → P s
  | _, [], h => h
  | _, _ :: _, h => h.1

theorem Always.imp {P Q : σ → Prop} (h : ∀ s, P s → Q s) :
    ∀ {s : σ} {es : List ε}, m.Always P s es → m.Always Q s es
  | _, [], hp => h _ hp
  | _, _ :: _, hp => ⟨h _ hp.1, Always.imp h hp.2⟩

theorem each_and {c q : σ → ε → Prop} {s : σ} {es : List ε} :
    m.Each (fun s e => c s e ∧ q s e) s es ↔ m.Each c s es ∧ m.Each q s es := by
  induction es generalizing s with
  | nil => simp
  | cons e es ih => simp only [each_cons, ih, and_and_and_comm]

theorem Each.imp {c q : σ → ε → Prop} (h : ∀ s e, c s e → q s e) :
    ∀ {s : σ} {es : List ε}, m.Each c s es → m.Each q s es
  | _, [], _ => trivial
  | _, _ :: _, hc => ⟨h _ _ hc.1, Each.imp h hc.2⟩

/-- A condition on the events alone, added to one on the steps. -/
theorem Each.and_of_mem {c : σ → ε → Prop} {q : ε → Prop} :
    ∀ {s : σ} {es : List ε}, m.Each c s es → (∀ e ∈ es, q e) → m.Each (fun s e => c s e ∧ q e) s es
  | _, [], _, _ => trivial
  | _, _ :: _, hc, hq =>
    ⟨⟨hc.1, hq _ List.mem_cons_self⟩, Each.and_of_mem hc.2 fun e he => hq e (List.mem_cons_of_mem _ he)⟩

/-- An invariant of the steps that meet `c` holds in every state of a run of such steps. -/
theorem always_of_inv {I : σ → Prop} {c : σ → ε → Prop}
    (hstep : ∀ s e, I s → m.enabled s e → c s e → I (m.step s e)) :
    ∀ {s : σ} {es : List ε}, I s → m.Runs s es → m.Each c s es → m.Always I s es
  | _, [], hs, _, _ => hs
  | s, e :: _, hs, hr, hc => ⟨hs, always_of_inv hstep (hstep s e hs hr.1 hc.1) hr.2 hc.2⟩

/-- An invariant of every step holds in every state of a run. -/
theorem always_of_step {I : σ → Prop} (hstep : ∀ s e, I s → m.enabled s e → I (m.step s e)) :
    ∀ {s : σ} {es : List ε}, I s → m.Runs s es → m.Always I s es
  | _, [], hs, _ => hs
  | s, e :: _, hs, hr => ⟨hs, always_of_step hstep (hstep s e hs hr.1) hr.2⟩

theorem always_last {P : σ → Prop} : ∀ (s : σ) (es : List ε), m.Always P s es → P (m.exec s es)
  | _, [], h => h
  | s, e :: es, h => always_last (m.step s e) es h.2

/-- What holds of a step between two states of an invariant holds of every step of a run. -/
theorem each_of_always {J : σ → Prop} {c : σ → ε → Prop}
    (h : ∀ s e, J s → m.enabled s e → J (m.step s e) → c s e) :
    ∀ {s : σ} {es : List ε}, m.Runs s es → m.Always J s es → m.Each c s es
  | _, [], _, _ => trivial
  | s, e :: _, hr, ha => ⟨h s e ha.1 hr.1 ha.2.head, each_of_always h hr.2 ha.2⟩

/-- Conditions that agree under an invariant hold of the same runs. -/
theorem each_congr {J : σ → Prop} {c q : σ → ε → Prop} (h : ∀ s e, J s → m.enabled s e → (c s e ↔ q s e)) :
    ∀ {s : σ} {es : List ε}, m.Runs s es → m.Always J s es → (m.Each c s es ↔ m.Each q s es)
  | _, [], _, _ => Iff.rfl
  | s, e :: _, hr, ha => and_congr (h s e ha.1 hr.1) (each_congr h hr.2 ha.2)

/-- The property holds throughout a run exactly when every step meets the condition: steps that
meet it keep the invariant, which gives the property; a step from an invariant state that does
not meet it ends without the property. `q` is what the steps of the run are promised to meet. -/
theorem always_iff_each_of {I P : σ → Prop} {q c : σ → ε → Prop} (hsound : ∀ s, I s → P s)
    (hstep : ∀ s e, I s → m.enabled s e → q s e → c s e → I (m.step s e))
    (hcond : ∀ s e, I s → m.enabled s e → q s e → P (m.step s e) → c s e) :
    ∀ {s : σ} {es : List ε}, I s → m.Runs s es → m.Each q s es → (m.Always P s es ↔ m.Each c s es)
  | s, [], hs, _, _ => ⟨fun _ => trivial, fun _ => hsound s hs⟩
  | s, e :: es, hs, hr, hq => by
    constructor
    · rintro ⟨-, ha⟩
      have hc := hcond s e hs hr.1 hq.1 ha.head
      exact ⟨hc, (always_iff_each_of hsound hstep hcond (hstep s e hs hr.1 hq.1 hc) hr.2 hq.2).1 ha⟩
    · rintro ⟨hc, hes⟩
      exact ⟨hsound s hs, (always_iff_each_of hsound hstep hcond (hstep s e hs hr.1 hq.1 hc) hr.2 hq.2).2 hes⟩

theorem always_iff_each {I P : σ → Prop} {c : σ → ε → Prop} (hsound : ∀ s, I s → P s)
    (hstep : ∀ s e, I s → m.enabled s e → c s e → I (m.step s e))
    (hcond : ∀ s e, I s → m.enabled s e → P (m.step s e) → c s e) {s : σ} {es : List ε}
    (hs : I s) (hr : m.Runs s es) : m.Always P s es ↔ m.Each c s es :=
  always_iff_each_of (q := m.enabled) hsound (fun s e hi he _ => hstep s e hi he)
    (fun s e hi he _ => hcond s e hi he) hs hr (each_of_runs hr)

/-- An invariant of the state and of what was noted so far holds at the end of a run. -/
theorem exec_log_inv {τ : Type*} {obs : σ → ε → List τ} {I : σ → List τ → Prop}
    (hstep : ∀ s h e, I s h → m.enabled s e → I (m.step s e) (h ++ obs s e)) :
    ∀ {s : σ} {h : List τ} {es : List ε}, I s h → m.Runs s es → I (m.exec s es) (h ++ m.log obs s es)
  | s, h, [], hs, _ => by rw [log, List.append_nil]; exact hs
  | s, h, e :: es, hs, hr => by
    rw [exec_cons, log, ← List.append_assoc]
    exact exec_log_inv hstep (hstep s h e hs hr.1) hr.2

/-- A property of what is noted holds at the end of a run exactly if it held at the start and every
step meets the condition `c`. -/
theorem log_iff_each {τ : Type*} {obs : σ → ε → List τ} {I : σ → List τ → Prop} {Q : List τ → Prop}
    {c : σ → ε → Prop} (hstep : ∀ s h e, I s h → m.enabled s e → I (m.step s e) (h ++ obs s e))
    (hiff : ∀ s h e, I s h → m.enabled s e → (Q (h ++ obs s e) ↔ Q h ∧ c s e)) :
    ∀ {s : σ} {h : List τ} {es : List ε}, I s h → m.Runs s es → (Q (h ++ m.log obs s es) ↔ Q h ∧ m.Each c s es)
  | s, h, [], _, _ => by rw [log, List.append_nil]; exact (and_iff_left trivial).symm
  | s, h, e :: es, hs, hr => by
    rw [log, ← List.append_assoc, log_iff_each hstep hiff (hstep s h e hs hr.1) hr.2, hiff s h e hs hr.1,
      and_assoc, each_cons]

/-- A machine each of whose steps is a run of another, as `view` sees it, is that machine along what `obs` notes. -/
theorem simulates {ρ δ : Type*} {m' : Machine ρ δ} (view : σ → ρ) {obs : σ → ε → List δ} {I : σ → Prop}
    (hstep : ∀ s e, I s → m.enabled s e → I (m.step s e))
    (hsim : ∀ s e, I s → m.enabled s e →
      m'.Runs (view s) (obs s e) ∧ m'.exec (view s) (obs s e) = view (m.step s e)) :
    ∀ {s : σ} {es : List ε}, I s → m.Runs s es →
      m'.Runs (view s) (m.log obs s es) ∧ m'.exec (view s) (m.log obs s es) = view (m.exec s es)
  | _, [], _, _ => ⟨trivial, rfl⟩
  | s, e :: es, hs, hr => by
    obtain ⟨hruns, hexec⟩ := hsim s e hs hr.1
    obtain ⟨hruns', hexec'⟩ := simulates view hstep hsim (hstep s e hs hr.1) hr.2
    rw [log, runs_append, exec_append, hexec]
    exact ⟨⟨hruns, hruns'⟩, hexec'⟩

/-- The events that are kept are a run by themselves, to a state and with notes as in the whole run, if they meet
the same in states that `R` relates and the others change nothing that `R` sees. -/
theorem runs_filter {τ : Type*} {R : σ → σ → Prop} {keep : ε → Bool} {obs : σ → ε → List τ} {c : σ → ε → Prop}
    (hkept : ∀ s t e, R s t → m.enabled s e → keep e = true →
      m.enabled t e ∧ R (m.step s e) (m.step t e) ∧ obs s e = obs t e)
    (hdropped : ∀ s t e, R s t → m.enabled s e → c s e → R (m.step s e) t) :
    ∀ {s t : σ} {es : List ε}, R s t → m.Runs s es → m.Each (fun s e => keep e = false → c s e) s es →
      m.Runs t (es.filter keep) ∧ R (m.exec s es) (m.exec t (es.filter keep)) ∧
        m.log (fun s e => if keep e then obs s e else []) s es = m.log obs t (es.filter keep)
  | _, _, [], hR, _, _ => ⟨trivial, hR, rfl⟩
  | s, t, e :: es, hR, hr, hc => by
    cases hkeep : keep e with
    | true =>
      obtain ⟨henabled, hstep, hobs⟩ := hkept s t e hR hr.1 hkeep
      obtain ⟨hruns, hexec, hlog⟩ := runs_filter hkept hdropped hstep hr.2 hc.2
      rw [List.filter_cons_of_pos hkeep, log, log, if_pos hkeep, hobs, hlog]
      exact ⟨⟨henabled, hruns⟩, hexec, rfl⟩
    | false =>
      have hno : ¬ keep e = true := by rw [hkeep]; nofun
      have hstep := hdropped s t e hR hr.1 (hc.1 hkeep)
      obtain ⟨hruns, hexec, hlog⟩ := runs_filter hkept hdropped hstep hr.2 hc.2
      rw [List.filter_cons_of_neg hno, log, if_neg hno, List.nil_append, hlog]
      exact ⟨hruns, hexec, rfl⟩

/-- Steps that are counted lower the potential, and the others do not raise it. -/
theorem countP_add_le {I : σ → Prop} {counted : ε → Bool} {potential : σ → ℕ}
    (hstep : ∀ s e, I s → m.enabled s e → I (m.step s e))
    (hle : ∀ s e, I s → m.enabled s e → potential (m.step s e) ≤ potential s)
    (hlt : ∀ s e, I s → m.enabled s e → counted e = true → potential (m.step s e) < potential s) :
    ∀ {s : σ} {es : List ε}, I s → m.Runs s es → es.countP counted + potential (m.exec s es) ≤ potential s
  | s, [], _, _ => by simp
  | s, e :: es, hs, hr => by
    have ih := countP_add_le hstep hle hlt (hstep s e hs hr.1) hr.2
    have hle' := hle s e hs hr.1
    rw [exec_cons, List.countP_cons]
    by_cases hc : counted e = true
    · have hlt' := hlt s e hs hr.1 hc
      rw [if_pos hc]
      omega
    · rw [if_neg hc]
      omega

/-! ## Families -/

section
variable {ι τ : Type*} {m : ι → Machine σ ε} {c : σ → ε → Prop} {view : σ → τ}

/-- Machines that take the same steps where a condition is met show the same along runs that meet it. -/
theorem trace_eq_of_each (hsame : ∀ i j s e, (m i).enabled s e → c s e → (m i).step s e = (m j).step s e)
    (i j : ι) : ∀ {s : σ} {es : List ε}, (m i).Runs s es → (m i).Each c s es →
      (m i).trace view s es = (m j).trace view s es
  | _, [], _, _ => rfl
  | s, e :: es, hr, hc => by
    rw [trace, trace, ← hsame i j s e hr.1 hc.1]
    exact congrArg _ (trace_eq_of_each hsame i j hr.2 hc.2)

/-- Whatever the member of the family, the run shows the same; and so does every part of it from the start. -/
def Determined (m : ι → Machine σ ε) (view : σ → τ) (s : σ) (es : List ε) : Prop :=
  ∀ before, before <+: es → ∀ i j, (m i).Runs s before → (m j).Runs s before →
    (m i).trace view s before = (m j).trace view s before

/-- A run shows the same for all members exactly if its steps meet the condition, when two members
differ in what they show after a step that does not. -/
theorem determined_iff_each (hsame : ∀ i j s e, (m i).enabled s e → c s e → (m i).step s e = (m j).step s e)
    (henabled : ∀ i j s e, (m i).enabled s e → (m j).enabled s e)
    (hdiffer : ∀ i s e, (m i).enabled s e → ¬ c s e → ∃ j k, view ((m j).step s e) ≠ view ((m k).step s e))
    (i : ι) {s : σ} {es : List ε} (hr : (m i).Runs s es) : Determined m view s es ↔ (m i).Each c s es := by
  constructor
  · intro h
    induction es generalizing s with
    | nil => trivial
    | cons e es ih =>
      have hc : c s e := by
        by_contra hno
        obtain ⟨j, k, hne⟩ := hdiffer i s e hr.1 hno
        have heq := h [e] ⟨es, rfl⟩ j k ⟨henabled i j s e hr.1, trivial⟩ ⟨henabled i k s e hr.1, trivial⟩
        simp only [trace, List.cons.injEq, and_true, true_and] at heq
        exact hne heq
      refine ⟨hc, ih hr.2 fun before hb j k hj hk => ?_⟩
      have hstep : ∀ l, (m l).step s e = (m i).step s e := fun l => hsame l i s e (henabled i l s e hr.1) hc
      have hruns : ∀ l, (m l).Runs ((m i).step s e) before → (m l).Runs s (e :: before) := fun l hl =>
        ⟨henabled i l s e hr.1, by rw [hstep l]; exact hl⟩
      have heq := h (e :: before) (List.cons_prefix_cons.2 ⟨rfl, hb⟩) j k (hruns j hj) (hruns k hk)
      rw [trace, trace, hstep j, hstep k] at heq
      exact (List.cons.inj heq).2
  · rintro h before ⟨after, rfl⟩ j k hj hk
    have hc : (m i).Each c s before := by
      rw [each_iff_split] at h ⊢
      rintro bs e as rfl
      exact h bs e (as ++ after) (by simp)
    have hi := ((m i).runs_append s before after).1 hr
    rw [← trace_eq_of_each hsame i j hi.1 hc, ← trace_eq_of_each hsame i k hi.1 hc]

end

end Machine
