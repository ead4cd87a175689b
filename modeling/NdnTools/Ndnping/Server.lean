/-
The ndnping server: `PingServer`, which answers each Interest under its prefix with Data of that name, and
the `Runner`, which has the filter unset when `nMaxPings` Interests have been satisfied, or on an interrupt.
The Face unsets it later, and hands on Interests until then.
-/
import NdnTools.Ndnping.Client

namespace NdnTools.Ndnping

/-- The options of the server. -/
structure ServerOptions where
  /-- `prefix`. -/
  registered : Name
  freshnessPeriod : Time
  shouldLimitSatisfied : Bool
  nMaxPings : ℤ
  payloadSize : ℕ
  deriving Repr, DecidableEq

structure PingData where
  name : Name
  freshnessPeriod : Time
  content : Bytes
  deriving Repr, DecidableEq

/-- What the Face does with Interests under the name of the server. -/
inductive Filter
  | registering
  | set
  | unset
  deriving Repr, DecidableEq

/-- The server, with the Face. -/
structure PingServer where
  options : ServerOptions
  name : Name
  nPings : ℤ
  payload : Bytes
  filter : Filter
  /-- The Face has been asked to unset the filter, and has not got to it. -/
  isUnsetting : Bool
  /-- What was put to the Face; not read. -/
  put : List PingData
  /-- `m_nPings` at each emission of `afterFinish`; not read. -/
  finished : List ℤ
  /-- What was thrown past `Runner::run`, which catches only a `std::exception`. -/
  thrown : Option String
  deriving Repr, DecidableEq

namespace PingServer

def create (options : ServerOptions) : PingServer where
  options := options
  name := options.registered
  nPings := 0
  payload := List.replicate options.payloadSize 'a'.toUInt8
  filter := .registering
  isUnsetting := false
  put := []
  finished := []
  thrown := none

/-- The Face registers the prefix, and sets the filter when that has succeeded. -/
def start (options : ServerOptions) : PingServer :=
  { create options with name := options.registered ++ [("ping" : Component)], filter := .registering }

def stop (s : PingServer) : PingServer := { s with isUnsetting := true }

/-- `afterFinish` is connected to `cancel`, which stops the server. -/
def afterFinish (s : PingServer) : PingServer := { s with finished := s.finished ++ [s.nPings] }.stop

/-- The Data that satisfies an Interest. -/
def answer (interestName : Name) (s : PingServer) : PingData := ⟨interestName, s.options.freshnessPeriod, s.payload⟩

def onInterest (interestName : Name) (s : PingServer) : PingServer :=
  let s := { s with put := s.put ++ [s.answer interestName] }
  let s := { s with nPings := s.nPings + 1 }
  if s.options.shouldLimitSatisfied = true ∧ 0 < s.options.nMaxPings ∧ s.options.nMaxPings = s.nPings then s.afterFinish
  else s

def onRegisterFailed (reason : String) (s : PingServer) : PingServer :=
  { s with thrown := some ("Failed to register prefix in local hub's daemon, REASON: " ++ reason) }

/-- The Face has registered the prefix or failed to, hands on an Interest, or gets to unsetting the filter, which
does nothing while there is none; or the user interrupts. -/
inductive Event
  | registered
  | registerFailed (reason : String)
  | interest (name : Name)
  | unset
  | interrupt
  deriving Repr, DecidableEq

def step (s : PingServer) : Event → PingServer
  | .registered => { s with filter := .set }
  | .registerFailed reason => onRegisterFailed reason s
  | .interest name => onInterest name s
  | .unset => { s with isUnsetting := false, filter := if s.filter = .set then .unset else s.filter }
  | .interrupt => stop s

/-- Nothing happens after the program has ended with an exception. -/
def enabled (s : PingServer) : Event → Prop
  | .registered => s.thrown = none ∧ s.filter = .registering
  | .registerFailed _ => s.thrown = none ∧ s.filter = .registering
  | .interest name => s.thrown = none ∧ s.filter = .set ∧ s.name <+: name
  | .unset => s.thrown = none ∧ s.isUnsetting = true
  | .interrupt => s.thrown = none

instance (s : PingServer) : (e : Event) → Decidable (enabled s e)
  | .registered => inferInstanceAs (Decidable (_ ∧ _))
  | .registerFailed _ => inferInstanceAs (Decidable (_ ∧ _))
  | .interest name => inferInstanceAs (Decidable (_ ∧ _ ∧ s.name <+: name))
  | .unset => inferInstanceAs (Decidable (_ ∧ _))
  | .interrupt => inferInstanceAs (Decidable (_ = _))

def machine : Machine PingServer Event := ⟨enabled, step⟩

instance (s : PingServer) (e : Event) : Decidable (machine.enabled s e) := inferInstanceAs (Decidable (enabled s e))

/-- The Interest that an event hands on. -/
def interests : Event → List Name
  | .interest name => [name]
  | _ => []

/-! ## What a run keeps -/

variable {options : ServerOptions} {s : PingServer}

/-- The server finishes when it has answered this many Interests. -/
def Limit (options : ServerOptions) (n : ℤ) : Prop :=
  options.shouldLimitSatisfied = true ∧ 0 < n ∧ options.nMaxPings = n

instance (options : ServerOptions) (n : ℤ) : Decidable (Limit options n) := inferInstanceAs (Decidable (_ ∧ _ ∧ _))

/-- After the Interests `names`. -/
structure Served (options : ServerOptions) (names : List Name) (s : PingServer) : Prop where
  sameOptions : s.options = options
  name : s.name = options.registered ++ [("ping" : Component)]
  payload : s.payload = List.replicate options.payloadSize 'a'.toUInt8
  put : s.put = names.map fun name => ⟨name, options.freshnessPeriod, List.replicate options.payloadSize 'a'.toUInt8⟩
  counted : s.nPings = names.length
  under : ∀ name ∈ names, s.name <+: name
  finished : s.finished = if Limit options options.nMaxPings ∧ options.nMaxPings ≤ names.length
    then [options.nMaxPings] else []
  stopping : s.finished ≠ [] → s.filter = .unset ∨ s.filter = .set ∧ s.isUnsetting = true
  running : s.filter ≠ .registering → s.thrown = none

theorem served_start (options : ServerOptions) : Served options [] (start options) where
  sameOptions := rfl
  name := rfl
  payload := rfl
  put := rfl
  counted := rfl
  under := nofun
  finished := by
    rw [if_neg]
    · rfl
    · rintro ⟨hlimit, hle⟩
      exact absurd hlimit.2.1 (not_lt.2 hle)
  stopping h := absurd rfl h
  running _ := rfl

/-- Where `onInterest` finishes, and what it does otherwise. -/
theorem onInterest_cases (name : Name) (s : PingServer) :
    Limit s.options (s.nPings + 1) ∧
      onInterest name s = { s with put := s.put ++ [s.answer name]
                                   nPings := s.nPings + 1
                                   finished := s.finished ++ [s.nPings + 1]
                                   isUnsetting := true } ∨
    ¬ Limit s.options (s.nPings + 1) ∧
      onInterest name s = { s with put := s.put ++ [s.answer name], nPings := s.nPings + 1 } := by
  unfold onInterest
  dsimp only
  split
  · rename_i hlimit
    obtain ⟨hshould, hpos, heq⟩ := hlimit
    exact .inl ⟨⟨hshould, heq ▸ hpos, heq⟩, rfl⟩
  · rename_i hno
    exact .inr ⟨fun hlimit => hno ⟨hlimit.1, hlimit.2.2 ▸ hlimit.2.1, hlimit.2.2⟩, rfl⟩

theorem onInterest_effect (name : Name) (s : PingServer) :
    (onInterest name s).put = s.put ++ [s.answer name] ∧ (onInterest name s).filter = s.filter ∧
      (onInterest name s).thrown = s.thrown := by
  rcases onInterest_cases name s with ⟨-, heq⟩ | ⟨-, heq⟩
  · rw [heq]
    exact ⟨rfl, rfl, rfl⟩
  · rw [heq]
    exact ⟨rfl, rfl, rfl⟩

theorem Served.onInterest {names : List Name} (h : Served options names s) {name : Name} (hset : s.filter = .set)
    (hunder : s.name <+: name) : Served options (names ++ [name]) (onInterest name s) := by
  have hcounted := h.counted
  have hput : s.put ++ [s.answer name] = (names ++ [name]).map fun name =>
      (⟨name, options.freshnessPeriod, List.replicate options.payloadSize 'a'.toUInt8⟩ : PingData) := by
    rw [h.put, List.map_append, answer, h.sameOptions, h.payload]
    rfl
  have hlength : s.nPings + 1 = (names ++ [name]).length := by
    rw [hcounted, List.length_append]
    rfl
  have hunder' : ∀ name' ∈ names ++ [name], s.name <+: name' := by
    intro name' hname'
    rcases List.mem_append.1 hname' with hname' | hname'
    · exact h.under name' hname'
    · rw [List.mem_singleton.1 hname']
      exact hunder
  rcases onInterest_cases name s with ⟨hlimit, heq⟩ | ⟨hno, heq⟩
  · rw [h.sameOptions] at hlimit
    have hmax := hlimit.2.2
    -- the limit has just been reached, so it had not been before
    have hnone : s.finished = [] := by
      rw [h.finished, if_neg]
      rintro ⟨-, hle⟩
      omega
    rw [heq]
    refine ⟨h.sameOptions, h.name, h.payload, hput, hlength, hunder', ?_, fun _ => .inr ⟨hset, rfl⟩, h.running⟩
    rw [if_pos ⟨hmax ▸ hlimit, by omega⟩, hmax]
    show s.finished ++ _ = _
    rw [hnone, List.nil_append]
  · rw [h.sameOptions] at hno
    rw [heq]
    refine ⟨h.sameOptions, h.name, h.payload, hput, hlength, hunder', ?_, h.stopping, h.running⟩
    show s.finished = _
    rw [h.finished]
    refine if_congr (and_congr_right fun hlimit => ?_) rfl rfl
    rw [← hlength]
    constructor
    · intro hle
      omega
    · intro hle
      by_contra hlt
      exact hno ⟨hlimit.1, by omega, by omega⟩

/-- Only the filter changes. -/
theorem Served.filter {names : List Name} (h : Served options names s) {filter : Filter} {isUnsetting : Bool}
    {thrown : Option String} (hstop : s.finished ≠ [] → filter = .unset ∨ filter = .set ∧ isUnsetting = true)
    (hrun : filter ≠ .registering → thrown = none) :
    Served options (names ++ []) { s with filter := filter, isUnsetting := isUnsetting, thrown := thrown } := by
  rw [List.append_nil]
  exact ⟨h.sameOptions, h.name, h.payload, h.put, h.counted, h.under, h.finished, hstop, hrun⟩

theorem Served.step {names : List Name} (h : Served options names s) {e : Event} (he : enabled s e) :
    Served options (names ++ interests e) (step s e) := by
  cases e with
  | registered =>
    refine h.filter (fun hne => ?_) fun _ => he.1
    rcases h.stopping hne with hun | ⟨hset, -⟩
    · rw [he.2] at hun
      cases hun
    · rw [he.2] at hset
      cases hset
  | registerFailed reason => exact h.filter h.stopping fun hne => absurd he.2 hne
  | interest name => exact h.onInterest he.2.1 he.2.2
  | unset =>
    refine h.filter (fun hne => .inl ?_) fun _ => he.1
    rcases h.stopping hne with hun | ⟨hset, -⟩
    · rw [if_neg (by rw [hun]; decide), hun]
    · rw [if_pos hset]
  | interrupt => exact h.filter (fun hne => (h.stopping hne).imp id fun hset => ⟨hset.1, rfl⟩) h.running

/-- Each Interest that the Face has handed on has been answered, in order, and `afterFinish` was emitted once if
they reach the limit, and never otherwise. -/
theorem served_run (options : ServerOptions) (es : List Event) (hr : machine.Runs (start options) es) :
    Served options (machine.log (fun _ => interests) (start options) es) (machine.exec (start options) es) :=
  Machine.exec_log_inv (I := fun s names => Served options names s) (fun _ _ _ h he => h.step he)
    (served_start options) hr

/-- The limit is one; a second Interest comes before the filter is unset. -/
def limited : List Event :=
  [.registered, .interest (["ping", "7"] : List Component), .interest (["ping", "8"] : List Component), .unset]

theorem served_run_limited :
    Served ⟨[], 1000, true, 1, 3⟩ [(["ping", "7"] : List Component), (["ping", "8"] : List Component)]
      (machine.exec (start ⟨[], 1000, true, 1, 3⟩) limited) :=
  served_run ⟨[], 1000, true, 1, 3⟩ limited (by decide +kernel)

end PingServer

end NdnTools.Ndnping
