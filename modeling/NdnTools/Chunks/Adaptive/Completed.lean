/-
A pipeline that completes has counted as many segments as the content has besides the discovered one. So if
none of them was handed on twice, all of them were.
-/
import NdnTools.Chunks.Adaptive.HandedOn

namespace NdnTools.Chunks.Adaptive

variable {κ : Type} {sch : Scheme κ} {s s' : Adaptive κ} {n first last : ℕ}

/-- The content ends with segment `last`, and `first` was discovered. -/
structure Tallied (first last : ℕ) (s : Adaptive κ) : Prop where
  keyed : Keyed s
  excluded : s.excludedSegmentNo = first
  within : ∀ n ∈ s.delivered, n ≤ last
  final : s.isStopping = false → s.hasFinalBlockId = true → s.lastSegmentNo = last
  completed : s.completed = true → last ≤ s.delivered.length

/-- In the callback for segment `n`. -/
def TalliedAt (first last n : ℕ) (s : Adaptive κ) : Prop := Called n s ∧ Tallied first last s

/-- Data is of the content. -/
def ofContent (κ : Type) (last : ℕ) : Points κ where
  learn _ _ l := l = last
  receive _ n := n ≤ last

theorem onlyData_ofContent (κ : Type) (last : ℕ) : (ofContent κ last).OnlyData :=
  ⟨fun _ _ => trivial, fun _ _ => trivial, fun _ => trivial, fun _ _ => trivial⟩

/-- Nothing is handed on from `s` to `s'`, and no last segment is learnt. -/
structure Keeps (s s' : Adaptive κ) : Prop where
  excluded : s'.excludedSegmentNo = s.excludedSegmentNo
  delivered : s'.delivered = s.delivered
  completed : s'.completed = s.completed
  final : s'.isStopping = false →
    s.isStopping = false ∧ s'.hasFinalBlockId = s.hasFinalBlockId ∧ s'.lastSegmentNo = s.lastSegmentNo

theorem Keeps.trans {s'' : Adaptive κ} (h : Keeps s s') (h' : Keeps s' s'') : Keeps s s'' where
  excluded := h'.excluded.trans h.excluded
  delivered := h'.delivered.trans h.delivered
  completed := h'.completed.trans h.completed
  final hgo := by
    obtain ⟨hgo', hhas, hlast⟩ := h'.final hgo
    obtain ⟨hgo, hhas', hlast'⟩ := h.final hgo'
    exact ⟨hgo, hhas.trans hhas', hlast.trans hlast'⟩

theorem Tallied.keep (h : Tallied first last s) (hk : Keyed s') (hkeeps : Keeps s s') : Tallied first last s' where
  keyed := hk
  excluded := hkeeps.excluded.trans h.excluded
  within n hn := h.within n (hkeeps.delivered ▸ hn)
  final hgo hfb := by
    obtain ⟨hgo', hhas, hlast⟩ := hkeeps.final hgo
    rw [hlast]
    exact h.final hgo' (hhas ▸ hfb)
  completed hc := by
    rw [hkeeps.delivered]
    exact h.completed (hkeeps.completed ▸ hc)

/-! ## The operations -/

theorem keeps_cancel (hgo : s.isStopping = false) : Keeps s (cancel s) := by
  rw [cancel_of_going hgo]
  exact ⟨rfl, rfl, rfl, nofun⟩

theorem keeps_onFailure (reason : String) (hgo : s.isStopping = false) : Keeps s (onFailure reason s) := by
  rw [onFailure_of_going _ hgo]
  exact ⟨rfl, rfl, rfl, nofun⟩

theorem keeps_handleFail (n : ℕ) (reason : String) (hgo : s.isStopping = false) :
    Keeps s (handleFail n reason s) := by
  rcases handleFail_cases n reason hgo with ⟨-, -, heq⟩ | ⟨-, heq⟩ | ⟨-, heq⟩
  · rw [heq]
    exact keeps_onFailure reason hgo
  · rw [heq]
    exact ⟨rfl, rfl, rfl, fun hgo => ⟨hgo, rfl, rfl⟩⟩
  · rw [heq]
    rcases giveUp_cases n reason s with ⟨-, heq⟩ | ⟨-, heq⟩
    · rw [heq, onFailure_of_going _ (show (dropped n s).isStopping = false from hgo)]
      exact ⟨rfl, rfl, rfl, nofun⟩
    · rw [heq]
      exact ⟨rfl, rfl, rfl, fun hgo => ⟨hgo, rfl, rfl⟩⟩

theorem keeps_lost (now : Time) (k : ℕ) (s : Adaptive κ) : Keeps s (lost sch now k s) := by
  obtain ⟨_, _, _, heq⟩ := lost_frame sch now k s
  rw [heq]
  exact ⟨rfl, rfl, rfl, fun hgo => ⟨hgo, rfl, rfl⟩⟩

theorem keeps_requeue (n : ℕ) (s : Adaptive κ) : Keeps s (requeue n s) :=
  ⟨rfl, rfl, rfl, fun hgo => ⟨hgo, rfl, rfl⟩⟩

theorem keeps_countRetx (n : ℕ) (queue : List ℕ) (s : Adaptive κ) : Keeps s (countRetx n (popRetx queue s)) :=
  ⟨rfl, rfl, rfl, fun hgo => ⟨hgo, rfl, rfl⟩⟩

theorem keeps_requeueAll (ns : List ℕ) (s : Adaptive κ) : Keeps s (requeueAll ns s) := by
  obtain ⟨_, heq⟩ := requeueAll_frame ns s
  rw [heq]
  exact ⟨rfl, rfl, rfl, fun hgo => ⟨hgo, rfl, rfl⟩⟩

/-- The last segment becomes known and the pipeline stops. -/
theorem tallied_learnStop {reason : String} {l : ℕ} (h : TalliedAt first last n s) :
    Tallied first last (onFailure reason (learnLast l s)) := by
  refine h.2.keep (keyed_onFailure (keyed_learnLast h.1.keyed l h.1.going) h.1.going) ?_
  rw [onFailure_of_going _ (show (learnLast l s).isStopping = false from h.1.going)]
  exact ⟨rfl, rfl, rfl, nofun⟩

theorem tallied_learnt (h : TalliedAt first last n s) : TalliedAt first last n (learnt last s) := by
  have hc := called_learnt h.1 last
  exact ⟨hc, hc.keyed, h.2.excluded, h.2.within, fun _ _ => rfl, h.2.completed⟩

theorem tallied_accept {d : Data} (now : Time) (h : TalliedAt first last d.segmentNo s) (hle : d.segmentNo ≤ last) :
    Tallied first last (accept sch now d (touch d.segmentNo s)) := by
  have hk : Keyed (accept sch now d (touch d.segmentNo s)) := keyed_received h.1
  obtain ⟨_, _, heq⟩ := accept_frame sch now d (touch d.segmentNo s)
  rw [heq] at hk ⊢
  refine ⟨hk, h.2.excluded, ?_, h.2.final, ?_⟩
  · intro n hn
    rcases List.mem_append.1 hn with hn | hn
    · exact h.2.within n hn
    · rw [List.mem_singleton.1 hn]
      exact hle
  · intro hc
    refine (h.2.completed hc).trans ?_
    rw [List.length_append]
    exact Nat.le_add_right _ _

/-- The discovered segment was counted, and all that have been handed on. -/
theorem tallied_succeed (h : Tallied first last s) (hgo : s.isStopping = false) (hall : s.allReceived) :
    Tallied first last (succeed s) := by
  have hk := keyed_succeed h.keyed hgo
  have hlen : last ≤ s.delivered.length := by
    have hlast := hall.2
    rw [h.final hgo hall.1, h.keyed.counted, Nat.add_sub_cancel] at hlast
    exact hlast
  unfold succeed at hk ⊢
  rw [cancel_of_going hgo] at hk ⊢
  exact ⟨hk, h.excluded, h.within, nofun, fun _ => hlen⟩

/-! ## Steps -/

theorem tallied_loop (sch : Scheme κ) (P : Points κ) : LoopPreserves sch P (Tallied first last) where
  pop h hq hn := h.keep ((keyed_loop sch P).pop h.keyed hq hn) ⟨rfl, rfl, rfl, fun hgo => ⟨hgo, rfl, rfl⟩⟩
  going h hn := h.keyed.going_of_mem hn
  resend now h hq hn hex hp :=
    h.keep ((keyed_loop sch P).resend now h.keyed hq hn hex hp) ⟨rfl, rfl, rfl, fun hgo => ⟨hgo, rfl, rfl⟩⟩
  fail reason h hq hn hex hp := h.keep ((keyed_loop sch P).fail reason h.keyed hq hn hex hp)
    ((keeps_countRetx _ _ _).trans (keeps_handleFail _ reason (h.keyed.going_of_mem hn)))
  skip h hq hc := h.keep ((keyed_loop sch P).skip h.keyed hq hc) ⟨rfl, rfl, rfl, fun hgo => ⟨hgo, rfl, rfl⟩⟩
  first now h hq hgo hb hf :=
    h.keep ((keyed_loop sch P).first now h.keyed hq hgo hb hf) ⟨rfl, rfl, rfl, fun hgo => ⟨hgo, rfl, rfl⟩⟩

theorem tallied_preserves (sch : Scheme κ) (first last : ℕ) :
    Preserves sch (ofContent κ last) (Tallied first last) (Tallied first last) (TalliedAt first last)
      (TalliedAt first last) where
  going h := h.1.going
  idle h := h.2
  stopped id h _ := h.keep (keyed_answered h.keyed id) ⟨rfl, rfl, rfl, fun hgo => ⟨hgo, rfl, rfl⟩⟩
  cancel h hgo := h.keep (keyed_cancel h.keyed hgo) (keeps_cancel hgo)
  answered h hgo hn := ⟨called_answered h.keyed hgo hn,
    h.keep (keyed_answered h.keyed _) ⟨rfl, rfl, rfl, fun hgo => ⟨hgo, rfl, rfl⟩⟩⟩
  requeue now h _ := h.2.keep (keyed_lost (keyed_requeue h.1) now 1)
    ((keeps_requeue _ _).trans (keeps_lost now 1 _))
  expired now h hgo _ _ hmem :=
    h.keep (keyed_lost (keyed_requeueAll _ h.keyed hgo hmem) now _) ((keeps_requeueAll _ _).trans (keeps_lost now _ _))
  fail reason h _ := h.2.keep (keyed_handleFail h.1) (keeps_handleFail _ reason h.1.going)
  learnStop h _ _ _ := tallied_learnStop h
  plain h := h
  learn h _ hl _ := by rw [show _ = last from hl]; exact tallied_learnt h
  ignored h hc hn := h.2.keep ((keyed_preserves sch (ofContent κ last)).ignored h.1 hc hn)
    ⟨rfl, rfl, rfl, fun hgo => ⟨hgo, rfl, rfl⟩⟩
  duplicate h _ _ := h.2.keep (keyed_eraseInfo (keyed_touch h.1) _ h.1.going)
    ⟨rfl, rfl, rfl, fun hgo => ⟨hgo, rfl, rfl⟩⟩
  complete now h _ _ hle hall := tallied_succeed (tallied_accept now h hle)
    ((isStopping_accept _).trans h.1.going) hall
  accept now h _ _ hle _ := tallied_accept now h hle
  schedule _ h hm := (tallied_loop sch (ofContent κ last)).loop h hm

theorem tallied_step (h : Tallied first last s) {e : Event} (he : enabled s e)
    (hdata : ∀ now id d, e = .data now id d → d.segmentNo ≤ last ∧ FinalIs last d) :
    Tallied first last (step sch s e) := by
  refine (tallied_preserves sch first last).step h he ((onlyData_ofContent κ last).meets fun now id d heq s => ?_)
  obtain ⟨hle, hfinal⟩ := hdata now id d heq
  exact ⟨hle, hfinal⟩

/-- An arrival of the content. -/
theorem tallied_arrival (h : Tallied first last s) {a : Arrival} (he : a.enabled s) (hof : OfContent last a) :
    Tallied first last ((arrivals sch).step s a) := by
  have hdata : ∀ e ∈ a.events s, ∀ now id d, e = .data now id d → d.segmentNo ≤ last ∧ FinalIs last d := by
    intro e hmem now id d heq
    subst heq
    cases a with
    | data now' d' =>
      obtain ⟨_, -, heq⟩ := List.mem_map.1 hmem
      cases heq
      exact hof
    | nack now' id' reason => cases List.mem_singleton.1 hmem
    | expire now' id' => cases List.mem_singleton.1 hmem
    | checkRto now' order => cases List.mem_singleton.1 hmem
    | cancel => cases List.mem_singleton.1 hmem
  show Tallied first last ((machine sch).skipping.exec s (a.events s))
  have hall : (machine sch).skipping.Always (Tallied first last) s (a.events s) := by
    refine Machine.always_of_inv (c := fun _ e => ∀ now id d, e = .data now id d → d.segmentNo ≤ last ∧ FinalIs last d)
      (fun s e h _ hd => ?_) h (Machine.runs_of_enabled (fun _ _ => trivial) _ _) ?_
    · by_cases he : enabled s e
      · rw [show (machine sch).skipping.step s e = step sch s e from if_pos he]
        exact tallied_step h he hd
      · rw [show (machine sch).skipping.step s e = s from if_neg he]
        exact h
    · exact (Machine.Each.and_of_mem (c := fun _ _ => True)
        (Machine.each_of_runs (Machine.runs_of_enabled (fun _ _ => trivial) _ _)) hdata).imp fun _ _ h => h.2
  exact Machine.always_last _ _ hall

/-- A pipeline starts with nothing counted but the discovered segment. -/
theorem tallied_run (sch : Scheme κ) (now : Time) (control : κ) {data : Data} (hfinal : FinalIs last data) :
    Tallied data.segmentNo last (run sch now control data) := by
  have hs : Tallied data.segmentNo last (start control data) :=
    { keyed := keyed_start control data
      excluded := rfl
      within := nofun
      final := fun _ hfb => by
        obtain ⟨l, hl⟩ := Option.isSome_iff_exists.1 (show data.finalBlockId.isSome = true from hfb)
        simp only [start, init, PipelineInterests.setup, hl, Option.getD_some]
        exact hfinal l hl
      completed := nofun }
  rcases run_cases sch now control data with ⟨-, heq⟩ | ⟨-, heq⟩
  · rw [heq]
    exact hs.keep (keyed_advance hs.keyed) ⟨rfl, rfl, rfl, fun hgo => ⟨hgo, rfl, rfl⟩⟩
  · rw [heq]
    exact hs.keep (keyed_sendFirst hs.keyed rfl) ⟨rfl, rfl, rfl, fun hgo => ⟨hgo, rfl, rfl⟩⟩

/-- A pipeline that has completed and handed on no segment twice has handed on all of them. -/
theorem Tallied.all (h : Tallied first last s) (hfirst : first ≤ last) (hc : s.completed = true)
    (hnodup : s.delivered.Nodup) : ∀ n ≤ last, n ≠ first → n ∈ s.delivered :=
  Pigeonhole.covers_of_le_length hnodup
    (fun n hn => ⟨h.within n hn, h.excluded ▸ (h.keyed.delivered n hn).2⟩) hfirst (h.completed hc)

end NdnTools.Chunks.Adaptive
