/-
The loop that makes the summaries. A block is put back under its sub-blocks and comes to the front again
when all of them have been there, so that their values are known when its own summary is made: it has one
exactly if it has a sub-block of a known type that shows a value.
-/
import NdnTools.Dissector.Expansion

namespace NdnTools.Dissector

/-! ## What is shown -/

/-- A block of a known type that has a value: by a function of its type, or as the summary of its sub-blocks. -/
inductive Shows (tvb : Tvb) : Block → Prop
  | value {b : Block} {info : Info} (known : dictInfo b.type = some info) (fn : info.value.isSome = true) : Shows tvb b
  | summary {b d : Block} {info : Info} {ds : List Block} (known : dictInfo b.type = some info)
      (sums : info.summary = true) (tiles : Tiles tvb b.start b.stop ds) (mem : d ∈ ds) (shows : Shows tvb d) :
      Shows tvb b

/-- A block that gets a summary. -/
def Summed (tvb : Tvb) (b : Block) : Prop :=
  ∃ info ds, dictInfo b.type = some info ∧ info.summary = true ∧ Tiles tvb b.start b.stop ds ∧ ∃ d ∈ ds, Shows tvb d

variable {tvb : Tvb} {p b : Block} {heap heap' : Heap} {r c : ℕ} {node node' : Node} {refs stack : List ℕ}

theorem Shows.known (h : Shows tvb b) : (dictInfo b.type).isSome = true := by
  cases h with
  | value known => rw [known]; rfl
  | summary known => rw [known]; rfl

theorem shows_iff : Shows tvb b ↔ (∃ info, dictInfo b.type = some info ∧ info.value.isSome = true) ∨ Summed tvb b := by
  constructor
  · intro h
    cases h with
    | value known fn => exact .inl ⟨_, known, fn⟩
    | summary known sums tiles mem hd => exact .inr ⟨_, _, known, sums, tiles, _, mem, hd⟩
  · rintro (⟨info, known, fn⟩ | ⟨info, ds, known, sums, tiles, d, mem, hd⟩)
    · exact .value known fn
    · exact .summary known sums tiles mem hd

/-! ## Nodes -/

/-- What holds of every node of the heap while the summaries are made. -/
structure NodeOk (tvb : Tvb) (blocks : List Block) (node : Node) : Prop where
  root : node.root = true
  elements : Elements tvb blocks node
  direct : (valueFn node.block.type).isSome = true → node.value.isSome = true
  sound : node.value.isSome = true → (dictInfo node.block.type).isSome = true → Shows tvb node.block
  summary : node.summary.isSome = true → Summed tvb node.block

/-- The value of a node that shows one has been found. -/
def Complete (tvb : Tvb) (heap : Heap) (r : ℕ) : Prop :=
  ∀ node, heap[r]? = some node → Shows tvb node.block → node.value.isSome = true

/-- The first node has been done. -/
def Settled (tvb : Tvb) (heap : Heap) : Prop :=
  ∀ node, heap[0]? = some node → Summed tvb node.block → node.summary.isSome = true

/-- A node is reached from the first one by way of nodes that have been visited. -/
def Entered (heap : Heap) (c : ℕ) : Prop :=
  c = 0 ∨ ∃ r node, Parent heap r c ∧ heap[r]? = some node ∧ node.visited = true

/-- The state of the loop: the elements of a node that has been visited are done or above it in the queue. -/
structure Summarizing (tvb : Tvb) (heap : Heap) (stack : List ℕ) : Prop where
  nodes : ∀ node ∈ heap, NodeOk tvb (heap.map Node.block) node
  below : ∀ r c, Parent heap r c → r < c
  single : ∀ r r' c, Parent heap r c → Parent heap r' c → r = r'
  inHeap : ∀ r ∈ stack, r < heap.length
  stacked : ∀ r ∈ stack, Entered heap r
  visited : ∀ (r : ℕ) (node : Node), heap[r]? = some node → node.visited = true → Entered heap r
  pending : ∀ above r rest, stack = above ++ r :: rest → ∀ node : Node, heap[r]? = some node → node.visited = true →
    ∀ c, Parent heap r c → Complete tvb heap c ∨ c ∈ above
  first : 0 ∈ stack ∨ Settled tvb heap

/-! ## Writing a node -/

theorem map_block_set (heap : Heap) (hr : heap[r]? = some node) (hb : node'.block = node.block) :
    (heap.set r node').map Node.block = heap.map Node.block := by
  refine List.ext_getElem? fun i => ?_
  rw [List.getElem?_map, List.getElem?_map, List.getElem?_set]
  split
  · rename_i hi
    subst hi
    rw [if_pos (List.getElem?_eq_some_iff.1 hr).1, hr]
    exact congrArg some hb
  · rfl

theorem getElem?_set_of_some (hr : heap[r]? = some node) (i : ℕ) :
    (heap.set r node')[i]? = if i = r then some node' else heap[i]? := by
  rw [List.getElem?_set]
  by_cases hi : r = i
  · subst hi
    rw [if_pos rfl, if_pos (List.getElem?_eq_some_iff.1 hr).1, if_pos rfl]
  · rw [if_neg hi, if_neg (Ne.symm hi)]

/-- What holds of the node at a place still does if one node is changed and keeps it. -/
theorem forall_set {P : Node → Prop} (hr : heap[r]? = some node) (hkeep : P node → P node') {i : ℕ}
    (h : ∀ other, heap[i]? = some other → P other) (other : Node) (hother : (heap.set r node')[i]? = some other) :
    P other := by
  rw [getElem?_set_of_some hr] at hother
  split at hother
  · rename_i hi
    subst hi
    cases hother
    exact hkeep (h node hr)
  · exact h other hother

/-- A value that is there stays, and so the other nodes stay complete. -/
theorem Complete.set (hr : heap[r]? = some node) (hb : node'.block = node.block)
    (hv : node.value.isSome = true → node'.value.isSome = true) (h : Complete tvb heap c) :
    Complete tvb (heap.set r node') c :=
  forall_set hr (fun hkeep hshows => hv (hkeep (hb ▸ hshows))) h

theorem Settled.set (hr : heap[r]? = some node) (hb : node'.block = node.block)
    (hs : node.summary.isSome = true → node'.summary.isSome = true) (h : Settled tvb heap) :
    Settled tvb (heap.set r node') :=
  forall_set hr (fun hkeep hsummed => hs (hkeep (hb ▸ hsummed))) h

theorem parent_set (hr : heap[r]? = some node) (he : node'.elements = node.elements) {i : ℕ} :
    Parent (heap.set r node') i c ↔ Parent heap i c := by
  unfold Parent
  simp only [getElem?_set_of_some hr]
  by_cases hi : i = r
  · subst hi
    simp [hr, he]
  · simp [hi]

/-- A mark that is there stays, and so what has been entered. -/
theorem Entered.set (hr : heap[r]? = some node) (he : node'.elements = node.elements)
    (hv : node.visited = true → node'.visited = true) (h : Entered heap c) : Entered (heap.set r node') c := by
  refine h.imp_right fun ⟨i, other, hparent, hi, hvis⟩ => ?_
  refine ⟨i, if i = r then node' else other, (parent_set hr he).2 hparent, ?_, ?_⟩
  · rw [getElem?_set_of_some hr]
    split
    · rfl
    · exact hi
  · split
    · rename_i hir
      subst hir
      rw [hr] at hi
      cases hi
      exact hv hvis
    · exact hvis

theorem nodes_set (h : ∀ node ∈ heap, NodeOk tvb (heap.map Node.block) node) (hr : heap[r]? = some node)
    (hb : node'.block = node.block) (hok : NodeOk tvb (heap.map Node.block) node') :
    ∀ other ∈ heap.set r node', NodeOk tvb ((heap.set r node').map Node.block) other := by
  intro other hother
  rw [map_block_set heap hr hb]
  rcases List.mem_or_eq_of_mem_set hother with hmem | rfl
  · exact h other hmem
  · exact hok

/-! ## Going down -/

/-- The elements of a node that has not been visited have not been visited. -/
theorem Summarizing.not_visited (h : Summarizing tvb heap stack) (hr : heap[r]? = some node)
    (hvis : node.visited = false) (hc : Parent heap r c) {sub : Node} (hsub : heap[c]? = some sub) :
    sub.visited = false := by
  by_contra hv
  have hlt := h.below r c hc
  rcases h.visited c sub hsub (by simpa using hv) with rfl | ⟨i, other, hparent, hi, hov⟩
  · omega
  · rw [h.single i r c hparent hc, hr] at hi
    cases hi
    rw [hvis] at hov
    cases hov

/-- The places below the new elements. -/
theorem split_down {above rest : List ℕ} {i : ℕ} (h : refs.reverse ++ r :: stack = above ++ i :: rest) :
    i ∈ refs ∨ ∃ mid, above = refs.reverse ++ mid ∧ r :: stack = mid ++ i :: rest := by
  rcases List.append_eq_append_iff.1 h with ⟨mid, habove, hrest⟩ | ⟨mid, hrev, hrest⟩
  · exact .inr ⟨mid, habove, hrest⟩
  · cases mid with
    | nil => exact .inr ⟨[], by simpa using hrev.symm, hrest.symm⟩
    | cons j mid =>
      obtain ⟨rfl, -⟩ := List.cons.inj hrest
      have hmem : i ∈ refs.reverse := by rw [hrev]; simp
      exact .inl (List.mem_reverse.1 hmem)

/-- A node that is visited for the first time: its elements go above it. -/
theorem summarizing_down (h : Summarizing tvb heap (r :: stack)) (hr : heap[r]? = some node)
    (hvis : node.visited = false) (hrefs : node.elements = some refs) :
    Summarizing tvb (heap.set r { node with visited := true }) (refs.reverse ++ r :: stack) := by
  have hok := h.nodes node (List.mem_of_getElem? hr)
  have hget : ∀ i, (heap.set r { node with visited := true })[i]? = _ := getElem?_set_of_some hr
  have hparent : ∀ i c, Parent (heap.set r { node with visited := true }) i c ↔ Parent heap i c :=
    fun i c => parent_set hr (rfl : ({ node with visited := true } : Node).elements = node.elements)
  have hentered : ∀ c, Entered heap c → Entered (heap.set r { node with visited := true }) c :=
    fun c => Entered.set hr rfl fun _ => rfl
  have hchild : ∀ c ∈ refs, Parent heap r c := fun c hc => ⟨node, refs, hr, hrefs, hc⟩
  refine ⟨nodes_set h.nodes hr rfl { hok with }, fun i c hc => h.below i c ((hparent i c).1 hc),
    fun i i' c hc hc' => h.single i i' c ((hparent i c).1 hc) ((hparent i' c).1 hc'), fun i hi => ?_, fun i hi => ?_,
    fun i other hi hv => ?_, fun above i rest hst other hi hv c hc => ?_, ?_⟩
  · rw [List.length_set]
    rcases List.mem_append.1 hi with hi | hi
    · obtain ⟨bs, -, hrefer⟩ := hok.elements.of_some hrefs
      obtain ⟨b, -, hb⟩ := hrefer.mem (List.mem_reverse.1 hi)
      have hlt := (List.getElem?_eq_some_iff.1 hb).1
      rwa [List.length_map] at hlt
    · exact h.inHeap i hi
  · rcases List.mem_append.1 hi with hi | hi
    · exact .inr ⟨r, _, (hparent r i).2 (hchild i (List.mem_reverse.1 hi)), (hget r).trans (if_pos rfl), rfl⟩
    · exact hentered i (h.stacked i hi)
  · rw [hget] at hi
    split at hi
    · rename_i hir
      rw [hir]
      exact hentered r (h.stacked r List.mem_cons_self)
    · exact hentered i (h.visited i other hi hv)
  · replace hc := (hparent i c).1 hc
    have hcomplete : Complete tvb heap c → Complete tvb (heap.set r { node with visited := true }) c :=
      Complete.set hr rfl id
    by_cases hir : i = r
    · -- the elements of the node itself
      subst hir
      obtain ⟨node₂, refs₂, hr₂, hrefs₂, hmem⟩ := hc
      rw [hr] at hr₂
      cases hr₂
      rw [hrefs] at hrefs₂
      cases hrefs₂
      rcases split_down hst with hself | ⟨mid, rfl, -⟩
      · exact absurd (h.below i i (hchild i hself)) (lt_irrefl i)
      · exact .inr (List.mem_append_left _ (List.mem_reverse.2 hmem))
    · rw [hget, if_neg hir] at hi
      rcases split_down hst with hsub | ⟨mid, rfl, hold⟩
      · rw [h.not_visited hr hvis (hchild i hsub) hi] at hv
        cases hv
      · exact (h.pending mid i rest hold other hi hv c hc).imp hcomplete (List.mem_append_right _)
  · rcases h.first with hz | hz
    · exact .inl (List.mem_append_right _ hz)
    · exact .inr (hz.set hr rfl id)

/-! ## A summary -/

/-- What making its summary does to a node. -/
structure Finished (tvb : Tvb) (node node' : Node) : Prop where
  block : node'.block = node.block
  elements : node'.elements = node.elements
  visited : node'.visited = node.visited
  value : node.value.isSome = true → node'.value.isSome = true
  summary : node.summary.isSome = true → node'.summary.isSome = true
  shows : Shows tvb node.block → node'.value.isSome = true
  summed : Summed tvb node.block → node'.summary.isSome = true

theorem valueFn_of_known {info : Info} (hd : dictInfo b.type = some info) : valueFn b.type = info.value := by
  unfold valueFn
  rw [hd]

/-- Where no summary is made there is none to be made. -/
theorem finished_self (hok : NodeOk tvb (heap.map Node.block) node) (hno : ¬ Summed tvb node.block) :
    Finished tvb node node := by
  refine ⟨rfl, rfl, rfl, id, id, fun h => ?_, fun h => absurd h hno⟩
  rcases shows_iff.1 h with ⟨info, hd, hf⟩ | hsummed
  · exact hok.direct (by rw [valueFn_of_known hd]; exact hf)
  · exact absurd hsummed hno

theorem line_isSome :
    node.line.isSome = true ↔ node.value.isSome = true ∧ (dictInfo node.block.type).isSome = true := by
  unfold Node.line
  cases node.value <;> cases dictInfo node.block.type <;> simp

/-- There is something to say exactly if a sub-block shows a value. -/
theorem summed_iff {info : Info} {subs : List Node} (hnodes : ∀ node ∈ heap, NodeOk tvb (heap.map Node.block) node)
    (hnode : node ∈ heap) (hrefs : node.elements = some refs) (hd : dictInfo node.block.type = some info)
    (hs : info.summary = true) (hm : refs.mapM heap.node = .ok subs) (hcomplete : ∀ c ∈ refs, Complete tvb heap c) :
    Summed tvb node.block ↔ subs.filterMap Node.line ≠ [] := by
  obtain ⟨bs, tiles, hrefer⟩ := (hnodes node hnode).elements.of_some hrefs
  have hmem := mem_mapM hm
  constructor
  · rintro ⟨info', ds, hd', -, tiles', d, hdmem, hshows⟩ hnil
    rw [tiles'.unique tiles] at hdmem
    obtain ⟨c, hc, hget⟩ := hrefer.ref hdmem
    obtain ⟨sub, hsub, hsub', rfl⟩ := node_of_block hget
    have hline := line_isSome.2 ⟨hcomplete c hc sub hsub' hshows, hshows.known⟩
    rw [List.filterMap_eq_nil_iff.1 hnil sub ((hmem sub).2 ⟨c, hc, hsub⟩)] at hline
    cases hline
  · intro hne
    obtain ⟨text, htext⟩ := List.exists_mem_of_ne_nil _ hne
    obtain ⟨sub, hsubs, hline⟩ := List.mem_filterMap.1 htext
    obtain ⟨c, hc, hsub⟩ := (hmem sub).1 hsubs
    obtain ⟨d, hdmem, hget⟩ := hrefer.mem hc
    have hsub' := node_eq_ok.1 hsub
    rw [List.getElem?_map, hsub'] at hget
    obtain rfl : sub.block = d := Option.some.inj hget
    obtain ⟨hvalue, hknown⟩ := line_isSome.1 (by rw [hline]; rfl)
    exact ⟨info, bs, hd, hs, tiles, sub.block, hdmem, (hnodes sub (List.mem_of_getElem? hsub')).sound hvalue hknown⟩

/-- Without a summary to make, the heap is the one it was. -/
theorem addSummary_of_unsummed (hok : NodeOk tvb (heap.map Node.block) node) (hr : heap[r]? = some node)
    (hno : ¬ Summed tvb node.block) (heq : addSummary heap r node = .ok heap) :
    ∃ node', addSummary heap r node = .ok (heap.set r node') ∧ Finished tvb node node' ∧
      NodeOk tvb (heap.map Node.block) node' := by
  have hself : heap.set r node = heap := by
    obtain ⟨hlt, hget⟩ := List.getElem?_eq_some_iff.1 hr
    rw [← hget, List.set_getElem_self]
  refine ⟨node, ?_, finished_self hok hno, hok⟩
  rw [hself]
  exact heq

/-- The elements of a node are in the heap. -/
theorem subs_of_elements (hok : NodeOk tvb (heap.map Node.block) node) (hrefs : node.elements = some refs) :
    ∃ subs, refs.mapM heap.node = .ok subs := by
  refine mapM_ok fun c hc => ?_
  obtain ⟨bs, -, hrefer⟩ := hok.elements.of_some hrefs
  obtain ⟨d, -, hget⟩ := hrefer.mem hc
  obtain ⟨sub, hsub, -⟩ := node_of_block hget
  exact ⟨sub, hsub⟩

/-- Making the summary of a node whose elements are done. -/
theorem addSummary_spec (hnodes : ∀ node ∈ heap, NodeOk tvb (heap.map Node.block) node) (hr : heap[r]? = some node)
    (hcomplete : ∀ c, Parent heap r c → Complete tvb heap c) :
    ∃ node', addSummary heap r node = .ok (heap.set r node') ∧ Finished tvb node node' ∧
      NodeOk tvb (heap.map Node.block) node' := by
  have hnode := List.mem_of_getElem? hr
  have hok := hnodes node hnode
  have hnone := addSummary_of_unsummed hok hr
  cases hrefs : node.elements with
  | none =>
    refine hnone ?_ ?_
    · rintro ⟨-, ds, -, -, tiles, -⟩
      exact hok.elements.of_none hrefs ds tiles
    · unfold addSummary
      rw [hrefs]
  | some refs =>
    cases hd : dictInfo node.block.type with
    | none =>
      refine hnone ?_ ?_
      · rintro ⟨info, -, hd', -⟩
        rw [hd] at hd'
        cases hd'
      · unfold addSummary
        rw [hrefs, hd]
    | some info =>
      by_cases hs : info.summary = true
      · obtain ⟨subs, hm⟩ := subs_of_elements hok hrefs
        have hiff := summed_iff hnodes hnode hrefs hd hs hm fun c hc => hcomplete c ⟨node, refs, hr, hrefs, hc⟩
        by_cases hnil : subs.filterMap Node.line = []
        · refine hnone (fun hsummed => hiff.1 hsummed hnil) ?_
          simp only [addSummary, hrefs, hd, hs, hm, bind, Except.bind, hnil]
          rfl
        · have hsummed := hiff.2 hnil
          refine ⟨{ node with
            summary := some (", ".intercalate (subs.filterMap Node.line))
            value := some (node.value.getD (", ".intercalate (subs.filterMap Node.line))) }, ?_, ?_, ?_⟩
          · simp only [addSummary, hrefs, hd, hs, hm, bind, Except.bind, hnil, hok.root]
            rfl
          · exact ⟨rfl, rfl, rfl, fun _ => rfl, fun _ => rfl, fun _ => rfl, fun _ => rfl⟩
          · exact ⟨hok.root, hok.elements, fun _ => rfl, fun _ _ => shows_iff.2 (.inr hsummed), fun _ => hsummed⟩
      · refine hnone ?_ ?_
        · rintro ⟨info', -, hd', hs', -⟩
          rw [hd] at hd'
          cases hd'
          exact hs hs'
        · simp only [addSummary, hrefs, hd, hs]
          rfl

/-! ## Coming up -/

/-- A node leaves the queue when its elements are done. -/
theorem summarizing_up (h : Summarizing tvb heap (r :: stack)) (hr : heap[r]? = some node)
    (hdone : ∀ c, Parent heap r c → Complete tvb heap c) (hf : Finished tvb node node')
    (hok : NodeOk tvb (heap.map Node.block) node') : Summarizing tvb (heap.set r node') stack := by
  have hget : ∀ i, (heap.set r node')[i]? = _ := getElem?_set_of_some hr
  have hparent : ∀ i c, Parent (heap.set r node') i c ↔ Parent heap i c := fun i c => parent_set hr hf.elements
  have hentered : ∀ c, Entered heap c → Entered (heap.set r node') c :=
    fun c => Entered.set hr hf.elements fun hv => hf.visited.trans hv
  have hcomplete : ∀ c, Complete tvb heap c → Complete tvb (heap.set r node') c :=
    fun c => Complete.set hr hf.block hf.value
  have hnow : ∀ other, (heap.set r node')[r]? = some other → other = node' := fun other hother => by
    rw [hget, if_pos rfl] at hother
    exact (Option.some.inj hother).symm
  have hself : Complete tvb (heap.set r node') r := fun other hother hshows => by
    rw [hnow other hother] at hshows ⊢
    exact hf.shows (hf.block ▸ hshows)
  refine ⟨nodes_set h.nodes hr hf.block hok, fun i c hc => h.below i c ((hparent i c).1 hc),
    fun i i' c hc hc' => h.single i i' c ((hparent i c).1 hc) ((hparent i' c).1 hc'), fun i hi => ?_,
    fun i hi => hentered i (h.stacked i (List.mem_cons_of_mem _ hi)), fun i other hi hv => ?_,
    fun above i rest hst other hi hv c hc => ?_, ?_⟩
  · rw [List.length_set]
    exact h.inHeap i (List.mem_cons_of_mem _ hi)
  · by_cases hir : i = r
    · rw [hir]
      exact hentered r (h.stacked r List.mem_cons_self)
    · rw [hget, if_neg hir] at hi
      exact hentered i (h.visited i other hi hv)
  · replace hc := (hparent i c).1 hc
    by_cases hir : i = r
    · rw [hir] at hc
      exact .inl (hcomplete c (hdone c hc))
    · rw [hget, if_neg hir] at hi
      rcases h.pending (r :: above) i rest (by rw [hst]; rfl) other hi hv c hc with hold | hmem
      · exact .inl (hcomplete c hold)
      · rcases List.mem_cons.1 hmem with rfl | hmem
        · exact .inl hself
        · exact .inr hmem
  · rcases h.first with hz | hz
    · rcases List.mem_cons.1 hz with rfl | hz
      · refine .inr fun other hother hsummed => ?_
        rw [hnow other hother] at hsummed ⊢
        exact hf.summed (hf.block ▸ hsummed)
      · exact .inl hz
    · exact .inr (hz.set hr hf.block hf.summary)

/-! ## The loop -/

/-- How often blocks can still come to the front of the queue. -/
def visitsLeft (s : Heap × List ℕ) : ℕ := (s.1.map Node.visits).sum + s.2.length

theorem visits_set (hr : heap[r]? = some node) (node' : Node) :
    ((heap.set r node').map Node.visits).sum + node.visits = (heap.map Node.visits).sum + node'.visits := by
  induction heap generalizing r with
  | nil => cases hr
  | cons first heap ih =>
    cases r with
    | zero =>
      obtain rfl : first = node := Option.some.inj hr
      simp only [List.set_cons_zero, List.map_cons, List.sum_cons]
      omega
    | succ r =>
      have hrest := ih (r := r) hr
      simp only [List.set_cons_succ, List.map_cons, List.sum_cons]
      omega

/-- The state of the loop for a heap with these blocks. -/
def SummaryState (tvb : Tvb) (blocks : List Block) (s : Heap × List ℕ) : Prop :=
  Summarizing tvb s.1 s.2 ∧ s.1.map Node.block = blocks

/-- It does not fail. -/
def Summarized (tvb : Tvb) (blocks : List Block) : Except LuaError Heap → Prop
  | .error _ => False
  | .ok heap => SummaryState tvb blocks (heap, [])

theorem summaryLoop_down (hr : heap[r]? = some node) (hvis : node.visited = false) (hrefs : node.elements = some refs) :
    summaryLoop (heap, r :: stack) =
      .ok (.inl (heap.set r { node with visited := true }, refs.reverse ++ r :: stack)) := by
  simp only [summaryLoop, node_eq_ok.2 hr, bind, Except.bind]
  rw [hvis, hrefs]
  rfl

theorem summaryLoop_up (hr : heap[r]? = some node) (hup : node.visited = true ∨ node.elements = none) :
    summaryLoop (heap, r :: stack) = do return .inl (← addSummary heap r node, stack) := by
  simp only [summaryLoop, node_eq_ok.2 hr, bind, Except.bind]
  rcases hup with hvis | hnone
  · rw [hvis]
  · rw [hnone]
    cases node.visited <;> rfl

theorem summaryLoop_steps {blocks : List Block} (s : Heap × List ℕ) (hs : SummaryState tvb blocks s) :
    TryLoop.Steps (SummaryState tvb blocks) visitsLeft (Summarized tvb blocks) s (summaryLoop s) := by
  obtain ⟨heap, stack⟩ := s
  obtain ⟨h, hblocks⟩ := hs
  cases stack with
  | nil => exact ⟨h, hblocks⟩
  | cons r stack =>
    obtain ⟨node, hr⟩ : ∃ node, heap[r]? = some node := ⟨_, List.getElem?_eq_getElem (h.inHeap r List.mem_cons_self)⟩
    -- the node leaves the queue
    have hup : (node.visited = true ∨ node.elements = none) → (∀ c, Parent heap r c → Complete tvb heap c) →
        TryLoop.Steps (SummaryState tvb blocks) visitsLeft (Summarized tvb blocks) (heap, r :: stack)
          (summaryLoop (heap, r :: stack)) := by
      intro hcase hdone
      obtain ⟨node', hadd, hf, hok⟩ := addSummary_spec h.nodes hr hdone
      rw [summaryLoop_up hr hcase, hadd]
      refine ⟨⟨summarizing_up h hr hdone hf hok, ?_⟩, ?_⟩
      · rw [← hblocks]
        exact map_block_set heap hr hf.block
      · have hsum := visits_set hr node'
        have hvisits : node'.visits = node.visits := by unfold Node.visits; rw [hf.visited, hf.elements]
        unfold visitsLeft
        simp only [List.length_cons]
        omega
    cases hrefs : node.elements with
    | none =>
      refine hup (.inr hrefs) fun c hc => ?_
      obtain ⟨other, refs, hother, hrefs', -⟩ := hc
      rw [hr] at hother
      cases hother
      rw [hrefs] at hrefs'
      cases hrefs'
    | some refs =>
      cases hvis : node.visited with
      | true =>
        refine hup (.inl hvis) fun c hc => ?_
        exact (h.pending [] r stack rfl node hr hvis c hc).resolve_right fun hmem => by cases hmem
      | false =>
        rw [summaryLoop_down hr hvis hrefs]
        refine ⟨⟨summarizing_down h hr hvis hrefs, ?_⟩, ?_⟩
        · rw [← hblocks]
          exact map_block_set heap hr rfl
        · have hsum := visits_set hr { node with visited := true }
          have hbefore : node.visits = 1 + refs.length := by unfold Node.visits; rw [hvis, hrefs]; rfl
          have hafter : Node.visits { node with visited := true } = 0 := rfl
          unfold visitsLeft
          simp only [List.length_append, List.length_reverse, List.length_cons]
          omega

/-- Before anything has been summed up. -/
theorem summarizing_start (h : Expanding tvb p heap []) : Summarizing tvb heap [0] := by
  have hdone := h.isDone
  rw [List.append_nil] at hdone
  have hvis : ∀ (r : ℕ) (node : Node), heap[r]? = some node → ¬ node.visited = true := fun r node hr hv => by
    rw [(hdone node (List.mem_of_getElem? hr)).visited] at hv
    cases hv
  refine ⟨fun node hnode => ?_, h.below, h.single, fun r hr => ?_, fun r hr => .inl (List.mem_singleton.1 hr),
    fun r node hr hv => absurd hv (hvis r node hr), fun above r rest hst node hr hv => absurd hv (hvis r node hr),
    .inl List.mem_cons_self⟩
  · have hd := hdone node hnode
    refine ⟨hd.root, hd.elements, fun hf => hd.value.trans hf, fun hv hknown => ?_, fun hs => ?_⟩
    · obtain ⟨info, hinfo⟩ := Option.isSome_iff_exists.1 hknown
      rw [hd.value, valueFn_of_known hinfo] at hv
      exact .value hinfo hv
    · rw [hd.summary] at hs
      cases hs
  · rw [List.mem_singleton.1 hr]
    have hlt := (List.getElem?_eq_some_iff.1 h.first).1
    rwa [List.append_nil, List.length_map] at hlt

/-- The loop ends, and then the packet has a summary exactly if one of its sub-blocks shows a value. -/
theorem summarize_spec (h : Expanding tvb p heap []) :
    ∃ heap' node, summarize heap = .ok heap' ∧ heap'.node 0 = .ok node ∧
      (node.summary.isSome = true ↔ Summed tvb p) := by
  have hstart : SummaryState tvb (heap.map Node.block) (heap, [0]) := ⟨summarizing_start h, rfl⟩
  have hspec : Summarized tvb (heap.map Node.block) (summarize heap) := by
    unfold summarize
    refine TryLoop.run_spec summaryLoop_steps hstart ?_
    unfold visitsLeft
    simp only [List.length_singleton]
    omega
  cases hs : summarize heap with
  | error e =>
    rw [hs] at hspec
    exact hspec.elim
  | ok heap' =>
    rw [hs] at hspec
    obtain ⟨hend, hblocks⟩ := hspec
    have hfirst := h.first
    rw [List.append_nil, ← hblocks] at hfirst
    obtain ⟨node, hnode, hget, rfl⟩ := node_of_block hfirst
    refine ⟨heap', node, rfl, hnode, (hend.nodes node (List.mem_of_getElem? hget)).summary, ?_⟩
    exact (hend.first.resolve_left fun hmem => by cases hmem) node hget

end NdnTools.Dissector
