/-
What the dissector shows, described by recursion over the blocks nested in a packet. Its two loops over queues of
blocks come to just that, and the loop over the packets describes one after the other.
-/
import NdnTools.Dissector.Failures

namespace NdnTools.Dissector

open Tlv (bigEndian)

/-! ## The description -/

/-- The value of a block. -/
def Tvb.valueOf (tvb : Tvb) (b : Block) : Bytes := (tvb.bytes.drop b.start).take b.length.toNat

/-- What the value of a block is made of, if it is made of blocks. -/
def Parts (tvb : Tvb) (b : Block) : Option (List Block) → Prop
  | none => ∀ ds, ¬ Tiles tvb b.start b.stop ds
  | some ds => Tiles tvb b.start b.stop ds

def nameOf (b : Block) : String := ((dictInfo b.type).map Info.name).getD ""

/-- One line for each block and its text. -/
def summaryOf (lines : List (Block × String)) : String :=
  ", ".intercalate (lines.map fun p => nameOf p.1 ++ ": " ++ p.2)

section
variable [TvbStrings]

/-- The name of a block made of these. -/
def uriOf (tvb : Tvb) : Option (List Block) → String
  | none => ""
  | some ds => "/" ++ "/".intercalate (ds.map fun d => string (tvb.valueOf d))

/-- An integer of one, two or four octets. -/
def integerOf (tvb : Tvb) (b : Block) : ℕ :=
  if b.length.toNat = 1 ∨ b.length.toNat = 2 ∨ b.length.toNat = 4 then bigEndian (tvb.valueOf b) else 0xFFFFFFFF

/-- The text of a block that has a function for its value. -/
def told (tvb : Tvb) (b : Block) (ds : Option (List Block)) : ValueFn → String
  | .getUriFromName => uriOf tvb ds
  | .getUriFromNameComponent => string (tvb.valueOf b)
  | .getNonNegativeInteger => toString (integerOf tvb b)
  | .getUriFromExclude => ""
  | .getTrue => "Yes"
  | .getGenericBlockInfo => getGenericBlockInfo b

open scoped Classical in
/-- The text of a block of a known type: by its function, or else the summary of those sub-blocks that show one. -/
inductive ShowsAs (tvb : Tvb) : Block → String → Prop
  | value {b : Block} {info : Info} {f : ValueFn} {ds : Option (List Block)} (known : dictInfo b.type = some info)
      (fn : info.value = some f) (parts : Parts tvb b ds) : ShowsAs tvb b (told tvb b ds f)
  | summary {b : Block} {info : Info} {ds : List Block} {lines : List (Block × String)}
      (known : dictInfo b.type = some info) (fn : info.value = none) (sums : info.summary = true)
      (tiles : Tiles tvb b.start b.stop ds) (all : lines.map Prod.fst = ds.filter fun d => Shows tvb d)
      (shows : ∀ p ∈ lines, ShowsAs tvb p.1 p.2) (nonempty : lines ≠ []) : ShowsAs tvb b (summaryOf lines)

open scoped Classical in
/-- The summary of a block. -/
inductive SummedAs (tvb : Tvb) : Block → String → Prop
  | mk {b : Block} {info : Info} {ds : List Block} {lines : List (Block × String)}
      (known : dictInfo b.type = some info) (sums : info.summary = true) (tiles : Tiles tvb b.start b.stop ds)
      (all : lines.map Prod.fst = ds.filter fun d => Shows tvb d) (shows : ∀ p ∈ lines, ShowsAs tvb p.1 p.2)
      (nonempty : lines ≠ []) : SummedAs tvb b (summaryOf lines)

variable {tvb : Tvb} {b : Block} {text text' : String}

/-- A block without a function for its value shows its summary. -/
theorem SummedAs.showsAs {info : Info} (h : SummedAs tvb b text) (known : dictInfo b.type = some info)
    (fn : info.value = none) : ShowsAs tvb b text := by
  obtain ⟨known', sums, tiles, all, shows, nonempty⟩ := h
  cases known.symm.trans known'
  exact .summary known fn sums tiles all shows nonempty

omit [TvbStrings] in
theorem Parts.unique {ds ds' : Option (List Block)} (h : Parts tvb b ds) (h' : Parts tvb b ds') : ds = ds' := by
  cases ds with
  | none =>
    cases ds' with
    | none => rfl
    | some ds' => exact absurd h' (h ds')
  | some ds =>
    cases ds' with
    | none => exact absurd h (h' ds)
    | some ds' => rw [Tiles.unique h h']

omit [TvbStrings] in
/-- Blocks with their texts, where these are determined. -/
theorem lines_unique {P : Block → String → Prop} {lines lines' : List (Block × String)}
    (hfst : lines.map Prod.fst = lines'.map Prod.fst) (hunique : ∀ p ∈ lines, ∀ text, P p.1 text → p.2 = text)
    (h' : ∀ p ∈ lines', P p.1 p.2) : lines = lines' := by
  induction lines generalizing lines' with
  | nil => exact (List.map_eq_nil_iff.1 hfst.symm).symm
  | cons p lines ih =>
    cases lines' with
    | nil => cases hfst
    | cons p' lines' =>
      obtain ⟨d, s⟩ := p
      obtain ⟨d', s'⟩ := p'
      obtain ⟨hd, htail⟩ := List.cons.inj hfst
      obtain rfl : d = d' := hd
      obtain rfl : s = s' := hunique _ List.mem_cons_self _ (h' _ List.mem_cons_self)
      rw [ih htail (fun p hp => hunique p (List.mem_cons_of_mem _ hp)) fun p hp => h' p (List.mem_cons_of_mem _ hp)]

theorem ShowsAs.unique (h : ShowsAs tvb b text) : ∀ text', ShowsAs tvb b text' → text = text' := by
  induction h with
  | value known fn parts =>
    intro text' h'
    cases h' with
    | value known' fn' parts' =>
      cases known.symm.trans known'
      cases fn.symm.trans fn'
      rw [parts.unique parts']
    | summary known' fn' =>
      cases known.symm.trans known'
      cases fn.symm.trans fn'
  | summary known fn sums tiles all shows nonempty ih =>
    intro text' h'
    cases h' with
    | value known' fn' =>
      cases known.symm.trans known'
      cases fn.symm.trans fn'
    | summary known' fn' sums' tiles' all' shows' nonempty' =>
      cases tiles.unique tiles'
      rw [lines_unique (all.trans all'.symm) ih shows']

theorem SummedAs.unique (h : SummedAs tvb b text) (h' : SummedAs tvb b text') : text = text' := by
  obtain ⟨known, sums, tiles, all, shows, nonempty⟩ := h
  obtain ⟨known', sums', tiles', all', shows', nonempty'⟩ := h'
  cases tiles.unique tiles'
  rw [lines_unique (all.trans all'.symm) (fun p hp => (shows p hp).unique) shows']

/-! ## Values -/

variable {heap : Heap} {node node' : Node} {refs : List ℕ} {bs : List Block}

omit [TvbStrings] in
theorem range_valueOf (h : InBuffer tvb b) :
    tvb.range (b.offset + b.typeLen + b.lengthLen) b.length = .ok (tvb.valueOf b) := by
  have hb := h.isBlock
  have hstop := h.stop_le
  have heq : b.stop = b.offset.toNat + b.typeLen + b.lengthLen + b.length.toNat := rfl
  rw [hb.offset, hb.length h.narrow]
  exact Tvb.range_ok (o := b.offset.toNat + b.typeLen + b.lengthLen) (by omega)

theorem getUriFromNameComponent_told (h : InBuffer tvb b) :
    getUriFromNameComponent tvb b = .ok (string (tvb.valueOf b)) := by
  unfold getUriFromNameComponent
  rw [range_valueOf h]
  rfl

omit [TvbStrings] in
theorem uint_told (h : InBuffer tvb b) {n : ℕ} (hn : b.length = (n : Num)) :
    tvb.uint (b.offset + b.typeLen + b.lengthLen) (n : Num) = .ok (bigEndian (tvb.valueOf b)) := by
  have hr := range_valueOf h
  unfold Tvb.uint
  rw [← hn, hr]
  rfl

omit [TvbStrings] in
theorem getNonNegativeInteger_told (h : InBuffer tvb b) : getNonNegativeInteger tvb b = .ok (integerOf tvb b) := by
  have hlength := h.isBlock.length h.narrow
  have hiff : ∀ n : ℕ, b.length = (n : Num) ↔ b.length.toNat = n := fun n => by
    constructor
    · intro heq
      rw [heq]
      rfl
    · intro heq
      rw [hlength, heq]
  unfold getNonNegativeInteger integerOf
  split
  · rename_i hn
    rw [if_pos (.inl ((hiff 1).1 hn))]
    exact uint_told h (n := 1) hn
  rename_i h1
  split
  · rename_i hn
    rw [if_pos (.inr (.inl ((hiff 2).1 hn)))]
    exact uint_told h (n := 2) hn
  rename_i h2
  split
  · rename_i hn
    rw [if_pos (.inr (.inr ((hiff 4).1 hn)))]
    exact uint_told h (n := 4) hn
  rename_i h4
  rw [if_neg]
  rintro (hn | hn | hn)
  · exact h1 ((hiff 1).2 hn)
  · exact h2 ((hiff 2).2 hn)
  · exact h4 ((hiff 4).2 hn)

omit [TvbStrings] in
/-- What a reference and those after it lead to. -/
theorem Refer.cons {r : ℕ} (h : Refer (heap.map Node.block) (r :: refs) bs) :
    ∃ node rest, heap.node r = .ok node ∧ bs = node.block :: rest ∧ Refer (heap.map Node.block) refs rest := by
  cases bs with
  | nil => cases h
  | cons d rest =>
    obtain ⟨hd, hrest⟩ := List.cons.inj h
    obtain ⟨node, hnode, -, rfl⟩ := node_of_block hd
    exact ⟨node, rest, hnode, rfl, hrest⟩

omit [TvbStrings] in
/-- Reading all elements of a node. -/
theorem Refer.mapM_node (h : Refer (heap.map Node.block) refs bs) :
    ∃ subs, refs.mapM heap.node = .ok subs ∧ subs.map Node.block = bs := by
  induction refs generalizing bs with
  | nil =>
    cases bs with
    | nil => exact ⟨[], rfl, rfl⟩
    | cons d rest => cases h
  | cons r refs ih =>
    obtain ⟨node, rest, hnode, rfl, hrest⟩ := h.cons
    obtain ⟨subs, hsubs, rfl⟩ := ih hrest
    refine ⟨node :: subs, ?_, rfl⟩
    rw [List.mapM_cons, hnode, hsubs]
    rfl

theorem Refer.components (h : Refer (heap.map Node.block) refs bs) (hin : ∀ d ∈ bs, InBuffer tvb d) :
    (refs.mapM fun r => do getUriFromNameComponent tvb (← heap.node r).block) =
      .ok (bs.map fun d => string (tvb.valueOf d)) := by
  induction refs generalizing bs with
  | nil =>
    cases bs with
    | nil => rfl
    | cons d rest => cases h
  | cons r refs ih =>
    obtain ⟨node, rest, hnode, rfl, hrest⟩ := h.cons
    have hhead : (do getUriFromNameComponent tvb (← heap.node r).block) =
        .ok (string (tvb.valueOf node.block)) := by
      rw [hnode]
      exact getUriFromNameComponent_told (hin _ List.mem_cons_self)
    rw [List.mapM_cons, hhead, ih hrest fun d hd => hin d (List.mem_cons_of_mem _ hd)]
    rfl

omit [TvbStrings] in
/-- The sub-blocks that a node refers to. -/
theorem Elements.parts (he : Elements tvb (heap.map Node.block) node) :
    ∃ ds, Parts tvb node.block ds ∧ (node.elements = none → ds = none) ∧
      ∀ refs, node.elements = some refs → ∃ bs, ds = some bs ∧ Refer (heap.map Node.block) refs bs := by
  cases hrefs : node.elements with
  | none => exact ⟨none, he.of_none hrefs, fun _ => rfl, fun refs h => (by cases h)⟩
  | some refs =>
    obtain ⟨bs, tiles, hrefer⟩ := he.of_some hrefs
    refine ⟨some bs, tiles, fun h => (by cases h), fun refs' h => ?_⟩
    cases h
    exact ⟨bs, rfl, hrefer⟩

/-- The functions for values tell what is described. -/
theorem apply_told (h : InBuffer tvb node.block) (he : Elements tvb (heap.map Node.block) node) (f : ValueFn) :
    ∃ ds, Parts tvb node.block ds ∧ f.apply tvb heap node = .ok (told tvb node.block ds f) := by
  obtain ⟨ds, hparts, hnone, hsome⟩ := he.parts
  refine ⟨ds, hparts, ?_⟩
  cases f with
  | getUriFromName =>
    show getUriFromName tvb heap node = .ok (uriOf tvb ds)
    unfold getUriFromName
    split
    · rename_i hrefs
      rw [hnone hrefs]
      rfl
    · rename_i refs hrefs
      obtain ⟨bs, rfl, hrefer⟩ := hsome refs hrefs
      rw [hrefer.components fun d hd => h.of_mem hparts hd]
      rfl
  | getUriFromNameComponent => exact getUriFromNameComponent_told h
  | getNonNegativeInteger =>
    show (do return toString (← getNonNegativeInteger tvb node.block)) = _
    rw [getNonNegativeInteger_told h]
    rfl
  | getUriFromExclude => rfl
  | getTrue => rfl
  | getGenericBlockInfo => rfl

/-! ## Texts of nodes -/

/-- A node of a known type has the value that is described, and a summary only if it is the one described. -/
structure Texts (tvb : Tvb) (node : Node) : Prop where
  value : ∀ v, node.value = some v → (dictInfo node.block.type).isSome = true → ShowsAs tvb node.block v
  summary : ∀ s, node.summary = some s → SummedAs tvb node.block s

theorem texts_fresh (b : Block) : Texts tvb (fresh b) :=
  ⟨fun v hv => (by cases hv), fun s hs => (by cases hs)⟩

theorem Texts.of_eq (h : Texts tvb node) (hb : node'.block = node.block) (hv : node'.value = node.value)
    (hs : node'.summary = node.summary) : Texts tvb node' := by
  refine ⟨fun v hv' => ?_, fun s hs' => ?_⟩
  · rw [hb]
    exact h.value v (hv ▸ hv')
  · rw [hb]
    exact h.summary s (hs ▸ hs')

theorem texts_set {r : ℕ} (h : ∀ node ∈ heap, Texts tvb node) (hnode : Texts tvb node') :
    ∀ node ∈ heap.set r node', Texts tvb node := by
  intro other hother
  rcases List.mem_or_eq_of_mem_set hother with hmem | rfl
  · exact h other hmem
  · exact hnode

theorem Texts.addInfo (h : Texts tvb node) (hin : InBuffer tvb node.block)
    (he : Elements tvb (heap.map Node.block) node) (hadd : Dissector.addInfo tvb heap node = .ok node') :
    Texts tvb node' := by
  obtain ⟨bytes, hr⟩ := range_block hin
  unfold Dissector.addInfo at hadd
  cases hf : valueFn node.block.type with
  | none =>
    rw [hf] at hadd
    simp only [hr, bind, Except.bind] at hadd
    cases hadd
    exact h.of_eq rfl rfl rfl
  | some f =>
    obtain ⟨ds, hparts, hv⟩ := apply_told hin he f
    rw [hf] at hadd
    simp only [hv, hr, bind, Except.bind] at hadd
    cases hadd
    refine ⟨fun v hv' hknown => ?_, h.summary⟩
    obtain ⟨info, hinfo⟩ := Option.isSome_iff_exists.1 hknown
    cases hv'
    exact .value hinfo ((valueFn_of_known hinfo).symm.trans hf) hparts

/-! ## Taking apart -/

variable {p : Block} {r : ℕ} {stack : List ℕ}

/-- An iteration that does not fail. -/
theorem expandLoop_inv {queue : List ℕ} {next : Heap × List ℕ ⊕ Heap}
    (h : expandLoop tvb (heap, r :: queue) = .ok next) :
    ∃ node subBlocks node', heap.node r = .ok node ∧ getSubBlocks tvb node.block = .ok subBlocks ∧
      addInfo tvb (heap ++ (subBlocks.getD []).map fresh)
        { node with elements := subBlocks.map fun bs => List.range' heap.length bs.length } = .ok node' ∧
      next = .inl ((heap ++ (subBlocks.getD []).map fresh).set r node',
        queue ++ (subBlocks.map fun bs => List.range' heap.length bs.length).getD []) := by
  simp only [expandLoop, bind, Except.bind] at h
  cases hnode : heap.node r with
  | error e =>
    rw [hnode] at h
    cases h
  | ok node =>
    simp only [hnode] at h
    cases hsub : getSubBlocks tvb node.block with
    | error e =>
      rw [hsub] at h
      cases h
    | ok subBlocks =>
      simp only [hsub] at h
      cases hadd : addInfo tvb (heap ++ (subBlocks.getD []).map fresh)
          { node with elements := subBlocks.map fun bs => List.range' heap.length bs.length } with
      | error e =>
        rw [hadd] at h
        cases h
      | ok node' =>
        simp only [hadd] at h
        cases h
        exact ⟨node, subBlocks, node', rfl, hsub, hadd, rfl⟩

theorem expandLoop_texts {s : Heap × List ℕ} {next : Heap × List ℕ ⊕ Heap} (hs : ExpandState tvb p s)
    (ht : ∀ node ∈ s.1, Texts tvb node) (h : expandLoop tvb s = .ok next) :
    ∀ node ∈ next.elim Prod.fst id, Texts tvb node := by
  obtain ⟨done, waiting, rfl, hexp⟩ := hs
  cases waiting with
  | nil =>
    cases h
    exact ht
  | cons b waiting =>
    obtain ⟨hin, hnest⟩ := hexp.nested b (by simp)
    obtain ⟨node, subBlocks, node', hnode, hsub, hadd, rfl⟩ := expandLoop_inv h
    -- the node in front of the queue has not been touched
    obtain rfl : fresh b = node := by
      have hget := node_eq_ok.1 hnode
      rw [List.getElem?_append_right le_rfl, Nat.sub_self] at hget
      exact Option.some.inj hget
    have hspec := getSubBlocks_spec hin.isBlock hin.narrow
    rw [show getSubBlocks tvb b = .ok subBlocks from hsub] at hspec
    have hlength : (done ++ (b :: waiting).map fresh).length = (done.map Node.block ++ b :: waiting).length := by simp
    have hblocks : (done ++ (b :: waiting).map fresh ++ (subBlocks.getD []).map fresh).map Node.block =
        done.map Node.block ++ b :: waiting ++ subBlocks.getD [] := by simp [Function.comp_def, fresh]
    obtain ⟨-, -, helems⟩ :=
      @subBlocks_new _ _ _ (fresh b) hin hnest hspec (done.map Node.block ++ b :: waiting)
    rw [hlength] at hadd
    have htexts : ∀ refs, Texts tvb { fresh b with elements := refs } := fun _ => (texts_fresh b).of_eq rfl rfl rfl
    refine texts_set (fun other hother => ?_) ((htexts _).addInfo hin (hblocks ▸ helems) hadd)
    rcases List.mem_append.1 hother with hother | hother
    · exact ht other hother
    · obtain ⟨c, -, rfl⟩ := List.mem_map.1 hother
      exact texts_fresh c

omit [TvbStrings] in
theorem expandState_start (hp : InBuffer tvb p) : ExpandState tvb p ([fresh p], [0]) := by
  refine ⟨[], [p], rfl, rfl, fun b hb => ?_, fun node hnode => (by cases hnode),
    fun r c hc => absurd hc not_parent_nil, fun r r' c hc => absurd hc not_parent_nil⟩
  rw [List.mem_singleton.1 hb]
  exact ⟨hp, .refl⟩

theorem expand_texts (hp : InBuffer tvb p) (h : expand tvb p = .ok heap) : ∀ node ∈ heap, Texts tvb node := by
  refine TryLoop.run_inv (I := fun s => ExpandState tvb p s ∧ ∀ node ∈ s.1, Texts tvb node)
    (Q := fun heap => ∀ node ∈ heap, Texts tvb node) (fun s s' hs hl => ?_)
    (fun s heap hs hl => expandLoop_texts hs.1 hs.2 hl) ⟨?_, fun node hnode => ?_⟩ h
  · have hstep := expandLoop_steps s hs.1
    rw [hl] at hstep
    exact ⟨hstep.1, expandLoop_texts hs.1 hs.2 hl⟩
  · exact expandState_start hp
  · rw [List.mem_singleton.1 hnode]
    exact texts_fresh p

/-! ## Making the summaries -/

/-- A block and its text, which its line in a summary is made of. -/
def Node.pair (node : Node) : Option (Block × String) :=
  if (dictInfo node.block.type).isSome = true then node.value.map fun v => (node.block, v) else none

omit [TvbStrings] in
theorem line_eq (node : Node) : node.line = node.pair.map fun p => nameOf p.1 ++ ": " ++ p.2 := by
  unfold Node.line Node.pair nameOf
  cases node.value <;> cases hd : dictInfo node.block.type <;> simp [hd]

omit [TvbStrings] in
theorem pair_eq_some {q : Block × String} (h : node.pair = some q) :
    q.1 = node.block ∧ node.value = some q.2 ∧ (dictInfo node.block.type).isSome = true := by
  unfold Node.pair at h
  split at h
  · rename_i hknown
    obtain ⟨v, hv, rfl⟩ := Option.map_eq_some_iff.1 h
    exact ⟨rfl, hv, hknown⟩
  · cases h

omit [TvbStrings] in
theorem filterMap_line (subs : List Node) :
    ", ".intercalate (subs.filterMap Node.line) = summaryOf (subs.filterMap Node.pair) := by
  unfold summaryOf
  rw [List.map_filterMap]
  congr 2
  funext node
  exact line_eq node

open scoped Classical in
omit [TvbStrings] in
/-- The blocks with a line are those that show something. -/
theorem filterMap_pair {subs : List Node} (h : ∀ sub ∈ subs, sub.pair.isSome = true ↔ Shows tvb sub.block) :
    (subs.filterMap Node.pair).map Prod.fst = (subs.map Node.block).filter fun d => Shows tvb d := by
  induction subs with
  | nil => rfl
  | cons sub subs ih =>
    have hsub := h sub List.mem_cons_self
    have hrest := ih fun other hother => h other (List.mem_cons_of_mem _ hother)
    cases hp : sub.pair with
    | none =>
      have hno : ¬ Shows tvb sub.block := fun hshows => by
        have := hsub.2 hshows
        rw [hp] at this
        cases this
      rw [List.filterMap_cons_none hp, hrest, List.map_cons, List.filter_cons_of_neg (by simpa using hno)]
    | some q =>
      have hyes : Shows tvb sub.block := hsub.1 (by rw [hp]; rfl)
      rw [List.filterMap_cons_some hp, List.map_cons, List.map_cons, hrest,
        List.filter_cons_of_pos (by simpa using hyes), (pair_eq_some hp).1]

/-- A node whose elements are done gets the summary that is described. -/
theorem addSummary_texts {heap' : Heap} (hnodes : ∀ node ∈ heap, NodeOk tvb (heap.map Node.block) node)
    (hr : heap[r]? = some node) (hcomplete : ∀ c, Parent heap r c → Complete tvb heap c)
    (ht : ∀ node ∈ heap, Texts tvb node) (hadd : addSummary heap r node = .ok heap') :
    ∀ node ∈ heap', Texts tvb node := by
  have hnode := List.mem_of_getElem? hr
  have hok := hnodes node hnode
  cases hrefs : node.elements with
  | none =>
    unfold addSummary at hadd
    rw [hrefs] at hadd
    cases hadd
    exact ht
  | some refs =>
    cases hd : dictInfo node.block.type with
    | none =>
      unfold addSummary at hadd
      rw [hrefs, hd] at hadd
      cases hadd
      exact ht
    | some info =>
      by_cases hs : info.summary = true
      · obtain ⟨bs, tiles, hrefer⟩ := hok.elements.of_some hrefs
        obtain ⟨subs, hm, hblocks⟩ := hrefer.mapM_node
        simp only [addSummary, hrefs, hd, hs, hm, hok.root, bind, Except.bind, not_true_eq_false, if_false] at hadd
        split at hadd
        · cases hadd
          exact ht
        · rename_i hne
          cases hadd
          have hmem : ∀ sub ∈ subs, ∃ c ∈ refs, heap[c]? = some sub := fun sub hsub => by
            obtain ⟨c, hc, hget⟩ := (mem_mapM hm sub).1 hsub
            exact ⟨c, hc, node_eq_ok.1 hget⟩
          have hpair : ∀ sub ∈ subs, sub.pair.isSome = true ↔ Shows tvb sub.block := by
            intro sub hsub
            obtain ⟨c, hc, hget⟩ := hmem sub hsub
            constructor
            · intro hsome
              obtain ⟨q, hq⟩ := Option.isSome_iff_exists.1 hsome
              obtain ⟨-, hv, hknown⟩ := pair_eq_some hq
              exact (hnodes sub (List.mem_of_getElem? hget)).sound (by rw [hv]; rfl) hknown
            · intro hshows
              have hvalue := hcomplete c ⟨node, refs, hr, hrefs, hc⟩ sub hget hshows
              unfold Node.pair
              rw [if_pos hshows.known, Option.isSome_map]
              exact hvalue
          have hall := filterMap_pair hpair
          rw [hblocks] at hall
          have hshows : ∀ q ∈ subs.filterMap Node.pair, ShowsAs tvb q.1 q.2 := by
            intro q hq
            obtain ⟨sub, hsub, hsome⟩ := List.mem_filterMap.1 hq
            obtain ⟨c, -, hget⟩ := hmem sub hsub
            obtain ⟨hblock, hv, hknown⟩ := pair_eq_some hsome
            rw [hblock]
            exact (ht sub (List.mem_of_getElem? hget)).value q.2 hv hknown
          have hnonempty : subs.filterMap Node.pair ≠ [] := by
            intro hnil
            have hlines : subs.filterMap Node.line = (subs.filterMap Node.pair).map _ :=
              ((List.map_filterMap ..).trans (congrArg (subs.filterMap ·) (funext fun sub => (line_eq sub).symm))).symm
            rw [hnil] at hlines
            exact hne hlines
          rw [filterMap_line]
          have hsummed := SummedAs.mk hd hs tiles hall hshows hnonempty
          refine texts_set ht ⟨fun v hv _ => ?_, fun text htext => ?_⟩
          · cases hvalue : node.value with
            | some w =>
              rw [hvalue] at hv
              cases hv
              exact (ht node hnode).value _ hvalue (by rw [hd]; rfl)
            | none =>
              rw [hvalue] at hv
              cases hv
              have hfn : info.value = none := by
                cases hf : info.value with
                | none => rfl
                | some f =>
                  have hdirect := hok.direct (by rw [valueFn_of_known hd, hf]; rfl)
                  rw [hvalue] at hdirect
                  cases hdirect
              exact hsummed.showsAs hd hfn
          · cases htext
            exact hsummed
      · simp only [addSummary, hrefs, hd, hs] at hadd
        cases hadd
        exact ht

omit [TvbStrings] in
/-- The elements of a node that leaves the queue are done. -/
theorem Summarizing.elements_complete (h : Summarizing tvb heap (r :: stack)) (hr : heap[r]? = some node)
    (hup : node.visited = true ∨ node.elements = none) : ∀ c, Parent heap r c → Complete tvb heap c := by
  intro c hc
  rcases hup with hvis | hnone
  · exact (h.pending [] r stack rfl node hr hvis c hc).resolve_right fun hmem => by cases hmem
  · obtain ⟨other, refs, hother, hrefs, -⟩ := hc
    rw [hr] at hother
    cases hother
    rw [hnone] at hrefs
    cases hrefs

theorem summaryLoop_texts {s : Heap × List ℕ} {next : Heap × List ℕ ⊕ Heap} (hs : Summarizing tvb s.1 s.2)
    (ht : ∀ node ∈ s.1, Texts tvb node) (h : summaryLoop s = .ok next) :
    ∀ node ∈ next.elim Prod.fst id, Texts tvb node := by
  obtain ⟨heap, stack⟩ := s
  cases stack with
  | nil =>
    cases h
    exact ht
  | cons r stack =>
    obtain ⟨node, hr⟩ : ∃ node, heap[r]? = some node :=
      ⟨_, List.getElem?_eq_getElem (hs.inHeap r List.mem_cons_self)⟩
    have hup : (node.visited = true ∨ node.elements = none) →
        ∀ other ∈ next.elim Prod.fst id, Texts tvb other := by
      intro hcase
      rw [summaryLoop_up hr hcase] at h
      cases hadd : addSummary heap r node with
      | error e =>
        rw [hadd] at h
        cases h
      | ok heap' =>
        rw [hadd] at h
        cases h
        exact addSummary_texts hs.nodes hr (hs.elements_complete hr hcase) ht hadd
    cases hrefs : node.elements with
    | none => exact hup (.inr hrefs)
    | some refs =>
      cases hvis : node.visited with
      | true => exact hup (.inl hvis)
      | false =>
        rw [summaryLoop_down hr hvis hrefs] at h
        cases h
        exact texts_set ht ((ht node (List.mem_of_getElem? hr)).of_eq rfl rfl rfl)

theorem summarize_texts {heap' : Heap} (hexp : Expanding tvb p heap []) (ht : ∀ node ∈ heap, Texts tvb node)
    (h : summarize heap = .ok heap') :
    heap'.map Node.block = heap.map Node.block ∧ ∀ node ∈ heap', Texts tvb node := by
  refine TryLoop.run_inv
    (I := fun s => SummaryState tvb (heap.map Node.block) s ∧ ∀ node ∈ s.1, Texts tvb node)
    (Q := fun heap' => heap'.map Node.block = heap.map Node.block ∧ ∀ node ∈ heap', Texts tvb node)
    (fun s s' hs hl => ?_) (fun s heap' hs hl => ?_) ⟨⟨summarizing_start hexp, rfl⟩, ht⟩ h
  · have hstep := summaryLoop_steps s hs.1
    rw [hl] at hstep
    exact ⟨hstep.1, summaryLoop_texts hs.1.1 hs.2 hl⟩
  · have hstep := summaryLoop_steps s hs.1
    rw [hl] at hstep
    exact ⟨hstep.2, summaryLoop_texts hs.1.1 hs.2 hl⟩

/-! ## A packet -/

/-- What is appended to the item of a packet. -/
def PacketText (tvb : Tvb) (b : Block) (text : String) : Prop :=
  ∃ info s, dictInfo b.type = some info ∧ SummedAs tvb b s ∧ text = ", " ++ info.name ++ ", " ++ s

theorem PacketText.unique (h : PacketText tvb b text) (h' : PacketText tvb b text') : text = text' := by
  obtain ⟨info, s, known, summed, rfl⟩ := h
  obtain ⟨info', s', known', summed', rfl⟩ := h'
  cases known.symm.trans known'
  rw [summed.unique summed']

theorem dissectPacket_text (h : InBuffer tvb b) (hvalid : canBeValidNdnPacket b = true)
    (htext : dissectPacket tvb b = .ok text) : PacketText tvb b text := by
  obtain ⟨bytes, hrange⟩ := range_block h
  obtain ⟨info, hinfo⟩ := known_of_valid hvalid
  have hexpand := expand_spec h
  cases hheap : expand tvb b with
  | error e =>
    simp only [dissectPacket, hrange, hheap, bind, Except.bind] at htext
    cases htext
  | ok heap =>
    rw [hheap] at hexpand
    obtain ⟨heap', node, hsum, hnode, -⟩ := summarize_spec hexpand
    obtain ⟨hblocks, htexts⟩ := summarize_texts hexpand (expand_texts h hheap) hsum
    simp only [dissectPacket, hrange, hheap, hsum, hnode, hinfo, bind, Except.bind] at htext
    cases hsummary : node.summary with
    | none =>
      rw [hsummary] at htext
      cases htext
    | some summary =>
      rw [hsummary] at htext
      cases htext
      have hblock : node.block = b := by
        have hfirst := hexpand.first
        rw [List.append_nil, ← hblocks, List.getElem?_map, node_eq_ok.1 hnode] at hfirst
        exact Option.some.inj hfirst
      refine ⟨info, summary, hinfo, ?_, rfl⟩
      rw [← hblock]
      exact (htexts node (List.mem_of_getElem? (node_eq_ok.1 hnode))).summary summary hsummary

end

end NdnTools.Dissector
