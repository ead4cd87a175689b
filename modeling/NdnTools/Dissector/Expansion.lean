/-
The loop that takes a packet apart. The heap grows with the queue: the nodes in front are done, the
others wait in the order of the queue. It ends, since a block is heavier than all of its sub-blocks, and
it fails exactly if one of the blocks nested in the packet stumbles.
-/
import NdnTools.Dissector.Tiles

namespace NdnTools.Dissector

/-! ## Nested blocks -/

/-- A block and what it is made of, as far as the dissector takes it apart. -/
inductive Nested (tvb : Tvb) (b : Block) : Block → Prop
  | refl : Nested tvb b b
  | step {c d : Block} {ds : List Block} (outer : Nested tvb b c) (tiles : Tiles tvb c.start c.stop ds) (mem : d ∈ ds) :
      Nested tvb b d

/-- A block of the buffer with a length of the usual kind. -/
structure InBuffer (tvb : Tvb) (b : Block) : Prop where
  read : ∃ o : ℕ, getBlock tvb (o : Num) = .ok (some b)
  narrow : b.length.wide = false
  stop_le : b.stop ≤ tvb.len

variable {tvb : Tvb} {p b : Block} {bs blocks : List Block}

theorem InBuffer.isBlock (h : InBuffer tvb b) : IsBlock tvb b.offset.toNat b := by
  obtain ⟨o, ho⟩ := h.read
  have hb := isBlock_of_getBlock ho
  have ho' : b.offset.toNat = o := by rw [hb.offset]; rfl
  rw [ho']
  exact hb

theorem InBuffer.of_mem (h : InBuffer tvb b) (ht : Tiles tvb b.start b.stop bs) {c : Block} (hc : c ∈ bs) :
    InBuffer tvb c := by
  obtain ⟨o, ho, hw, -, hstop⟩ := ht.mem hc
  exact ⟨⟨o, ho⟩, hw, hstop.trans h.stop_le⟩

/-! ## The weight of blocks -/

def Block.weight (b : Block) : ℕ := b.stop - b.offset.toNat

def weight (bs : List Block) : ℕ := (bs.map Block.weight).sum

theorem weight_append (bs ds : List Block) : weight (bs ++ ds) = weight bs + weight ds := by
  unfold weight
  rw [List.map_append, List.sum_append]

theorem weight_tiles {o e : ℕ} (h : Tiles tvb o e bs) : o + weight bs = e := by
  induction h with
  | nil o => rfl
  | @cons o e c cs read narrow rest ih =>
    have hc := isBlock_of_getBlock read
    have ho : c.offset.toNat = o := by rw [hc.offset]; rfl
    have hlt := hc.lt_stop
    unfold weight Block.weight at ih ⊢
    rw [List.map_cons, List.sum_cons, ho]
    omega

/-- The sub-blocks weigh less. -/
theorem InBuffer.weight_lt (h : InBuffer tvb b) (ht : Tiles tvb b.start b.stop bs) : weight bs < b.weight := by
  have hsum := weight_tiles ht
  have hlt := h.isBlock.lt_start
  unfold Block.weight
  omega

/-! ## What is read of a block -/

theorem range_value (h : InBuffer tvb b) :
    ∃ bytes, tvb.range (b.offset + b.typeLen + b.lengthLen) b.length = .ok bytes := by
  have hb := h.isBlock
  have hstop := h.stop_le
  have heq : b.stop = b.offset.toNat + b.typeLen + b.lengthLen + b.length.toNat := rfl
  rw [hb.offset, hb.length h.narrow]
  exact ⟨_, Tvb.range_ok (o := b.offset.toNat + b.typeLen + b.lengthLen) (by omega)⟩

theorem range_block (h : InBuffer tvb b) : ∃ bytes, tvb.range b.offset b.size = .ok bytes := by
  have hb := h.isBlock
  have hstop := h.stop_le
  have hlt := hb.lt_stop
  rw [hb.size_eq h.narrow, hb.offset]
  exact ⟨_, Tvb.range_ok (by rw [Num.toNat_natCast]; omega)⟩

theorem uint_value (h : InBuffer tvb b) {n : ℕ} (hn : b.length = (n : Num)) :
    ∃ v, tvb.uint (b.offset + b.typeLen + b.lengthLen) (n : Num) = .ok v := by
  obtain ⟨bytes, hr⟩ := range_value h
  rw [hn] at hr
  unfold Tvb.uint
  rw [hr]
  exact ⟨_, rfl⟩

theorem getNonNegativeInteger_ok (h : InBuffer tvb b) : ∃ v, getNonNegativeInteger tvb b = .ok v := by
  unfold getNonNegativeInteger
  split
  · rename_i hn
    exact uint_value h (n := 1) hn
  split
  · rename_i hn
    exact uint_value h (n := 2) hn
  split
  · rename_i hn
    exact uint_value h (n := 4) hn
  · exact ⟨_, rfl⟩

/-! ## References -/

theorem mapM_ok {α β : Type} {f : α → Except LuaError β} : ∀ {l : List α}, (∀ a ∈ l, ∃ v, f a = .ok v) →
    ∃ vs, l.mapM f = .ok vs
  | [], _ => ⟨[], rfl⟩
  | a :: l, h => by
    obtain ⟨v, hv⟩ := h a List.mem_cons_self
    obtain ⟨vs, hvs⟩ := mapM_ok (l := l) fun b hb => h b (List.mem_cons_of_mem _ hb)
    refine ⟨v :: vs, ?_⟩
    rw [List.mapM_cons, hv, hvs]
    rfl

theorem mem_mapM {α β : Type} {f : α → Except LuaError β} : ∀ {l : List α} {vs : List β}, l.mapM f = .ok vs →
    ∀ v, v ∈ vs ↔ ∃ a ∈ l, f a = .ok v
  | [], vs, h, v => by
    cases h
    simp
  | a :: l, vs, h, v => by
    rw [List.mapM_cons] at h
    cases ha : f a with
    | error e => rw [ha] at h; cases h
    | ok w =>
      cases hl : l.mapM f with
      | error e => rw [ha, hl] at h; cases h
      | ok ws =>
        rw [ha, hl] at h
        cases h
        rw [List.mem_cons, mem_mapM hl v]
        simp [ha, eq_comm]

/-- The references of a node that has been taken apart, to the blocks of the heap. -/
def Refer (blocks : List Block) (refs : List ℕ) (bs : List Block) : Prop := refs.map (blocks[·]?) = bs.map some

theorem Refer.append {refs : List ℕ} (h : Refer blocks refs bs) (more : List Block) :
    Refer (blocks ++ more) refs bs := by
  unfold Refer at h ⊢
  rw [← h]
  refine List.map_congr_left fun r hr => ?_
  have hsome : blocks[r]? ∈ bs.map some := h ▸ List.mem_map_of_mem hr
  obtain ⟨b, -, hb⟩ := List.mem_map.1 hsome
  exact List.getElem?_append_left (List.getElem?_eq_some_iff.1 hb.symm).1

/-- The blocks that are appended next. -/
theorem refer_range' (blocks bs : List Block) : Refer (blocks ++ bs) (List.range' blocks.length bs.length) bs := by
  unfold Refer
  refine List.ext_getElem? fun i => ?_
  rw [List.getElem?_map, List.getElem?_map]
  by_cases hi : i < bs.length
  · rw [List.getElem?_range' (by simpa using hi)]
    simp [hi]
  · rw [List.getElem?_eq_none (by simpa using hi), List.getElem?_eq_none (by simpa using hi)]
    rfl

theorem Refer.mem {refs : List ℕ} (h : Refer blocks refs bs) {r : ℕ} (hr : r ∈ refs) :
    ∃ b ∈ bs, blocks[r]? = some b := by
  have hsome : blocks[r]? ∈ bs.map some := h ▸ List.mem_map_of_mem hr
  obtain ⟨b, hb, he⟩ := List.mem_map.1 hsome
  exact ⟨b, hb, he.symm⟩

theorem Refer.ref {refs : List ℕ} (h : Refer blocks refs bs) (hb : b ∈ bs) : ∃ r ∈ refs, blocks[r]? = some b := by
  have hsome : some b ∈ refs.map (blocks[·]?) := h ▸ List.mem_map_of_mem hb
  obtain ⟨r, hr, he⟩ := List.mem_map.1 hsome
  exact ⟨r, hr, he⟩

theorem node_eq_ok {heap : Heap} {r : ℕ} {node : Node} : heap.node r = .ok node ↔ heap[r]? = some node := by
  unfold Heap.node
  split
  · rename_i hnone
    rw [hnone]
    simp
  · rename_i other hsome
    rw [hsome]
    simp

theorem node_of_block {heap : Heap} {r : ℕ} (h : (heap.map Node.block)[r]? = some b) :
    ∃ node, heap.node r = .ok node ∧ heap[r]? = some node ∧ node.block = b := by
  rw [List.getElem?_map, Option.map_eq_some_iff] at h
  obtain ⟨node, hnode, hb⟩ := h
  exact ⟨node, node_eq_ok.2 hnode, hnode, hb⟩

/-- What a node refers to is in the buffer. -/
def Elements (tvb : Tvb) (blocks : List Block) (node : Node) : Prop :=
  match node.elements with
  | none => ∀ bs, ¬ Tiles tvb node.block.start node.block.stop bs
  | some refs => ∃ bs, Tiles tvb node.block.start node.block.stop bs ∧ Refer blocks refs bs

theorem Elements.of_none {node : Node} (h : Elements tvb blocks node) (hn : node.elements = none) (bs : List Block) :
    ¬ Tiles tvb node.block.start node.block.stop bs := by
  unfold Elements at h
  rw [hn] at h
  exact h bs

theorem Elements.of_some {node : Node} {refs : List ℕ} (h : Elements tvb blocks node) (hs : node.elements = some refs) :
    ∃ bs, Tiles tvb node.block.start node.block.stop bs ∧ Refer blocks refs bs := by
  unfold Elements at h
  rw [hs] at h
  exact h

theorem Elements.append {node : Node} (h : Elements tvb blocks node) (more : List Block) :
    Elements tvb (blocks ++ more) node := by
  unfold Elements at h ⊢
  split at h
  · exact h
  · obtain ⟨bs, ht, hr⟩ := h
    exact ⟨bs, ht, hr.append more⟩

/-! ## What a block shows -/

section
variable [TvbStrings]

theorem getUriFromNameComponent_ok (h : InBuffer tvb b) : ∃ uri, getUriFromNameComponent tvb b = .ok uri := by
  obtain ⟨bytes, hr⟩ := range_value h
  unfold getUriFromNameComponent
  rw [hr]
  exact ⟨_, rfl⟩

theorem getUriFromName_ok {heap : Heap} {node : Node} (h : InBuffer tvb node.block)
    (he : Elements tvb (heap.map Node.block) node) : ∃ uri, getUriFromName tvb heap node = .ok uri := by
  unfold getUriFromName
  split
  · exact ⟨_, rfl⟩
  · rename_i refs hrefs
    obtain ⟨bs, ht, hr⟩ := he.of_some hrefs
    have hall : ∀ r ∈ refs, ∃ uri, (do getUriFromNameComponent tvb (← heap.node r).block) = .ok uri := by
      intro r hmem
      obtain ⟨c, hc, hcr⟩ := hr.mem hmem
      obtain ⟨sub, hsub, -, rfl⟩ := node_of_block hcr
      obtain ⟨uri, huri⟩ := getUriFromNameComponent_ok (h.of_mem ht hc)
      refine ⟨uri, ?_⟩
      rw [hsub]
      exact huri
    obtain ⟨components, hcomp⟩ := mapM_ok hall
    rw [hcomp]
    exact ⟨_, rfl⟩

theorem apply_ok {heap : Heap} {node : Node} (h : InBuffer tvb node.block)
    (he : Elements tvb (heap.map Node.block) node) (f : ValueFn) : ∃ value, f.apply tvb heap node = .ok value := by
  cases f with
  | getUriFromName => exact getUriFromName_ok h he
  | getUriFromNameComponent => exact getUriFromNameComponent_ok h
  | getNonNegativeInteger =>
    obtain ⟨v, hv⟩ := getNonNegativeInteger_ok h
    refine ⟨toString v, ?_⟩
    change (do return toString (← getNonNegativeInteger tvb node.block)) = _
    rw [hv]
    rfl
  | getUriFromExclude => exact ⟨_, rfl⟩
  | getTrue => exact ⟨_, rfl⟩
  | getGenericBlockInfo => exact ⟨_, rfl⟩

/-- The information is added without failure. -/
theorem addInfo_ok {heap : Heap} {node : Node} (h : InBuffer tvb node.block)
    (he : Elements tvb (heap.map Node.block) node) :
    ∃ value, addInfo tvb heap node = .ok { node with value := value, root := true } ∧
      (node.value = none → value.isSome = (valueFn node.block.type).isSome) := by
  obtain ⟨bytes, hr⟩ := range_block h
  unfold addInfo
  cases hf : valueFn node.block.type with
  | none =>
    refine ⟨node.value, ?_, fun hn => by rw [hn]; rfl⟩
    simp only [hr, bind, Except.bind]
    rfl
  | some f =>
    obtain ⟨value, hv⟩ := apply_ok h he f
    refine ⟨some value, ?_, fun _ => rfl⟩
    simp only [hv, hr, bind, Except.bind]
    rfl

end

/-! ## The loop -/

theorem map_block_fresh (bs : List Block) : (bs.map fresh).map Node.block = bs := by
  rw [List.map_map]
  exact List.map_id bs

/-- A node that has been taken apart, in a heap with these blocks. -/
structure Done (tvb : Tvb) (blocks : List Block) (node : Node) : Prop where
  root : node.root = true
  visited : node.visited = false
  summary : node.summary = none
  value : node.value.isSome = (valueFn node.block.type).isSome
  calm : ¬ Stumbles tvb node.block.start node.block.stop
  elements : Elements tvb blocks node

/-- One node of the heap is an element of another. -/
def Parent (heap : Heap) (r c : ℕ) : Prop := ∃ node refs, heap[r]? = some node ∧ node.elements = some refs ∧ c ∈ refs

/-- The nodes of the queue are the last ones of the heap. -/
structure Expanding (tvb : Tvb) (p : Block) (done : List Node) (waiting : List Block) : Prop where
  first : (done.map Node.block ++ waiting)[0]? = some p
  nested : ∀ b ∈ done.map Node.block ++ waiting, InBuffer tvb b ∧ Nested tvb p b
  isDone : ∀ node ∈ done, Done tvb (done.map Node.block ++ waiting) node
  below : ∀ r c, Parent done r c → r < c
  single : ∀ r r' c, Parent done r c → Parent done r' c → r = r'

/-- The state of the loop. -/
def ExpandState (tvb : Tvb) (p : Block) (s : Heap × List ℕ) : Prop :=
  ∃ done waiting, s = (done ++ waiting.map fresh, List.range' done.length waiting.length) ∧
    Expanding tvb p done waiting

/-- How it ends. -/
def Expansion (tvb : Tvb) (p : Block) : Except LuaError Heap → Prop
  | .error err => err = .numberExpected ∧ ∃ d, Nested tvb p d ∧ Stumbles tvb d.start d.stop
  | .ok heap => Expanding tvb p heap []

/-- The weight of what is waiting. -/
def waitingWeight (s : Heap × List ℕ) : ℕ := weight ((s.1.drop (s.1.length - s.2.length)).map Node.block)

theorem waitingWeight_eq (done : List Node) (waiting : List Block) :
    waitingWeight (done ++ waiting.map fresh, List.range' done.length waiting.length) = weight waiting := by
  unfold waitingWeight
  simp only [List.length_append, List.length_map, List.length_range', Nat.add_sub_cancel, List.drop_left]
  rw [map_block_fresh]

theorem not_parent_nil {r c : ℕ} : ¬ Parent [] r c := by
  rintro ⟨node, refs, hr, -⟩
  cases hr

theorem parent_append {done : List Node} {node : Node} {r c : ℕ} (h : Parent (done ++ [node]) r c) :
    Parent done r c ∨ (r = done.length ∧ ∃ refs, node.elements = some refs ∧ c ∈ refs) := by
  obtain ⟨other, refs, hr, hrefs, hc⟩ := h
  rcases lt_or_ge r done.length with hlt | hge
  · rw [List.getElem?_append_left hlt] at hr
    exact .inl ⟨other, refs, hr, hrefs, hc⟩
  · rw [List.getElem?_append_right hge] at hr
    obtain ⟨hzero, rfl⟩ := List.getElem?_eq_some_iff.1 hr
    rw [List.length_singleton] at hzero
    exact .inr ⟨by omega, refs, by simpa using hrefs, hc⟩

/-- An element is in the heap. -/
theorem Expanding.parent_lt {done : List Node} {waiting : List Block} {r c : ℕ} (h : Expanding tvb p done waiting)
    (hc : Parent done r c) : c < (done.map Node.block ++ waiting).length := by
  obtain ⟨node, refs, hr, hrefs, hmem⟩ := hc
  obtain ⟨bs, -, hrefer⟩ := (h.isDone node (List.mem_of_getElem? hr)).elements.of_some hrefs
  obtain ⟨b, -, hb⟩ := hrefer.mem hmem
  exact (List.getElem?_eq_some_iff.1 hb).1

/-- The next block is taken apart: its sub-blocks join the queue. -/
theorem expanding_next {done : List Node} {waiting new : List Block} {node : Node}
    (h : Expanding tvb p done (b :: waiting)) (hb : node.block = b)
    (hnew : ∀ b ∈ new, InBuffer tvb b ∧ Nested tvb p b)
    (hdone : Done tvb (done.map Node.block ++ b :: waiting ++ new) node)
    (hlast : ∀ refs, node.elements = some refs → ∀ c ∈ refs, (done.map Node.block ++ b :: waiting).length ≤ c) :
    Expanding tvb p (done ++ [node]) (waiting ++ new) := by
  subst hb
  have hblocks : (done ++ [node]).map Node.block ++ (waiting ++ new) =
      done.map Node.block ++ node.block :: waiting ++ new := by simp
  have hlen : (done.map Node.block ++ node.block :: waiting).length = done.length + (waiting.length + 1) := by simp
  refine ⟨?_, ?_, ?_, fun r c hc => ?_, fun r r' c hc hc' => ?_⟩
  · rw [hblocks]
    have hpos := (List.getElem?_eq_some_iff.1 h.first).1
    exact (List.getElem?_append_left hpos).trans h.first
  · rw [hblocks]
    intro b hb
    rcases List.mem_append.1 hb with hb | hb
    · exact h.nested b hb
    · exact hnew b hb
  · rw [hblocks]
    intro other hother
    rcases List.mem_append.1 hother with hother | hother
    · have hold := h.isDone other hother
      exact { hold with elements := hold.elements.append new }
    · rw [List.mem_singleton.1 hother]
      exact hdone
  · rcases parent_append hc with hc | ⟨rfl, refs, hrefs, hmem⟩
    · exact h.below r c hc
    · have := hlast refs hrefs c hmem
      omega
  · -- the new references are greater than all old ones
    rcases parent_append hc with hc | ⟨rfl, refs, hrefs, hmem⟩ <;>
      rcases parent_append hc' with hc' | ⟨rfl, refs', hrefs', hmem'⟩
    · exact h.single r r' c hc hc'
    · exact absurd (h.parent_lt hc) (not_lt.2 (hlast refs' hrefs' c hmem'))
    · exact absurd (h.parent_lt hc') (not_lt.2 (hlast refs hrefs c hmem))
    · rfl

/-- The sub-blocks that are found, if there are any, and the references to them. -/
theorem subBlocks_new {subBlocks : Option (List Block)} {node : Node} (hin : InBuffer tvb node.block)
    (hnest : Nested tvb p node.block)
    (hsub : SubBlocksOf tvb node.block.start node.block.stop (.ok subBlocks)) (blocks : List Block) :
    (∀ c ∈ subBlocks.getD [], InBuffer tvb c ∧ Nested tvb p c) ∧ weight (subBlocks.getD []) < node.block.weight ∧
      Elements tvb (blocks ++ subBlocks.getD [])
        { node with elements := subBlocks.map fun bs => List.range' blocks.length bs.length } := by
  cases subBlocks with
  | none =>
    have hlt := hin.isBlock.lt_stop
    refine ⟨fun c hc => (by cases hc), ?_, hsub.2⟩
    change 0 < node.block.stop - node.block.offset.toNat
    omega
  | some bs =>
    exact ⟨fun c hc => ⟨hin.of_mem hsub.2 hc, .step hnest hsub.2 hc⟩, hin.weight_lt hsub.2, bs, hsub.2,
      refer_range' blocks bs⟩

/-- They join the queue. -/
theorem queue_new (done : List Node) (b : Block) (waiting : List Block) (node : Node)
    (subBlocks : Option (List Block)) :
    List.range' (done.length + 1) waiting.length ++
        (subBlocks.map fun bs => List.range' (done.map Node.block ++ b :: waiting).length bs.length).getD [] =
      List.range' (done ++ [node]).length (waiting ++ subBlocks.getD []).length := by
  have hlen : (done.map Node.block ++ b :: waiting).length = done.length + 1 + waiting.length := by simp; omega
  rw [hlen, List.length_append, List.length_append, List.length_singleton]
  cases subBlocks with
  | none => simp
  | some bs => simp

theorem set_waiting (done : List Node) (b : Block) (waiting new : List Block) (node : Node) :
    (done ++ (b :: waiting).map fresh ++ new.map fresh).set done.length node =
      done ++ [node] ++ (waiting ++ new).map fresh := by
  simp

/-- The loop goes on with its sub-blocks at the end of the queue, and with less to do. -/
theorem expanding_step {done : List Node} {waiting : List Block} {subBlocks : Option (List Block)} {node : Node}
    (h : Expanding tvb p done (b :: waiting)) (hb : node.block = b)
    (hnew : ∀ c ∈ subBlocks.getD [], InBuffer tvb c ∧ Nested tvb p c)
    (hlight : weight (subBlocks.getD []) < b.weight)
    (hdone : Done tvb (done.map Node.block ++ b :: waiting ++ subBlocks.getD []) node)
    (hlast : ∀ refs, node.elements = some refs → ∀ c ∈ refs, (done.map Node.block ++ b :: waiting).length ≤ c) :
    TryLoop.Steps (ExpandState tvb p) waitingWeight (Expansion tvb p)
      (done ++ (b :: waiting).map fresh, done.length :: List.range' (done.length + 1) waiting.length)
      (.ok (.inl ((done ++ (b :: waiting).map fresh ++ (subBlocks.getD []).map fresh).set done.length node,
        List.range' (done.length + 1) waiting.length ++
          (subBlocks.map fun bs => List.range' (done.map Node.block ++ b :: waiting).length bs.length).getD []))) := by
  rw [set_waiting, queue_new done b waiting node]
  refine ⟨⟨done ++ [node], waiting ++ subBlocks.getD [], rfl, expanding_next h hb hnew hdone hlast⟩, ?_⟩
  have hcons : weight (b :: waiting) = b.weight + weight waiting := by simp [weight]
  have hweight := waitingWeight_eq done (b :: waiting)
  rw [waitingWeight_eq, weight_append]
  change _ < waitingWeight (done ++ (b :: waiting).map fresh, List.range' done.length (b :: waiting).length)
  omega

variable [TvbStrings]

/-- One iteration. -/
theorem expandLoop_steps (s : Heap × List ℕ) (hs : ExpandState tvb p s) :
    TryLoop.Steps (ExpandState tvb p) waitingWeight (Expansion tvb p) s (expandLoop tvb s) := by
  obtain ⟨done, waiting, rfl, h⟩ := hs
  cases waiting with
  | nil =>
    have hend : expandLoop tvb (done ++ [].map fresh, List.range' done.length 0) = .ok (.inr done) := by
      rw [List.map_nil, List.append_nil]
      rfl
    rw [List.length_nil, hend]
    exact h
  | cons b waiting =>
    obtain ⟨hin, hnest⟩ := h.nested b (by simp)
    have hsub := getSubBlocks_spec hin.isBlock hin.narrow
    have hnode : Heap.node (done ++ (b :: waiting).map fresh) done.length = .ok (fresh b) := by
      unfold Heap.node
      rw [List.getElem?_append_right (le_refl _), Nat.sub_self]
      rfl
    have hrange : List.range' done.length (b :: waiting).length =
        done.length :: List.range' (done.length + 1) waiting.length := rfl
    have hlen : (done ++ (b :: waiting).map fresh).length = (done.map Node.block ++ b :: waiting).length := by simp
    rw [hrange]
    cases hget : getSubBlocks tvb (fresh b).block with
    | error err =>
      simp only [expandLoop, hnode, hget, bind, Except.bind]
      rw [show getSubBlocks tvb b = .error err from hget] at hsub
      exact ⟨hsub.1, b, hnest, hsub.2⟩
    | ok subBlocks =>
      rw [show getSubBlocks tvb b = .ok subBlocks from hget] at hsub
      obtain ⟨hnew, hlight, helems⟩ :=
        @subBlocks_new _ _ _ (fresh b) hin hnest hsub (done.map Node.block ++ b :: waiting)
      have hheap : (done ++ (b :: waiting).map fresh ++ (subBlocks.getD []).map fresh).map Node.block =
          done.map Node.block ++ b :: waiting ++ subBlocks.getD [] := by simp [Function.comp_def, fresh]
      obtain ⟨value, hadd, hvalue⟩ :=
        @addInfo_ok _ _ (done ++ (b :: waiting).map fresh ++ (subBlocks.getD []).map fresh) _ hin (hheap ▸ helems)
      simp only [expandLoop, hnode, hget, bind, Except.bind]
      rw [hlen]
      simp only [hadd]
      refine expanding_step h rfl hnew hlight ⟨rfl, rfl, rfl, hvalue rfl, SubBlocksOf.calm hsub, helems⟩
        fun refs hrefs c hc => ?_
      obtain ⟨bs, -, rfl⟩ := Option.map_eq_some_iff.1 hrefs
      exact (List.mem_range'_1.1 hc).1

/-- How taking a packet apart ends. -/
theorem expand_spec (hp : InBuffer tvb p) : Expansion tvb p (expand tvb p) := by
  unfold expand
  refine TryLoop.run_spec expandLoop_steps ⟨[], [p], rfl, rfl, fun b hb => ?_, fun node hnode => (by cases hnode),
    fun r c hc => absurd hc not_parent_nil, fun r r' c hc => absurd hc not_parent_nil⟩ ?_
  · rw [List.mem_singleton.1 hb]
    exact ⟨hp, .refl⟩
  · have hstop := hp.stop_le
    have hweight : waitingWeight ([fresh p], [0]) = p.weight + 0 := waitingWeight_eq [] [p]
    rw [hweight]
    unfold Block.weight
    omega

/-! ## The heap of a packet -/

omit [TvbStrings] in
/-- All that is nested in the packet is in the heap. -/
theorem Expanding.mem {heap : Heap} (h : Expanding tvb p heap []) {d : Block} (hd : Nested tvb p d) :
    d ∈ heap.map Node.block := by
  induction hd with
  | refl =>
    have hfirst := h.first
    rw [List.append_nil] at hfirst
    exact List.mem_of_getElem? hfirst
  | @step c d ds outer tiles mem ih =>
    obtain ⟨node, hnode, rfl⟩ := List.mem_map.1 ih
    have helems := (h.isDone node hnode).elements
    rw [List.append_nil] at helems
    cases hrefs : node.elements with
    | none => exact absurd tiles (helems.of_none hrefs ds)
    | some refs =>
      obtain ⟨bs, ht, hr⟩ := helems.of_some hrefs
      rw [tiles.unique ht] at mem
      obtain ⟨r, -, hget⟩ := hr.ref mem
      exact List.mem_of_getElem? hget

/-- No block nested in the packet stumbles. -/
def Expandable (tvb : Tvb) (p : Block) : Prop := ∀ d, Nested tvb p d → ¬ Stumbles tvb d.start d.stop

omit [TvbStrings] in
theorem Expanding.expandable {heap : Heap} (h : Expanding tvb p heap []) : Expandable tvb p := by
  intro d hd
  obtain ⟨node, hnode, rfl⟩ := List.mem_map.1 (h.mem hd)
  exact (h.isDone node hnode).calm

end NdnTools.Dissector
