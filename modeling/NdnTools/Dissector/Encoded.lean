/-
What the dissector shows of packets as they are encoded. A packet is a tree of elements; where its wire lies in a
buffer the dissector finds the blocks of its elements, and shows the text of the tree.
-/
import NdnTools.Dissector.Shown
import NdnTools.Dissector.VarNumber

namespace NdnTools.Dissector

open Tlv (varNumber bigEndian)

/-! ## Elements -/

/-- An element of a packet: octets, or elements in turn. -/
inductive Element
  | octets (type : ℕ) (value : Bytes)
  | nested (type : ℕ) (elements : List Element)

def Element.type : Element → ℕ
  | octets type _ => type
  | nested type _ => type

mutual

def Element.value : Element → Bytes
  | .octets _ value => value
  | .nested _ es => wires es

def wires : List Element → Bytes
  | [] => []
  | e :: es => (Tlv.Block.mk e.type e.value true).wire ++ wires es

end

def Element.wire (e : Element) : Bytes := (Tlv.Block.mk e.type e.value true).wire

theorem wires_cons (e : Element) (es : List Element) : wires (e :: es) = e.wire ++ wires es := by
  rw [wires, Element.wire]

theorem value_nested (type : ℕ) (es : List Element) : (Element.nested type es).value = wires es := by
  rw [Element.value]

/-- The block of an element at a place. -/
def blockAt (o : ℕ) (e : Element) : Block where
  offset := (o : Num)
  type := (e.type : Num)
  typeLen := (varNumber e.type).length
  length := (e.value.length : Num)
  lengthLen := (varNumber e.value.length).length
  size := ((varNumber e.type).length : Num) + ((varNumber e.value.length).length : Num) + (e.value.length : Num)

/-- The blocks of elements one after the other. -/
def blocksAt : ℕ → List Element → List Block
  | _, [] => []
  | o, e :: es => blockAt o e :: blocksAt (o + e.wire.length) es

/-- The type and the length take no more than five octets. -/
structure Element.Small (e : Element) : Prop where
  type : e.type < 2 ^ 32
  length : e.value.length < 2 ^ 32

/-! ## Reading them -/

variable {tvb : Tvb} {o n : ℕ} {e : Element} {es : List Element}

theorem length_wire (e : Element) : e.wire.length =
    (varNumber e.type).length + ((varNumber e.value.length).length + e.value.length) := by
  simp [Element.wire, Tlv.Block.wire]

theorem stop_blockAt (o : ℕ) (e : Element) : (blockAt o e).stop = o + e.wire.length := by
  rw [length_wire]
  simp only [blockAt, Block.stop, Block.start, Num.toNat_natCast]
  omega

/-- A number of up to five octets is read as a number. -/
theorem readVarNumber_small (hn : n < 2 ^ 32) (h : varNumber n <+: tvb.bytes.drop o)
    (hnext : n < 253 ∨ o + (varNumber n).length < tvb.len) :
    readVarNumber tvb (o : Num) = .ok ((n : Num), (varNumber n).length) := by
  unfold varNumber at h hnext ⊢
  split at h
  · rename_i hlt
    have hfirst : (UInt8.ofNat n).toNat = n := by
      rw [UInt8.toNat_ofNat']
      omega
    have hsingle : UInt8.ofNat n < 253 := UInt8.lt_iff_toNat_lt.2 (by rw [hfirst]; exact hlt)
    have hread := readVarNumber_single hsingle h
    rw [hfirst] at hread
    rw [if_pos hlt, hread]
    rfl
  · rename_i hge
    rw [if_neg hge] at hnext ⊢
    have hfit := hnext.resolve_left hge
    split at h
    · rename_i hlt
      rw [if_pos hlt] at hfit ⊢
      have hread := readVarNumber_wide (by decide : ¬ (253 : UInt8) < 253) (Tlv.length_octets 2 n) h
      rw [List.length_cons, Tlv.length_octets] at hfit
      rw [Tlv.length_octets, if_pos hfit, wideValue, Tlv.length_octets, if_neg (by decide),
        Tlv.bigEndian_octets (by omega)] at hread
      exact hread
    · rename_i hge'
      rw [if_neg hge', if_pos hn] at hfit ⊢
      have hread := readVarNumber_wide (by decide : ¬ (254 : UInt8) < 253) (Tlv.length_octets 4 n) h
      rw [List.length_cons, Tlv.length_octets] at hfit
      rw [Tlv.length_octets, if_pos hfit, wideValue, Tlv.length_octets, if_neg (by decide),
        Tlv.bigEndian_octets (by omega)] at hread
      exact hread

theorem prefix_drop {before code bytes : Bytes} (h : before ++ code <+: bytes.drop o) :
    code <+: bytes.drop (o + before.length) := by
  obtain ⟨after, hafter⟩ := h
  refine ⟨after, ?_⟩
  rw [← List.drop_drop, ← hafter, List.append_assoc, List.drop_left]

theorem prefix_take {before code bytes : Bytes} (h : before ++ code <+: bytes.drop o) : before <+: bytes.drop o :=
  (List.prefix_append before code).trans h

/-- The type and the length in front of the value of an element. -/
def Element.header (e : Element) : Bytes := varNumber e.type ++ varNumber e.value.length

theorem wire_eq (e : Element) : e.wire = e.header ++ e.value := by
  rw [Element.wire, Tlv.Block.wire, Element.header, List.append_assoc]

/-- The block of an element is read where its header is, and an octet more if its length takes several. -/
theorem getBlock_header (hs : e.Small) (h : e.header <+: tvb.bytes.drop o)
    (hnext : e.value.length < 253 ∨ o + e.header.length < tvb.len) :
    getBlock tvb (o : Num) = .ok (some (blockAt o e)) := by
  have htype := Tlv.length_varNumber_pos e.type
  have hlength := Tlv.length_varNumber_pos e.value.length
  have hsize : e.header.length = (varNumber e.type).length + (varNumber e.value.length).length := List.length_append
  have hle := le_len_of_present h (by omega)
  have hrest := prefix_drop h
  have hnext' : e.value.length < 253 ∨
      o + (varNumber e.type).length + (varNumber e.value.length).length < tvb.len := by omega
  have hreadType := readVarNumber_small hs.type (prefix_take h) (.inr (by omega))
  have hreadLength := readVarNumber_small hs.length hrest hnext'
  have hadd : (o : Num) + ((varNumber e.type).length : Num) = ((o + (varNumber e.type).length : ℕ) : Num) := by simp
  unfold getBlock
  simp only [hreadType, bind, Except.bind]
  rw [if_neg (by omega), hadd]
  simp only [hreadLength]
  rw [if_neg (by omega)]
  rfl

/-- The block of an element is read where its wire is. -/
theorem getBlock_wire (hs : e.Small) (h : e.wire <+: tvb.bytes.drop o) :
    getBlock tvb (o : Num) = .ok (some (blockAt o e)) := by
  have hpos := Tlv.length_varNumber_pos e.type
  have hsize := length_wire e
  have hle := le_len_of_present h (by omega)
  rw [wire_eq] at h
  refine getBlock_header hs (prefix_take h) ?_
  rw [Element.header, List.length_append]
  omega

/-- The value of an element is where its block starts. -/
theorem value_present (h : e.wire <+: tvb.bytes.drop o) : e.value <+: tvb.bytes.drop (blockAt o e).start := by
  have hstart : (blockAt o e).start = o + (varNumber e.type).length + (varNumber e.value.length).length := by
    simp [blockAt, Block.start, Num.toNat_natCast]
  rw [hstart]
  exact prefix_drop (prefix_drop h)

theorem valueOf_blockAt (h : e.wire <+: tvb.bytes.drop o) : tvb.valueOf (blockAt o e) = e.value := by
  obtain ⟨after, hafter⟩ := value_present h
  have hlength : (blockAt o e).length.toNat = e.value.length := rfl
  unfold Tvb.valueOf
  rw [← hafter, hlength, List.take_left]

/-- The elements after the first one. -/
theorem wires_tail (h : wires (e :: es) <+: tvb.bytes.drop o) :
    e.wire <+: tvb.bytes.drop o ∧ wires es <+: tvb.bytes.drop (o + e.wire.length) := by
  rw [wires_cons] at h
  exact ⟨prefix_take h, prefix_drop h⟩

theorem tiles_wires (hs : ∀ e ∈ es, e.Small) (h : wires es <+: tvb.bytes.drop o) :
    Tiles tvb o (o + (wires es).length) (blocksAt o es) := by
  induction es generalizing o with
  | nil =>
    rw [wires]
    exact .nil o
  | cons e es ih =>
    obtain ⟨hfirst, hrest⟩ := wires_tail h
    have htail := ih (fun e he => hs e (List.mem_cons_of_mem _ he)) hrest
    rw [wires_cons, List.length_append, ← Nat.add_assoc]
    refine .cons (getBlock_wire (hs e List.mem_cons_self) hfirst) rfl ?_
    rw [stop_blockAt]
    exact htail

/-- The blocks of the elements of an element are its sub-blocks. -/
theorem tiles_nested {type : ℕ} (hs : ∀ e ∈ es, e.Small) (h : (Element.nested type es).wire <+: tvb.bytes.drop o) :
    Tiles tvb (blockAt o (.nested type es)).start (blockAt o (.nested type es)).stop
      (blocksAt (blockAt o (.nested type es)).start es) := by
  have hvalue := value_present h
  rw [value_nested] at hvalue
  have htiles := tiles_wires hs hvalue
  have hstop : (blockAt o (.nested type es)).stop = (blockAt o (.nested type es)).start + (wires es).length := by
    have hlength : (blockAt o (.nested type es)).length.toNat = (Element.nested type es).value.length := rfl
    rw [Block.stop, hlength, value_nested]
  rw [hstop]
  exact htiles

/-! ## The text of an element -/

def integerOfOctets (value : Bytes) : ℕ :=
  if value.length = 1 ∨ value.length = 2 ∨ value.length = 4 then bigEndian value else 0xFFFFFFFF

/-- Octets of a type that is shown by its elements have none; what they are taken for is another question. -/
structure Element.Plain (type : ℕ) : Prop where
  noName : ∀ info ∈ dictInfo (type : Num), info.value ≠ some .getUriFromName
  noSummary : ∀ info ∈ dictInfo (type : Num), info.value = none → info.summary = false

/-- Elements of types that are shown by their elements are nested. -/
inductive Element.Proper : Element → Prop
  | octets {type : ℕ} {value : Bytes} (small : (Element.octets type value).Small) (plain : Element.Plain type) :
      Proper (.octets type value)
  | nested {type : ℕ} {es : List Element} (small : (Element.nested type es).Small)
      (elements : ∀ e ∈ es, Proper e) : Proper (.nested type es)

theorem Element.Proper.small (h : e.Proper) : e.Small := by
  cases h with
  | octets small => exact small
  | nested small => exact small

section
variable [TvbStrings]

def Element.uri : Element → String
  | octets _ _ => ""
  | nested _ es => "/" ++ "/".intercalate (es.map fun e => string e.value)

def Element.told (e : Element) : ValueFn → String
  | .getUriFromName => e.uri
  | .getUriFromNameComponent => string e.value
  | .getNonNegativeInteger => toString (integerOfOctets e.value)
  | .getUriFromExclude => ""
  | .getTrue => "Yes"
  | .getGenericBlockInfo => getGenericBlockInfo (blockAt 0 e)

def joined (lines : List String) : Option String := if lines = [] then none else some (", ".intercalate lines)

mutual

/-- What is shown of an element, if anything is. -/
def Element.text : Element → Option String
  | .octets type value => (dictInfo (type : Num)).bind fun info => info.value.map (Element.octets type value).told
  | .nested type es => (dictInfo (type : Num)).bind fun info =>
      (info.value.map (Element.nested type es).told).or (if info.summary then joined (linesOf es) else none)

/-- The lines of a summary. -/
def linesOf : List Element → List String
  | [] => []
  | e :: es => (e.text.map fun t => nameOf (blockAt 0 e) ++ ": " ++ t).toList ++ linesOf es

end

variable {info : Info} {f : ValueFn}

theorem text_of_unknown (hd : dictInfo (e.type : Num) = none) : e.text = none := by
  cases e with
  | octets type value =>
    rw [Element.text, show dictInfo (type : Num) = none from hd]
    rfl
  | nested type es =>
    rw [Element.text, show dictInfo (type : Num) = none from hd]
    rfl

theorem text_of_value (hd : dictInfo (e.type : Num) = some info) (hf : info.value = some f) :
    e.text = some (e.told f) := by
  cases e with
  | octets type value =>
    rw [Element.text, show dictInfo (type : Num) = some info from hd, Option.bind_some, hf]
    rfl
  | nested type es =>
    rw [Element.text, show dictInfo (type : Num) = some info from hd, Option.bind_some, hf]
    rfl

theorem text_of_no_summary (hd : dictInfo (e.type : Num) = some info) (hf : info.value = none)
    (hs : info.summary = false) : e.text = none := by
  cases e with
  | octets type value =>
    rw [Element.text, show dictInfo (type : Num) = some info from hd, Option.bind_some, hf]
    rfl
  | nested type es =>
    rw [Element.text, show dictInfo (type : Num) = some info from hd, Option.bind_some, hf, if_neg (by simp [hs])]
    rfl

theorem text_of_summary {type : ℕ} (hd : dictInfo (type : Num) = some info) (hf : info.value = none)
    (hs : info.summary = true) : (Element.nested type es).text = joined (linesOf es) := by
  rw [Element.text, hd, Option.bind_some, hf, if_pos hs]
  rfl

theorem told_blockAt {ds : Option (List Block)} (h : e.wire <+: tvb.bytes.drop o)
    (huri : f = .getUriFromName → uriOf tvb ds = e.uri) : told tvb (blockAt o e) ds f = e.told f := by
  have hvalue := valueOf_blockAt h
  cases f with
  | getUriFromName => exact huri rfl
  | getUriFromNameComponent => exact congrArg string hvalue
  | getNonNegativeInteger =>
    show toString (integerOf tvb (blockAt o e)) = toString (integerOfOctets e.value)
    unfold integerOf integerOfOctets
    rw [hvalue]
    rfl
  | getUriFromExclude => rfl
  | getTrue => rfl
  | getGenericBlockInfo => rfl

omit [TvbStrings] in
theorem map_valueOf (h : wires es <+: tvb.bytes.drop o) : (blocksAt o es).map tvb.valueOf = es.map Element.value := by
  induction es generalizing o with
  | nil => rfl
  | cons e es ih =>
    obtain ⟨hfirst, hrest⟩ := wires_tail h
    rw [blocksAt, List.map_cons, List.map_cons, valueOf_blockAt hfirst, ih hrest]

/-- The blocks that show something, with their texts. -/
def pairsAt : ℕ → List Element → List (Block × String)
  | _, [] => []
  | o, e :: es => (e.text.map fun t => (blockAt o e, t)).toList ++ pairsAt (o + e.wire.length) es

/-- The dissector shows the text of an element at a place. -/
structure Described (tvb : Tvb) (o : ℕ) (e : Element) : Prop where
  shows : Shows tvb (blockAt o e) ↔ e.text.isSome = true
  text : ∀ t, e.text = some t → ShowsAs tvb (blockAt o e) t

theorem map_pairsAt (o : ℕ) (es : List Element) :
    (pairsAt o es).map (fun p => nameOf p.1 ++ ": " ++ p.2) = linesOf es := by
  induction es generalizing o with
  | nil =>
    rw [linesOf]
    rfl
  | cons e es ih =>
    rw [pairsAt, linesOf, List.map_append, ih]
    cases e.text with
    | none => rfl
    | some t => rfl

open scoped Classical in
theorem map_fst_pairsAt (hd : ∀ e ∈ es, ∀ o, e.wire <+: tvb.bytes.drop o → Described tvb o e)
    (h : wires es <+: tvb.bytes.drop o) :
    (pairsAt o es).map Prod.fst = (blocksAt o es).filter fun d => Shows tvb d := by
  induction es generalizing o with
  | nil => rfl
  | cons e es ih =>
    obtain ⟨hfirst, hrest⟩ := wires_tail h
    have hshows := (hd e List.mem_cons_self o hfirst).shows
    have htail := ih (fun e he => hd e (List.mem_cons_of_mem _ he)) hrest
    rw [pairsAt, blocksAt, List.map_append, htail]
    cases htext : e.text with
    | none =>
      rw [htext] at hshows
      rw [List.filter_cons_of_neg (by simpa using fun hs => Bool.false_ne_true (hshows.1 hs))]
      rfl
    | some t =>
      rw [htext] at hshows
      rw [List.filter_cons_of_pos (by simpa using hshows.2 rfl)]
      rfl

theorem showsAs_pairsAt (hd : ∀ e ∈ es, ∀ o, e.wire <+: tvb.bytes.drop o → Described tvb o e)
    (h : wires es <+: tvb.bytes.drop o) : ∀ p ∈ pairsAt o es, ShowsAs tvb p.1 p.2 := by
  induction es generalizing o with
  | nil => exact fun p hp => (by cases hp)
  | cons e es ih =>
    obtain ⟨hfirst, hrest⟩ := wires_tail h
    intro p hp
    rw [pairsAt] at hp
    rcases List.mem_append.1 hp with hp | hp
    · obtain ⟨t, htext, rfl⟩ := Option.map_eq_some_iff.1 (Option.mem_toList.1 hp)
      exact (hd e List.mem_cons_self o hfirst).text t htext
    · exact ih (fun e he => hd e (List.mem_cons_of_mem _ he)) hrest p hp

/-- A block that is shown by a function. -/
theorem described_value {ds : Option (List Block)} (hd : dictInfo (e.type : Num) = some info)
    (hf : info.value = some f) (hparts : Parts tvb (blockAt o e) ds) (htold : told tvb (blockAt o e) ds f = e.told f) :
    Described tvb o e := by
  have htext := text_of_value hd hf
  refine ⟨?_, fun t ht => ?_⟩
  · rw [htext]
    exact ⟨fun _ => rfl, fun _ => .value hd (by rw [hf]; rfl)⟩
  · rw [htext] at ht
    cases ht
    rw [← htold]
    exact .value hd hf hparts

/-- A block that shows nothing. -/
theorem described_none (hno : ¬ Shows tvb (blockAt o e)) (htext : e.text = none) : Described tvb o e := by
  refine ⟨?_, fun t ht => ?_⟩
  · rw [htext]
    exact ⟨fun hs => absurd hs hno, fun hs => (by cases hs)⟩
  · rw [htext] at ht
    cases ht

theorem described_unknown (hd : dictInfo (e.type : Num) = none) : Described tvb o e := by
  refine described_none (fun hs => ?_) (text_of_unknown hd)
  have hknown := hs.known
  rw [show dictInfo (blockAt o e).type = none from hd] at hknown
  cases hknown

omit [TvbStrings] in
/-- A block without a function for its value shows a summary or nothing. -/
theorem shows_iff_summed (hd : dictInfo (e.type : Num) = some info) (hf : info.value = none) :
    Shows tvb (blockAt o e) ↔ Summed tvb (blockAt o e) := by
  rw [shows_iff]
  refine ⟨fun hshows => ?_, .inr⟩
  rcases hshows with ⟨info', known, fn⟩ | hsummed
  · cases (show dictInfo (blockAt o e).type = some info from hd).symm.trans known
    rw [hf] at fn
    cases fn
  · exact hsummed

theorem described_no_summary (hd : dictInfo (e.type : Num) = some info) (hf : info.value = none)
    (hs : info.summary = false) : Described tvb o e := by
  refine described_none (fun hshows => ?_) (text_of_no_summary hd hf hs)
  obtain ⟨info', ds, known, sums, -⟩ := (shows_iff_summed hd hf).1 hshows
  cases (show dictInfo (blockAt o e).type = some info from hd).symm.trans known
  rw [hs] at sums
  cases sums

omit [TvbStrings] in
theorem exists_parts (b : Block) : ∃ ds, Parts tvb b ds := by
  by_cases htiles : ∃ ds, Tiles tvb b.start b.stop ds
  · obtain ⟨ds, htiles⟩ := htiles
    exact ⟨some ds, htiles⟩
  · exact ⟨none, fun ds hds => htiles ⟨ds, hds⟩⟩

theorem described_octets {type : ℕ} {value : Bytes} (hplain : Element.Plain type)
    (h : (Element.octets type value).wire <+: tvb.bytes.drop o) : Described tvb o (.octets type value) := by
  cases hd : dictInfo (type : Num) with
  | none => exact described_unknown hd
  | some info =>
    cases hf : info.value with
    | none => exact described_no_summary hd hf (hplain.noSummary info hd hf)
    | some f =>
      obtain ⟨ds, hparts⟩ : ∃ ds, Parts tvb (blockAt o (.octets type value)) ds := exists_parts _
      have hname : f ≠ .getUriFromName := fun heq => hplain.noName info hd (heq ▸ hf)
      exact described_value hd hf hparts (told_blockAt h fun heq => absurd heq hname)

/-- The summary of a block whose elements are described. -/
theorem summedAs_nested {type : ℕ} (hd : dictInfo (type : Num) = some info) (hs : info.summary = true)
    (hsmall : ∀ e ∈ es, e.Small) (hes : ∀ e ∈ es, ∀ o, e.wire <+: tvb.bytes.drop o → Described tvb o e)
    (h : (Element.nested type es).wire <+: tvb.bytes.drop o) (hne : linesOf es ≠ []) :
    SummedAs tvb (blockAt o (.nested type es)) (", ".intercalate (linesOf es)) := by
  have hvalue := value_present h
  rw [value_nested] at hvalue
  have hnonempty : pairsAt (blockAt o (.nested type es)).start es ≠ [] := by
    intro hnil
    apply hne
    rw [← map_pairsAt (blockAt o (.nested type es)).start es, hnil]
    rfl
  have hsummed := SummedAs.mk (b := blockAt o (.nested type es)) hd hs (tiles_nested hsmall h)
    (map_fst_pairsAt hes hvalue) (showsAs_pairsAt hes hvalue) hnonempty
  rwa [summaryOf, map_pairsAt] at hsummed

/-- One that has a summary has a line in it. -/
theorem lines_of_summed {type : ℕ} (hsmall : ∀ e ∈ es, e.Small)
    (hes : ∀ e ∈ es, ∀ o, e.wire <+: tvb.bytes.drop o → Described tvb o e)
    (h : (Element.nested type es).wire <+: tvb.bytes.drop o) (hsummed : Summed tvb (blockAt o (.nested type es))) :
    linesOf es ≠ [] := by
  have hvalue := value_present h
  rw [value_nested] at hvalue
  obtain ⟨info, ds, -, -, tiles, d, hd, hshows⟩ := hsummed
  cases tiles.unique (tiles_nested hsmall h)
  intro hnil
  have hpairs := map_pairsAt (blockAt o (.nested type es)).start es
  rw [hnil, List.map_eq_nil_iff] at hpairs
  classical
  have hfilter := map_fst_pairsAt hes hvalue
  rw [hpairs, List.map_nil] at hfilter
  have hnone := List.filter_eq_nil_iff.1 hfilter.symm d hd
  exact hnone (by simpa using hshows)

theorem described_nested {type : ℕ} (hsmall : ∀ e ∈ es, e.Small)
    (hes : ∀ e ∈ es, ∀ o, e.wire <+: tvb.bytes.drop o → Described tvb o e)
    (h : (Element.nested type es).wire <+: tvb.bytes.drop o) : Described tvb o (.nested type es) := by
  have hvalue := value_present h
  rw [value_nested] at hvalue
  cases hd : dictInfo (type : Num) with
  | none => exact described_unknown hd
  | some info =>
    cases hf : info.value with
    | some f =>
      have hparts : Parts tvb (blockAt o (.nested type es)) (some _) := tiles_nested hsmall h
      refine described_value hd hf hparts (told_blockAt h fun _ => ?_)
      have hstrings := congrArg (List.map string) (map_valueOf hvalue)
      rw [List.map_map, List.map_map] at hstrings
      exact congrArg (fun components => "/" ++ "/".intercalate components) hstrings
    | none =>
      cases hs : info.summary with
      | false => exact described_no_summary hd hf hs
      | true =>
        have htext : (Element.nested type es).text = joined (linesOf es) := text_of_summary hd hf hs
        have hiff : Shows tvb (blockAt o (.nested type es)) ↔ Summed tvb (blockAt o (.nested type es)) :=
          shows_iff_summed hd hf
        by_cases hne : linesOf es = []
        · rw [joined, if_pos hne] at htext
          refine described_none (fun hshows => ?_) htext
          exact lines_of_summed hsmall hes h (hiff.1 hshows) hne
        · rw [joined, if_neg hne] at htext
          have hsummed := summedAs_nested hd hs hsmall hes h hne
          refine ⟨?_, fun t ht => ?_⟩
          · rw [htext]
            exact ⟨fun _ => rfl, fun _ => hiff.2 hsummed.summed⟩
          · rw [htext] at ht
            cases ht
            exact hsummed.showsAs hd hf

/-- The dissector shows the text of each proper element. -/
theorem Element.Proper.described (h : e.Proper) : ∀ o, e.wire <+: tvb.bytes.drop o → Described tvb o e := by
  induction h with
  | octets small plain => exact fun o hw => described_octets plain hw
  | nested small elements ih => exact fun o hw => described_nested (fun e he => (elements e he).small) ih hw

/-! ## Packets one after the other -/

/-- What an element has to be for the dissector to take it for a packet. -/
structure Element.Packet (e : Element) : Prop where
  type : e.type = 5 ∨ e.type = 6
  length : e.value.length ≤ 8800

/-- What is appended to the item of a packet. -/
def Element.packetText (e : Element) : String := ", " ++ nameOf (blockAt 0 e) ++ ", " ++ e.text.getD ""

omit [TvbStrings] in
theorem Element.Packet.valid (h : e.Packet) (o : ℕ) : canBeValidNdnPacket (blockAt o e) = true := by
  have htype : (blockAt o e).type = 5 ∨ (blockAt o e).type = 6 := by
    rcases h.type with htype | htype
    · exact .inl (congrArg (fun n : ℕ => (n : Num)) htype)
    · exact .inr (congrArg (fun n : ℕ => (n : Num)) htype)
  have hlength : (blockAt o e).length ≤ 8800 := Num.number_le_natCast.2 h.length
  unfold canBeValidNdnPacket
  exact decide_eq_true ⟨htype, hlength⟩

omit [TvbStrings] in
/-- A packet has a summary in place of a function. -/
theorem Element.Packet.known (h : e.Packet) :
    ∃ info, dictInfo (e.type : Num) = some info ∧ info.value = none ∧ info.summary = true := by
  rcases h.type with htype | htype
  · rw [htype]
    exact ⟨_, rfl, rfl, rfl⟩
  · rw [htype]
    exact ⟨_, rfl, rfl, rfl⟩

omit [TvbStrings] in
theorem length_wires_pos (e : Element) (es : List Element) : 0 < (wires (e :: es)).length := by
  have hpos := Tlv.length_varNumber_pos e.type
  rw [wires_cons, List.length_append, length_wire]
  omega

/-- A packet is nested, and its text is that of its elements. -/
theorem Element.Packet.nested (hp : e.Packet) (h : e.Proper) : ∃ type es, e = .nested type es ∧
    (∀ e ∈ es, e.Proper) ∧ e.text = joined (linesOf es) := by
  obtain ⟨info, known, fn, sums⟩ := hp.known
  cases h with
  | octets small plain =>
    have hno := plain.noSummary info known fn
    rw [sums] at hno
    cases hno
  | @nested type es small elements =>
    exact ⟨type, es, rfl, elements, text_of_summary known fn sums⟩

/-- A packet that shows something has an element. -/
theorem Element.Packet.two_lt (hp : e.Packet) (h : e.Proper) (hsome : e.text.isSome = true) : 2 < e.wire.length := by
  obtain ⟨type, es, rfl, -, htext⟩ := hp.nested h
  have htype := Tlv.length_varNumber_pos (Element.nested type es).type
  have hlength := Tlv.length_varNumber_pos (Element.nested type es).value.length
  have hsize := length_wire (.nested type es)
  cases es with
  | nil =>
    rw [htext, linesOf, joined, if_pos rfl] at hsome
    cases hsome
  | cons e es =>
    have hpos := length_wires_pos e es
    rw [value_nested] at hsize hlength
    omega

/-- A packet is shown exactly if its summary has lines, and then by that. -/
theorem Element.Packet.packetText_iff (hp : e.Packet) (h : e.Proper) (hw : e.wire <+: tvb.bytes.drop o)
    (text : String) : PacketText tvb (blockAt o e) text ↔ e.text.isSome = true ∧ text = e.packetText := by
  obtain ⟨info, known, fn, sums⟩ := hp.known
  obtain ⟨type, es, rfl, elements, htext⟩ := hp.nested h
  have hsmall : ∀ e ∈ es, e.Small := fun e he => (elements e he).small
  have hes : ∀ e ∈ es, ∀ o, e.wire <+: tvb.bytes.drop o → Described tvb o e := fun e he => (elements e he).described
  have hpacketText (s : String) (hs : (Element.nested type es).text = some s) :
      (Element.nested type es).packetText = ", " ++ info.name ++ ", " ++ s := by
    rw [Element.packetText, hs, nameOf, show dictInfo (blockAt 0 (.nested type es)).type = some info from known]
    rfl
  by_cases hne : linesOf es = []
  · rw [htext, joined, if_pos hne]
    constructor
    · rintro ⟨info', s, -, hsummed, -⟩
      exact absurd hne (lines_of_summed hsmall hes hw hsummed.summed)
    · rintro ⟨hsome, -⟩
      cases hsome
  · rw [joined, if_neg hne] at htext
    have hsummed := summedAs_nested known sums hsmall hes hw hne
    rw [hpacketText _ htext, htext]
    constructor
    · rintro ⟨info', s, known', hsummed', rfl⟩
      cases (show dictInfo (type : Num) = some info from known).symm.trans known'
      rw [hsummed.unique hsummed']
      exact ⟨rfl, rfl⟩
    · rintro ⟨-, rfl⟩
      exact ⟨info, _, known, hsummed, rfl⟩

variable {part : Bytes} {offset : Option Num} {shown : List String}

omit [TvbStrings] in
/-- The octets up to the end of the buffer, behind the first element. -/
theorem stop_of_drop (h : wires (e :: es) ++ part = tvb.bytes.drop o) :
    wires es ++ part = tvb.bytes.drop (blockAt o e).stop ∧
      (blockAt o e).stop + (wires es).length + part.length = tvb.len := by
  have hlength := congrArg List.length h
  have hpos := Tlv.length_varNumber_pos e.type
  have hsize := length_wire e
  rw [List.length_append, wires_cons, List.length_append, List.length_drop] at hlength
  rw [stop_blockAt]
  refine ⟨?_, ?_⟩
  · rw [← List.drop_drop, ← h, wires_cons, List.append_assoc, List.drop_left]
  · unfold Tvb.len
    omega

/-- The last octets of the buffer: none, or those of a block from which on nothing is shown. -/
def Behind (tvb : Tvb) (part : Bytes) (offset : Option Num) : Prop :=
  (part = [] ∧ offset = none) ∨
    part ≠ [] ∧ ∃ b, getBlock tvb ((tvb.len - part.length : ℕ) : Num) = .ok (some b) ∧ PacketsShown tvb b [] offset

/-- The last packet. -/
theorem packetsShown_last_iff (hproper : e.Proper) (hpacket : e.Packet)
    (hw : wires [e] ++ part = tvb.bytes.drop o) (hbehind : Behind tvb part offset) :
    PacketsShown tvb (blockAt o e) [e.packetText] offset ↔
      Expandable tvb (blockAt o e) ∧ e.text.isSome = true := by
  have hpresent : wires [e] ++ part <+: tvb.bytes.drop o := by rw [hw]
  have htext := hpacket.packetText_iff hproper (wires_tail (prefix_take hpresent)).1
  obtain ⟨-, hstop⟩ := stop_of_drop hw
  rw [wires, List.length_nil, Nat.add_zero] at hstop
  rcases hbehind with ⟨rfl, rfl⟩ | ⟨hne, b, hread, hrest⟩
  · have hlast : (blockAt o e).stop = tvb.len := hstop
    constructor
    · intro h
      cases h with
      | last valid narrow stop expandable shows => exact ⟨expandable, ((htext _).1 shows).1⟩
      | next valid narrow stop => exact absurd hlast stop.ne
    · rintro ⟨hexpandable, hsome⟩
      exact .last (hpacket.valid o) rfl hlast hexpandable ((htext _).2 ⟨hsome, rfl⟩)
  · have hpos := List.length_pos_of_ne_nil hne
    have hmore : (blockAt o e).stop < tvb.len := by omega
    rw [← hstop, Nat.add_sub_cancel] at hread
    constructor
    · intro h
      cases h with
      | last valid narrow stop => exact absurd stop hmore.ne
      | next valid narrow stop expandable shows => exact ⟨expandable, ((htext _).1 shows).1⟩
    · rintro ⟨hexpandable, hsome⟩
      exact .next (hpacket.valid o) rfl hmore hexpandable ((htext _).2 ⟨hsome, rfl⟩) hread hrest

/-- The packets from one on, up to the last octets of the buffer. -/
theorem packetsShown_iff (hproper : ∀ p ∈ e :: es, p.Proper) (hpacket : ∀ p ∈ e :: es, p.Packet)
    (hw : wires (e :: es) ++ part = tvb.bytes.drop o) (hbehind : Behind tvb part offset) :
    PacketsShown tvb (blockAt o e) ((e :: es).map Element.packetText) offset ↔
      (∀ b ∈ blocksAt o (e :: es), Expandable tvb b) ∧ ∀ p ∈ e :: es, p.text.isSome = true := by
  induction es generalizing o e with
  | nil =>
    rw [blocksAt, blocksAt, List.forall_mem_singleton, List.forall_mem_singleton, List.map_singleton]
    exact packetsShown_last_iff (hproper e List.mem_cons_self) (hpacket e List.mem_cons_self) hw hbehind
  | cons e' es ih =>
    have hfirst := hpacket e List.mem_cons_self
    have hpresent : wires (e :: e' :: es) ++ part <+: tvb.bytes.drop o := by rw [hw]
    have htext := hfirst.packetText_iff (hproper e List.mem_cons_self) (wires_tail (prefix_take hpresent)).1
    obtain ⟨hrest, hstop⟩ := stop_of_drop hw
    have hpresent' : wires (e' :: es) ++ part <+: tvb.bytes.drop (blockAt o e).stop := by rw [hrest]
    have hread : getBlock tvb ((blockAt o e).stop : Num) = .ok (some (blockAt (blockAt o e).stop e')) :=
      getBlock_wire (hproper e' (by simp)).small (wires_tail (prefix_take hpresent')).1
    have hpos := length_wires_pos e' es
    have hmore : (blockAt o e).stop < tvb.len := by omega
    have hiff := ih (fun p hp => hproper p (List.mem_cons_of_mem _ hp))
      (fun p hp => hpacket p (List.mem_cons_of_mem _ hp)) hrest
    rw [blocksAt, ← stop_blockAt, List.forall_mem_cons, List.forall_mem_cons, List.map_cons]
    constructor
    · intro h
      cases h with
      | next valid narrow stop expandable shows read rest =>
        cases hread.symm.trans read
        obtain ⟨hexpandable, hsome⟩ := hiff.1 rest
        exact ⟨⟨expandable, hexpandable⟩, ((htext _).1 shows).1, hsome⟩
    · rintro ⟨⟨hexpandable, hexpandables⟩, hsome, hsomes⟩
      exact .next (hfirst.valid o) rfl hmore hexpandable ((htext _).2 ⟨hsome, rfl⟩) hread
        (hiff.2 ⟨hexpandables, hsomes⟩)

end

/-- An Interest with a name, a selector, a nonce and a lifetime. -/
def anInterest : Element :=
  .nested 5 [.nested 7 [.octets 8 [97]], .nested 9 [.octets 18 []], .octets 10 [1, 2, 3, 4], .octets 12 [15, 160]]

theorem anInterest_proper : anInterest.Proper := by
  refine .nested ⟨by decide, by decide⟩ ?_
  simp only [List.forall_mem_cons]
  refine ⟨.nested ⟨by decide, by decide⟩ ?_, .nested ⟨by decide, by decide⟩ ?_,
    .octets ⟨by decide, by decide⟩ ⟨by decide, by decide⟩, .octets ⟨by decide, by decide⟩ ⟨by decide, by decide⟩,
    by simp⟩
  · exact List.forall_mem_singleton.2 (.octets ⟨by decide, by decide⟩ ⟨by decide, by decide⟩)
  · exact List.forall_mem_singleton.2 (.octets ⟨by decide, by decide⟩ ⟨by decide, by decide⟩)

theorem anInterest_packet : anInterest.Packet := ⟨by decide, by decide⟩

/-! ## Buffers -/

section
variable [TvbStrings] {offset : Option Num} {shown : List String} {part : Bytes}

/-- A buffer captured as a whole. -/
def whole (bytes : Bytes) : Tvb := ⟨bytes, bytes.length⟩

/-- Nothing is reported of a buffer with no more than two octets. -/
theorem two_lt_of_report {report : Report} (h : dissector tvb = .ok (some report)) : 2 < tvb.len := by
  by_contra hle
  have hnone : findNdnPacket tvb = .ok none := by
    rw [findNdnPacket, Nat.sub_eq_zero_of_le (by omega)]
    rfl
  unfold dissector at h
  split at h
  · cases h
  · rw [hnone] at h
    cases h

/-- The block at the front of a buffer is the first packet, if it can be one. -/
theorem dissector_of_front {bytes : Bytes} {b : Block} (hlt : 2 < (whole bytes).len)
    (hread : getBlock (whole bytes) ((0 : ℕ) : Num) = .ok (some b)) (hvalid : canBeValidNdnPacket b = true) :
    dissector (whole bytes) = .ok (some ⟨shown, offset⟩) ↔ PacketsShown (whole bytes) b shown offset := by
  have hfirst : FirstPacket (whole bytes) 0 b := ⟨hlt, hread, hvalid, fun o ho => absurd ho (Nat.not_lt_zero o)⟩
  refine ⟨fun hreport => ?_, dissector_of_shown rfl hfirst⟩
  obtain ⟨shown', offset', heq, hshown⟩ := dissector_shown rfl hfirst hreport
  cases heq
  exact hshown

/-- Packets from the front of a buffer on, up to its last octets. -/
theorem dissector_packets (hproper : ∀ p ∈ e :: es, p.Proper) (hpacket : ∀ p ∈ e :: es, p.Packet)
    (hbehind : Behind (whole (wires (e :: es) ++ part)) part offset) :
    dissector (whole (wires (e :: es) ++ part)) = .ok (some ⟨(e :: es).map Element.packetText, offset⟩) ↔
      (∀ b ∈ blocksAt 0 (e :: es), Expandable (whole (wires (e :: es) ++ part)) b) ∧
        ∀ p ∈ e :: es, p.text.isSome = true := by
  have hbytes : wires (e :: es) ++ part = (whole (wires (e :: es) ++ part)).bytes.drop 0 := rfl
  have hpresent : wires (e :: es) ++ part <+: (whole (wires (e :: es) ++ part)).bytes.drop 0 := List.prefix_rfl
  have hshown := packetsShown_iff hproper hpacket hbytes hbehind
  have hread := getBlock_wire (hproper e List.mem_cons_self).small (wires_tail (prefix_take hpresent)).1
  have hvalid := (hpacket e List.mem_cons_self).valid 0
  constructor
  · intro hreport
    exact hshown.1 ((dissector_of_front (two_lt_of_report hreport) hread hvalid).1 hreport)
  · intro hall
    have hfirst := (hpacket e List.mem_cons_self).two_lt (hproper e List.mem_cons_self) (hall.2 e List.mem_cons_self)
    have hlt : 2 < (whole (wires (e :: es) ++ part)).len := by
      unfold whole Tvb.len
      rw [wires_cons, List.length_append, List.length_append]
      omega
    exact (dissector_of_front hlt hread hvalid).2 (hshown.2 hall)

/-- Of a buffer of proper packets, each is shown by its text, and no more octets are wanted, exactly if there is one,
no block nested in one stumbles and none has an empty summary. -/
theorem dissector_encoded (ps : List Element) (hproper : ∀ p ∈ ps, p.Proper) (hpacket : ∀ p ∈ ps, p.Packet) :
    dissector (whole (wires ps)) = .ok (some ⟨ps.map Element.packetText, none⟩) ↔
      ps ≠ [] ∧ (∀ b ∈ blocksAt 0 ps, Expandable (whole (wires ps)) b) ∧ ∀ p ∈ ps, p.text.isSome = true := by
  cases ps with
  | nil =>
    refine ⟨fun hreport => ?_, fun hne => absurd rfl hne.1⟩
    exact absurd (two_lt_of_report hreport) (by simp [whole, wires, Tvb.len])
  | cons e es =>
    have hbehind : Behind (whole (wires (e :: es) ++ [])) [] none := .inl ⟨rfl, rfl⟩
    have hiff := dissector_packets hproper hpacket hbehind
    rw [List.append_nil] at hiff
    rw [hiff]
    exact ⟨fun hall => ⟨List.cons_ne_nil _ _, hall⟩, fun hall => hall.2⟩

end

theorem dissector_encoded_anInterest :
    @dissector .documented (whole (wires [anInterest, anInterest])) = .ok (some ⟨
      [", Interest, Name: /a, Selectors: MustBeFresh: Yes, InterestLifetime: 4000",
        ", Interest, Name: /a, Selectors: MustBeFresh: Yes, InterestLifetime: 4000"], none⟩) ∧
    ∀ b ∈ blocksAt 0 [anInterest, anInterest], Expandable (whole (wires [anInterest, anInterest])) b := by
  have hreport : @dissector .documented (whole (wires [anInterest, anInterest])) = .ok (some ⟨
      [", Interest, Name: /a, Selectors: MustBeFresh: Yes, InterestLifetime: 4000",
        ", Interest, Name: /a, Selectors: MustBeFresh: Yes, InterestLifetime: 4000"], none⟩) := by
    decide +kernel
  have hproper : ∀ p ∈ [anInterest, anInterest], p.Proper := by simp [anInterest_proper]
  have hpacket : ∀ p ∈ [anInterest, anInterest], p.Packet := by simp [anInterest_packet]
  refine ⟨hreport, ((@dissector_encoded .documented _ hproper hpacket).1 ?_).2.1⟩
  rw [hreport]
  decide +kernel

/-- Of a buffer that ends inside a packet, behind the octet after its header, the packets before that one are shown,
and more octets are wanted from where it begins. -/
theorem dissector_cut [TvbStrings] (ps : List Element) (q : Element) (part : Bytes) (hproper : ∀ p ∈ ps, p.Proper)
    (hpacket : ∀ p ∈ ps, p.Packet) (hsmall : q.Small) (hq : q.Packet) (hpart : part <+: q.wire)
    (hcut : part.length < q.wire.length) (hheader : q.header.length < part.length) :
    dissector (whole (wires ps ++ part)) =
        .ok (some ⟨ps.map Element.packetText, some ((wires ps).length : Num)⟩) ↔
      (∀ b ∈ blocksAt 0 ps, Expandable (whole (wires ps ++ part)) b) ∧ ∀ p ∈ ps, p.text.isSome = true := by
  have hbefore : q.header <+: q.wire := by
    rw [wire_eq]
    exact List.prefix_append _ _
  have hwithin : q.header <+: part := List.prefix_of_prefix_length_le hbefore hpart hheader.le
  have hlen : (whole (wires ps ++ part)).len = (wires ps).length + part.length := List.length_append
  have hpresent : q.header <+: (whole (wires ps ++ part)).bytes.drop (wires ps).length := by
    show q.header <+: (wires ps ++ part).drop (wires ps).length
    rwa [List.drop_left]
  have hread := getBlock_header hsmall hpresent (.inr (by omega))
  have hlong : ¬ Fits (whole (wires ps ++ part)) (blockAt (wires ps).length q) := by
    rw [fits_iff (isBlock_of_getBlock hread) rfl, stop_blockAt]
    omega
  cases ps with
  | nil =>
    have hzero : (wires []).length = 0 := rfl
    have hlt : 2 < (whole (wires [] ++ part)).len := by
      have htype := Tlv.length_varNumber_pos q.type
      have hlength := Tlv.length_varNumber_pos q.value.length
      rw [Element.header, List.length_append] at hheader
      omega
    rw [hzero] at hread hlong ⊢
    rw [dissector_of_front hlt hread (hq.valid 0)]
    exact ⟨fun _ => ⟨fun b hb => (by cases hb), fun p hp => (by cases hp)⟩, fun _ => .cut hlong⟩
  | cons e es =>
    have hne : part ≠ [] := List.ne_nil_of_length_pos (by omega)
    refine dissector_packets hproper hpacket (.inr ⟨hne, _, ?_, .cut hlong⟩)
    rw [hlen, Nat.add_sub_cancel]
    exact hread

/-- The second one is cut off behind its fifth octet. -/
theorem dissector_cut_anInterest :
    @dissector .documented (whole (wires [anInterest] ++ anInterest.wire.take 5)) = .ok (some ⟨
      [", Interest, Name: /a, Selectors: MustBeFresh: Yes, InterestLifetime: 4000"], some (21 : Num)⟩) ∧
    ∀ b ∈ blocksAt 0 [anInterest], Expandable (whole (wires [anInterest] ++ anInterest.wire.take 5)) b := by
  have hreport : @dissector .documented (whole (wires [anInterest] ++ anInterest.wire.take 5)) = .ok (some ⟨
      [", Interest, Name: /a, Selectors: MustBeFresh: Yes, InterestLifetime: 4000"], some (21 : Num)⟩) := by
    decide +kernel
  have hproper : ∀ p ∈ [anInterest], p.Proper := List.forall_mem_singleton.2 anInterest_proper
  have hpacket : ∀ p ∈ [anInterest], p.Packet := List.forall_mem_singleton.2 anInterest_packet
  refine ⟨hreport, ((@dissector_cut .documented _ _ _ hproper hpacket anInterest_proper.small anInterest_packet
    (List.take_prefix 5 _) (by decide) (by decide)).1 ?_).1⟩
  rw [hreport]
  decide +kernel

end NdnTools.Dissector
