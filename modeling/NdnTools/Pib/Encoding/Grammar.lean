/-
The grammar of the parameters: the sequences of elements that the encoders write for some value, with a
supported number in each type. The decoders accept more. Those of get, list and default do not look
behind the last element they need, an enumerator is read from the lower 32 bits of a number, delete and
the target of default take any type, and a user may hold anything behind its certificate. On the other
hand a key without bits is written, but not read.
-/
import NdnTools.Pib.Encoding.Accepted
import NdnTools.Pib.Encoding.RoundTrip

namespace NdnTools.Pib.Encoding

open Tlv

section
variable [Certificates] [Formats]

/-! ## The sequences of the classes -/

/-- The types that there are: `TYPE_USER`, `TYPE_ID`, `TYPE_KEY` and `TYPE_CERT`. -/
def IsType (n : ℕ) : Prop := n < 4

instance (n : ℕ) : Decidable (IsType n) := inferInstanceAs (Decidable (_ < _))

/-- A type and what it calls for. -/
def TargetSequence (it : List Block) : Prop :=
  ∃ b n it', it = b :: it' ∧ HoldsNumber tlv.type b n ∧ IsType n ∧ Leads (UInt32.ofNat n) it' []

def DefaultSequence (it : List Block) : Prop :=
  ∃ b n it', it = b :: it' ∧ HoldsNumber tlv.type b n ∧ IsType n ∧ TargetSequence it'

def DeleteSequence (it : List Block) : Prop :=
  ∃ b n c, it = [b, c] ∧ HoldsNumber tlv.type b n ∧ IsType n ∧ IsName c

/-- A name and the bits of a key, which a key without a value does not have. -/
def KeySequence (it : List Block) : Prop :=
  ∃ b c, it = [b, c] ∧ IsName b ∧ c.type = tlv.bytes ∧ (c.value = [] ∨ (toPublicKey c.value).isSome = true)

/-- A certificate, and a locator that is not empty or none. -/
def UserSequence (it : List Block) : Prop :=
  ∃ b rest, it = b :: rest ∧ IsCertificate b ∧
    (rest = [] ∨ ∃ l, rest = [l] ∧ l.type = tlv.tpmLocator ∧ l.value ≠ [])

def IsEntity (b : Block) : Prop :=
  (b.hasWire = true ∧ b.type = tlv.identity ∧ ∃ c, b.fromValue = some c ∧ IsName c) ∨
  HasElements tlv.publicKey KeySequence b ∨
  (b.hasWire = true ∧ b.type = tlv.certificate ∧ ∃ c, b.fromValue = some c ∧ IsCertificate c) ∨
  HasElements tlv.user UserSequence b

/-- An entity and its `DefaultOpt`. -/
def UpdateSequence (it : List Block) : Prop :=
  ∃ b c n, it = [b, c] ∧ IsEntity b ∧ HoldsNumber tlv.defaultOpt c n ∧ n < 2 ^ 32

/-! ## What the decoders overlook -/

/-- Behind what the type calls for there is more, or the number of the type is too large. -/
def OverlooksTarget (it : List Block) : Prop :=
  ∃ b n it' rest, it = b :: it' ∧ HoldsNumber tlv.type b n ∧ Leads (UInt32.ofNat n) it' rest ∧
    (2 ^ 32 ≤ n ∨ rest ≠ [])

/-- The target is no type, or something is overlooked from the origin on. -/
def OverlooksDefault (it : List Block) : Prop :=
  ∃ b n it', it = b :: it' ∧ HoldsNumber tlv.type b n ∧
    ((¬ IsType n ∧ AcceptsTarget it') ∨ OverlooksTarget it')

def OverlooksDelete (it : List Block) : Prop :=
  ∃ b n c, it = [b, c] ∧ HoldsNumber tlv.type b n ∧ ¬ IsType n ∧ IsName c

/-- Behind the certificate of a user there is something other than one locator that is not empty. -/
def OverlooksUser (it : List Block) : Prop :=
  ∃ b rest, it = b :: rest ∧ IsCertificate b ∧ rest ≠ [] ∧
    ¬ ∃ l, rest = [l] ∧ l.type = tlv.tpmLocator ∧ l.value ≠ []

/-- The bits of a key are missing, and nothing is no key. -/
def RefusesKey (it : List Block) : Prop :=
  ∃ b c, it = [b, c] ∧ IsName b ∧ c.type = tlv.bytes ∧ c.value = [] ∧ toPublicKey [] = none

/-- The number of `DefaultOpt` is too large, something in a user is overlooked, or a key without bits is refused. -/
def OverlooksUpdate (it : List Block) : Prop :=
  ∃ b c n, it = [b, c] ∧ HoldsNumber tlv.defaultOpt c n ∧
    ((AcceptsEntity b ∧ 2 ^ 32 ≤ n) ∨ HasElements tlv.user OverlooksUser b ∨
      (n < 2 ^ 32 ∧ HasElements tlv.publicKey RefusesKey b))

/-! ## Numbers and what they call for -/

variable {it : List Block} {b : Block}

omit [Certificates] [Formats] in
theorem HoldsNumber.unique {type n k : ℕ} (hn : HoldsNumber type b n) (hk : HoldsNumber type b k) : n = k :=
  Option.some.inj (hn.2.symm.trans hk.2)

theorem Leads.unique {t : UInt32} {rest rest' : List Block} (h : Leads t it rest) (h' : Leads t it rest') :
    rest = rest' := by
  have huser : callsForName typeUser = false := by decide
  cases h with
  | name calls isName =>
    cases h' with
    | name _ _ => rfl
    | user =>
      rw [huser] at calls
      cases calls
  | user =>
    cases h' with
    | name calls _ =>
      rw [huser] at calls
      cases calls
    | user => rfl

/-- A number that is not too large calls for something only if it is a type. -/
theorem Leads.isType {n : ℕ} {rest : List Block} (h : Leads (UInt32.ofNat n) it rest) (hn : n < 2 ^ 32) :
    IsType n := by
  have hnat : (UInt32.ofNat n).toNat = n := by
    rw [UInt32.toNat_ofNat']
    exact Nat.mod_eq_of_lt hn
  have hsmall : (UInt32.ofNat n).toNat < 4 := by
    generalize UInt32.ofNat n = t at h
    cases h with
    | name calls _ =>
      simp only [callsForName, decide_eq_true_eq] at calls
      rcases calls with rfl | rfl | rfl <;> decide
    | user => decide
  rwa [hnat] at hsmall

/-! ## Each class -/

theorem target_iff (it : List Block) : (AcceptsTarget it ↔ TargetSequence it) ↔ ¬ OverlooksTarget it := by
  constructor
  · rintro hiff ⟨b, n, it', rest, rfl, hn, hleads, hover⟩
    obtain ⟨c, k, tail, heq, hk, htype, hstrict⟩ := hiff.1 ⟨b, n, it', rest, rfl, hn, hleads⟩
    obtain ⟨rfl, rfl⟩ := List.cons.inj heq
    obtain rfl := hn.unique hk
    rcases hover with hlarge | hrest
    · unfold IsType at htype
      omega
    · exact hrest (hleads.unique hstrict)
  · intro hno
    constructor
    · rintro ⟨b, n, it', rest, rfl, hn, hleads⟩
      have hlt : n < 2 ^ 32 := by
        by_contra hge
        exact hno ⟨b, n, it', rest, rfl, hn, hleads, .inl (not_lt.1 hge)⟩
      have hrest : rest = [] := by
        by_contra hne
        exact hno ⟨b, n, it', rest, rfl, hn, hleads, .inr hne⟩
      subst hrest
      exact ⟨b, n, it', rfl, hn, hleads.isType hlt, hleads⟩
    · rintro ⟨b, n, it', rfl, hn, -, hleads⟩
      exact ⟨b, n, it', [], rfl, hn, hleads⟩

theorem default_iff (it : List Block) : (AcceptsDefault it ↔ DefaultSequence it) ↔ ¬ OverlooksDefault it := by
  constructor
  · rintro hiff ⟨b, n, it', rfl, hn, hover⟩
    have haccepts : AcceptsTarget it' := by
      rcases hover with ⟨-, h⟩ | ⟨c, k, it'', rest, rfl, hk, hleads, -⟩
      · exact h
      · exact ⟨c, k, it'', rest, rfl, hk, hleads⟩
    obtain ⟨c, k, tail, heq, hk, htype, hseq⟩ := hiff.1 ⟨b, n, it', rfl, hn, haccepts⟩
    obtain ⟨rfl, rfl⟩ := List.cons.inj heq
    obtain rfl := hn.unique hk
    rcases hover with ⟨hno, -⟩ | hover
    · exact hno htype
    · exact (target_iff it').1 (iff_of_true haccepts hseq) hover
  · intro hno
    constructor
    · rintro ⟨b, n, it', rfl, hn, haccepts⟩
      have htype : IsType n := by
        by_contra hbad
        exact hno ⟨b, n, it', rfl, hn, .inl ⟨hbad, haccepts⟩⟩
      have hover : ¬ OverlooksTarget it' := fun h => hno ⟨b, n, it', rfl, hn, .inr h⟩
      exact ⟨b, n, it', rfl, hn, htype, ((target_iff it').2 hover).1 haccepts⟩
    · rintro ⟨b, n, it', rfl, hn, -, c, k, it'', rfl, hk, -, hleads⟩
      exact ⟨b, n, _, rfl, hn, c, k, it'', [], rfl, hk, hleads⟩

theorem delete_iff (it : List Block) : (AcceptsDelete it ↔ DeleteSequence it) ↔ ¬ OverlooksDelete it := by
  constructor
  · rintro hiff ⟨b, n, c, rfl, hn, hbad, hc⟩
    obtain ⟨b', k, c', heq, hk, htype, -⟩ := hiff.1 ⟨b, n, c, rfl, hn, hc⟩
    obtain ⟨rfl, -⟩ := List.cons.inj heq
    obtain rfl := hn.unique hk
    exact hbad htype
  · intro hno
    constructor
    · rintro ⟨b, n, c, rfl, hn, hc⟩
      have htype : IsType n := by
        by_contra hbad
        exact hno ⟨b, n, c, rfl, hn, hbad, hc⟩
      exact ⟨b, n, c, rfl, hn, htype, hc⟩
    · rintro ⟨b, n, c, rfl, hn, -, hc⟩
      exact ⟨b, n, c, rfl, hn, hc⟩

/-! ## Entities -/

omit [Certificates] [Formats] in
theorem HasElements.mono {type : ℕ} {P Q : List Block → Prop} (h : ∀ it, P it → Q it) (hb : HasElements type P b) :
    HasElements type Q b := by
  obtain ⟨hwire, htype, it, hit, hP⟩ := hb
  exact ⟨hwire, htype, it, hit, h it hP⟩

omit [Certificates] [Formats] in
/-- A block has one type and one list of elements. -/
theorem HasElements.absurd {type : ℕ} {P Q : List Block → Prop} (h : ∀ it, P it → ¬ Q it)
    (hP : HasElements type P b) : ¬ HasElements type Q b := by
  rintro ⟨-, -, it', hit', hQ⟩
  obtain ⟨-, -, it, hit, hPit⟩ := hP
  obtain rfl : it = it' := Option.some.inj (hit.symm.trans hit')
  exact h it hPit hQ

theorem acceptsUser_cases (it : List Block) : AcceptsUser it ↔ UserSequence it ∨ OverlooksUser it := by
  constructor
  · rintro ⟨b, rest, rfl, hb⟩
    by_cases hseq : rest = [] ∨ ∃ l, rest = [l] ∧ l.type = tlv.tpmLocator ∧ l.value ≠ []
    · exact .inl ⟨b, rest, rfl, hb, hseq⟩
    · rw [not_or] at hseq
      exact .inr ⟨b, rest, rfl, hb, hseq⟩
  · rintro (⟨b, rest, rfl, hb, -⟩ | ⟨b, rest, rfl, hb, -⟩)
    · exact ⟨b, rest, rfl, hb⟩
    · exact ⟨b, rest, rfl, hb⟩

theorem not_overlooksUser (it : List Block) (h : UserSequence it) : ¬ OverlooksUser it := by
  rintro ⟨b, rest, rfl, -, hne, hno⟩
  obtain ⟨b', rest', heq, -, hseq⟩ := h
  obtain ⟨-, rfl⟩ := List.cons.inj heq
  exact hseq.elim hne hno

theorem keySequence_cases (it : List Block) : KeySequence it ↔ AcceptsKey it ∨ RefusesKey it := by
  constructor
  · rintro ⟨b, c, rfl, hb, hc, hkey⟩
    by_cases haccepted : (toPublicKey c.value).isSome = true
    · exact .inl ⟨b, c, rfl, hb, hc, haccepted⟩
    · have hnil := hkey.resolve_right haccepted
      rw [hnil, Bool.not_eq_true, Option.isSome_eq_false_iff, Option.isNone_iff_eq_none] at haccepted
      exact .inr ⟨b, c, rfl, hb, hc, hnil, haccepted⟩
  · rintro (⟨b, c, rfl, hb, hc, hkey⟩ | ⟨b, c, rfl, hb, hc, hnil, -⟩)
    · exact ⟨b, c, rfl, hb, hc, .inr hkey⟩
    · exact ⟨b, c, rfl, hb, hc, .inl hnil⟩

theorem not_refusesKey (it : List Block) (h : AcceptsKey it) : ¬ RefusesKey it := by
  rintro ⟨b, c, rfl, -, -, hnil, hnone⟩
  obtain ⟨b', c', heq, -, -, hkey⟩ := h
  simp only [List.cons.injEq, and_true] at heq
  obtain ⟨-, rfl⟩ := heq
  rw [hnil, hnone] at hkey
  cases hkey

omit [Certificates] [Formats] in
theorem hasElements_or {type : ℕ} {P Q : List Block → Prop} :
    HasElements type (fun it => P it ∨ Q it) b ↔ HasElements type P b ∨ HasElements type Q b := by
  unfold HasElements
  constructor
  · rintro ⟨hwire, htype, it, hit, hP | hQ⟩
    · exact .inl ⟨hwire, htype, it, hit, hP⟩
    · exact .inr ⟨hwire, htype, it, hit, hQ⟩
  · rintro (⟨hwire, htype, it, hit, hP⟩ | ⟨hwire, htype, it, hit, hQ⟩)
    · exact ⟨hwire, htype, it, hit, .inl hP⟩
    · exact ⟨hwire, htype, it, hit, .inr hQ⟩

/-- Between what is accepted as an entity and what is one stand the users with more in them, and the keys
without bits. -/
theorem acceptsEntity_or (b : Block) :
    AcceptsEntity b ∨ HasElements tlv.publicKey RefusesKey b ↔ IsEntity b ∨ HasElements tlv.user OverlooksUser b := by
  have huser : HasElements tlv.user AcceptsUser b ↔
      HasElements tlv.user UserSequence b ∨ HasElements tlv.user OverlooksUser b := by
    rw [← hasElements_or, funext fun it => propext (acceptsUser_cases it)]
  have hkey : HasElements tlv.publicKey KeySequence b ↔
      HasElements tlv.publicKey AcceptsKey b ∨ HasElements tlv.publicKey RefusesKey b := by
    rw [← hasElements_or, funext fun it => propext (keySequence_cases it)]
  unfold AcceptsEntity IsEntity
  rw [huser, hkey]
  simp only [or_assoc, or_comm, or_left_comm]

omit [Certificates] [Formats] in
theorem HasElements.type_unique {t t' : ℕ} {P Q : List Block → Prop} (h : HasElements t P b)
    (h' : HasElements t' Q b) : t = t' := h.2.1.symm.trans h'.2.1

theorem isEntity_not_overlooksUser (h : IsEntity b) : ¬ HasElements tlv.user OverlooksUser b := by
  rintro hover
  rcases h with ⟨-, ht, -⟩ | h | ⟨-, ht, -⟩ | h
  · exact absurd (ht.symm.trans hover.2.1) (by decide)
  · exact absurd (h.type_unique hover) (by decide)
  · exact absurd (ht.symm.trans hover.2.1) (by decide)
  · exact HasElements.absurd not_overlooksUser h hover

theorem acceptsEntity_not_refusesKey (h : AcceptsEntity b) : ¬ HasElements tlv.publicKey RefusesKey b := by
  rintro hrefuses
  rcases h with ⟨-, ht, -⟩ | h | ⟨-, ht, -⟩ | h
  · exact absurd (ht.symm.trans hrefuses.2.1) (by decide)
  · exact HasElements.absurd not_refusesKey h hrefuses
  · exact absurd (ht.symm.trans hrefuses.2.1) (by decide)
  · exact absurd (h.type_unique hrefuses) (by decide)

theorem update_iff (it : List Block) : (AcceptsUpdate it ↔ UpdateSequence it) ↔ ¬ OverlooksUpdate it := by
  constructor
  · rintro hiff ⟨b, c, n, rfl, hn, ⟨haccepts, hlarge⟩ | hover | ⟨hlt, hrefuses⟩⟩
    · obtain ⟨b', c', k, heq, -, hk, hlt⟩ := hiff.1 ⟨b, c, n, rfl, haccepts, hn⟩
      simp only [List.cons.injEq, and_true] at heq
      obtain ⟨-, rfl⟩ := heq
      obtain rfl := hn.unique hk
      omega
    · have haccepts : AcceptsEntity b :=
        ((acceptsEntity_or b).2 (.inr hover)).resolve_right fun h => absurd (h.type_unique hover) (by decide)
      obtain ⟨b', c', k, heq, hentity, -, -⟩ := hiff.1 ⟨b, c, n, rfl, haccepts, hn⟩
      obtain ⟨rfl, -⟩ := List.cons.inj heq
      exact isEntity_not_overlooksUser hentity hover
    · have hentity : IsEntity b :=
        ((acceptsEntity_or b).1 (.inr hrefuses)).resolve_right fun h => absurd (hrefuses.type_unique h) (by decide)
      obtain ⟨b', c', k, heq, haccepts, -⟩ := hiff.2 ⟨b, c, n, rfl, hentity, hn, hlt⟩
      obtain ⟨rfl, -⟩ := List.cons.inj heq
      exact acceptsEntity_not_refusesKey haccepts hrefuses
  · intro hno
    constructor
    · rintro ⟨b, c, n, rfl, haccepts, hn⟩
      have hlt : n < 2 ^ 32 := by
        by_contra hge
        exact hno ⟨b, c, n, rfl, hn, .inl ⟨haccepts, not_lt.1 hge⟩⟩
      have hentity : IsEntity b :=
        ((acceptsEntity_or b).1 (.inl haccepts)).resolve_right fun h => hno ⟨b, c, n, rfl, hn, .inr (.inl h)⟩
      exact ⟨b, c, n, rfl, hentity, hn, hlt⟩
    · rintro ⟨b, c, n, rfl, hentity, hn, hlt⟩
      have haccepts : AcceptsEntity b :=
        ((acceptsEntity_or b).2 (.inl hentity)).resolve_right fun h => hno ⟨b, c, n, rfl, hn, .inr (.inr ⟨hlt, h⟩)⟩
      exact ⟨b, c, n, rfl, haccepts, hn⟩

/-! ## All of them -/

/-- Parameters of one of the classes. -/
inductive Param
  | get (o : GetParam)
  | list (o : ListParam)
  | default (o : DefaultParam)
  | update (o : UpdateParam)
  | delete (o : DeleteParam)

namespace Param

def wireDecode (wire : Block) : Param → Except Error Param
  | get o => get <$> o.wireDecode wire
  | list o => list <$> o.wireDecode wire
  | default o => default <$> o.wireDecode wire
  | update o => update <$> o.wireDecode wire
  | delete o => delete <$> o.wireDecode wire

/-- The type of the blocks of a class. -/
def type : Param → ℕ
  | get _ => tlv.getParam
  | list _ => tlv.listParam
  | default _ => tlv.defaultParam
  | update _ => tlv.updateParam
  | delete _ => tlv.deleteParam

/-- The elements that the encoder of the class writes for some value. -/
def Sequence : Param → List Block → Prop
  | get _ | list _ => TargetSequence
  | default _ => DefaultSequence
  | update _ => UpdateSequence
  | delete _ => DeleteSequence

/-- The elements about which the decoder of the class is wrong. -/
def Overlooks : Param → List Block → Prop
  | get _ | list _ => OverlooksTarget
  | default _ => OverlooksDefault
  | update _ => OverlooksUpdate
  | delete _ => OverlooksDelete

def Grammar (p : Param) (wire : Block) : Prop := HasElements p.type p.Sequence wire

end Param

/-! ## What the encoders write -/

section
variable {α : Type} [WireFormat α] {a : α} {t : ℕ} {bs : List Block} {P : List Block → Prop} {type : UInt32}
  {name : Name} {cert : IdentityCertificate}

omit [Certificates] [Formats] in
theorem hasElements_of_writes (henc : Writes (WireFormat.wireEncode a) (Block.wire { type := t, value := wires bs }))
    (ht : t < 2 ^ 32) (hsmall : ∀ b ∈ bs, b.type < 2 ^ 32 ∧ b.hasWire = true)
    (hP : (wires bs).length < 2 ^ 64 → P bs) (hb : encodeBlock a = .ok b) : HasElements t P b := by
  obtain ⟨rfl, hlen⟩ := encodeBlock_ok henc ht hb
  exact ⟨rfl, rfl, bs, elements_wires hlen hsmall, hP hlen⟩

omit [Certificates] [Formats] in
theorem holdsNumber_enumBlock (t : ℕ) (e : UInt32) : HoldsNumber t (enumBlock t e) e.toNat :=
  ⟨rfl, readNonNegativeInteger_nonNegativeInteger (e.toNat_lt.trans (by decide))⟩

omit [Certificates] [Formats] in
theorem small_enumBlock {t : ℕ} (ht : t < 2 ^ 32) (e : UInt32) :
    (enumBlock t e).type < 2 ^ 32 ∧ (enumBlock t e).hasWire = true := ⟨ht, rfl⟩

theorem isName_nameBlock (h : (nameValue name).length < 2 ^ 64) : IsName (nameBlock name) :=
  exists_decodeName.1 ⟨name, decodeName_nameBlock h⟩

theorem isCertificate_certificateBlock (h : (dataValue cert).length < 2 ^ 64) :
    IsCertificate (certificateBlock cert) :=
  exists_decodeCertificate.1 ⟨cert, decodeCertificate_certificateBlock h⟩

omit [Certificates] [Formats] in
theorem isType_of_supported (h : Supported type) : IsType type.toNat := by
  rcases h with h | rfl
  · simp only [callsForName, decide_eq_true_eq] at h
    rcases h with rfl | rfl | rfl <;> decide
  · decide

theorem leads_nameBlocks (h : Supported type) (hlen : (wires (nameBlocks type name)).length < 2 ^ 64) :
    Leads type (nameBlocks type name) [] := by
  unfold nameBlocks at hlen ⊢
  by_cases hcalls : callsForName type = true
  · rw [if_pos hcalls] at hlen ⊢
    exact .name hcalls (isName_nameBlock ((length_value_lt_wires (List.mem_singleton.2 rfl)).trans hlen))
  · rw [if_neg hcalls]
    obtain rfl := h.resolve_left hcalls
    exact .user

theorem targetSequence_targetBlocks (h : Supported type)
    (hlen : (wires (targetBlocks type name)).length < 2 ^ 64) : TargetSequence (targetBlocks type name) := by
  refine ⟨_, _, _, rfl, holdsNumber_enumBlock _ type, isType_of_supported h, ?_⟩
  rw [UInt32.ofNat_toNat]
  exact leads_nameBlocks h ((length_wires_le (List.sublist_cons_self _ _)).trans_lt hlen)

theorem small_targetBlocks : ∀ b ∈ targetBlocks type name, b.type < 2 ^ 32 ∧ b.hasWire = true :=
  List.forall_mem_cons.2 ⟨small_enumBlock (by decide) type, small_nameBlocks⟩

theorem GetParam.written (o : GetParam) (hb : encodeBlock o = .ok b) : HasElements tlv.getParam TargetSequence b := by
  by_cases h : Supported o.targetType
  · exact hasElements_of_writes (writes_target h _ tlv.getParam o.targetName) (by decide) small_targetBlocks
      (targetSequence_targetBlocks h) hb
  · have herror : ∀ buffer, o.wireEncode buffer = .error _ := bind_of_error (encodeNameOf_error h _ o.targetName) _
    rw [encodeBlock_error herror] at hb
    cases hb

theorem ListParam.written (o : ListParam) (hb : encodeBlock o = .ok b) :
    HasElements tlv.listParam TargetSequence b := by
  by_cases h : Supported o.originType
  · exact hasElements_of_writes (writes_target h _ tlv.listParam o.originName) (by decide) small_targetBlocks
      (targetSequence_targetBlocks h) hb
  · have herror : ∀ buffer, o.wireEncode buffer = .error _ := bind_of_error (encodeNameOf_error h _ o.originName) _
    rw [encodeBlock_error herror] at hb
    cases hb

/-- With a type as the target; the encoder writes any. -/
theorem DefaultParam.written (o : DefaultParam) (ht : Supported o.targetType) (hb : encodeBlock o = .ok b) :
    HasElements tlv.defaultParam DefaultSequence b := by
  by_cases h : Supported o.originType
  · refine hasElements_of_writes (writes h) (by decide)
      (List.forall_mem_cons.2 ⟨small_enumBlock (by decide) o.targetType, small_targetBlocks⟩) (fun hlen => ?_) hb
    exact ⟨_, _, _, rfl, holdsNumber_enumBlock _ o.targetType, isType_of_supported ht,
      targetSequence_targetBlocks h ((length_wires_le (List.sublist_cons_self _ _)).trans_lt hlen)⟩
  · have herror : ∀ buffer, o.wireEncode buffer = .error _ := bind_of_error (encodeNameOf_error h _ o.originName) _
    rw [encodeBlock_error herror] at hb
    cases hb

theorem DeleteParam.written (o : DeleteParam) (hb : encodeBlock o = .ok b) :
    HasElements tlv.deleteParam DeleteSequence b := by
  by_cases h : Supported o.targetType
  · refine hasElements_of_writes (writes h) (by decide)
      (List.forall_mem_cons.2 ⟨small_enumBlock (by decide) o.targetType, by simp [nameBlock, tlv.name]⟩)
      (fun hlen => ?_) hb
    exact ⟨_, _, _, rfl, holdsNumber_enumBlock _ o.targetType, isType_of_supported h,
      isName_nameBlock ((length_value_lt_wires (by simp [blocks] : nameBlock o.targetName ∈ o.blocks)).trans hlen)⟩
  · have herror : ∀ buffer, o.wireEncode buffer = .error _ := fun buffer => by
      unfold wireEncode
      rw [if_pos (not_not.1 fun hs => h ((supported_iff _).1 hs))]
      rfl
    rw [encodeBlock_error herror] at hb
    cases hb

/-- The bits that a key object can hold: those of a key, or none. -/
def PibPublicKey.HoldsBits (o : PibPublicKey) : Prop := o.key = [] ∨ (toPublicKey o.key).isSome = true

namespace UpdateParam

variable {o : UpdateParam} {e : Block}

theorem written_entity (h : Writes o.encodeEntity (wires [e])) (hw : e.hasWire = true) (ht : e.type < 2 ^ 32)
    (he : e.value.length < 2 ^ 64 → IsEntity e) (hb : encodeBlock o = .ok b) :
    HasElements tlv.updateParam UpdateSequence b := by
  refine hasElements_of_writes (writes h) (by decide)
    (List.forall_mem_cons.2 ⟨⟨ht, hw⟩, by simp [enumBlock, tlv.defaultOpt]⟩) (fun hlen => ?_) hb
  have hvalue := (length_value_lt_wires List.mem_cons_self).trans hlen
  exact ⟨e, _, _, rfl, he hvalue, holdsNumber_enumBlock _ o.defaultOpt, o.defaultOpt.toNat_lt⟩

theorem isEntity_identity (o : PibIdentity) (hlen : (wires [nameBlock o.identity]).length < 2 ^ 64) :
    IsEntity { type := tlv.identity, value := wires [nameBlock o.identity] } :=
  .inl ⟨rfl, rfl, nameBlock o.identity, fromValue_wires hlen (show tlv.name < 2 ^ 32 by decide) rfl,
    isName_nameBlock ((length_value_lt_wires (List.mem_singleton.2 rfl)).trans hlen)⟩

theorem isEntity_key (o : PibPublicKey) (hbits : o.HoldsBits) (hlen : (wires o.blocks).length < 2 ^ 64) :
    IsEntity { type := tlv.publicKey, value := wires o.blocks } := by
  have hname : IsName (nameBlock o.keyName) :=
    isName_nameBlock ((length_value_lt_wires (List.mem_cons_self : nameBlock o.keyName ∈ o.blocks)).trans hlen)
  have helements : Block.elements { type := tlv.publicKey, value := wires o.blocks } = some o.blocks :=
    elements_wires hlen (by simp [PibPublicKey.blocks, nameBlock, tlv.name, tlv.bytes])
  exact .inr (.inl ⟨rfl, rfl, o.blocks, helements, _, _, rfl, hname, rfl, hbits⟩)

theorem isEntity_certificate (hlen : (wires [certificateBlock cert]).length < 2 ^ 64) :
    IsEntity { type := tlv.certificate, value := wires [certificateBlock cert] } :=
  .inr (.inr (.inl ⟨rfl, rfl, certificateBlock cert, fromValue_wires hlen (show tlv.data < 2 ^ 32 by decide) rfl,
    isCertificate_certificateBlock ((length_value_lt_wires (List.mem_singleton.2 rfl)).trans hlen)⟩))

theorem isEntity_user (o : PibUser) (hlen : (wires (certificateBlock cert :: o.locatorBlocks)).length < 2 ^ 64) :
    IsEntity { type := tlv.user, value := wires (certificateBlock cert :: o.locatorBlocks) } := by
  have hcert : IsCertificate (certificateBlock cert) :=
    isCertificate_certificateBlock ((length_value_lt_wires List.mem_cons_self).trans hlen)
  have hsmall : ∀ b ∈ certificateBlock cert :: o.locatorBlocks, b.type < 2 ^ 32 ∧ b.hasWire = true := by
    unfold PibUser.locatorBlocks
    split <;> simp [certificateBlock, tlv.data, tlv.tpmLocator]
  refine .inr (.inr (.inr ⟨rfl, rfl, _, elements_wires hlen hsmall, _, _, rfl, hcert, ?_⟩))
  unfold PibUser.locatorBlocks
  by_cases hlocator : o.tpmLocator ≠ []
  · exact .inr ⟨_, if_pos hlocator, rfl, hlocator⟩
  · exact .inl (if_neg hlocator)

theorem written (o : UpdateParam) (hbits : o.key.HoldsBits) (hb : encodeBlock o = .ok b) :
    HasElements tlv.updateParam UpdateSequence b := by
  obtain ⟨entityType, user, identity, key, certificate, defaultOpt⟩ := o
  by_cases hidentity : entityType = tlv.identity
  · subst hidentity
    refine written_entity (e := { type := tlv.identity, value := wires [nameBlock identity.identity] })
      ?_ rfl (show tlv.identity < 2 ^ 32 by decide) (isEntity_identity identity) hb
    rw [wires_singleton]
    exact identity.writes
  by_cases hkey : entityType = tlv.publicKey
  · subst hkey
    refine written_entity (e := { type := tlv.publicKey, value := wires key.blocks })
      ?_ rfl (show tlv.publicKey < 2 ^ 32 by decide) (isEntity_key key hbits) hb
    rw [wires_singleton]
    exact key.writes
  by_cases hcertificate : entityType = tlv.certificate
  · subst hcertificate
    cases hcert : certificate.certificate with
    | none =>
      have herror : ∀ buffer, encodeEntity ⟨tlv.certificate, user, identity, key, certificate, defaultOpt⟩ buffer =
          .error .library := PibCertificate.wireEncode_error hcert
      cases hb.symm.trans (encodeBlock_of_entity herror)
    | some cert =>
      refine written_entity (e := { type := tlv.certificate, value := wires [certificateBlock cert] })
        ?_ rfl (show tlv.certificate < 2 ^ 32 by decide) isEntity_certificate hb
      rw [wires_singleton]
      exact PibCertificate.writes hcert
  by_cases huser : entityType = tlv.user
  · subst huser
    cases hmgmt : user.mgmtCert with
    | none =>
      have herror : ∀ buffer, encodeEntity ⟨tlv.user, user, identity, key, certificate, defaultOpt⟩ buffer =
          .error .library := PibUser.wireEncode_error hmgmt
      cases hb.symm.trans (encodeBlock_of_entity herror)
    | some cert =>
      refine written_entity (e := { type := tlv.user, value := wires (certificateBlock cert :: user.locatorBlocks) })
        ?_ rfl (show tlv.user < 2 ^ 32 by decide) (isEntity_user user) hb
      rw [wires_singleton]
      exact PibUser.writes hmgmt
  · rw [encodeBlock_of_entity (encodeEntity_error hidentity hkey hcertificate huser)] at hb
    cases hb

end UpdateParam

/-- The block that parameters are encoded as. -/
def Param.encode : Param → Except Error Block
  | get o => encodeBlock o
  | list o => encodeBlock o
  | default o => encodeBlock o
  | update o => encodeBlock o
  | delete o => encodeBlock o

/-- The target is a type, and a key holds the bits of one, or none. -/
def Param.IsValue : Param → Prop
  | default o => Supported o.targetType
  | update o => o.key.HoldsBits
  | get _ | list _ | delete _ => True

/-- What the encoders write is of the grammar. -/
theorem Param.encoded_grammar (p : Param) (hp : p.IsValue) (hb : p.encode = .ok b) : p.Grammar b := by
  cases p with
  | get o => exact o.written hb
  | list o => exact o.written hb
  | default o => exact o.written hp hb
  | update o => exact o.written hp hb
  | delete o => exact o.written hb

end

omit [Certificates] [Formats] in
theorem exists_map_iff {α β : Type} {f : α → β} {x : Except Error α} :
    (∃ y, f <$> x = .ok y) ↔ ∃ a, x = .ok a := by
  cases x with
  | error e => simp
  | ok a => simp

omit [Certificates] [Formats] in
theorem hasElements_iff_iff {type : ℕ} {P Q R : List Block → Prop} (h : ∀ it, (P it ↔ Q it) ↔ ¬ R it) (wire : Block) :
    (HasElements type P wire ↔ HasElements type Q wire) ↔ ¬ HasElements type R wire := by
  unfold HasElements
  by_cases hblock : wire.hasWire = true ∧ wire.type = type
  · cases hit : wire.elements with
    | none => simp
    | some it => simpa [hblock.1, hblock.2] using h it
  · rw [not_and_or] at hblock
    rcases hblock with hwire | htype
    · simp [hwire]
    · simp [htype]

/-- The decoder of parameters accepts a block exactly if it is of the grammar of the class, unless there is
something in it that the decoder is wrong about. -/
theorem decodes_grammar_iff (p : Param) (wire : Block) :
    ((∃ p', p.wireDecode wire = .ok p') ↔ p.Grammar wire) ↔ ¬ HasElements p.type p.Overlooks wire := by
  cases p with
  | get o =>
    rw [show (∃ p', (Param.get o).wireDecode wire = .ok p') ↔ _ from exists_map_iff.trans o.accepts_iff]
    exact hasElements_iff_iff target_iff wire
  | list o =>
    rw [show (∃ p', (Param.list o).wireDecode wire = .ok p') ↔ _ from exists_map_iff.trans o.accepts_iff]
    exact hasElements_iff_iff target_iff wire
  | default o =>
    rw [show (∃ p', (Param.default o).wireDecode wire = .ok p') ↔ _ from exists_map_iff.trans o.accepts_iff]
    exact hasElements_iff_iff default_iff wire
  | update o =>
    rw [show (∃ p', (Param.update o).wireDecode wire = .ok p') ↔ _ from exists_map_iff.trans o.accepts_iff]
    exact hasElements_iff_iff update_iff wire
  | delete o =>
    rw [show (∃ p', (Param.delete o).wireDecode wire = .ok p') ↔ _ from exists_map_iff.trans o.accepts_iff]
    exact hasElements_iff_iff delete_iff wire

end

section
local instance grammarNames : Certificates := .documented

local instance grammarFormats : Formats := .documented

/-- Parameters of get for the user, with a second type behind the first. -/
def typeTwice : Block := { type := tlv.getParam, value := [151, 1, 0, 151, 1, 0] }

/-- The second type is not looked at. -/
theorem trailing_type_accepted :
    ¬ ∀ (p : Param) (wire : Block), (∃ p', p.wireDecode wire = .ok p') ↔ p.Grammar wire := by
  intro h
  have hdec : GetParam.wireDecode {} typeTwice = .ok { targetType := typeUser } := by decide +kernel
  have haccepted : ∃ p', (Param.get {}).wireDecode typeTwice = .ok p' := exists_map_iff.2 ⟨_, hdec⟩
  obtain ⟨-, -, it, hit, b, n, it', rfl, hn, -, hleads⟩ := (h (.get {}) typeTwice).1 haccepted
  have helements : typeTwice.elements = some [⟨151, [0], true⟩, ⟨151, [0], true⟩] := by decide +kernel
  obtain ⟨rfl, rfl⟩ := List.cons.inj (Option.some.inj (hit.symm.trans helements))
  obtain rfl : n = 0 := Option.some.inj (hn.2.symm.trans (by decide +kernel))
  cases hleads with
  | name calls _ => exact absurd calls (by decide)

end

end NdnTools.Pib.Encoding
