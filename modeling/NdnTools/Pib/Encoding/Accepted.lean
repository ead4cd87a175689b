/-
What the decoders accept. Each is a sequence of steps on the elements of a block; here each step, and
then each decoder, is inverted: what it gives, and from which elements. Nothing but an exception stands
against a block, so what a decoder does not accept it throws at.
-/
import NdnTools.Pib.Encoding.Params

namespace NdnTools.Pib.Encoding

open Tlv

/-! ## Steps -/

section
variable {type : ℕ} {what : String} {wire b : Block} {it rest : List Block}

theorem checkWire_eq_ok {u : Unit} : checkWire wire = .ok u ↔ wire.hasWire = true := by
  unfold checkWire
  split <;> simp_all

theorem checkType_eq_ok {u : Unit} : checkType type what wire = .ok u ↔ wire.type = type := by
  unfold checkType
  split <;> simp_all

theorem expect_eq_ok : expect type what it = .ok (b, rest) ↔ it = b :: rest ∧ b.type = type := by
  cases it with
  | nil => simp [expect]
  | cons c it =>
    by_cases hc : c.type = type
    · simp only [expect, if_pos hc, Except.ok.injEq, Prod.mk.injEq, List.cons.injEq]
      constructor
      · rintro ⟨rfl, rfl⟩
        exact ⟨⟨rfl, rfl⟩, hc⟩
      · rintro ⟨h, -⟩
        exact h
    · simp only [expect, if_neg hc, reduceCtorEq, List.cons.injEq, false_iff]
      rintro ⟨⟨rfl, -⟩, h⟩
      exact hc h

theorem expectEnd_eq_ok {u : Unit} : expectEnd what it = .ok u ↔ it = [] := by
  cases it <;> simp [expectEnd]

/-- The element has a type and holds a number. -/
def HoldsNumber (type : ℕ) (b : Block) (n : ℕ) : Prop := b.type = type ∧ readNonNegativeInteger b.value = some n

theorem readEnum_eq_ok {e : UInt32} :
    readEnum b = .ok e ↔ ∃ n, readNonNegativeInteger b.value = some n ∧ UInt32.ofNat n = e := by
  simp only [readEnum, bind_eq_ok, orThrow_eq_ok, pure_eq_ok]

theorem expectType_eq_ok {t : UInt32} :
    expectType what it = .ok (t, rest) ↔
      ∃ b n, it = b :: rest ∧ HoldsNumber tlv.type b n ∧ UInt32.ofNat n = t := by
  simp only [expectType, bind_eq_ok, pure_eq_ok, Prod.exists, Prod.mk.injEq, expect_eq_ok, readEnum_eq_ok]
  constructor
  · rintro ⟨b, it, ⟨rfl, hb⟩, t, ⟨n, hn, rfl⟩, rfl, rfl⟩
    exact ⟨b, n, rfl, ⟨hb, hn⟩, rfl⟩
  · rintro ⟨b, n, rfl, ⟨hb, hn⟩, rfl⟩
    exact ⟨b, rest, ⟨rfl, hb⟩, _, ⟨n, hn, rfl⟩, rfl, rfl⟩

end

variable [Certificates] [Formats]

section
variable {type : UInt32} {missing unsupported : String} {wire b : Block} {it rest : List Block} {name old : Name}
  {cert : IdentityCertificate}

theorem decodeName_eq_ok : decodeName b = .ok name ↔ b.type = tlv.name ∧ readName b.value = some name := by
  unfold decodeName
  split <;> simp_all [orThrow_eq_ok]

theorem decodeCertificate_eq_ok :
    decodeCertificate b = .ok cert ↔ b.type = tlv.data ∧ readData b.value = some cert := by
  unfold decodeCertificate
  split <;> simp_all [orThrow_eq_ok]

def IsName (b : Block) : Prop := b.type = tlv.name ∧ (readName b.value).isSome = true

def IsCertificate (b : Block) : Prop := b.type = tlv.data ∧ (readData b.value).isSome = true

theorem exists_decodeName : (∃ name, decodeName b = .ok name) ↔ IsName b := by
  simp only [decodeName_eq_ok, IsName, Option.isSome_iff_exists, exists_and_left]

theorem exists_decodeCertificate : (∃ cert, decodeCertificate b = .ok cert) ↔ IsCertificate b := by
  simp only [decodeCertificate_eq_ok, IsCertificate, Option.isSome_iff_exists, exists_and_left]

/-- The elements begin with what a type calls for, which is a name or nothing. -/
inductive Leads : UInt32 → List Block → List Block → Prop
  | name {type : UInt32} {b : Block} {rest : List Block} (calls : callsForName type = true) (isName : IsName b) :
      Leads type (b :: rest) rest
  | user {rest : List Block} : Leads typeUser rest rest

theorem exists_decodeNameOf :
    (∃ name, decodeNameOf missing unsupported type old it = .ok name) ↔ ∃ rest, Leads type it rest := by
  unfold decodeNameOf
  constructor
  · rintro ⟨name, h⟩
    split at h
    · rename_i hcalls
      split at h
      · rename_i b rest
        exact ⟨rest, .name hcalls (exists_decodeName.1 ⟨name, h⟩)⟩
      · cases h
    · split at h
      · rename_i huser
        subst huser
        exact ⟨it, .user⟩
      · cases h
  · rintro ⟨rest, hleads⟩
    cases hleads with
    | name calls isName =>
      rw [if_pos calls]
      exact exists_decodeName.2 isName
    | user => exact ⟨old, rfl⟩

end

/-! ## Parameters -/

section
variable {wire : Block}

/-- Parameters that are a type and what it calls for begin with these elements. -/
def AcceptsTarget (it : List Block) : Prop :=
  ∃ b n it' rest, it = b :: it' ∧ HoldsNumber tlv.type b n ∧ Leads (UInt32.ofNat n) it' rest

/-- A block of a type with elements that meet a condition. -/
def HasElements (type : ℕ) (P : List Block → Prop) (wire : Block) : Prop :=
  wire.hasWire = true ∧ wire.type = type ∧ ∃ it, wire.elements = some it ∧ P it

/-- The decoder of parameters that are a type and what it calls for, with its texts and what it makes of them. -/
theorem exists_decodeTarget {α : Type} (type : ℕ) (unexpected first missing unsupported : String) (old : Name)
    (make : UInt32 → Name → α) :
    (∃ o, (do
      checkWire wire
      let it ← orThrow wire.elements
      checkType type unexpected wire
      let (t, it) ← expectType first it
      let name ← decodeNameOf missing unsupported t old it
      return make t name : Except Error α) = .ok o) ↔ HasElements type AcceptsTarget wire := by
  simp only [bind_eq_ok, pure_eq_ok, checkWire_eq_ok, orThrow_eq_ok, checkType_eq_ok, Prod.exists, expectType_eq_ok]
  constructor
  · rintro ⟨o, -, hwire, it, hit, -, htype, t, rest, ⟨b, n, rfl, hb, rfl⟩, name, hname, -⟩
    obtain ⟨tail, htail⟩ := exists_decodeNameOf.1 ⟨name, hname⟩
    exact ⟨hwire, htype, _, hit, b, n, rest, tail, rfl, hb, htail⟩
  · rintro ⟨hwire, htype, _, hit, b, n, rest, tail, rfl, hb, htail⟩
    obtain ⟨name, hname⟩ := exists_decodeNameOf.2 ⟨tail, htail⟩
    exact ⟨_, (), hwire, _, hit, (), htype, _, rest, ⟨b, n, rfl, hb, rfl⟩, name, hname, rfl⟩

theorem GetParam.accepts_iff (o : GetParam) :
    (∃ o', o.wireDecode wire = .ok o') ↔ HasElements tlv.getParam AcceptsTarget wire :=
  exists_decodeTarget tlv.getParam _ _ _ _ o.targetName GetParam.mk

theorem ListParam.accepts_iff (o : ListParam) :
    (∃ o', o.wireDecode wire = .ok o') ↔ HasElements tlv.listParam AcceptsTarget wire :=
  exists_decodeTarget tlv.listParam _ _ _ _ o.originName ListParam.mk

/-- The elements begin with two types and what the second calls for. -/
def AcceptsDefault (it : List Block) : Prop :=
  ∃ b n it', it = b :: it' ∧ HoldsNumber tlv.type b n ∧ AcceptsTarget it'

theorem DefaultParam.accepts_iff (o : DefaultParam) :
    (∃ o', o.wireDecode wire = .ok o') ↔ HasElements tlv.defaultParam AcceptsDefault wire := by
  simp only [DefaultParam.wireDecode, bind_eq_ok, pure_eq_ok, checkWire_eq_ok, orThrow_eq_ok, checkType_eq_ok,
    Prod.exists, expectType_eq_ok]
  constructor
  · rintro ⟨o', -, hwire, it, hit, -, htype, t, it', ⟨b, n, rfl, hb, rfl⟩, u, rest, ⟨c, k, rfl, hc, rfl⟩, name,
      hname, -⟩
    obtain ⟨tail, htail⟩ := exists_decodeNameOf.1 ⟨name, hname⟩
    exact ⟨hwire, htype, _, hit, b, n, _, rfl, hb, c, k, rest, tail, rfl, hc, htail⟩
  · rintro ⟨hwire, htype, _, hit, b, n, _, rfl, hb, c, k, rest, tail, rfl, hc, htail⟩
    obtain ⟨name, hname⟩ := exists_decodeNameOf.2 ⟨tail, htail⟩
    exact ⟨_, (), hwire, _, hit, (), htype, _, _, ⟨b, n, rfl, hb, rfl⟩, _, rest, ⟨c, k, rfl, hc, rfl⟩, name, hname,
      rfl⟩

/-- The elements are a type and a name. -/
def AcceptsDelete (it : List Block) : Prop := ∃ b n c, it = [b, c] ∧ HoldsNumber tlv.type b n ∧ IsName c

theorem DeleteParam.accepts_iff (o : DeleteParam) :
    (∃ o', o.wireDecode wire = .ok o') ↔ HasElements tlv.deleteParam AcceptsDelete wire := by
  simp only [DeleteParam.wireDecode, bind_eq_ok, pure_eq_ok, checkWire_eq_ok, orThrow_eq_ok, checkType_eq_ok,
    Prod.exists, expectType_eq_ok, expect_eq_ok, expectEnd_eq_ok]
  constructor
  · rintro ⟨o', -, hwire, it, hit, -, htype, t, it', ⟨b, n, rfl, hb, rfl⟩, c, rest, ⟨rfl, -⟩, name, hname, -, rfl, -⟩
    exact ⟨hwire, htype, _, hit, b, n, c, rfl, hb, exists_decodeName.1 ⟨name, hname⟩⟩
  · rintro ⟨hwire, htype, _, hit, b, n, c, rfl, hb, hc⟩
    obtain ⟨name, hname⟩ := exists_decodeName.2 hc
    exact ⟨_, (), hwire, _, hit, (), htype, _, _, ⟨b, n, rfl, hb, rfl⟩, c, [], ⟨rfl, hc.1⟩, name, hname, (), rfl, rfl⟩

/-! ## Entities -/

theorem PibIdentity.accepts_iff (o : PibIdentity) :
    (∃ o', o.wireDecode wire = .ok o') ↔
      wire.hasWire = true ∧ wire.type = tlv.identity ∧ ∃ b, wire.fromValue = some b ∧ IsName b := by
  simp only [PibIdentity.wireDecode, bind_eq_ok, pure_eq_ok, checkWire_eq_ok, orThrow_eq_ok, checkType_eq_ok]
  constructor
  · rintro ⟨o', -, hwire, -, htype, b, hb, name, hname, -⟩
    exact ⟨hwire, htype, b, hb, exists_decodeName.1 ⟨name, hname⟩⟩
  · rintro ⟨hwire, htype, b, hb, hname⟩
    obtain ⟨name, hname⟩ := exists_decodeName.2 hname
    exact ⟨_, (), hwire, (), htype, b, hb, name, hname, rfl⟩

/-- The elements are a name and bits that are a key. -/
def AcceptsKey (it : List Block) : Prop :=
  ∃ b c, it = [b, c] ∧ IsName b ∧ c.type = tlv.bytes ∧ (toPublicKey c.value).isSome = true

theorem PibPublicKey.accepts_iff (o : PibPublicKey) :
    (∃ o', o.wireDecode wire = .ok o') ↔ HasElements tlv.publicKey AcceptsKey wire := by
  simp only [PibPublicKey.wireDecode, bind_eq_ok, pure_eq_ok, checkWire_eq_ok, orThrow_eq_ok, checkType_eq_ok,
    Prod.exists, expect_eq_ok, expectEnd_eq_ok]
  constructor
  · rintro ⟨o', -, hwire, -, htype, it, hit, b, it', ⟨rfl, -⟩, name, hname, c, rest, ⟨rfl, hc⟩, key, hkey, -, rfl, -⟩
    exact ⟨hwire, htype, _, hit, b, c, rfl, exists_decodeName.1 ⟨name, hname⟩, hc, Option.isSome_iff_exists.2 ⟨key, hkey⟩⟩
  · rintro ⟨hwire, htype, _, hit, b, c, rfl, hb, hc, hkey⟩
    obtain ⟨name, hname⟩ := exists_decodeName.2 hb
    obtain ⟨key, hkey⟩ := Option.isSome_iff_exists.1 hkey
    exact ⟨_, (), hwire, (), htype, _, hit, b, _, ⟨rfl, hb.1⟩, name, hname, c, [], ⟨rfl, hc⟩, key, hkey, (), rfl, rfl⟩

theorem PibCertificate.accepts_iff (o : PibCertificate) :
    (∃ o', o.wireDecode wire = .ok o') ↔
      wire.hasWire = true ∧ wire.type = tlv.certificate ∧ ∃ b, wire.fromValue = some b ∧ IsCertificate b := by
  simp only [PibCertificate.wireDecode, bind_eq_ok, pure_eq_ok, checkWire_eq_ok, orThrow_eq_ok, checkType_eq_ok]
  constructor
  · rintro ⟨o', -, hwire, -, htype, b, hb, cert, hcert, -⟩
    exact ⟨hwire, htype, b, hb, exists_decodeCertificate.1 ⟨cert, hcert⟩⟩
  · rintro ⟨hwire, htype, b, hb, hcert⟩
    obtain ⟨cert, hcert⟩ := exists_decodeCertificate.2 hcert
    exact ⟨_, (), hwire, (), htype, b, hb, cert, hcert, rfl⟩

/-- The locator that a user has after decoding: that of the second element, or the old one. -/
def locatorAfter (old : Bytes) : List Block → Bytes
  | b :: _ => if b.type = tlv.tpmLocator then b.value else old
  | [] => old

theorem PibUser.wireDecode_eq_ok {o o' : PibUser} :
    o.wireDecode wire = .ok o' ↔
      wire.hasWire = true ∧ wire.type = tlv.user ∧ ∃ b rest cert, wire.elements = some (b :: rest) ∧
        decodeCertificate b = .ok cert ∧ o' = ⟨some cert, locatorAfter o.tpmLocator rest⟩ := by
  simp only [PibUser.wireDecode, bind_eq_ok, checkWire_eq_ok, orThrow_eq_ok, checkType_eq_ok, Prod.exists, expect_eq_ok]
  constructor
  · rintro ⟨-, hwire, -, htype, it, hit, b, rest, ⟨rfl, -⟩, cert, hcert, hend⟩
    refine ⟨hwire, htype, b, rest, cert, hit, hcert, ?_⟩
    cases rest with
    | nil => exact (pure_eq_ok.1 hend).symm
    | cons c rest => exact (pure_eq_ok.1 hend).symm
  · rintro ⟨hwire, htype, b, rest, cert, hit, hcert, rfl⟩
    refine ⟨(), hwire, (), htype, _, hit, b, rest, ⟨rfl, (decodeCertificate_eq_ok.1 hcert).1⟩, cert, hcert, ?_⟩
    cases rest with
    | nil => rfl
    | cons c rest => rfl

/-- The elements begin with a certificate. -/
def AcceptsUser (it : List Block) : Prop := ∃ b rest, it = b :: rest ∧ IsCertificate b

theorem PibUser.accepts_iff (o : PibUser) :
    (∃ o', o.wireDecode wire = .ok o') ↔ HasElements tlv.user AcceptsUser wire := by
  simp only [PibUser.wireDecode_eq_ok]
  constructor
  · rintro ⟨o', hwire, htype, b, rest, cert, hit, hcert, -⟩
    exact ⟨hwire, htype, _, hit, b, rest, rfl, exists_decodeCertificate.1 ⟨cert, hcert⟩⟩
  · rintro ⟨hwire, htype, _, hit, b, rest, rfl, hcert⟩
    obtain ⟨cert, hcert⟩ := exists_decodeCertificate.2 hcert
    exact ⟨_, hwire, htype, b, rest, cert, hit, hcert, rfl⟩

/-! ## Parameters of update -/

/-- A block of one of the entities that an update can have, as its class decodes it. -/
def AcceptsEntity (b : Block) : Prop :=
  (b.hasWire = true ∧ b.type = tlv.identity ∧ ∃ c, b.fromValue = some c ∧ IsName c) ∨
  HasElements tlv.publicKey AcceptsKey b ∨
  (b.hasWire = true ∧ b.type = tlv.certificate ∧ ∃ c, b.fromValue = some c ∧ IsCertificate c) ∨
  HasElements tlv.user AcceptsUser b

theorem UpdateParam.exists_decodeEntity {b : Block} (o : UpdateParam) :
    (∃ o', o.decodeEntity b = .ok o') ↔ AcceptsEntity b := by
  have hwire : ∀ {α : Type} {x : Except Error α} (f : α → UpdateParam),
      (∃ o', (do return f (← x) : Except Error UpdateParam) = .ok o') ↔ ∃ a, x = .ok a := by
    intro α x f
    simp only [bind_eq_ok, pure_eq_ok]
    constructor
    · rintro ⟨o', a, ha, -⟩
      exact ⟨a, ha⟩
    · rintro ⟨a, ha⟩
      exact ⟨f a, a, ha, rfl⟩
  have hne : tlv.identity ≠ tlv.publicKey ∧ tlv.identity ≠ tlv.certificate ∧ tlv.identity ≠ tlv.user ∧
      tlv.publicKey ≠ tlv.certificate ∧ tlv.publicKey ≠ tlv.user ∧ tlv.certificate ≠ tlv.user := by decide
  unfold decodeEntity AcceptsEntity
  by_cases hidentity : b.type = tlv.identity
  · rw [if_pos hidentity, hwire, PibIdentity.accepts_iff]
    refine (or_iff_left ?_).symm
    rintro (⟨-, ht, -⟩ | ⟨-, ht, -⟩ | ⟨-, ht, -⟩) <;> rw [hidentity] at ht <;> tauto
  rw [if_neg hidentity]
  by_cases hkey : b.type = tlv.publicKey
  · rw [if_pos hkey, hwire, PibPublicKey.accepts_iff, or_iff_right fun h => hidentity h.2.1]
    refine (or_iff_left ?_).symm
    rintro (⟨-, ht, -⟩ | ⟨-, ht, -⟩) <;> rw [hkey] at ht <;> tauto
  rw [if_neg hkey]
  by_cases hcert : b.type = tlv.certificate
  · rw [if_pos hcert, hwire, PibCertificate.accepts_iff, or_iff_right fun h => hidentity h.2.1,
      or_iff_right fun h => hkey h.2.1]
    refine (or_iff_left ?_).symm
    rintro ⟨-, ht, -⟩
    rw [hcert] at ht
    tauto
  rw [if_neg hcert, or_iff_right fun h => hidentity h.2.1, or_iff_right fun h => hkey h.2.1,
    or_iff_right fun h => hcert h.2.1]
  by_cases huser : b.type = tlv.user
  · rw [if_pos huser, hwire, PibUser.accepts_iff]
  · rw [if_neg huser]
    constructor
    · rintro ⟨o', h⟩
      cases h
    · rintro ⟨-, ht, -⟩
      exact absurd ht huser

/-- The elements are an entity and a number. -/
def AcceptsUpdate (it : List Block) : Prop :=
  ∃ b c n, it = [b, c] ∧ AcceptsEntity b ∧ HoldsNumber tlv.defaultOpt c n

theorem UpdateParam.accepts_iff (o : UpdateParam) :
    (∃ o', o.wireDecode wire = .ok o') ↔ HasElements tlv.updateParam AcceptsUpdate wire := by
  simp only [UpdateParam.wireDecode, bind_eq_ok, checkWire_eq_ok, orThrow_eq_ok, checkType_eq_ok]
  constructor
  · rintro ⟨o', -, hwire, it, hit, -, htype, h⟩
    refine ⟨hwire, htype, it, hit, ?_⟩
    cases it with
    | nil => cases h
    | cons b it =>
      simp only [bind_eq_ok, pure_eq_ok, Prod.exists, expect_eq_ok, readEnum_eq_ok, expectEnd_eq_ok] at h
      obtain ⟨d, hd, c, rest, ⟨rfl, hc⟩, t, ⟨n, hn, rfl⟩, -, rfl, -⟩ := h
      exact ⟨b, c, n, rfl, (exists_decodeEntity o).1 ⟨d, hd⟩, hc, hn⟩
  · rintro ⟨hwire, htype, it, hit, b, c, n, rfl, hb, hc, hn⟩
    obtain ⟨d, hd⟩ := (exists_decodeEntity o).2 hb
    refine ⟨{ d with defaultOpt := UInt32.ofNat n }, (), hwire, _, hit, (), htype, ?_⟩
    simp only [bind_eq_ok, pure_eq_ok, Prod.exists, expect_eq_ok, readEnum_eq_ok, expectEnd_eq_ok]
    exact ⟨d, hd, c, [], ⟨rfl, hc⟩, _, ⟨n, hn, rfl⟩, (), rfl, rfl⟩

end

end NdnTools.Pib.Encoding
