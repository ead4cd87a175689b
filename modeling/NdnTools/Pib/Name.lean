/-
Names and identity certificates, as far as the PIB uses them. How the name of a certificate gives the
name of its key and which octets are a key is left to the library (`Certificates`), with what it is
documented to do: of the name it keeps the components before the last `ID-CERT` and drops the first
`KEY`, and a key has its octets as its bits.
-/
import NdnTools.Packet
import Mathlib.Tactic

namespace NdnTools.Pib

def localhostPib : Name := ["localhost", "pib"]

def mgmtLabel : Component := "mgmt"

def keyLabel : Component := "KEY"

def idCertLabel : Component := "ID-CERT"

/-! ## Key names -/

/-- `keyName` is the name of the key of a certificate named `certName`. -/
def IsPublicKeyNameOf (certName keyName : Name) : Prop :=
  ∃ before after version, certName = before ++ keyLabel :: after ++ idCertLabel :: version ∧
    idCertLabel ∉ version ∧ keyLabel ∉ before ∧ keyName = before ++ after

/-- The bits of a key. -/
abbrev PublicKey := Bytes

/-- `IdentityCertificate::certificateNameToPublicKeyName` and the constructor of `PublicKey`, which throw if there
is no such name or key. -/
class Certificates where
  certificateNameToPublicKeyName : Name → Except String Name
  spec : ∀ certName keyName,
    certificateNameToPublicKeyName certName = .ok keyName ↔ IsPublicKeyNameOf certName keyName
  toPublicKey : Bytes → Option PublicKey
  toPublicKey_eq : ∀ der key, toPublicKey der = some key → key = der

export Certificates (certificateNameToPublicKeyName toPublicKey)

/-- The part before the first `label`, and the part after it. -/
def splitFirst (label : Component) : Name → Option (Name × Name)
  | [] => none
  | c :: rest => if c = label then some ([], rest) else (splitFirst label rest).map fun p => (c :: p.1, p.2)

theorem splitFirst_eq_some {label : Component} : ∀ {name before after : Name},
    splitFirst label name = some (before, after) ↔ name = before ++ label :: after ∧ label ∉ before
  | [], before, after => by simp [splitFirst]
  | c :: rest, before, after => by
    unfold splitFirst
    split
    · rename_i hc
      subst hc
      cases before with
      | nil => simp
      | cons d before =>
        simp only [Option.some.injEq, Prod.mk.injEq, reduceCtorEq, false_and, List.cons_append, List.cons.injEq,
          List.mem_cons, not_or, false_iff, not_and]
        rintro ⟨rfl, -⟩ h
        exact absurd rfl h
    · rename_i hc
      rw [Option.map_eq_some_iff]
      constructor
      · rintro ⟨⟨b, a⟩, hs, he⟩
        obtain ⟨rfl, rfl⟩ := Prod.mk.inj he
        obtain ⟨rfl, hn⟩ := splitFirst_eq_some.1 hs
        exact ⟨rfl, by simp [hn, Ne.symm hc]⟩
      · rintro ⟨he, hn⟩
        cases before with
        | nil => exact absurd (List.cons.inj he).1 hc
        | cons d before =>
          obtain ⟨rfl, rfl⟩ := List.cons.inj he
          exact ⟨(before, after), splitFirst_eq_some.2 ⟨rfl, fun hm => hn (List.mem_cons_of_mem _ hm)⟩, rfl⟩

/-- The documented behaviour, computed. -/
def publicKeyName (certName : Name) : Except String Name :=
  match splitFirst idCertLabel certName.reverse with
  | none => .error "no ID-CERT component"
  | some (_, front) =>
    match splitFirst keyLabel front.reverse with
    | none => .error "no KEY component"
    | some (before, after) => .ok (before ++ after)

theorem publicKeyName_spec (certName keyName : Name) :
    publicKeyName certName = .ok keyName ↔ IsPublicKeyNameOf certName keyName := by
  unfold publicKeyName
  constructor
  · intro h
    split at h
    · cases h
    · rename_i version front hs
      split at h
      · cases h
      · rename_i before after hs'
        cases h
        obtain ⟨he, hv⟩ := splitFirst_eq_some.1 hs
        obtain ⟨he', hb⟩ := splitFirst_eq_some.1 hs'
        refine ⟨before, after, version.reverse, ?_, by simpa using hv, hb, rfl⟩
        rw [← he', ← List.reverse_reverse certName, he]
        simp
  · rintro ⟨before, after, version, rfl, hv, hb, rfl⟩
    have hs : splitFirst idCertLabel (before ++ keyLabel :: after ++ idCertLabel :: version).reverse =
        some (version.reverse, (before ++ keyLabel :: after).reverse) :=
      splitFirst_eq_some.2 ⟨by simp, by simpa using hv⟩
    have hs' : splitFirst keyLabel (before ++ keyLabel :: after).reverse.reverse = some (before, after) :=
      splitFirst_eq_some.2 ⟨by simp, hb⟩
    rw [hs]
    simp only [hs']

/-- The library as documented, of which a key is only known to be a DER sequence. -/
@[reducible] def Certificates.documented : Certificates where
  certificateNameToPublicKeyName := publicKeyName
  spec := publicKeyName_spec
  toPublicKey der := if der.head? = some 0x30 then some der else none
  toPublicKey_eq der key h := by
    split at h
    · exact (Option.some.inj h).symm
    · cases h

/-! ## Certificates -/

variable [Certificates]

structure IdentityCertificate where
  name : Name
  publicKeyName : Name
  publicKeyInfo : PublicKey
  /-- The rest of the packet. -/
  rest : Bytes
  named : certificateNameToPublicKeyName name = .ok publicKeyName
  accepted : (toPublicKey publicKeyInfo).isSome = true
  deriving DecidableEq

theorem IdentityCertificate.name_ne_nil (c : IdentityCertificate) : c.name ≠ [] := by
  obtain ⟨before, after, version, hn, -⟩ := (Certificates.spec _ _).1 c.named
  rw [hn]
  simp

/-- The name of a certificate determines the name of its key. -/
theorem IdentityCertificate.publicKeyName_eq {c d : IdentityCertificate} (h : c.name = d.name) :
    c.publicKeyName = d.publicKeyName := by
  have hc := c.named
  rw [h, d.named] at hc
  exact (Except.ok.inj hc).symm

end NdnTools.Pib
