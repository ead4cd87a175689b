/-
Whether what an object holds after `wireDecode` depends on what it held before. A list of names keeps
its names in front of those of the block, and a user without a TPM locator in the block keeps the old
one; the other classes forget everything.
-/
import NdnTools.Pib.Encoding.Accepted

namespace NdnTools.Pib.Encoding

open Tlv

section
variable [Certificates] [Formats]

/-- An object of one of the classes, with the block it keeps. -/
inductive Object
  | identity (o : Kept PibIdentity)
  | publicKey (o : Kept PibPublicKey)
  | certificate (o : Kept PibCertificate)
  | nameList (o : Kept PibNameList)
  | error (o : Kept PibError)
  | user (o : Kept PibUser)

namespace Object

def wireDecode (wire : Block) : Object → Except Error Object
  | identity o => identity <$> o.wireDecode wire
  | publicKey o => publicKey <$> o.wireDecode wire
  | certificate o => certificate <$> o.wireDecode wire
  | nameList o => nameList <$> o.wireDecode wire
  | error o => error <$> o.wireDecode wire
  | user o => user <$> o.wireDecode wire

/-- A new object of the same class. -/
def fresh : Object → Object
  | identity _ => identity { fields := create }
  | publicKey _ => publicKey { fields := create }
  | certificate _ => certificate { fields := create }
  | nameList _ => nameList { fields := create }
  | error _ => error { fields := create }
  | user _ => user { fields := create }

/-- The second element of the block is a TPM locator. -/
def HasLocator (wire : Block) : Prop :=
  ∃ data locator rest, wire.elements = some (data :: locator :: rest) ∧ locator.type = tlv.tpmLocator

/-- The object holds nothing that the block would leave where it is. -/
def Forgets (wire : Block) : Object → Prop
  | nameList o => o.fields.names = []
  | user o => o.fields.tpmLocator = [] ∨ HasLocator wire
  | identity _ | publicKey _ | certificate _ | error _ => True

end Object

/-! ## Each class -/

section
variable {α : Type} [WireFormat α] {o o' : Kept α} {wire : Block}

omit [Certificates] [Formats] in
/-- What a class does with the fields decides what it does with its objects. -/
theorem wireDecode_fresh_iff (h : o.wireDecode wire = .ok o') :
    Kept.wireDecode { fields := create } wire = .ok o' ↔
      WireFormat.wireDecode create wire = WireFormat.wireDecode o.fields wire := by
  obtain ⟨hfields, hwire⟩ := Kept.wireDecode_eq_ok.1 h
  rw [Kept.wireDecode_eq_ok, hfields]
  exact and_iff_left hwire

end

/-- The names of a block go behind those that are there. -/
theorem decodeNames_eq : ∀ (it : List Block) (names : List Name),
    decodeNames it names = (fun decoded => names ++ decoded) <$> decodeNames it []
  | [], names => by
    change Except.ok names = Except.ok (names ++ [])
    rw [List.append_nil]
  | b :: it, names => by
    simp only [decodeNames]
    split
    · cases decodeName b with
      | error e => rfl
      | ok name =>
        change decodeNames it (names ++ [name]) = (fun decoded => names ++ decoded) <$> decodeNames it ([] ++ [name])
        rw [decodeNames_eq it (names ++ [name]), decodeNames_eq it ([] ++ [name])]
        cases decodeNames it [] with
        | error e => rfl
        | ok decoded =>
          change Except.ok (names ++ [name] ++ decoded) = Except.ok (names ++ ([] ++ [name] ++ decoded))
          simp
    · exact decodeNames_eq it names

/-- A list of names is what it was, with the names of the block behind. -/
theorem nameList_decode_eq (o : PibNameList) (wire : Block) :
    o.wireDecode wire =
      (fun d : PibNameList => ⟨o.names ++ d.names⟩) <$> PibNameList.wireDecode create wire := by
  unfold PibNameList.wireDecode
  cases checkWire wire with
  | error e => rfl
  | ok u =>
    cases checkType tlv.nameList "Unexpected TLV type when decoding PibNameList" wire with
    | error e => rfl
    | ok u =>
      cases orThrow wire.elements with
      | error e => rfl
      | ok it =>
        change (fun names : List Name => PibNameList.mk names) <$> decodeNames it o.names = _ <$>
          ((fun names : List Name => PibNameList.mk names) <$> decodeNames it [])
        rw [decodeNames_eq it o.names]
        cases decodeNames it [] <;> rfl

theorem nameList_forgets_iff {o a : PibNameList} {wire : Block} (h : o.wireDecode wire = .ok a) :
    PibNameList.wireDecode create wire = o.wireDecode wire ↔ o.names = [] := by
  rw [nameList_decode_eq o] at h ⊢
  cases hfresh : PibNameList.wireDecode create wire with
  | error e =>
    rw [hfresh] at h
    cases h
  | ok d =>
    obtain ⟨names⟩ := d
    simp

/-- The old locator is in what is decoded unless the block has one. -/
theorem user_forgets_iff {o a : PibUser} {wire : Block} (h : o.wireDecode wire = .ok a) :
    PibUser.wireDecode create wire = o.wireDecode wire ↔ o.tpmLocator = [] ∨ Object.HasLocator wire := by
  obtain ⟨hwire, htype, b, rest, cert, hit, hcert, rfl⟩ := PibUser.wireDecode_eq_ok.1 h
  have hfresh : PibUser.wireDecode create wire = .ok ⟨some cert, locatorAfter [] rest⟩ :=
    PibUser.wireDecode_eq_ok.2 ⟨hwire, htype, b, rest, cert, hit, hcert, rfl⟩
  have hlocator : Object.HasLocator wire ↔ ∃ l tail, rest = l :: tail ∧ l.type = tlv.tpmLocator := by
    unfold Object.HasLocator
    rw [hit]
    constructor
    · rintro ⟨_, l, tail, heq, hl⟩
      obtain ⟨-, rfl⟩ := List.cons.inj (Option.some.inj heq)
      exact ⟨l, tail, rfl, hl⟩
    · rintro ⟨l, tail, rfl, hl⟩
      exact ⟨b, l, tail, rfl, hl⟩
  rw [hfresh, h, hlocator, Except.ok.injEq, PibUser.mk.injEq]
  cases rest with
  | nil =>
    simp only [locatorAfter, true_and, reduceCtorEq, false_and, exists_false, or_false]
    exact eq_comm
  | cons l tail =>
    by_cases hl : l.type = tlv.tpmLocator
    · simp [locatorAfter, hl]
    · have hno : ¬ ∃ l' tail', l :: tail = l' :: tail' ∧ l'.type = tlv.tpmLocator := by
        rintro ⟨l', tail', heq, hl'⟩
        exact hl ((List.cons.inj heq).1 ▸ hl')
      simp only [locatorAfter, if_neg hl, true_and, hno, or_false]
      exact eq_comm

/-! ## All of them -/

section
variable {α : Type} [WireFormat α] {make : Kept α → Object} {o : Kept α} {o' : Object} {wire : Block}

omit [Formats] in
theorem fields_of_decode (h : make <$> o.wireDecode wire = .ok o') :
    ∃ a, WireFormat.wireDecode o.fields wire = .ok a := by
  cases hdec : o.wireDecode wire with
  | error e =>
    rw [hdec] at h
    cases h
  | ok a => exact ⟨a.fields, (Kept.wireDecode_eq_ok.1 hdec).1⟩

omit [Formats] in
theorem fresh_decode_iff (hmake : Function.Injective make) (h : make <$> o.wireDecode wire = .ok o') :
    make <$> Kept.wireDecode { fields := create } wire = .ok o' ↔
      WireFormat.wireDecode create wire = WireFormat.wireDecode o.fields wire := by
  cases hdec : o.wireDecode wire with
  | error e =>
    rw [hdec] at h
    cases h
  | ok a =>
    rw [hdec] at h
    cases h
    rw [← wireDecode_fresh_iff hdec]
    cases Kept.wireDecode { fields := (create : α) } wire with
    | error e => simp
    | ok d => simpa using hmake.eq_iff

end

/-- Decoding a block into an object gives what decoding it into a new object of the class gives exactly if the
object holds nothing that the block leaves where it is. -/
theorem decoded_fresh_iff (o o' : Object) (wire : Block) (h : o.wireDecode wire = .ok o') :
    o.fresh.wireDecode wire = .ok o' ↔ o.Forgets wire := by
  cases o with
  | identity o => exact (fresh_decode_iff (fun _ _ h => Object.identity.inj h) h).trans (iff_of_true rfl trivial)
  | publicKey o => exact (fresh_decode_iff (fun _ _ h => Object.publicKey.inj h) h).trans (iff_of_true rfl trivial)
  | certificate o => exact (fresh_decode_iff (fun _ _ h => Object.certificate.inj h) h).trans (iff_of_true rfl trivial)
  | error o => exact (fresh_decode_iff (fun _ _ h => Object.error.inj h) h).trans (iff_of_true rfl trivial)
  | nameList o =>
    obtain ⟨a, ha⟩ := fields_of_decode h
    exact (fresh_decode_iff (fun _ _ h => Object.nameList.inj h) h).trans (nameList_forgets_iff ha)
  | user o =>
    obtain ⟨a, ha⟩ := fields_of_decode h
    exact (fresh_decode_iff (fun _ _ h => Object.user.inj h) h).trans (user_forgets_iff ha)

end

section
local instance decodedNames : Certificates := .documented

local instance decodedFormats : Formats := .documented

theorem object_decode {α : Type} [WireFormat α] {a d : α} {wire : Block} (make : Kept α → Object)
    (h : WireFormat.wireDecode a wire = .ok d) :
    make <$> Kept.wireDecode { fields := a } wire = .ok (make { fields := d, wire := some wire }) := by
  have hdec : Kept.wireDecode { fields := a } wire = .ok { fields := d, wire := some wire } :=
    Kept.wireDecode_eq_ok.2 ⟨h, rfl⟩
  exact congrArg (fun x => make <$> x) hdec

def nameA : Name := ["a"]

def identityOfA : Block := { type := tlv.identity, value := [7, 3, 8, 1, 97] }

/-- A management certificate. -/
def certOfU : IdentityCertificate :=
  ⟨["u", "KEY", "mgmt", "ID-CERT", "1"], ["u", "mgmt"], [48], [], by decide +kernel, rfl⟩

def userWithout : Block := { type := tlv.user, value := Block.wire { type := tlv.data, value := dataValue certOfU } }

def userWith (tpmLocator : Bytes) : Block :=
  { userWithout with value := userWithout.value ++ Block.wire { type := tlv.tpmLocator, value := tpmLocator } }

theorem hasLocator_userWith : Object.HasLocator (userWith [109]) :=
  ⟨{ type := tlv.data, value := dataValue certOfU }, { type := tlv.tpmLocator, value := [109] }, [], by decide +kernel,
    rfl⟩

theorem decode_userWith :
    PibUser.wireDecode ⟨some certOfU, [108]⟩ (userWith [109]) = .ok ⟨some certOfU, [109]⟩ := by decide +kernel

theorem decode_userWithout :
    PibUser.wireDecode ⟨some certOfU, [108]⟩ userWithout = .ok ⟨some certOfU, [108]⟩ := by decide +kernel

theorem decode_identityOfA : PibIdentity.wireDecode ⟨["b"]⟩ identityOfA = .ok ⟨nameA⟩ := by decide +kernel

/-- A user whose locator is `l`. -/
def userOfL : Kept PibUser := { fields := ⟨some certOfU, [108]⟩ }

/-- An identity forgets its name, and a user its locator for another, but not for none. -/
theorem decoded_fresh_iff_held :
    (Object.identity { fields := ⟨["b"]⟩ }).fresh.wireDecode identityOfA =
        .ok (.identity { fields := ⟨nameA⟩, wire := some identityOfA }) ∧
      (Object.user userOfL).fresh.wireDecode (userWith [109]) =
        .ok (.user { fields := ⟨some certOfU, [109]⟩, wire := some (userWith [109]) }) ∧
      (Object.user userOfL).fresh.wireDecode userWithout ≠
        .ok (.user { fields := ⟨some certOfU, [108]⟩, wire := some userWithout }) := by
  refine ⟨?_, ?_, fun hfresh => ?_⟩
  · exact (decoded_fresh_iff (.identity { fields := ⟨["b"]⟩ }) _ _ (object_decode .identity decode_identityOfA)).2
      trivial
  · exact (decoded_fresh_iff (.user userOfL) _ _ (object_decode .user decode_userWith)).2 (.inr hasLocator_userWith)
  · have hforgets := (decoded_fresh_iff (.user userOfL) _ _ (object_decode .user decode_userWithout)).1 hfresh
    obtain hempty | ⟨data, locator, rest, helements, -⟩ := hforgets
    · cases hempty
    · have hone : userWithout.elements = some [{ type := tlv.data, value := dataValue certOfU }] := by decide +kernel
      cases (Option.some.inj (hone.symm.trans helements))

/-- The block of a list with the name `/a`. -/
def listOfA : Block := { type := tlv.nameList, value := [7, 3, 8, 1, 97] }

theorem decode_listOfA (names : List Name) :
    PibNameList.wireDecode ⟨names⟩ listOfA = .ok ⟨names ++ [nameA]⟩ := by
  have hempty : PibNameList.wireDecode create listOfA = .ok ⟨[nameA]⟩ := by decide +kernel
  rw [nameList_decode_eq, hempty]
  rfl

/-- A list that holds `/b` holds it after decoding the block of `/a` as well. -/
theorem old_name_kept :
    ¬ ∀ (o o' : Object) (wire : Block), o.wireDecode wire = .ok o' → o.fresh.wireDecode wire = .ok o' := by
  intro h
  have hfresh := h (.nameList { fields := ⟨[["b"]]⟩ }) _ listOfA (object_decode .nameList (decode_listOfA _))
  have hempty := object_decode .nameList (decode_listOfA [])
  have hlists := hempty.symm.trans hfresh
  simp at hlists

end

end NdnTools.Pib.Encoding
