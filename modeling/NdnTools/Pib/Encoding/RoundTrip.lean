/-
What is encoded is decoded again, into a new object of the same class that an observer cannot tell from
the first. That holds of every object whose encoding succeeds, except that a key must be one: an object
without a key, or with a default-constructed one, is encoded as a block that no decoder accepts. An object
that is decoded into again counts unless an old name or an old locator stays in it.
-/
import NdnTools.Pib.Encoding.EntityTrips
import NdnTools.Pib.Encoding.Redecoding

namespace NdnTools.Pib.Encoding

open Tlv

section
variable {type : UInt32}

theorem getNameOf_decoded (what : String) (name old : Name) :
    getNameOf what type (if callsForName type then name else old) = getNameOf what type name := by
  unfold getNameOf
  split <;> rfl

/-- A name that is not read is not shown either. -/
theorem decodeNameOf_new [Certificates] [Formats] {missing unsupported : String} {old name : Name} {it : List Block}
    (h : decodeNameOf missing unsupported type old it = .ok name) :
    ∃ d, decodeNameOf missing unsupported type [] it = .ok d ∧
      ∀ what, getNameOf what type d = getNameOf what type name := by
  unfold decodeNameOf getNameOf at *
  by_cases hc : callsForName type = true
  · simp only [if_pos hc] at h ⊢
    exact ⟨name, h, fun _ => rfl⟩
  · simp only [if_neg hc] at h ⊢
    split at h
    · rename_i huser
      exact ⟨[], if_pos huser, fun _ => trivial⟩
    · cases h

theorem expectType_enumBlock (what : String) (type : UInt32) (it : List Block) :
    expectType what (enumBlock tlv.type type :: it) = .ok (type, it) := by
  have htype : (enumBlock tlv.type type).type = tlv.type := rfl
  simp only [expectType, expect_cons htype, readEnum_enumBlock, bind, Except.bind]
  rfl

theorem writes_encodeType (type : UInt32) : Writes (encodeType type) (wires [enumBlock tlv.type type]) := by
  rw [wires_singleton]
  exact writes_prependNonNegativeIntegerBlock tlv.type type.toNat

end

section
variable [Certificates] [Formats] {name : Name} {cert : IdentityCertificate} {type : UInt32}

/-! ## The name that some types call for -/

/-- The types that parameters can be encoded with. -/
def Supported (type : UInt32) : Prop := callsForName type = true ∨ type = typeUser

def nameBlocks (type : UInt32) (name : Name) : List Block := if callsForName type then [nameBlock name] else []

theorem writes_encodeNameOf (h : Supported type) (what : String) (name : Name) :
    Writes (encodeNameOf what type name) (wires (nameBlocks type name)) := by
  unfold encodeNameOf nameBlocks
  by_cases hc : callsForName type = true
  · rw [if_pos hc, if_pos hc]
    exact writes_encodeName name
  · rw [if_neg hc, if_neg hc, if_pos (h.resolve_left hc)]
    exact fun _ => rfl

theorem encodeNameOf_error (h : ¬ Supported type) (what : String) (name : Name)
    (buffer : List UInt8) :
    encodeNameOf what type name buffer = .error (.thrown (what ++ toString type)) := by
  unfold encodeNameOf
  rw [if_neg fun hc => h (.inl hc), if_neg fun hu => h (.inr hu)]
  rfl

theorem decodeNameOf_nameBlocks (h : Supported type)
    (hlen : (wires (nameBlocks type name)).length < 2 ^ 64) (missing unsupported : String) (old : Name) :
    decodeNameOf missing unsupported type old (nameBlocks type name) =
      .ok (if callsForName type then name else old) := by
  unfold nameBlocks at hlen
  unfold decodeNameOf nameBlocks
  by_cases hc : callsForName type = true
  · rw [if_pos hc] at hlen
    simp only [if_pos hc]
    exact decodeName_nameBlock ((length_value_lt_wires (List.mem_singleton.2 rfl)).trans hlen)
  · simp only [if_neg hc, if_pos (h.resolve_left hc)]

theorem small_nameBlocks : ∀ b ∈ nameBlocks type name, b.type < 2 ^ 32 ∧ b.hasWire = true := by
  unfold nameBlocks
  split <;> simp [nameBlock, tlv.name]

/-! ## Parameters of get and list -/

/-- The elements of parameters that are a type and the name it calls for. -/
def targetBlocks (type : UInt32) (name : Name) : List Block := enumBlock tlv.type type :: nameBlocks type name

theorem writes_target (h : Supported type) (unsupported : String) (t : ℕ) (name : Name) :
    Writes (do
        let totalLength ← encodeNameOf unsupported type name
        prependHeader t (totalLength + (← encodeType type)))
      (Block.wire { type := t, value := wires (targetBlocks type name) }) := by
  intro buffer
  rw [(writes_encodeNameOf h unsupported name).bind, (writes_encodeType type).step, ← wires_append]
  exact prependHeader_wire t (wires (targetBlocks type name)) buffer

theorem orThrow_target {t : ℕ} (hlen : (wires (targetBlocks type name)).length < 2 ^ 64) :
    orThrow (Block.elements { type := t, value := wires (targetBlocks type name) }) = .ok (targetBlocks type name) :=
  orThrow_elements hlen (List.forall_mem_cons.2 ⟨⟨show tlv.type < 2 ^ 32 by decide, rfl⟩, small_nameBlocks⟩)

theorem decodeNameOf_target (h : Supported type) (hlen : (wires (targetBlocks type name)).length < 2 ^ 64)
    (missing unsupported : String) (old : Name) :
    decodeNameOf missing unsupported type old (nameBlocks type name) =
      .ok (if callsForName type then name else old) :=
  decodeNameOf_nameBlocks h ((length_wires_le (List.sublist_cons_self _ _)).trans_lt hlen) missing unsupported old

namespace GetParam

/-- The same to an observer. -/
structure Same (o o' : GetParam) : Prop where
  targetType : o.targetType = o'.targetType
  targetName : o.getTargetName = o'.getTargetName

theorem wireDecode_wires {o : GetParam} (h : Supported o.targetType)
    (hlen : (wires (targetBlocks o.targetType o.targetName)).length < 2 ^ 64) :
    ∃ d, wireDecode {} { type := tlv.getParam, value := wires (targetBlocks o.targetType o.targetName) } = .ok d ∧
      Same d o := by
  refine ⟨{ targetType := o.targetType, targetName := if callsForName o.targetType then o.targetName else [] }, ?_,
    rfl, getNameOf_decoded _ _ _⟩
  simp only [wireDecode, checkWire_wire, checkType_self, orThrow_target hlen, bind, Except.bind]
  simp only [targetBlocks, expectType_enumBlock, decodeNameOf_target h hlen]
  rfl

theorem redecodes : Redecodes (fun _ _ => True) Same := by
  intro a d b _ h
  change a.wireDecode b = .ok d at h
  change ∃ fresh, wireDecode {} b = .ok fresh ∧ Same fresh d
  simp only [wireDecode, bind_eq_ok, pure_eq_ok, Prod.exists] at h ⊢
  obtain ⟨u, hwire, it, hit, u', htype, type, it', ht, name, hname, rfl⟩ := h
  obtain ⟨fresh, hfresh, hsame⟩ := decodeNameOf_new hname
  exact ⟨⟨type, fresh⟩, ⟨u, hwire, it, hit, u', htype, type, it', ht, fresh, hfresh, rfl⟩, rfl, hsame _⟩

theorem roundTrips : RoundTrips (fun _ => True) (fun _ _ => True) Same := by
  refine roundTrips_of (fun _ => ⟨rfl, rfl⟩) (fun o b _ hb => ?_) redecodes
  by_cases h : Supported o.targetType
  · exact trip_of (writes_target h _ tlv.getParam o.targetName) (by decide) (wireDecode_wires h) b hb
  · have herror : ∀ buffer, o.wireEncode buffer = .error _ := bind_of_error (encodeNameOf_error h _ o.targetName) _
    rw [encodeBlock_error herror] at hb
    cases hb

end GetParam

namespace ListParam

/-- The same to an observer. -/
structure Same (o o' : ListParam) : Prop where
  originType : o.originType = o'.originType
  originName : o.getOriginName = o'.getOriginName

theorem wireDecode_wires {o : ListParam} (h : Supported o.originType)
    (hlen : (wires (targetBlocks o.originType o.originName)).length < 2 ^ 64) :
    ∃ d, wireDecode {} { type := tlv.listParam, value := wires (targetBlocks o.originType o.originName) } = .ok d ∧
      Same d o := by
  refine ⟨{ originType := o.originType, originName := if callsForName o.originType then o.originName else [] }, ?_,
    rfl, getNameOf_decoded _ _ _⟩
  simp only [wireDecode, checkWire_wire, checkType_self, orThrow_target hlen, bind, Except.bind]
  simp only [targetBlocks, expectType_enumBlock, decodeNameOf_target h hlen]
  rfl

theorem redecodes : Redecodes (fun _ _ => True) Same := by
  intro a d b _ h
  change a.wireDecode b = .ok d at h
  change ∃ fresh, wireDecode {} b = .ok fresh ∧ Same fresh d
  simp only [wireDecode, bind_eq_ok, pure_eq_ok, Prod.exists] at h ⊢
  obtain ⟨u, hwire, it, hit, u', htype, type, it', ht, name, hname, rfl⟩ := h
  obtain ⟨fresh, hfresh, hsame⟩ := decodeNameOf_new hname
  exact ⟨⟨type, fresh⟩, ⟨u, hwire, it, hit, u', htype, type, it', ht, fresh, hfresh, rfl⟩, rfl, hsame _⟩

theorem roundTrips : RoundTrips (fun _ => True) (fun _ _ => True) Same := by
  refine roundTrips_of (fun _ => ⟨rfl, rfl⟩) (fun o b _ hb => ?_) redecodes
  by_cases h : Supported o.originType
  · exact trip_of (writes_target h _ tlv.listParam o.originName) (by decide) (wireDecode_wires h) b hb
  · have herror : ∀ buffer, o.wireEncode buffer = .error _ := bind_of_error (encodeNameOf_error h _ o.originName) _
    rw [encodeBlock_error herror] at hb
    cases hb

end ListParam

/-! ## Parameters of default -/

namespace DefaultParam

def blocks (o : DefaultParam) : List Block :=
  enumBlock tlv.type o.targetType :: targetBlocks o.originType o.originName

/-- The same to an observer. -/
structure Same (o o' : DefaultParam) : Prop where
  targetType : o.targetType = o'.targetType
  originType : o.originType = o'.originType
  originName : o.getOriginName = o'.getOriginName

/-- The type of the target can be any. -/
theorem writes {o : DefaultParam} (h : Supported o.originType) :
    Writes o.wireEncode (Block.wire { type := tlv.defaultParam, value := wires o.blocks }) := by
  intro buffer
  unfold wireEncode
  rw [(writes_encodeNameOf h _ o.originName).bind]
  dsimp only
  rw [(writes_encodeType o.originType).step fun n => do prependHeader _ (n + (← encodeType o.targetType)),
    (writes_encodeType o.targetType).step, ← wires_append, ← wires_append]
  exact prependHeader_wire tlv.defaultParam (wires o.blocks) buffer

theorem wireDecode_wires {o : DefaultParam} (h : Supported o.originType) (hlen : (wires o.blocks).length < 2 ^ 64) :
    ∃ d, wireDecode {} { type := tlv.defaultParam, value := wires o.blocks } = .ok d ∧ Same d o := by
  have hsmall : ∀ e : UInt32, (enumBlock tlv.type e).type < 2 ^ 32 ∧ (enumBlock tlv.type e).hasWire = true :=
    fun _ => ⟨show tlv.type < 2 ^ 32 by decide, rfl⟩
  have helems : orThrow (Block.elements { type := tlv.defaultParam, value := wires o.blocks }) = .ok o.blocks :=
    orThrow_elements hlen
      (List.forall_mem_cons.2 ⟨hsmall _, List.forall_mem_cons.2 ⟨hsmall _, small_nameBlocks⟩⟩)
  have htarget := (length_wires_le (List.sublist_cons_self _ (targetBlocks o.originType o.originName))).trans_lt hlen
  refine ⟨{ o with originName := if callsForName o.originType then o.originName else [] }, ?_, rfl, rfl,
    getNameOf_decoded _ _ _⟩
  simp only [wireDecode, checkWire_wire, checkType_self, helems, bind, Except.bind]
  simp only [blocks, targetBlocks, expectType_enumBlock, decodeNameOf_target h htarget]
  rfl

theorem redecodes : Redecodes (fun _ _ => True) Same := by
  intro a d b _ h
  change a.wireDecode b = .ok d at h
  change ∃ fresh, wireDecode {} b = .ok fresh ∧ Same fresh d
  simp only [wireDecode, bind_eq_ok, pure_eq_ok, Prod.exists] at h ⊢
  obtain ⟨u, hwire, it, hit, u', htype, target, it', ht, origin, rest, ho, name, hname, rfl⟩ := h
  obtain ⟨fresh, hfresh, hsame⟩ := decodeNameOf_new hname
  exact ⟨⟨target, origin, fresh⟩,
    ⟨u, hwire, it, hit, u', htype, target, it', ht, origin, rest, ho, fresh, hfresh, rfl⟩, rfl, rfl, hsame _⟩

theorem roundTrips : RoundTrips (fun _ => True) (fun _ _ => True) Same := by
  refine roundTrips_of (fun _ => ⟨rfl, rfl, rfl⟩) (fun o b _ hb => ?_) redecodes
  by_cases h : Supported o.originType
  · exact trip_of (writes h) (by decide) (wireDecode_wires h) b hb
  · have herror : ∀ buffer, o.wireEncode buffer = .error _ := bind_of_error (encodeNameOf_error h _ o.originName) _
    rw [encodeBlock_error herror] at hb
    cases hb

end DefaultParam

/-! ## Parameters of delete -/

namespace DeleteParam

def blocks (o : DeleteParam) : List Block := [enumBlock tlv.type o.targetType, nameBlock o.targetName]

omit [Certificates] [Formats] in
/-- The guard of the encoder. -/
theorem supported_iff (type : UInt32) :
    ¬ (type ≠ typeId ∧ type ≠ typeKey ∧ type ≠ typeCert ∧ type ≠ typeUser) ↔ Supported type := by
  unfold Supported callsForName
  simp only [decide_eq_true_eq]
  tauto

theorem writes {o : DeleteParam} (h : Supported o.targetType) :
    Writes o.wireEncode (Block.wire { type := tlv.deleteParam, value := wires o.blocks }) := by
  intro buffer
  unfold wireEncode
  rw [if_neg ((supported_iff _).2 h), (writes_encodeName o.targetName).bind, (writes_encodeType o.targetType).step,
    ← wires_append]
  exact prependHeader_wire tlv.deleteParam (wires o.blocks) buffer

theorem wireDecode_wires (o old : DeleteParam) (hlen : (wires o.blocks).length < 2 ^ 64) :
    old.wireDecode { type := tlv.deleteParam, value := wires o.blocks } = .ok o := by
  have helems : orThrow (Block.elements { type := tlv.deleteParam, value := wires o.blocks }) = .ok o.blocks :=
    orThrow_elements hlen (by simp [blocks, enumBlock, nameBlock, tlv.type, tlv.name])
  have hname : (nameValue o.targetName).length < 2 ^ 64 :=
    (length_value_lt_wires (by simp [blocks] : nameBlock o.targetName ∈ o.blocks)).trans hlen
  simp only [wireDecode, checkWire_wire, checkType_self, helems, bind, Except.bind]
  simp only [blocks, expectType_enumBlock, expect_cons (show (nameBlock o.targetName).type = tlv.name from rfl),
    decodeName_nameBlock hname, expectEnd_nil]
  rfl

theorem roundTrips :
    RoundTrips (fun _ => True) (fun _ _ => True) (Eq : DeleteParam → DeleteParam → Prop) := by
  refine roundTrips_of (fun _ => rfl) (fun o b _ hb => ?_) (redecodes_of_eq (fun _ => rfl) fun _ _ _ _ _ => rfl)
  by_cases h : Supported o.targetType
  · exact trip_of (writes h) (by decide) (fun hlen => ⟨o, wireDecode_wires o _ hlen, rfl⟩) b hb
  · have herror : ∀ buffer, o.wireEncode buffer = .error _ := fun buffer => by
      unfold wireEncode
      rw [if_pos (not_not.1 fun hs => h ((supported_iff _).1 hs))]
      rfl
    rw [encodeBlock_error herror] at hb
    cases hb

end DeleteParam

/-! ## Parameters of update -/

namespace UpdateParam

/-- The same to an observer. -/
structure Same (o o' : UpdateParam) : Prop where
  entityType : o.entityType = o'.entityType
  user : o.getUser = o'.getUser
  identity : o.getIdentity = o'.getIdentity
  key : o.getPublicKey = o'.getPublicKey
  certificate : o.getCertificate = o'.getCertificate
  defaultOpt : o.defaultOpt = o'.defaultOpt

omit [Formats] in
theorem Same.refl (o : UpdateParam) : Same o o := ⟨rfl, rfl, rfl, rfl, rfl, rfl⟩

variable {o d : UpdateParam} {e : Block}

theorem writes (h : Writes o.encodeEntity (wires [e])) :
    Writes o.wireEncode
      (Block.wire { type := tlv.updateParam, value := wires [e, enumBlock tlv.defaultOpt o.defaultOpt] }) := by
  intro buffer
  unfold wireEncode
  rw [(writes_prependNonNegativeIntegerBlock tlv.defaultOpt o.defaultOpt.toNat).bind, h.step, ← wires_singleton,
    ← wires_append]
  exact prependHeader_wire tlv.updateParam (wires [e, enumBlock tlv.defaultOpt o.defaultOpt]) buffer

theorem wireEncode_error {err : Error} (h : ∀ buffer, o.encodeEntity buffer = .error err) (buffer : List UInt8) :
    o.wireEncode buffer = .error err := by
  unfold wireEncode
  rw [(writes_prependNonNegativeIntegerBlock tlv.defaultOpt o.defaultOpt.toNat).bind]
  exact bind_of_error h _ _

theorem encodeBlock_of_entity {err : Error} (h : ∀ buffer, o.encodeEntity buffer = .error err) :
    encodeBlock o = .error err := encodeBlock_error (wireEncode_error h)

theorem wireDecode_wires (hw : e.hasWire = true) (ht : e.type < 2 ^ 32) (opt : UInt32)
    (hd : decodeEntity {} e = .ok d) (hlen : (wires [e, enumBlock tlv.defaultOpt opt]).length < 2 ^ 64) :
    wireDecode {} { type := tlv.updateParam, value := wires [e, enumBlock tlv.defaultOpt opt] } =
      .ok { d with defaultOpt := opt } := by
  have helems : orThrow (Block.elements
      { type := tlv.updateParam, value := wires [e, enumBlock tlv.defaultOpt opt] }) =
        .ok [e, enumBlock tlv.defaultOpt opt] :=
    orThrow_elements hlen (List.forall_mem_cons.2 ⟨⟨ht, hw⟩, by simp [enumBlock, tlv.defaultOpt]⟩)
  simp only [wireDecode, checkWire_wire, checkType_self, helems, hd, bind, Except.bind,
    expect_cons (show (enumBlock tlv.defaultOpt opt).type = tlv.defaultOpt from rfl), readEnum_enumBlock,
    expectEnd_nil]
  rfl

/-- The trip of parameters with an entity that is written as a block. -/
theorem trip_entity (h : Writes o.encodeEntity (wires [e])) (hw : e.hasWire = true) (ht : e.type < 2 ^ 32)
    (hd : e.value.length < 2 ^ 64 → decodeEntity {} e = .ok d) (hsame : Same { d with defaultOpt := o.defaultOpt } o)
    (b : Block) (hb : encodeBlock o = .ok b) : ∃ d, WireFormat.wireDecode create b = .ok d ∧ Same d o := by
  refine trip_of (writes h) (by decide) (fun hlen => ⟨_, wireDecode_wires hw ht o.defaultOpt (hd ?_) hlen, hsame⟩) b hb
  exact (length_value_lt_wires List.mem_cons_self).trans hlen

/-- What constructed parameters hold: a key is one, and the flag of a certificate is right. -/
structure Holds (o : UpdateParam) : Prop where
  key : o.entityType = tlv.publicKey → o.key.HoldsKey
  certificate : o.entityType = tlv.certificate → o.certificate.FlagAgrees

theorem trip_identity (h : o.entityType = tlv.identity) (b : Block) (hb : encodeBlock o = .ok b) :
    ∃ d, WireFormat.wireDecode create b = .ok d ∧ Same d o := by
  obtain ⟨entityType, user, identity, key, certificate, defaultOpt⟩ := o
  cases h
  refine trip_entity (e := { type := tlv.identity, value := wires [nameBlock identity.identity] })
    (d := { entityType := tlv.identity, identity := identity }) ?_ rfl (show tlv.identity < 2 ^ 32 by decide)
    (fun hlen => ?_) ⟨rfl, rfl, rfl, rfl, rfl, rfl⟩ b hb
  · rw [wires_singleton]
    exact identity.writes
  · simp only [decodeEntity, identity.wireDecode_wires {} hlen, if_true, bind, Except.bind]
    rfl

theorem trip_key (h : o.entityType = tlv.publicKey) (hkey : o.key.HoldsKey) (b : Block)
    (hb : encodeBlock o = .ok b) : ∃ d, WireFormat.wireDecode create b = .ok d ∧ Same d o := by
  obtain ⟨entityType, user, identity, key, certificate, defaultOpt⟩ := o
  cases h
  refine trip_entity (e := { type := tlv.publicKey, value := wires key.blocks })
    (d := { entityType := tlv.publicKey, key := key }) ?_ rfl (show tlv.publicKey < 2 ^ 32 by decide)
    (fun hlen => ?_) ⟨rfl, rfl, rfl, rfl, rfl, rfl⟩ b hb
  · rw [wires_singleton]
    exact key.writes
  · have hne : ¬ tlv.publicKey = tlv.identity := by decide
    simp only [decodeEntity, if_neg hne, PibPublicKey.wireDecode_wires hkey {} hlen, if_true, bind, Except.bind]
    rfl

theorem trip_certificate (h : o.entityType = tlv.certificate) (hflag : o.certificate.FlagAgrees) (b : Block)
    (hb : encodeBlock o = .ok b) : ∃ d, WireFormat.wireDecode create b = .ok d ∧ Same d o := by
  obtain ⟨entityType, user, identity, key, ⟨isValueSet, certificate⟩, defaultOpt⟩ := o
  cases h
  cases certificate with
  | none =>
    have herror : ∀ buffer, encodeEntity ⟨tlv.certificate, user, identity, key, ⟨isValueSet, none⟩, defaultOpt⟩ buffer =
        .error .library := PibCertificate.wireEncode_error rfl
    cases hb.symm.trans (encodeBlock_of_entity herror)
  | some cert =>
    cases hflag
    refine trip_entity (e := { type := tlv.certificate, value := wires [certificateBlock cert] })
      (d := { entityType := tlv.certificate, certificate := { isValueSet := true, certificate := some cert } })
      ?_ rfl (show tlv.certificate < 2 ^ 32 by decide) (fun hlen => ?_) ⟨rfl, rfl, rfl, rfl, rfl, rfl⟩ b hb
    · rw [wires_singleton]
      exact PibCertificate.writes rfl
    · have hidentity : ¬ tlv.certificate = tlv.identity := by decide
      have hkey : ¬ tlv.certificate = tlv.publicKey := by decide
      simp only [decodeEntity, if_neg hidentity, if_neg hkey, PibCertificate.wireDecode_wires {} hlen, if_true, bind,
        Except.bind]
      rfl

theorem trip_user (h : o.entityType = tlv.user) (b : Block) (hb : encodeBlock o = .ok b) :
    ∃ d, WireFormat.wireDecode create b = .ok d ∧ Same d o := by
  obtain ⟨entityType, user, identity, key, certificate, defaultOpt⟩ := o
  cases h
  cases hmgmt : user.mgmtCert with
  | none =>
    have herror : ∀ buffer, encodeEntity ⟨tlv.user, user, identity, key, certificate, defaultOpt⟩ buffer =
        .error .library := PibUser.wireEncode_error hmgmt
    cases hb.symm.trans (encodeBlock_of_entity herror)
  | some cert =>
    refine trip_entity (e := { type := tlv.user, value := wires (certificateBlock cert :: user.locatorBlocks) })
      (d := { entityType := tlv.user, user := user }) ?_ rfl (show tlv.user < 2 ^ 32 by decide) (fun hlen => ?_)
      ⟨rfl, rfl, rfl, rfl, rfl, rfl⟩ b hb
    · rw [wires_singleton]
      exact PibUser.writes hmgmt
    · have hidentity : ¬ tlv.user = tlv.identity := by decide
      have hkey : ¬ tlv.user = tlv.publicKey := by decide
      have hcert : ¬ tlv.user = tlv.certificate := by decide
      simp only [decodeEntity, if_neg hidentity, if_neg hkey, if_neg hcert, PibUser.wireDecode_wires hmgmt hlen,
        if_true, bind, Except.bind]
      rfl

/-- Parameters for no entity are not encoded. -/
theorem encodeEntity_error (hidentity : o.entityType ≠ tlv.identity) (hkey : o.entityType ≠ tlv.publicKey)
    (hcert : o.entityType ≠ tlv.certificate) (huser : o.entityType ≠ tlv.user) (buffer : List UInt8) :
    o.encodeEntity buffer =
      .error (.thrown ("UpdateParam::wireEncode: unsupported entity type: " ++ toString o.entityType)) := by
  unfold encodeEntity
  rw [if_neg hidentity, if_neg hkey, if_neg hcert, if_neg huser]
  rfl

/-- A user in the block leaves nothing of the old one. -/
def Forgets (o : UpdateParam) (wire : Block) : Prop :=
  ∀ b rest, wire.elements = some (b :: rest) → b.type = tlv.user → o.user.tpmLocator = [] ∨ Object.HasLocator b

theorem decodeEntity_new {b : Block} (hforgets : b.type = tlv.user → o.user.tpmLocator = [] ∨ Object.HasLocator b)
    (h : o.decodeEntity b = .ok d) :
    ∃ fresh, decodeEntity {} b = .ok fresh ∧
      ∀ opt, Same { fresh with defaultOpt := opt } { d with defaultOpt := opt } := by
  unfold decodeEntity at *
  by_cases hidentity : b.type = tlv.identity
  · simp only [if_pos hidentity, bind_eq_ok, pure_eq_ok] at h ⊢
    obtain ⟨identity, hdec, rfl⟩ := h
    exact ⟨_, ⟨identity, hdec, rfl⟩, fun _ => ⟨rfl, rfl, rfl, rfl, rfl, rfl⟩⟩
  by_cases hkey : b.type = tlv.publicKey
  · simp only [if_neg hidentity, if_pos hkey, bind_eq_ok, pure_eq_ok] at h ⊢
    obtain ⟨key, hdec, rfl⟩ := h
    exact ⟨_, ⟨key, hdec, rfl⟩, fun _ => ⟨rfl, rfl, rfl, rfl, rfl, rfl⟩⟩
  by_cases hcert : b.type = tlv.certificate
  · simp only [if_neg hidentity, if_neg hkey, if_pos hcert, bind_eq_ok, pure_eq_ok] at h ⊢
    obtain ⟨certificate, hdec, rfl⟩ := h
    exact ⟨_, ⟨certificate, hdec, rfl⟩, fun _ => ⟨rfl, rfl, rfl, rfl, rfl, rfl⟩⟩
  by_cases huser : b.type = tlv.user
  · simp only [if_neg hidentity, if_neg hkey, if_neg hcert, if_pos huser, bind_eq_ok, pure_eq_ok] at h ⊢
    obtain ⟨user, hdec, rfl⟩ := h
    exact ⟨_, ⟨user, ((user_forgets_iff hdec).2 (hforgets huser)).trans hdec, rfl⟩,
      fun _ => ⟨rfl, rfl, rfl, rfl, rfl, rfl⟩⟩
  · simp only [if_neg hidentity, if_neg hkey, if_neg hcert, if_neg huser] at h
    cases h

theorem redecodes : Redecodes Forgets Same := by
  intro a d wire hforgets h
  change a.wireDecode wire = .ok d at h
  change ∃ fresh, wireDecode {} wire = .ok fresh ∧ Same fresh d
  simp only [wireDecode, bind_eq_ok] at h ⊢
  obtain ⟨u, hwire, it, hit, u', htype, h⟩ := h
  cases it with
  | nil => cases h
  | cons b it =>
    simp only [bind_eq_ok, pure_eq_ok, Prod.exists] at h
    obtain ⟨entity, hentity, c, rest, hc, opt, hopt, u'', hend, rfl⟩ := h
    obtain ⟨fresh, hfresh, hsame⟩ := decodeEntity_new (hforgets b it (orThrow_eq_ok.1 hit)) hentity
    refine ⟨{ fresh with defaultOpt := opt }, ⟨u, hwire, _, hit, u', htype, ?_⟩, hsame opt⟩
    simp only [bind_eq_ok, pure_eq_ok, Prod.exists]
    exact ⟨fresh, hfresh, c, rest, hc, opt, hopt, u'', hend, rfl⟩

theorem roundTrips : RoundTrips Holds Forgets Same := by
  refine roundTrips_of Same.refl (fun o b h hb => ?_) redecodes
  by_cases hidentity : o.entityType = tlv.identity
  · exact trip_identity hidentity b hb
  by_cases hkey : o.entityType = tlv.publicKey
  · exact trip_key hkey (h.key hkey) b hb
  by_cases hcert : o.entityType = tlv.certificate
  · exact trip_certificate hcert (h.certificate hcert) b hb
  by_cases huser : o.entityType = tlv.user
  · exact trip_user huser b hb
  · rw [encodeBlock_of_entity (encodeEntity_error hidentity hkey hcert huser)] at hb
    cases hb

end UpdateParam

/-! ## Entities -/

theorem PibIdentity.roundTrips :
    RoundTrips (fun _ => True) (fun _ _ => True) (Eq : PibIdentity → PibIdentity → Prop) :=
  roundTrips_of (fun _ => rfl)
    (fun o b _ hb => trip_of o.writes (by decide) (fun hlen => ⟨o, o.wireDecode_wires _ hlen, rfl⟩) b hb)
    (redecodes_of_eq (fun _ => rfl) fun _ _ _ _ _ => rfl)

theorem PibPublicKey.roundTrips :
    RoundTrips HoldsKey (fun _ _ => True) (Eq : PibPublicKey → PibPublicKey → Prop) :=
  roundTrips_of (fun _ => rfl)
    (fun o b h hb => trip_of o.writes (by decide) (fun hlen => ⟨o, wireDecode_wires h _ hlen, rfl⟩) b hb)
    (redecodes_of_eq (fun _ => rfl) fun _ _ _ _ _ => rfl)

theorem PibCertificate.roundTrips :
    RoundTrips FlagAgrees (fun _ _ => True) (Eq : PibCertificate → PibCertificate → Prop) := by
  refine roundTrips_of (fun _ => rfl) (fun o b h hb => ?_) (redecodes_of_eq (fun _ => rfl) fun _ _ _ _ _ => rfl)
  obtain ⟨isValueSet, certificate⟩ := o
  cases certificate with
  | none =>
    rw [encodeBlock_error (PibCertificate.wireEncode_error rfl)] at hb
    cases hb
  | some cert =>
    cases h
    exact trip_of (PibCertificate.writes rfl) (by decide) (fun hlen => ⟨_, wireDecode_wires _ hlen, rfl⟩) b hb

/-- A list that is decoded into again has no names before. -/
theorem PibNameList.roundTrips :
    RoundTrips (fun _ => True) (fun o _ => o.names = []) (Eq : PibNameList → PibNameList → Prop) :=
  roundTrips_of (fun _ => rfl)
    (fun o b _ hb => trip_of o.writes (by decide) (fun hlen => ⟨o, o.wireDecode_wires hlen, rfl⟩) b hb)
    (redecodes_of_eq (fun _ => rfl) fun _ _ _ hnames hdec => (nameList_forgets_iff hdec).2 hnames)

/-- A user that is decoded into again has no locator before, or the block has one. -/
theorem PibUser.roundTrips :
    RoundTrips (fun _ => True) (fun o b => o.tpmLocator = [] ∨ Object.HasLocator b)
      (Eq : PibUser → PibUser → Prop) := by
  refine roundTrips_of (fun _ => rfl) (fun o b _ hb => ?_)
    (redecodes_of_eq (fun _ => rfl) fun _ _ _ hlocator hdec => (user_forgets_iff hdec).2 hlocator)
  cases hcert : o.mgmtCert with
  | none =>
    rw [encodeBlock_error (PibUser.wireEncode_error hcert)] at hb
    cases hb
  | some cert =>
    exact trip_of (PibUser.writes hcert) (by decide) (fun hlen => ⟨o, wireDecode_wires hcert hlen, rfl⟩) b hb

omit [Certificates] [Formats] in
theorem PibError.roundTrips : RoundTrips (fun _ => True) (fun _ _ => True) (Eq : PibError → PibError → Prop) :=
  roundTrips_of (fun _ => rfl)
    (fun o b _ hb => trip_of o.writes (by decide) (fun hlen => ⟨o, o.wireDecode_wires _ hlen, rfl⟩) b hb)
    (redecodes_of_eq (fun _ => rfl) fun _ _ _ _ _ => rfl)

/-! ## All of them -/

/-- Every object whose encoding succeeds is decoded from it into a new object that is the same to an observer, if
its key, where it is for one, is a key; a list or a user that is decoded into again leaves nothing of the old one.
The parameters of a command, then the entities. -/
theorem objects_roundTrip :
    RoundTrips (fun _ => True) (fun _ _ => True) GetParam.Same ∧
    RoundTrips (fun _ => True) (fun _ _ => True) ListParam.Same ∧
    RoundTrips (fun _ => True) (fun _ _ => True) DefaultParam.Same ∧
    RoundTrips UpdateParam.Holds UpdateParam.Forgets UpdateParam.Same ∧
    RoundTrips (fun _ => True) (fun _ _ => True) (Eq : DeleteParam → DeleteParam → Prop) ∧
    RoundTrips (fun _ => True) (fun _ _ => True) (Eq : PibIdentity → PibIdentity → Prop) ∧
    RoundTrips PibPublicKey.HoldsKey (fun _ _ => True) (Eq : PibPublicKey → PibPublicKey → Prop) ∧
    RoundTrips PibCertificate.FlagAgrees (fun _ _ => True) (Eq : PibCertificate → PibCertificate → Prop) ∧
    RoundTrips (fun _ => True) (fun o _ => o.names = []) (Eq : PibNameList → PibNameList → Prop) ∧
    RoundTrips (fun _ => True) (fun _ _ => True) (Eq : PibError → PibError → Prop) ∧
    RoundTrips (fun _ => True) (fun o b => o.tpmLocator = [] ∨ Object.HasLocator b)
      (Eq : PibUser → PibUser → Prop) :=
  ⟨GetParam.roundTrips, ListParam.roundTrips, DefaultParam.roundTrips, UpdateParam.roundTrips, DeleteParam.roundTrips,
    PibIdentity.roundTrips, PibPublicKey.roundTrips, PibCertificate.roundTrips, PibNameList.roundTrips,
    PibError.roundTrips, PibUser.roundTrips⟩

end

section
local instance documentedNames : Certificates := .documented

local instance documentedFormats : Formats := .documented

/-- Parameters of update for a key, a user that has been set, and one that held another locator when it was decoded. -/
theorem objects_roundTrip_held :
    (∃ d : Kept UpdateParam,
      Kept.wireDecode { fields := {} } { type := 131, value := [146, 8, 7, 3, 8, 1, 107, 148, 1, 48, 149, 1, 0] } =
        .ok d ∧ UpdateParam.Same d.fields { entityType := tlv.publicKey, key := ⟨true, ["k"], [48]⟩ }) ∧
      (∃ d : Kept PibUser, Kept.wireDecode { fields := {} } (userWith [109]) = .ok d ∧
        d.fields = (PibUser.setMgmtCert certOfU (PibUser.setTpmLocator [109] { fields := {} })).fields) ∧
      ∃ d o : Kept PibUser, userOfL.wireDecode (userWith [109]) = .ok o ∧
        Kept.wireDecode { fields := {} } (userWith [109]) = .ok d ∧ d.fields = o.fields := by
  obtain ⟨-, -, -, hupdate, -, -, -, -, -, -, huser⟩ := objects_roundTrip
  have hdecoded : userOfL.wireDecode (userWith [109]) =
      .ok { fields := ⟨some certOfU, [109]⟩, wire := some (userWith [109]) } :=
    Kept.wireDecode_eq_ok.2 ⟨decode_userWith, rfl⟩
  refine ⟨?_, ?_, ?_⟩
  · exact hupdate { fields := { entityType := tlv.publicKey, key := ⟨true, ["k"], [48]⟩ } } _ _
      (.constructed ⟨fun _ => ⟨rfl, rfl⟩, fun h => absurd h (by decide)⟩) rfl
  · exact huser (PibUser.setMgmtCert certOfU (PibUser.setTpmLocator [109] { fields := {} })) _ _
      (.constructed trivial) rfl
  · obtain ⟨d, hd, hsame⟩ := huser _ _ _ (.redecoded (.inr hasLocator_userWith) hdecoded) rfl
    exact ⟨d, _, hdecoded, hd, hsame⟩

/-- A key without a value is encoded, and so are parameters of update for one without bits; neither is decoded. -/
theorem emptyKey_not_decoded :
    encodeBlock ({} : PibPublicKey) = .ok { type := 146, value := [7, 0, 148, 0] } ∧
    PibPublicKey.wireDecode {} { type := 146, value := [7, 0, 148, 0] } = .error .library ∧
    encodeBlock ({ entityType := tlv.publicKey, key := ⟨true, ["k"], []⟩ } : UpdateParam) =
      .ok { type := 131, value := [146, 7, 7, 3, 8, 1, 107, 148, 0, 149, 1, 0] } ∧
    UpdateParam.wireDecode {} { type := 131, value := [146, 7, 7, 3, 8, 1, 107, 148, 0, 149, 1, 0] } =
      .error .library := by decide +kernel

end
end NdnTools.Pib.Encoding
