/-
Objects that are encoded as blocks. An encoder writes from back to front: it puts octets in front of
what the buffer holds and returns how many, from which the length of a block is known when its header is
written. An object keeps the block it was encoded as, or decoded from, until it is changed.
-/
import NdnTools.Lib.Tlv

namespace Tlv

/-- What is thrown: by the library of buffers and blocks, or by the code that uses it. -/
inductive Error
  | library
  | thrown (what : String)
  deriving Repr, DecidableEq

/-- The value of a result, or the error of the library if there is none. -/
def orThrow {α : Type} : Option α → Except Error α
  | none => .error .library
  | some a => .ok a

@[simp] theorem orThrow_some {α : Type} (a : α) : orThrow (some a) = .ok a := rfl

/-! ## Results -/

section
variable {α β : Type} {x : Except Error α} {f : α → Except Error β} {a : α} {b : β}

theorem orThrow_eq_ok {x : Option α} : orThrow x = .ok a ↔ x = some a := by
  cases x <;> simp [orThrow]

theorem bind_eq_ok : (x >>= f) = .ok b ↔ ∃ a, x = .ok a ∧ f a = .ok b := by
  cases x <;> simp [bind, Except.bind]

theorem pure_eq_ok {c : α} : (pure a : Except Error α) = .ok c ↔ a = c := by
  simp [pure, Except.pure]

end

/-! ## Encoders -/

abbrev Encoder := StateT (List UInt8) (Except Error)

def prependByteArray (array : List UInt8) : Encoder ℕ := fun buffer => .ok (array.length, array ++ buffer)

def prependVarNumber (n : ℕ) : Encoder ℕ := prependByteArray (varNumber n)

/-- The length and the type of a block whose value has been written. -/
def prependHeader (type totalLength : ℕ) : Encoder ℕ := do
  let totalLength := totalLength + (← prependVarNumber totalLength)
  return totalLength + (← prependVarNumber type)

def prependByteArrayBlock (type : ℕ) (array : List UInt8) : Encoder ℕ := do
  prependHeader type (← prependByteArray array)

def prependNonNegativeIntegerBlock (type value : ℕ) : Encoder ℕ := do
  prependHeader type (← prependByteArray (nonNegativeInteger value))

def prependBlock (b : Block) : Encoder ℕ := prependByteArray b.wire

/-- The encoder writes these octets, whatever is in the buffer. -/
def Writes (m : Encoder ℕ) (array : List UInt8) : Prop :=
  ∀ buffer, m buffer = .ok (array.length, array ++ buffer)

section
variable {m : Encoder ℕ} {array : List UInt8}

theorem Writes.bind (h : Writes m array) (f : ℕ → Encoder ℕ) (buffer : List UInt8) :
    (m >>= f) buffer = f array.length (array ++ buffer) := by
  change (m buffer >>= fun r => f r.1 r.2) = _
  rw [h buffer]
  rfl

/-- An encoder that throws stops those it is part of. -/
theorem bind_of_error {e : Error} (h : ∀ buffer, m buffer = .error e) (f : ℕ → Encoder ℕ) (buffer : List UInt8) :
    (m >>= f) buffer = .error e := by
  change (m buffer >>= fun r => f r.1 r.2) = _
  rw [h buffer]
  rfl

theorem writes_prependByteArray (array : List UInt8) : Writes (prependByteArray array) array := fun _ => rfl

/-- The header makes a block of what has been written. -/
theorem prependHeader_wire (type : ℕ) (value buffer : List UInt8) :
    prependHeader type value.length (value ++ buffer) =
      .ok ((Block.wire { type := type, value := value }).length,
        Block.wire { type := type, value := value } ++ buffer) := by
  have hlen : value.length + (varNumber value.length).length + (varNumber type).length =
      (Block.wire { type := type, value := value }).length := by
    simp only [Block.wire, List.length_append]
    omega
  have happend : varNumber type ++ (varNumber value.length ++ (value ++ buffer)) =
      Block.wire { type := type, value := value } ++ buffer := by simp [Block.wire]
  rw [← hlen, ← happend]
  rfl

theorem Writes.header (h : Writes m array) (type : ℕ) :
    Writes (do prependHeader type (← m)) (Block.wire { type := type, value := array }) := by
  intro buffer
  rw [h.bind]
  exact prependHeader_wire type array buffer

theorem writes_prependByteArrayBlock (type : ℕ) (array : List UInt8) :
    Writes (prependByteArrayBlock type array) (Block.wire { type := type, value := array }) :=
  (writes_prependByteArray array).header type

theorem writes_prependNonNegativeIntegerBlock (type value : ℕ) :
    Writes (prependNonNegativeIntegerBlock type value)
      (Block.wire { type := type, value := nonNegativeInteger value }) :=
  (writes_prependByteArray _).header type

theorem writes_prependBlock (b : Block) : Writes (prependBlock b) b.wire := writes_prependByteArray b.wire

/-- What is written later stands in front. -/
theorem Writes.step (h : Writes m array) (f : ℕ → Encoder ℕ) (written buffer : List UInt8) :
    (do f (written.length + (← m))) (written ++ buffer) = f (array ++ written).length (array ++ written ++ buffer) := by
  rw [h.bind, List.append_assoc, List.length_append, Nat.add_comm]

end

/-! ## Objects -/

/-- A class of objects: its default constructor, and its encoder and decoder. -/
class WireFormat (α : Type) where
  create : α
  wireEncode : α → Encoder ℕ
  /-- Into an object that may hold something already. -/
  wireDecode : α → Block → Except Error α

export WireFormat (create)

variable {α : Type} [WireFormat α]

/-- The block that the buffer holds after encoding; there is no buffer of `2 ^ 64` octets. -/
def encodeBlock (a : α) : Except Error Block := do
  let (_, buffer) ← WireFormat.wireEncode a []
  if buffer.length < 2 ^ 64 then orThrow (Block.ofWire buffer) else .error .library

theorem encodeBlock_ok {a : α} {type : ℕ} {value : List UInt8} {b : Block}
    (h : Writes (WireFormat.wireEncode a) (Block.wire { type := type, value := value })) (ht : type < 2 ^ 32)
    (hb : encodeBlock a = .ok b) : b = { type := type, value := value } ∧ value.length < 2 ^ 64 := by
  unfold encodeBlock at hb
  rw [h [], List.append_nil] at hb
  simp only [Bind.bind, Except.bind] at hb
  split at hb
  · rename_i hlen
    have hvalue := (length_value_lt { type := type, value := value }).trans hlen
    rw [ofWire_wire ht hvalue rfl] at hb
    exact ⟨(Except.ok.inj hb).symm, hvalue⟩
  · cases hb

/-- The block is found again where its wire is put. -/
theorem ofWire_encodeBlock {a : α} {type : ℕ} {value : List UInt8} {b : Block}
    (h : Writes (WireFormat.wireEncode a) (Block.wire { type := type, value := value })) (ht : type < 2 ^ 32)
    (hb : encodeBlock a = .ok b) : Block.ofWire b.wire = some b := by
  obtain ⟨rfl, hlen⟩ := encodeBlock_ok h ht hb
  exact ofWire_wire ht hlen rfl

theorem encodeBlock_error {a : α} {e : Error} (h : ∀ buffer, WireFormat.wireEncode a buffer = .error e) :
    encodeBlock a = .error e := by
  unfold encodeBlock
  rw [h []]
  rfl

/-- An object with the block it keeps. -/
structure Kept (α : Type) where
  fields : α
  wire : Option Block := none

def Kept.wireEncode (o : Kept α) : Except Error (Block × Kept α) :=
  match o.wire with
  | some b => .ok (b, o)
  | none => do
    let b ← encodeBlock o.fields
    return (b, { o with wire := some b })

def Kept.wireDecode (o : Kept α) (b : Block) : Except Error (Kept α) := do
  return { fields := ← WireFormat.wireDecode o.fields b, wire := some b }

/-- What the class makes of the fields is what it makes of an object. -/
theorem Kept.wireDecode_eq_ok {o o' : Kept α} {b : Block} :
    o.wireDecode b = .ok o' ↔ WireFormat.wireDecode o.fields b = .ok o'.fields ∧ o'.wire = some b := by
  unfold Kept.wireDecode
  cases hfields : WireFormat.wireDecode o.fields b with
  | error e =>
    constructor
    · intro h
      cases h
    · rintro ⟨h, -⟩
      cases h
  | ok a =>
    constructor
    · intro h
      cases h
      exact ⟨rfl, rfl⟩
    · rintro ⟨ha, hwire⟩
      obtain ⟨fields, kept⟩ := o'
      cases ha
      cases hwire
      rfl

/-- An object of the class: constructed from values, of which only those with `P`, or decoded from a block, into a
new object or into one that `Forgets` what it holds when it is given the block. -/
inductive Built (P : α → Prop) (Forgets : α → Block → Prop) : Kept α → Prop
  | constructed {a : α} (h : P a) : Built P Forgets { fields := a }
  | decoded {b : Block} {o : Kept α} (h : Kept.wireDecode { fields := create } b = .ok o) : Built P Forgets o
  | redecoded {b : Block} {o o' : Kept α} (hforgets : Forgets o.fields b) (h : o.wireDecode b = .ok o') :
      Built P Forgets o'
  | encoded {o o' : Kept α} {b : Block} (h : Built P Forgets o) (he : o.wireEncode = .ok (b, o')) :
      Built P Forgets o'

/-- What an object is encoded as is decoded into a new object that is the same to an observer. -/
def RoundTrips (P : α → Prop) (Forgets : α → Block → Prop) (Same : α → α → Prop) : Prop :=
  ∀ (o o' : Kept α) (b : Block), Built P Forgets o → o.wireEncode = .ok (b, o') →
    ∃ d : Kept α, Kept.wireDecode { fields := create } b = .ok d ∧ Same d.fields o.fields

/-- What is decoded into an object that `Forgets` is, to an observer, decoded into a new one. -/
def Redecodes (Forgets : α → Block → Prop) (Same : α → α → Prop) : Prop :=
  ∀ (a d : α) (b : Block), Forgets a b → WireFormat.wireDecode a b = .ok d →
    ∃ fresh, WireFormat.wireDecode create b = .ok fresh ∧ Same fresh d

section
variable {P : α → Prop} {Forgets : α → Block → Prop} {Same : α → α → Prop}

/-- That of an object that is not encoded yet. -/
theorem RoundTrips.decodes (h : RoundTrips P Forgets Same) {a : α} {b : Block} (ha : P a)
    (hb : encodeBlock a = .ok b) : ∃ d, WireFormat.wireDecode create b = .ok d ∧ Same d a := by
  have henc : Kept.wireEncode { fields := a } = .ok (b, { fields := a, wire := some b }) := by
    simp only [Kept.wireEncode, hb, Bind.bind, Except.bind]
    rfl
  obtain ⟨d, hd, hsame⟩ := h _ _ b (.constructed ha) henc
  exact ⟨d.fields, (Kept.wireDecode_eq_ok.1 hd).1, hsame⟩

theorem redecodes_of_eq (hrefl : ∀ a, Same a a)
    (heq : ∀ (a d : α) (b : Block), Forgets a b → WireFormat.wireDecode a b = .ok d →
      WireFormat.wireDecode create b = WireFormat.wireDecode a b) : Redecodes Forgets Same :=
  fun a d b hforgets hd => ⟨d, (heq a d b hforgets hd).trans hd, hrefl d⟩

/-- The block that an object keeps is decoded into the same. -/
theorem Built.kept (hrefl : ∀ a, Same a a)
    (htrip : ∀ a b, P a → encodeBlock a = .ok b → ∃ d, WireFormat.wireDecode create b = .ok d ∧ Same d a)
    (hredecodes : Redecodes Forgets Same) {o : Kept α} (h : Built P Forgets o) :
    (o.wire = none → P o.fields) ∧
      ∀ b, o.wire = some b → ∃ d, WireFormat.wireDecode create b = .ok d ∧ Same d o.fields := by
  induction h with
  | constructed hP => exact ⟨fun _ => hP, fun b hb => by cases hb⟩
  | @decoded b o hdec =>
    obtain ⟨hfields, hwire⟩ := Kept.wireDecode_eq_ok.1 hdec
    rw [hwire]
    refine ⟨fun hnone => (by cases hnone), fun b' hb' => ⟨o.fields, ?_, hrefl o.fields⟩⟩
    cases hb'
    exact hfields
  | @redecoded b o o' hforgets hdec =>
    obtain ⟨hfields, hwire⟩ := Kept.wireDecode_eq_ok.1 hdec
    rw [hwire]
    refine ⟨fun hnone => (by cases hnone), fun b' hb' => ?_⟩
    cases hb'
    exact hredecodes o.fields o'.fields b hforgets hfields
  | @encoded o o' b _ he ih =>
    unfold Kept.wireEncode at he
    cases hwire : o.wire with
    | some b' =>
      rw [hwire] at he
      cases he
      exact ih
    | none =>
      rw [hwire] at he
      cases henc : encodeBlock o.fields with
      | error e => simp only [henc, Bind.bind, Except.bind] at he; cases he
      | ok b' =>
        simp only [henc, Bind.bind, Except.bind] at he
        cases he
        refine ⟨fun hnone => (by cases hnone), fun b'' hb'' => ?_⟩
        cases hb''
        exact htrip o.fields _ (ih.1 hwire) henc

/-- It is enough that what is constructed is decoded from what it is encoded as, where a second decoding is as
good as the first. -/
theorem roundTrips_of (hrefl : ∀ a, Same a a)
    (htrip : ∀ a b, P a → encodeBlock a = .ok b → ∃ d, WireFormat.wireDecode create b = .ok d ∧ Same d a)
    (hredecodes : Redecodes Forgets Same) : RoundTrips P Forgets Same := by
  intro o o' b hbuilt he
  -- once encoded, the object keeps the block
  have hkept : o'.wire = some b ∧ o'.fields = o.fields := by
    unfold Kept.wireEncode at he
    cases hwire : o.wire with
    | some b' =>
      rw [hwire] at he
      cases he
      exact ⟨hwire, rfl⟩
    | none =>
      rw [hwire] at he
      cases henc : encodeBlock o.fields with
      | error e => simp only [henc, Bind.bind, Except.bind] at he; cases he
      | ok b' =>
        simp only [henc, Bind.bind, Except.bind] at he
        cases he
        exact ⟨rfl, rfl⟩
  obtain ⟨d, hd, hsame⟩ := ((hbuilt.encoded he).kept hrefl htrip hredecodes).2 b hkept.1
  exact ⟨{ fields := d, wire := some b }, Kept.wireDecode_eq_ok.2 ⟨hd, rfl⟩, hkept.2 ▸ hsame⟩

end

end Tlv
