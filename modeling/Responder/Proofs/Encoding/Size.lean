import Responder.Proofs.Encoding.Octets
import Responder.Request.Basic

/-! Sizes against encodings. What is counted as the size of a value, a binding, a protocol data unit or a response is
    how many octets its encoding has (`size_eq_length`). -/

namespace Responder

/-! ### Values -/

namespace Value

/-- The octets of a value, without its tag and its length. Unsigned integers are encoded as integers. -/
def content : Value → Octets
  | integer n => Ber.integer n.toInt
  | octetString octets | opaqueData octets => octets
  | oid o => Ber.identifier o
  | ipAddress a b c d => [a, b, c, d]
  | counter32 n | gauge32 n | timeTicks n => Ber.integer n.toNat
  | counter64 n => Ber.integer n.toNat
  | null | noSuchObject | noSuchInstance | endOfMibView => []

def encoding (v : Value) : Octets := Ber.element v.tag v.content

/-- The value is no object identifier but one that can be encoded. -/
def Rooted (v : Value) : Prop := ∀ o, v = .oid o → o.Rooted

variable {v : Value}

theorem length_content (h : v.Rooted) : v.content.length = v.contentSize := by
  cases v with
  | integer n => exact Ber.length_integer_toInt n
  | oid o => exact Ber.length_identifier (h o rfl)
  | counter32 n | gauge32 n | timeTicks n | counter64 n => exact Ber.length_integer_natCast n.toNat
  | _ => rfl

theorem length_encoding (h : v.Rooted) (hlt : v.content.length < 2 ^ 32) : v.encoding.length = v.size := by
  rw [encoding, Ber.length_element _ hlt, length_content h, size]

end Value

/-! ### Bindings -/

namespace Binding

/-- The octets of a binding, without its tag and its length. -/
def content (b : Binding) : Octets := Ber.element 0x06 (Ber.identifier b.oid) ++ b.value.encoding

def encoding (b : Binding) : Octets := Ber.element 0x30 b.content

/-- The object identifiers of the binding can be encoded. -/
structure Rooted (b : Binding) : Prop where
  oid : b.oid.Rooted
  value : b.value.Rooted

/-- The octets of a list of bindings, without a tag and a length. -/
def contentOf (bs : List Binding) : Octets := bs.flatMap encoding

variable {b : Binding} {bs : List Binding}

theorem length_encoding (h : b.Rooted) (hlt : b.content.length < 2 ^ 32) : b.encoding.length = b.size := by
  have hlength : b.content.length =
      (Ber.element 0x06 (Ber.identifier b.oid)).length + b.value.encoding.length := List.length_append
  have hoid := Ber.length_le_element 0x06 (Ber.identifier b.oid)
  have hvalue : b.value.content.length ≤ b.value.encoding.length := Ber.length_le_element _ _
  rw [encoding, Ber.length_element _ hlt, hlength, Ber.length_element _ (by omega), Ber.length_identifier h.oid,
    Value.length_encoding h.value (by omega), size]

theorem length_contentOf (h : ∀ b ∈ bs, b.Rooted) (hlt : (contentOf bs).length < 2 ^ 32) :
    (contentOf bs).length = totalSize bs := by
  induction bs with
  | nil => rfl
  | cons b bs ih =>
    have hlength : (contentOf (b :: bs)).length = b.encoding.length + (contentOf bs).length := by
      rw [contentOf, List.flatMap_cons, List.length_append, contentOf]
    have hfirst : b.content.length ≤ b.encoding.length := Ber.length_le_element _ _
    obtain ⟨hb, hbs⟩ := List.forall_mem_cons.mp h
    rw [hlength, length_encoding hb (by omega), ih hbs (by omega)]
    rfl

end Binding

/-! ### Protocol data units -/

namespace Pdu

/-- The octets of a protocol data unit, without its tag and its length. -/
def content (p : Pdu) : Octets :=
  Ber.element 0x02 (Ber.integer p.requestId.toInt) ++ Ber.element 0x02 (Ber.integer p.errorStatus.toInt) ++
    Ber.element 0x02 (Ber.integer p.errorIndex.toInt) ++ Ber.element 0x30 (Binding.contentOf p.bindings)

def encoding (p : Pdu) : Octets := Ber.element p.kind.tag p.content

theorem length_encoding {p : Pdu} (h : ∀ b ∈ p.bindings, b.Rooted) (hlt : p.content.length < 2 ^ 32) :
    p.encoding.length = p.size := by
  have hinteger (n : Int32) :
      (Ber.element 0x02 (Ber.integer n.toInt)).length = Ber.elementSize (Ber.integerSize n) := by
    have hfew := (Ber.length_integer_le_iff n.toInt 3).mpr ⟨n.le_toInt, n.toInt_lt⟩
    rw [Ber.length_element _ (by omega), Ber.length_integer_toInt]
  have hlist := Ber.length_le_element 0x30 (Binding.contentOf p.bindings)
  have hlength := hlt
  simp only [content, List.length_append] at hlength
  rw [encoding, Ber.length_element _ hlt]
  simp only [content, List.length_append, hinteger]
  rw [Ber.length_element _ (by omega), Binding.length_contentOf h (by omega)]
  rfl

end Pdu

/-- A value, a binding or a protocol data unit is as large as its encoding, as long as its object identifiers can be
encoded and the octets of its content can be counted in four octets; and a request counts its response as just as large
as it is. -/
theorem size_eq_length :
    (∀ v : Value, v.Rooted → v.content.length < 2 ^ 32 → v.size = v.encoding.length) ∧
    (∀ b : Binding, b.Rooted → b.content.length < 2 ^ 32 → b.size = b.encoding.length) ∧
    (∀ p : Pdu, (∀ b ∈ p.bindings, b.Rooted) → p.content.length < 2 ^ 32 → p.size = p.encoding.length) ∧
    ∀ r : Request, r.responseSize = r.toResponse.size :=
  ⟨fun _ h hlt => (Value.length_encoding h hlt).symm, fun _ h hlt => (Binding.length_encoding h hlt).symm,
    fun _ h hlt => (Pdu.length_encoding h hlt).symm, fun _ => rfl⟩

/-- The first two arcs have a sum of 33 bits, and the counter takes a zero octet in front. -/
def wideBinding : Binding := ⟨⟨[2, 4294967295, 128]⟩, .counter64 9223372036854775808⟩

/-- A response with a negative number and a lone arc. -/
def widePdu : Pdu := ⟨.response, -129, 0, 0, [wideBinding, ⟨.empty, .oid ⟨[2]⟩⟩]⟩

/-- Where an octet more could be forgotten, the sizes are right. -/
theorem wide_size : wideBinding.value.encoding.length = 11 ∧
    wideBinding.value.size = wideBinding.value.encoding.length ∧ wideBinding.encoding.length = 22 ∧
    wideBinding.size = wideBinding.encoding.length ∧ widePdu.encoding.length = 43 ∧
    widePdu.size = widePdu.encoding.length := by
  obtain ⟨hvalue, hbinding, hpdu, -⟩ := size_eq_length
  have hwide : wideBinding.Rooted := ⟨by rintro _ ⟨⟩; decide, nofun⟩
  have hlone : (⟨.empty, .oid ⟨[2]⟩⟩ : Binding).Rooted := ⟨nofun, by rintro _ ⟨⟩ _ ⟨⟩; decide⟩
  have hrooted : ∀ b ∈ widePdu.bindings, b.Rooted := by simp [widePdu, hwide, hlone]
  have hnine : wideBinding.value.content.length = 9 := by decide +kernel
  have htwenty : wideBinding.content.length = 20 := by decide +kernel
  have hmany : widePdu.content.length = 41 := by decide +kernel
  refine ⟨by decide +kernel, hvalue _ hwide.value ?_, by decide +kernel, hbinding _ hwide ?_, by decide +kernel,
    hpdu _ hrooted ?_⟩
  · rw [hnine]
    decide
  · rw [htwenty]
    decide
  · rw [hmany]
    decide

end Responder
