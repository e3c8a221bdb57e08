/-
  File:      Rdmapp/Serdes.lean
  Subject:   `detail/serdes.h`: integers and gids to bytes and back, on hosts of either order.

  The host's order is a parameter `o`: `hton`/`ntoh` convert in its registers, `serialize`
  copies its memory. **What comes out does not depend on `o`**: `serialize_eq` and
  `deserialize_eq` say that both are the network-order codec `Codec.uint`.
-/
import Rdmapp.Error

namespace Rdmapp

open Lib

section Integral

variable {T : Type} [FixedUInt T]

/-- `hton`: `htobe16`, `htobe32` or `htobe64` on a host of order `o`. -/
def hton (o : ByteOrder) (value : T) : T :=
  FixedUInt.ofNat (toBig o (FixedUInt.size T) (FixedUInt.toNat value))

/-- `ntoh`: `be16toh`, `be32toh` or `be64toh`. -/
def ntoh (o : ByteOrder) (value : T) : T :=
  FixedUInt.ofNat (toBig o (FixedUInt.size T) (FixedUInt.toNat value))

/-- `detail::serialize` of an integral type: the bytes it appends. -/
def serialize (o : ByteOrder) (value : T) : List UInt8 :=
  let nvalue := hton o value
  memBytes o (FixedUInt.size T) (FixedUInt.toNat nvalue)

/-- `detail::deserialize` of an integral type (and of `void *`, which goes through `uint64_t`):
    the value, and the iterator moved past it. -/
def deserialize (o : ByteOrder) (it : List UInt8) : T × List UInt8 :=
  let value : T := FixedUInt.ofNat (memVal o (readBytes (FixedUInt.size T) it))
  (ntoh o value, it.drop (FixedUInt.size T))

/-- **Every host serializes to the same bytes**: the codec's, in network order. -/
theorem serialize_eq (o : ByteOrder) (value : T) :
    serialize o value = (Codec.uint T).encode value := by
  have hlt : toBig o (FixedUInt.size T) (FixedUInt.toNat value) < 256 ^ FixedUInt.size T :=
    toBig_lt (FixedUInt.toNat_lt value)
  show memBytes o (FixedUInt.size T) (FixedUInt.toNat (FixedUInt.ofNat (T := T)
    (toBig o (FixedUInt.size T) (FixedUInt.toNat value)))) = _
  rw [FixedUInt.toNat_ofNat _ hlt, memBytes_toBig, Codec.uint_encode]

/-- **Every host reads the same value** from the same bytes. -/
theorem deserialize_eq (o : ByteOrder) {it : List UInt8} (h : FixedUInt.size T ≤ it.length) :
    deserialize (T := T) o it = ((Codec.uint T).decode it, it.drop (FixedUInt.size T)) := by
  have hl : (it.take (FixedUInt.size T)).length = FixedUInt.size T := by
    rw [List.length_take]
    omega
  have hr : readBytes (FixedUInt.size T) it = it.take (FixedUInt.size T) := by
    unfold readBytes
    rw [List.take_append_of_le_length h]
  have hlt := memVal_lt o hl
  show (FixedUInt.ofNat (toBig o (FixedUInt.size T) (FixedUInt.toNat (FixedUInt.ofNat (T := T)
    (memVal o (readBytes (FixedUInt.size T) it))))), _) = _
  rw [hr, FixedUInt.toNat_ofNat _ hlt, toBig_memVal o hl, Codec.uint_decode]

end Integral

/-- `detail::serialize` of a gid. -/
def serializeGid (value : IbvGid) : List UInt8 := value.raw

/-- `detail::deserialize` of a gid. -/
def deserializeGid (it : List UInt8) : IbvGid × List UInt8 :=
  (⟨readBytes 16 it, readBytes_length 16 it⟩, it.drop 16)

/-- A gid is its sixteen bytes. -/
def IbvGid.equivBytes : { bs : List UInt8 // bs.length = 16 } ≃ IbvGid where
  toFun bs := ⟨bs.val, bs.property⟩
  invFun g := ⟨g.raw, g.rawLength⟩
  left_inv _ := rfl
  right_inv _ := rfl

/-- The format of a gid. -/
def gidCodec : Codec IbvGid := (Codec.raw 16).ofEquiv IbvGid.equivBytes

theorem serializeGid_eq (value : IbvGid) : serializeGid value = gidCodec.encode value := rfl

end Rdmapp
