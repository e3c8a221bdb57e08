/-
  File:      Rdmapp/Mr.lean
  Subject:   `mr.h` and `mr.cc`: local regions, the handle sent to a peer, remote regions, views.

  A local region's handle is 20 bytes (`regionCodec`): address, length, rkey; on hosts of either
  byte order it is read as what was written, and nothing else is (`region_format`). The remote
  region read from it stores the full 64-bit length (`RemoteMr.deserialize_serialize`), but its
  accessor `length()` returns 32 bits and the view constructor computes with that accessor.
  So advertising preserves a region exactly when it is shorter than 4 GiB
  (`advertise_preserves_iff`).
-/
import Rdmapp.Serdes

namespace Rdmapp

open Lib

/-- `std::span<std::byte>`. -/
structure Span where
  data : UInt64
  size : UInt64
  deriving DecidableEq, Repr

/-! ## 1. The three kinds of region -/

/-- `mr<tags::mr::local>`, holding the registered region `mr_`. -/
structure LocalMr where
  mr : IbvMr
  deriving DecidableEq, Repr

/-- `mr<tags::mr::remote>`. -/
structure RemoteMr where
  addr_ : UInt64
  length_ : UInt64
  rkey_ : UInt32
  deriving DecidableEq, Repr

/-- `mr<tags::mr::view>`; its keys `lkey_` and `rkey_` are one union. -/
structure MrView where
  addr : UInt64
  length : UInt64
  key : UInt32
  deriving DecidableEq, Repr

namespace LocalMr

def addr (l : LocalMr) : UInt64 := l.mr.addr

def length (l : LocalMr) : UInt64 := l.mr.length

def rkey (l : LocalMr) : UInt32 := l.mr.rkey

def lkey (l : LocalMr) : UInt32 := l.mr.lkey

def span (l : LocalMr) : Span := ⟨l.mr.addr, l.mr.length⟩

/-- `local_mr::serialize` on a host of order `o`. -/
def serialize (o : ByteOrder) (l : LocalMr) : List UInt8 :=
  Rdmapp.serialize o l.mr.addr ++ Rdmapp.serialize o l.mr.length ++ Rdmapp.serialize o l.mr.rkey

end LocalMr

namespace RemoteMr

/-- `kSerializedSize`. -/
def kSerializedSize : Nat := 8 + 8 + 4

def addr (r : RemoteMr) : UInt64 := r.addr_

/-- The accessor returns `uint32_t`, the field is a `size_t`. -/
def length (r : RemoteMr) : UInt32 := r.length_.toUInt32

def rkey (r : RemoteMr) : UInt32 := r.rkey_

def span (r : RemoteMr) : Span := ⟨r.addr_, r.length_⟩

/-- `remote_mr::deserialize` on a host of order `o`. -/
def deserialize (o : ByteOrder) (it : List UInt8) : RemoteMr :=
  let (addr_, it) := Rdmapp.deserialize o it
  let (length_, it) := Rdmapp.deserialize o it
  let (rkey_, _) := Rdmapp.deserialize o it
  ⟨addr_, length_, rkey_⟩

end RemoteMr

namespace MrView

/-- `mr_view{}`, the view of no buffer. -/
def null : MrView := ⟨0, 0, 0⟩

/-- `mr_view(local, offset, length)`; address and length are computed in 64 bits. -/
def ofLocal (l : LocalMr) (offset length : UInt64) : MrView :=
  ⟨l.addr + offset, min length (l.length - offset), l.lkey⟩

/-- `mr_view(remote, offset, length)`: `remote.length()` is widened to 64 bits. -/
def ofRemote (r : RemoteMr) (offset length : UInt64) : MrView :=
  ⟨r.addr + offset, min length (r.length.toUInt64 - offset), r.rkey⟩

def lkey (v : MrView) : UInt32 := v.key

def rkey (v : MrView) : UInt32 := v.key

/-- `operator bool`: whether the view has a buffer. -/
def toBool (v : MrView) : Bool := v.addr != 0

def span (v : MrView) : Span := ⟨v.addr, v.length⟩

end MrView

/-! ## 2. The handle's format -/

/-- Address, length, rkey. -/
def regionCodec : Codec (UInt64 × UInt64 × UInt32) :=
  (Codec.uint UInt64).pair ((Codec.uint UInt64).pair (Codec.uint UInt32))

theorem regionCodec_width : regionCodec.width = RemoteMr.kSerializedSize := rfl

theorem LocalMr.serialize_eq (o : ByteOrder) (l : LocalMr) :
    l.serialize o = regionCodec.encode (l.addr, l.length, l.rkey) := by
  unfold LocalMr.serialize
  rw [Rdmapp.serialize_eq, Rdmapp.serialize_eq, Rdmapp.serialize_eq, List.append_assoc]
  rfl

theorem RemoteMr.deserialize_eq (o : ByteOrder) {it : List UInt8}
    (h : RemoteMr.kSerializedSize ≤ it.length) :
    RemoteMr.deserialize o it =
      ⟨(regionCodec.decode it).1, (regionCodec.decode it).2.1, (regionCodec.decode it).2.2⟩ := by
  have h' : 20 ≤ it.length := h
  have h1 : FixedUInt.size UInt64 ≤ it.length := by show 8 ≤ it.length; omega
  have h2 : FixedUInt.size UInt64 ≤ (it.drop (FixedUInt.size UInt64)).length := by
    show 8 ≤ (it.drop 8).length
    rw [List.length_drop]
    omega
  have h3 : FixedUInt.size UInt32 ≤
      ((it.drop (FixedUInt.size UInt64)).drop (FixedUInt.size UInt64)).length := by
    show 4 ≤ ((it.drop 8).drop 8).length
    rw [List.length_drop, List.length_drop]
    omega
  unfold RemoteMr.deserialize
  rw [Rdmapp.deserialize_eq o h1]
  dsimp only
  rw [Rdmapp.deserialize_eq o h2]
  dsimp only
  rw [Rdmapp.deserialize_eq o h3]
  rfl

theorem LocalMr.serialize_length (o : ByteOrder) (l : LocalMr) :
    (l.serialize o).length = RemoteMr.kSerializedSize := by
  rw [LocalMr.serialize_eq, regionCodec.encode_length, regionCodec_width]

/-- **The three fields cross the wire unchanged**, whatever the hosts' byte orders. -/
theorem RemoteMr.deserialize_serialize (o o' : ByteOrder) (l : LocalMr) (rest : List UInt8) :
    RemoteMr.deserialize o' (l.serialize o ++ rest) = ⟨l.addr, l.length, l.rkey⟩ := by
  have hl := l.serialize_length o
  have hle : RemoteMr.kSerializedSize ≤ (l.serialize o ++ rest).length := by
    rw [List.length_append]
    omega
  rw [RemoteMr.deserialize_eq o' hle, LocalMr.serialize_eq, regionCodec.decode_encode]

/-- Only the first `kSerializedSize` bytes are read. -/
theorem RemoteMr.deserialize_append (o : ByteOrder) {bytes : List UInt8}
    (h : bytes.length = RemoteMr.kSerializedSize) (rest : List UInt8) :
    RemoteMr.deserialize o (bytes ++ rest) = RemoteMr.deserialize o bytes := by
  have hle : RemoteMr.kSerializedSize ≤ (bytes ++ rest).length := by
    rw [List.length_append]
    omega
  rw [RemoteMr.deserialize_eq o hle, RemoteMr.deserialize_eq o h.ge, regionCodec.decode_append h]

/-- **Twenty bytes are the handle of the region they are read as**, and of no other. -/
theorem LocalMr.serialize_eq_iff (o o' : ByteOrder) {bytes : List UInt8}
    (h : bytes.length = RemoteMr.kSerializedSize) (l : LocalMr) :
    l.serialize o = bytes ↔ RemoteMr.deserialize o' bytes = ⟨l.addr, l.length, l.rkey⟩ := by
  constructor
  · intro hl
    have hd := RemoteMr.deserialize_serialize o o' l []
    rwa [List.append_nil, hl] at hd
  · intro hd
    rw [RemoteMr.deserialize_eq o' h.ge] at hd
    obtain ⟨haddr, hlength, hrkey⟩ := RemoteMr.mk.inj hd
    have hvalue : regionCodec.decode bytes = (l.addr, l.length, l.rkey) :=
      Prod.ext haddr (Prod.ext hlength hrkey)
    rw [LocalMr.serialize_eq, ← hvalue, regionCodec.encode_decode bytes h]

/-- **The handle's format is a bijection on its bytes**, for hosts of any two byte orders: a handle
    is `kSerializedSize` bytes; read at the start of any bytes it gives the stored fields, and no
    byte behind it matters; and `kSerializedSize` bytes are the handle of one address, length and
    rkey, those they are read as. -/
theorem region_format (o o' : ByteOrder) :
    (∀ (l : LocalMr) (rest : List UInt8),
      (l.serialize o).length = RemoteMr.kSerializedSize ∧
      RemoteMr.deserialize o' (l.serialize o ++ rest) = ⟨l.addr, l.length, l.rkey⟩) ∧
    (∀ bytes rest : List UInt8, bytes.length = RemoteMr.kSerializedSize →
      RemoteMr.deserialize o' (bytes ++ rest) = RemoteMr.deserialize o' bytes) ∧
    ∀ bytes : List UInt8, bytes.length = RemoteMr.kSerializedSize →
      (∃ l : LocalMr, l.serialize o = bytes) ∧
      ∀ l : LocalMr, l.serialize o = bytes ↔
        RemoteMr.deserialize o' bytes = ⟨l.addr, l.length, l.rkey⟩ := by
  refine ⟨fun l rest => ⟨l.serialize_length o, RemoteMr.deserialize_serialize o o' l rest⟩,
    fun bytes rest h => RemoteMr.deserialize_append o' h rest, fun bytes h => ⟨?_, ?_⟩⟩
  · obtain ⟨r, hr⟩ : ∃ r, RemoteMr.deserialize o' bytes = r := ⟨_, rfl⟩
    exact ⟨⟨⟨r.addr_, r.length_, 0, r.rkey_⟩⟩, (LocalMr.serialize_eq_iff o o' h _).mpr hr⟩
  · exact LocalMr.serialize_eq_iff o o' h

/-- A page's handle, from a little-endian host to a big-endian one. -/
theorem region_format_page :
    (LocalMr.mk ⟨4096, 4096, 7, 9⟩).serialize .little =
      [0, 0, 0, 0, 0, 0, 16, 0, 0, 0, 0, 0, 0, 0, 16, 0, 0, 0, 0, 9] :=
  (((region_format .little .big).2.2 [0, 0, 0, 0, 0, 0, 16, 0, 0, 0, 0, 0, 0, 0, 16, 0, 0, 0, 0, 9]
    (by decide)).2 _).mpr (by decide +kernel)

/-! ## 3. Advertising a region -/

/-- The remote region a peer of order `o'` reads from the handle a host of order `o` sent. -/
def advertise (o o' : ByteOrder) (l : LocalMr) : RemoteMr :=
  RemoteMr.deserialize o' (l.serialize o)

theorem advertise_eq (o o' : ByteOrder) (l : LocalMr) :
    advertise o o' l = ⟨l.addr, l.length, l.rkey⟩ := by
  have h := RemoteMr.deserialize_serialize o o' l []
  rwa [List.append_nil] at h

/-- The remote region describes the local one, and slicing it slices the local one. -/
structure AdvertisePreserves (l : LocalMr) (R : RemoteMr) : Prop where
  addr : R.addr = l.addr
  length : R.length.toUInt64 = l.length
  rkey : R.rkey = l.rkey
  spanSize : R.span.size = l.length
  viewAddr : ∀ offset length, offset ≤ l.length →
    (MrView.ofRemote R offset length).addr = (MrView.ofLocal l offset length).addr
  viewLength : ∀ offset length, offset ≤ l.length →
    (MrView.ofRemote R offset length).length = (MrView.ofLocal l offset length).length
  viewKey : ∀ offset length, offset ≤ l.length → (MrView.ofRemote R offset length).rkey = R.rkey

/-- The narrowing accessor keeps a length exactly when it fits 32 bits. -/
theorem toUInt32_toUInt64_eq_iff (n : UInt64) : n.toUInt32.toUInt64 = n ↔ n.toNat < 2 ^ 32 := by
  rw [← UInt64.toNat_inj, UInt32.toNat_toUInt64, UInt64.toNat_toUInt32]
  constructor
  · intro h
    rw [← h]
    exact Nat.mod_lt _ (by decide)
  · intro h
    exact Nat.mod_eq_of_lt h

/-- **Advertising preserves a region, and slicing commutes with it, exactly below 4 GiB.** -/
theorem advertise_preserves_iff (o o' : ByteOrder) (l : LocalMr) :
    AdvertisePreserves l (advertise o o' l) ↔ l.length.toNat < 2 ^ 32 := by
  rw [advertise_eq]
  constructor
  · intro h
    have hlen : l.length.toUInt32.toUInt64 = l.length := h.length
    exact (toUInt32_toUInt64_eq_iff l.length).mp hlen
  · intro h
    have hlen : l.length.toUInt32.toUInt64 = l.length := (toUInt32_toUInt64_eq_iff l.length).mpr h
    refine ⟨rfl, hlen, rfl, rfl, fun _ _ _ => rfl, ?_, fun _ _ _ => rfl⟩
    intro offset length _
    show min length (l.length.toUInt32.toUInt64 - offset) = min length (l.length - offset)
    rw [hlen]

/-- A region of exactly 4 GiB: the peer's accessor reads its length as zero. -/
theorem advertise_four_gib_fails :
    ¬ AdvertisePreserves ⟨⟨4096, 4294967296, 7, 9⟩⟩
      (advertise .little .little ⟨⟨4096, 4294967296, 7, 9⟩⟩) := by
  intro h
  rw [advertise_eq] at h
  exact absurd h.length (by decide)

end Rdmapp
