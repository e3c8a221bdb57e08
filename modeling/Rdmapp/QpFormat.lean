/-
  File:      Rdmapp/QpFormat.lean
  Subject:   THE DESCRIPTION OF A QP ON THE SOCKET: `basic_qp::serialize`, `deserialized_qp`,
             `send_qp` and `recv_qp`.

  A description is a 30-byte header (`headerCodec`: lid, qp_num, sq_psn, user_data_size, gid)
  followed by the user data. The size field is the length cast to 32 bits, so

  * the header's own fields always arrive (`recvQp_serialize`), and the user data arrives with
    exact framing iff it is shorter than 2^32 bytes;
  * every 30 bytes are a header, and what is received serializes back to the bytes read
    (`serialize_recvQp`).

  `qp_format` puts the two directions together, for every pair of host byte orders.
-/
import Rdmapp.Mr

namespace Rdmapp

open Lib

/-- `deserialized_qp::qp_header`. -/
structure QpHeader where
  lid : UInt16
  qpNum : UInt32
  sqPsn : UInt32
  userDataSize : UInt32
  gid : IbvGid
  deriving DecidableEq, Repr

/-- `qp_header::kSerializedSize`. -/
def QpHeader.kSerializedSize : Nat := 2 + 3 * 4 + 16

/-- `deserialized_qp`. -/
structure DeserializedQp where
  header : QpHeader
  userData : List UInt8
  deriving DecidableEq, Repr

/-- What `basic_qp::serialize` reads: the port's lid and gid, the QP's number, its initial send
    sequence number and its user data. -/
structure QpEndpoint where
  lid : UInt16
  qpNum : UInt32
  sqPsn : UInt32
  gid : IbvGid
  userData : List UInt8
  deriving DecidableEq, Repr

/-! ## 1. Encoder and decoder -/

/-- `basic_qp::serialize` on a host of order `o`. -/
def QpEndpoint.serialize (o : ByteOrder) (q : QpEndpoint) : List UInt8 :=
  Rdmapp.serialize o q.lid ++ Rdmapp.serialize o q.qpNum ++ Rdmapp.serialize o q.sqPsn ++
    Rdmapp.serialize o (UInt32.ofNat q.userData.length) ++ serializeGid q.gid ++ q.userData

/-- `deserialized_qp::deserialize` on a host of order `o`; it reads the header alone. -/
def DeserializedQp.deserialize (o : ByteOrder) (it : List UInt8) : DeserializedQp :=
  let (lid, it) := Rdmapp.deserialize o it
  let (qpNum, it) := Rdmapp.deserialize o it
  let (sqPsn, it) := Rdmapp.deserialize o it
  let (userDataSize, it) := Rdmapp.deserialize o it
  let (gid, _) := deserializeGid it
  ⟨⟨lid, qpNum, sqPsn, userDataSize, gid⟩, []⟩

/-- `asio::async_read` into a buffer of `n` bytes: the whole buffer is filled, or it fails. -/
def asyncRead (n : Nat) (stream : List UInt8) : Option (List UInt8 × List UInt8) :=
  if stream.length < n then none else some (stream.take n, stream.drop n)

/-- `recv_qp`: the header, then as many bytes of user data as it announces. -/
def recvQp (o : ByteOrder) (stream : List UInt8) : Option (DeserializedQp × List UInt8) := do
  let (header, stream) ← asyncRead QpHeader.kSerializedSize stream
  let remoteQp := DeserializedQp.deserialize o header
  if remoteQp.header.userDataSize > 0 then
    let (userData, stream) ← asyncRead remoteQp.header.userDataSize.toNat stream
    return ({ remoteQp with userData := userData }, stream)
  else
    return (remoteQp, stream)

/-- The description a received QP has when it is sent on. -/
def DeserializedQp.endpoint (d : DeserializedQp) : QpEndpoint :=
  ⟨d.header.lid, d.header.qpNum, d.header.sqPsn, d.header.gid, d.userData⟩

theorem asyncRead_append {n : Nat} {bs : List UInt8} (h : bs.length = n) (rest : List UInt8) :
    asyncRead n (bs ++ rest) = some (bs, rest) := by
  unfold asyncRead
  rw [if_neg (by rw [List.length_append]; omega), ← h, List.take_left, List.drop_left]

theorem asyncRead_eq_some {n : Nat} {stream bs rest : List UInt8}
    (h : asyncRead n stream = some (bs, rest)) : stream = bs ++ rest ∧ bs.length = n := by
  unfold asyncRead at h
  split at h
  · cases h
  · rename_i hlt
    cases h
    refine ⟨(List.take_append_drop n stream).symm, ?_⟩
    rw [List.length_take]
    omega

/-- A read that succeeds does not look at what comes later. -/
theorem asyncRead_mono {n : Nat} {stream bs rest : List UInt8}
    (h : asyncRead n stream = some (bs, rest)) (more : List UInt8) :
    asyncRead n (stream ++ more) = some (bs, rest ++ more) := by
  obtain ⟨rfl, hlen⟩ := asyncRead_eq_some h
  rw [List.append_assoc, asyncRead_append hlen]

theorem recvQp_mono {o : ByteOrder} {stream rest : List UInt8} {d : DeserializedQp}
    (h : recvQp o stream = some (d, rest)) (more : List UInt8) :
    recvQp o (stream ++ more) = some (d, rest ++ more) := by
  unfold recvQp at h ⊢
  simp only [Option.bind_eq_bind, Option.bind_eq_some_iff] at h
  obtain ⟨⟨header, tail⟩, hh, h⟩ := h
  rw [asyncRead_mono hh]
  simp only [Option.bind_eq_bind, Option.bind_some]
  split at h
  next hs =>
    obtain ⟨⟨userData, tail'⟩, hu, hr⟩ := Option.bind_eq_some_iff.mp h
    cases hr
    rw [if_pos hs, asyncRead_mono hu]
    rfl
  next hs =>
    cases h
    rw [if_neg hs]
    rfl

/-! ## 2. The header's codec -/

/-- A header is its five fields. -/
def QpHeader.equivFields : (UInt16 × UInt32 × UInt32 × UInt32 × IbvGid) ≃ QpHeader where
  toFun p := ⟨p.1, p.2.1, p.2.2.1, p.2.2.2.1, p.2.2.2.2⟩
  invFun h := (h.lid, h.qpNum, h.sqPsn, h.userDataSize, h.gid)
  left_inv _ := rfl
  right_inv _ := rfl

/-- The 30-byte header. -/
def headerCodec : Codec QpHeader :=
  ((Codec.uint UInt16).pair ((Codec.uint UInt32).pair ((Codec.uint UInt32).pair
    ((Codec.uint UInt32).pair gidCodec)))).ofEquiv QpHeader.equivFields

/-- The header `serialize` writes; the size field is the length cast to 32 bits. -/
def QpEndpoint.header (q : QpEndpoint) : QpHeader :=
  ⟨q.lid, q.qpNum, q.sqPsn, UInt32.ofNat q.userData.length, q.gid⟩

theorem QpEndpoint.serialize_eq (o : ByteOrder) (q : QpEndpoint) :
    q.serialize o = headerCodec.encode q.header ++ q.userData := by
  unfold QpEndpoint.serialize
  rw [Rdmapp.serialize_eq, Rdmapp.serialize_eq, Rdmapp.serialize_eq, Rdmapp.serialize_eq,
    serializeGid_eq]
  show _ = ((Codec.uint UInt16).encode q.lid ++ ((Codec.uint UInt32).encode q.qpNum ++
    ((Codec.uint UInt32).encode q.sqPsn ++
      ((Codec.uint UInt32).encode (UInt32.ofNat q.userData.length) ++
        gidCodec.encode q.gid)))) ++ q.userData
  simp only [List.append_assoc]

theorem DeserializedQp.deserialize_eq (o : ByteOrder) {it : List UInt8}
    (h : QpHeader.kSerializedSize ≤ it.length) :
    DeserializedQp.deserialize o it = ⟨headerCodec.decode it, []⟩ := by
  have h' : 30 ≤ it.length := h
  have h1 : FixedUInt.size UInt16 ≤ it.length := by show 2 ≤ it.length; omega
  have h2 : FixedUInt.size UInt32 ≤ (it.drop (FixedUInt.size UInt16)).length := by
    show 4 ≤ (it.drop 2).length
    rw [List.length_drop]
    omega
  have h3 : FixedUInt.size UInt32 ≤
      ((it.drop (FixedUInt.size UInt16)).drop (FixedUInt.size UInt32)).length := by
    show 4 ≤ ((it.drop 2).drop 4).length
    rw [List.length_drop, List.length_drop]
    omega
  have h4 : FixedUInt.size UInt32 ≤
      (((it.drop (FixedUInt.size UInt16)).drop (FixedUInt.size UInt32)).drop
        (FixedUInt.size UInt32)).length := by
    show 4 ≤ (((it.drop 2).drop 4).drop 4).length
    rw [List.length_drop, List.length_drop, List.length_drop]
    omega
  unfold DeserializedQp.deserialize
  rw [Rdmapp.deserialize_eq o h1]
  dsimp only
  rw [Rdmapp.deserialize_eq o h2]
  dsimp only
  rw [Rdmapp.deserialize_eq o h3]
  dsimp only
  rw [Rdmapp.deserialize_eq o h4]
  rfl

/-! ## 3. Receiving -/

/-- **Receiving, in terms of the header's codec**: the header's 30 bytes, then the number of
    bytes it announces. -/
theorem recvQp_append (o : ByteOrder) (h : QpHeader) {userData : List UInt8}
    (hlen : userData.length = h.userDataSize.toNat) (rest : List UInt8) :
    recvQp o (headerCodec.encode h ++ userData ++ rest) = some (⟨h, userData⟩, rest) := by
  have hw : (headerCodec.encode h).length = QpHeader.kSerializedSize := headerCodec.encode_length h
  have hd : DeserializedQp.deserialize o (headerCodec.encode h) = ⟨h, []⟩ := by
    rw [DeserializedQp.deserialize_eq o (Nat.le_of_eq hw.symm), headerCodec.decode_encode_nil]
  unfold recvQp
  rw [List.append_assoc, asyncRead_append hw]
  simp only [Option.bind_eq_bind, Option.bind_some, hd]
  by_cases hs : h.userDataSize > 0
  · rw [if_pos hs, asyncRead_append hlen]
    rfl
  · -- nothing announced: the user data is empty and no second read is made
    have h0 : h.userDataSize.toNat = 0 := by
      have hle : ¬ (0 : UInt32).toNat < h.userDataSize.toNat := fun hlt => hs hlt
      have e : (0 : UInt32).toNat = 0 := rfl
      omega
    have hnil : userData = [] := List.eq_nil_of_length_eq_zero (by omega)
    rw [if_neg hs, hnil]
    rfl

/-- The bytes received from a described QP: always the header's fields, and as much user data
    as the truncated size says. -/
theorem recvQp_serialize (o o' : ByteOrder) (q : QpEndpoint) (rest : List UInt8) :
    recvQp o' (q.serialize o ++ rest) =
      some (⟨q.header, q.userData.take (q.userData.length % 2 ^ 32)⟩,
        q.userData.drop (q.userData.length % 2 ^ 32) ++ rest) := by
  have hsize : q.header.userDataSize.toNat = q.userData.length % 2 ^ 32 := UInt32.toNat_ofNat'
  have hle : q.userData.length % 2 ^ 32 ≤ q.userData.length := Nat.mod_le _ _
  have hlen : (q.userData.take (q.userData.length % 2 ^ 32)).length =
      q.header.userDataSize.toNat := by
    rw [List.length_take, hsize]
    omega
  have hsplit : q.serialize o ++ rest = headerCodec.encode q.header ++
      q.userData.take (q.userData.length % 2 ^ 32) ++
      (q.userData.drop (q.userData.length % 2 ^ 32) ++ rest) := by
    rw [QpEndpoint.serialize_eq]
    simp only [List.append_assoc]
    rw [← List.append_assoc (q.userData.take _), List.take_append_drop]
  rw [hsplit, recvQp_append o' q.header hlen]

/-- What a size cut to 32 bits leaves of a byte list and of the stream behind it. -/
theorem take_drop_mod_eq_iff (userData rest : List UInt8) :
    (userData.take (userData.length % 2 ^ 32) = userData ∧
      userData.drop (userData.length % 2 ^ 32) ++ rest = rest) ↔ userData.length < 2 ^ 32 := by
  constructor
  · rintro ⟨htake, -⟩
    have hlen := congrArg List.length htake
    rw [List.length_take] at hlen
    have hmod : userData.length % 2 ^ 32 < 2 ^ 32 := Nat.mod_lt _ (by decide)
    omega
  · intro h
    rw [Nat.mod_eq_of_lt h, List.take_length, List.drop_length]
    exact ⟨rfl, rfl⟩

/-- Every 30 bytes are a header; with the announced number of bytes behind it they are received,
    and what was received serializes to the bytes it came from. -/
theorem serialize_recvQp (o o' : ByteOrder) {header userData : List UInt8}
    (hh : header.length = QpHeader.kSerializedSize)
    (hu : userData.length = (DeserializedQp.deserialize o' header).header.userDataSize.toNat)
    (rest : List UInt8) :
    ∃ d, recvQp o' (header ++ userData ++ rest) = some (d, rest) ∧
      d.endpoint.serialize o = header ++ userData := by
  rw [DeserializedQp.deserialize_eq o' (Nat.le_of_eq hh.symm)] at hu
  have henc : headerCodec.encode (headerCodec.decode header) = header :=
    headerCodec.encode_decode header hh
  refine ⟨⟨headerCodec.decode header, userData⟩, ?_, ?_⟩
  · have h := recvQp_append o' (headerCodec.decode header) hu rest
    rwa [henc] at h
  · have hsize : UInt32.ofNat userData.length = (headerCodec.decode header).userDataSize := by
      rw [hu]
      exact UInt32.ofNat_toNat
    rw [QpEndpoint.serialize_eq]
    show headerCodec.encode ⟨_, _, _, UInt32.ofNat userData.length, _⟩ ++ userData = _
    rw [hsize]
    show headerCodec.encode (headerCodec.decode header) ++ userData = _
    rw [henc]

/-- **The description format is parsed back exactly, with exact framing iff the user data fits
    its length field; and every well-framed byte string is the description of what it parses
    to.** -/
theorem qp_format (o o' : ByteOrder) :
    (∀ (q : QpEndpoint) (rest : List UInt8), ∃ d tail,
      recvQp o' (q.serialize o ++ rest) = some (d, tail) ∧
      d.header.lid = q.lid ∧ d.header.qpNum = q.qpNum ∧ d.header.sqPsn = q.sqPsn ∧
      d.header.gid = q.gid ∧
      ((d.userData = q.userData ∧ tail = rest) ↔ q.userData.length < 2 ^ 32)) ∧
    (∀ header userData rest : List UInt8, header.length = QpHeader.kSerializedSize →
      userData.length = (DeserializedQp.deserialize o' header).header.userDataSize.toNat →
      ∃ d, recvQp o' (header ++ userData ++ rest) = some (d, rest) ∧
        d.endpoint.serialize o = header ++ userData) := by
  refine ⟨?_, fun header userData rest hh hu => serialize_recvQp o o' hh hu rest⟩
  intro q rest
  refine ⟨_, _, recvQp_serialize o o' q rest, rfl, rfl, rfl, rfl, ?_⟩
  exact take_drop_mod_eq_iff q.userData rest

/-- A header announcing one byte, received on a little-endian host and sent on by a big-endian
    one. -/
theorem qp_format_one_byte :
    ∃ d, recvQp .little (([0, 7, 0, 0, 0, 5, 0, 0, 0, 1, 0, 0, 0, 1] ++ List.replicate 16 0) ++
        [42] ++ [99]) = some (d, [99]) ∧
      d.endpoint.serialize .big =
        ([0, 7, 0, 0, 0, 5, 0, 0, 0, 1, 0, 0, 0, 1] ++ List.replicate 16 0) ++ [42] :=
  (qp_format .big .little).2 _ [42] [99] (by decide) (by decide)

end Rdmapp
