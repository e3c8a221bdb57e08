/-
  File:      Rdmapp/Rpc/Messages.lean
  Subject:   PACKETS IN MEMORY: a header and a payload, as bytes and in a buffer.

  Requests and responses have one form, a header with the id and the payload's length and the
  payload behind it. A packet that lies in a buffer (`HeldAt`) is what is read from there, and what
  was received is what lies there; writes to other buffers leave it.
-/
import Rdmapp.Rpc.Client

namespace Rdmapp
namespace Rpc

open Lib

/-! ## 1. Packets -/

/-- The header of a packet. -/
def RpcHeader.ofBytes (o : ByteOrder) (bytes : List UInt8) : RpcHeader where
  reqId := UInt64.ofNat (memVal o (bytes.take 8))
  payloadLen := UInt32.ofNat (memVal o ((bytes.drop 8).take 4))

/-- `bytes` is a packet with this id and payload. -/
structure Packet (o : ByteOrder) (reqId : UInt64) (payload bytes : List UInt8) : Prop where
  length : bytes.length = headerSize + payload.length
  header : RpcHeader.ofBytes o bytes = ⟨reqId, UInt32.ofNat payload.length⟩
  payload : bytes.drop headerSize = payload

/-- Such a packet lies at `a`. -/
structure HeldAt (o : ByteOrder) (reqId : UInt64) (payload : List UInt8) (pool : Mem) (a : Nat) :
    Prop where
  header : RpcHeader.load o pool a = ⟨reqId, UInt32.ofNat payload.length⟩
  payload : pool.read (a + headerSize) payload.length = payload

section Messages

variable {o : ByteOrder} {reqId : UInt64} {payload bytes : List UInt8} {pool : Mem} {a b : Nat}

theorem ofBytes_read {n : Nat} (h : headerSize ≤ n) :
    RpcHeader.ofBytes o (pool.read a n) = RpcHeader.load o pool a := by
  have h8 : 8 ≤ n := le_trans (by decide) h
  obtain ⟨k, rfl⟩ : ∃ k, n = 8 + (4 + k) := ⟨n - 12, by unfold headerSize at h; omega⟩
  unfold RpcHeader.ofBytes RpcHeader.load
  rw [Mem.read_take h8, Mem.read_drop, Mem.read_take (Nat.le_add_right 4 k)]

/-- **What is sent from a buffer is the packet in it.** -/
theorem HeldAt.packet (h : HeldAt o reqId payload pool a) :
    Packet o reqId payload (pool.read a (headerSize + payload.length)) where
  length := Mem.read_length _ _ _
  header := (ofBytes_read (Nat.le_add_right _ _)).trans h.header
  payload := by
    rw [Mem.read_drop]
    exact h.payload

/-- **What is received into a buffer lies in it.** -/
theorem Packet.heldAt (h : Packet o reqId payload bytes) :
    HeldAt o reqId payload (pool.write a bytes) a := by
  have hall : (pool.write a bytes).read a (headerSize + payload.length) = bytes := by
    rw [← h.length]
    exact Mem.read_write pool a bytes
  constructor
  · rw [← ofBytes_read (Nat.le_add_right headerSize payload.length), hall]
    exact h.header
  · rw [← Mem.read_drop, hall]
    exact h.payload

theorem load_agree {pool' : Mem} {n : Nat} (ha : Mem.Agree pool pool' a n) (hn : headerSize ≤ n) :
    RpcHeader.load o pool' a = RpcHeader.load o pool a := by
  unfold headerSize at hn
  unfold RpcHeader.load
  rw [ha.read (Nat.le_refl a) (by omega), ha.read (Nat.le_add_right a 8) (by omega)]

/-- **Where the bytes stay the packet stays.** -/
theorem HeldAt.agree {pool' : Mem} {n : Nat} (h : HeldAt o reqId payload pool a)
    (ha : Mem.Agree pool pool' a n) (hn : headerSize + payload.length ≤ n) :
    HeldAt o reqId payload pool' a where
  header := (load_agree ha (le_trans (Nat.le_add_right _ _) hn)).trans h.header
  payload := by
    rw [ha.read (Nat.le_add_right a _) (by omega)]
    exact h.payload

/-! ## 2. Headers written -/

theorem load_store (header : RpcHeader) (pool : Mem) (a : Nat) :
    RpcHeader.load o (header.store o pool a) a = header := by
  have hid : (pool.write a (memBytes o 8 header.reqId.toNat)).read a 8 =
      memBytes o 8 header.reqId.toNat := by
    have h := Mem.read_write pool a (memBytes o 8 header.reqId.toNat)
    rwa [memBytes_length] at h
  have hlen : (header.store o pool a).read (a + 8) 4 = memBytes o 4 header.payloadLen.toNat := by
    have h := Mem.read_write (pool.write a (memBytes o 8 header.reqId.toNat)) (a + 8)
      (memBytes o 4 header.payloadLen.toNat)
    rwa [memBytes_length] at h
  have hapart : Mem.Apart a 8 (a + 8) (memBytes o 4 header.payloadLen.toNat).length :=
    Or.inl (Nat.le_refl _)
  have hid' : (header.store o pool a).read a 8 = memBytes o 8 header.reqId.toNat := by
    unfold RpcHeader.store
    rw [Mem.read_write_apart hapart, hid]
  have h64 : header.reqId.toNat % 256 ^ 8 = header.reqId.toNat :=
    Nat.mod_eq_of_lt header.reqId.toNat_lt
  have h32 : header.payloadLen.toNat % 256 ^ 4 = header.payloadLen.toNat :=
    Nat.mod_eq_of_lt header.payloadLen.toNat_lt
  unfold RpcHeader.load
  rw [hid', hlen, memVal_memBytes, memVal_memBytes, h64, h32, UInt64.ofNat_toNat,
    UInt32.ofNat_toNat]

/-- A header does not reach what is apart from it. -/
theorem agree_store {n : Nat} (header : RpcHeader) (h : Mem.Apart b n a headerSize) :
    Mem.Agree pool (header.store o pool a) b n := by
  unfold Mem.Apart headerSize at h
  unfold RpcHeader.store
  refine (Mem.agree_write ?_).trans (Mem.agree_write ?_)
  · rw [memBytes_length]
    unfold Mem.Apart
    omega
  · rw [memBytes_length]
    unfold Mem.Apart
    omega

/-- A packet is made: the header, then the payload. -/
theorem heldAt_fill (reqId : UInt64) (payload : List UInt8) (pool : Mem) (a : Nat) :
    HeldAt o reqId payload
      ((RpcHeader.store o ⟨reqId, UInt32.ofNat payload.length⟩ pool a).write (a + headerSize)
        payload) a where
  header := by
    rw [load_agree (Mem.agree_write (Or.inl (Nat.le_refl _))) (Nat.le_refl headerSize)]
    exact load_store _ _ _
  payload := Mem.read_write _ _ _

/-- A packet is made: the header before a payload that is there. -/
theorem heldAt_stamp (h : pool.read (a + headerSize) payload.length = payload) :
    HeldAt o reqId payload
      (RpcHeader.store o ⟨reqId, UInt32.ofNat payload.length⟩ pool a) a where
  header := load_store _ _ _
  payload := by
    have ha : Mem.Agree pool (RpcHeader.store o ⟨reqId, UInt32.ofNat payload.length⟩ pool a)
        (a + headerSize) payload.length := agree_store _ (Or.inr (Nat.le_refl _))
    rw [ha.read (Nat.le_refl _) (Nat.le_refl _)]
    exact h

end Messages

end Rpc
end Rdmapp
