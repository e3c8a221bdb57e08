/-
  File:      Rdmapp/Lib/Codec.lean
  Subject:   FIXED-WIDTH CODECS and their laws.

  A `Codec α` writes every value as exactly `width` bytes and reads a value from the first
  `width` bytes of a stream. Its laws are the two round trips, so encoding is a bijection
  between the values and the byte lists of that width (`encode_bijective`). Codecs compose
  (`Codec.pair`) and move along an equivalence (`Codec.ofEquiv`).
-/
import Mathlib.Logic.Equiv.Defs
import Mathlib.Data.List.Basic
import Rdmapp.Lib.ByteOrder

namespace Lib

/-- The first `w` bytes of a stream; a read past its end has no defined bytes and yields zeros
    here. -/
def readBytes (w : Nat) (bs : List UInt8) : List UInt8 := (bs ++ List.replicate w 0).take w

theorem readBytes_length (w : Nat) (bs : List UInt8) : (readBytes w bs).length = w := by
  unfold readBytes
  rw [List.length_take, List.length_append, List.length_replicate]
  omega

theorem readBytes_append {w : Nat} {bs : List UInt8} (h : bs.length = w) (rest : List UInt8) :
    readBytes w (bs ++ rest) = bs := by
  unfold readBytes
  rw [List.append_assoc, List.take_append_of_le_length (by omega),
    List.take_of_length_le (by omega)]

/-- A fixed-width format: `decode` looks at the first `width` bytes of a stream only. -/
structure Codec (α : Type*) where
  width : Nat
  encode : α → List UInt8
  decode : List UInt8 → α
  encode_length : ∀ a, (encode a).length = width
  decode_encode : ∀ a rest, decode (encode a ++ rest) = a
  encode_decode : ∀ bs, bs.length = width → encode (decode bs) = bs

namespace Codec

variable {α β : Type*}

/-! ## 1. Consequences of the laws -/

theorem decode_encode_nil (c : Codec α) (a : α) : c.decode (c.encode a) = a := by
  have h := c.decode_encode a []
  rwa [List.append_nil] at h

/-- Only the first `width` bytes are read. -/
theorem decode_append (c : Codec α) {bs : List UInt8} (h : bs.length = c.width)
    (rest : List UInt8) : c.decode (bs ++ rest) = c.decode bs := by
  have e : c.encode (c.decode bs) = bs := c.encode_decode bs h
  calc c.decode (bs ++ rest)
      = c.decode (c.encode (c.decode bs) ++ rest) := by rw [e]
    _ = c.decode bs := c.decode_encode _ rest

theorem decode_take (c : Codec α) {bs : List UInt8} (h : c.width ≤ bs.length) :
    c.decode (bs.take c.width) = c.decode bs := by
  have hl : (bs.take c.width).length = c.width := by rw [List.length_take]; omega
  have := c.decode_append hl (bs.drop c.width)
  rwa [List.take_append_drop, eq_comm] at this

/-- Encoding what was decoded gives back the bytes that were read. -/
theorem encode_decode_take (c : Codec α) {bs : List UInt8} (h : c.width ≤ bs.length) :
    c.encode (c.decode bs) = bs.take c.width := by
  have hl : (bs.take c.width).length = c.width := by rw [List.length_take]; omega
  rw [← c.decode_take h, c.encode_decode _ hl]

theorem encode_injective (c : Codec α) : Function.Injective c.encode := by
  intro a b h
  rw [← c.decode_encode_nil a, h, c.decode_encode_nil]

/-- **Encoding is a bijection onto the byte lists of the codec's width.** -/
theorem encode_bijective (c : Codec α) :
    Function.Bijective (fun a => (⟨c.encode a, c.encode_length a⟩ :
      { bs : List UInt8 // bs.length = c.width })) := by
  refine ⟨?_, fun ⟨bs, hbs⟩ => ⟨c.decode bs, ?_⟩⟩
  · intro a b h
    exact c.encode_injective (congrArg Subtype.val h)
  · exact Subtype.ext (c.encode_decode bs hbs)

/-! ## 2. Building codecs -/

/-- One value after another. -/
def pair (c : Codec α) (d : Codec β) : Codec (α × β) where
  width := c.width + d.width
  encode p := c.encode p.1 ++ d.encode p.2
  decode bs := (c.decode bs, d.decode (bs.drop c.width))
  encode_length p := by rw [List.length_append, c.encode_length, d.encode_length]
  decode_encode p rest := by
    have hd : (c.encode p.1 ++ d.encode p.2 ++ rest).drop c.width = d.encode p.2 ++ rest := by
      rw [List.append_assoc, ← c.encode_length p.1, List.drop_left]
    rw [hd, d.decode_encode, List.append_assoc, c.decode_encode]
  encode_decode bs h := by
    have hc : c.width ≤ bs.length := by omega
    have hd : (bs.drop c.width).length = d.width := by rw [List.length_drop]; omega
    show c.encode (c.decode bs) ++ d.encode (d.decode (bs.drop c.width)) = bs
    rw [c.encode_decode_take hc, d.encode_decode _ hd, List.take_append_drop]

/-- The same bytes, read as the values of an equivalent type. -/
def ofEquiv (c : Codec α) (e : α ≃ β) : Codec β where
  width := c.width
  encode b := c.encode (e.symm b)
  decode bs := e (c.decode bs)
  encode_length b := c.encode_length _
  decode_encode b rest := by rw [c.decode_encode, Equiv.apply_symm_apply]
  encode_decode bs h := by rw [Equiv.symm_apply_apply, c.encode_decode bs h]

/-- Numbers below `256 ^ w`, most significant byte first. -/
def bigEndian (w : Nat) : Codec (Fin (256 ^ w)) where
  width := w
  encode n := (leBytes w n).reverse
  decode bs := ⟨leVal (bs.take w).reverse % 256 ^ w, Nat.mod_lt _ (Nat.pow_pos (by omega))⟩
  encode_length n := by rw [List.length_reverse, leBytes_length]
  decode_encode n rest := by
    have hl : (leBytes w n).reverse.length = w := by rw [List.length_reverse, leBytes_length]
    have ht : ((leBytes w n).reverse ++ rest).take w = (leBytes w n).reverse := by
      rw [List.take_append_of_le_length (by omega), List.take_of_length_le (by omega)]
    apply Fin.ext
    show leVal (((leBytes w n).reverse ++ rest).take w).reverse % 256 ^ w = n
    rw [ht, List.reverse_reverse, leVal_leBytes, Nat.mod_mod, Nat.mod_eq_of_lt n.isLt]
  encode_decode bs h := by
    have ht : bs.take w = bs := List.take_of_length_le (by omega)
    have hr : bs.reverse.length = w := by rw [List.length_reverse, h]
    have hlt : leVal bs.reverse < 256 ^ w := hr ▸ leVal_lt bs.reverse
    show (leBytes w (leVal (bs.take w).reverse % 256 ^ w)).reverse = bs
    rw [ht, Nat.mod_eq_of_lt hlt, leBytes_leVal_of_length hr, List.reverse_reverse]

/-- Lists of exactly `w` bytes, as they are. -/
def raw (w : Nat) : Codec { bs : List UInt8 // bs.length = w } where
  width := w
  encode a := a.val
  decode bs := ⟨readBytes w bs, readBytes_length w bs⟩
  encode_length a := a.property
  decode_encode a rest := Subtype.ext (readBytes_append a.property rest)
  encode_decode bs h := by
    have e := readBytes_append h []
    rwa [List.append_nil] at e

end Codec

/-! ## 3. Machine integers -/

/-- An unsigned integer type of a fixed number of bytes. -/
class FixedUInt (T : Type) where
  size : Nat
  toNat : T → Nat
  ofNat : Nat → T
  toNat_lt : ∀ v, toNat v < 256 ^ size
  ofNat_toNat : ∀ v, ofNat (toNat v) = v
  toNat_ofNat : ∀ n, n < 256 ^ size → toNat (ofNat n) = n

instance : FixedUInt UInt16 where
  size := 2
  toNat := UInt16.toNat
  ofNat := UInt16.ofNat
  toNat_lt := UInt16.toNat_lt
  ofNat_toNat _ := UInt16.ofNat_toNat
  toNat_ofNat _ h := UInt16.toNat_ofNat_of_lt h

instance : FixedUInt UInt32 where
  size := 4
  toNat := UInt32.toNat
  ofNat := UInt32.ofNat
  toNat_lt := UInt32.toNat_lt
  ofNat_toNat _ := UInt32.ofNat_toNat
  toNat_ofNat _ h := UInt32.toNat_ofNat_of_lt h

instance : FixedUInt UInt64 where
  size := 8
  toNat := UInt64.toNat
  ofNat := UInt64.ofNat
  toNat_lt := UInt64.toNat_lt
  ofNat_toNat _ := UInt64.ofNat_toNat
  toNat_ofNat _ h := UInt64.toNat_ofNat_of_lt h

/-- The values of a fixed-size integer type are the numbers below `256 ^ size`. -/
def FixedUInt.equivFin (T : Type) [FixedUInt T] : Fin (256 ^ FixedUInt.size T) ≃ T where
  toFun n := FixedUInt.ofNat n.val
  invFun v := ⟨FixedUInt.toNat v, FixedUInt.toNat_lt v⟩
  left_inv n := Fin.ext (FixedUInt.toNat_ofNat n.val n.isLt)
  right_inv v := FixedUInt.ofNat_toNat v

/-- A fixed-size integer in network order. -/
def Codec.uint (T : Type) [FixedUInt T] : Codec T :=
  (Codec.bigEndian (FixedUInt.size T)).ofEquiv (FixedUInt.equivFin T)

theorem Codec.uint_encode {T : Type} [FixedUInt T] (v : T) :
    (Codec.uint T).encode v = (leBytes (FixedUInt.size T) (FixedUInt.toNat v)).reverse := rfl

theorem Codec.uint_decode {T : Type} [FixedUInt T] (bs : List UInt8) :
    (Codec.uint T).decode bs = FixedUInt.ofNat (leVal (bs.take (FixedUInt.size T)).reverse) := by
  have hl : (bs.take (FixedUInt.size T)).reverse.length ≤ FixedUInt.size T := by
    rw [List.length_reverse, List.length_take]
    omega
  have hlt : leVal (bs.take (FixedUInt.size T)).reverse < 256 ^ FixedUInt.size T :=
    Nat.lt_of_lt_of_le (leVal_lt _) (Nat.pow_le_pow_right (by omega) hl)
  show FixedUInt.ofNat (leVal (bs.take (FixedUInt.size T)).reverse % 256 ^ FixedUInt.size T) = _
  rw [Nat.mod_eq_of_lt hlt]

end Lib
