/-
  File:      Rdmapp/Lib/ByteOrder.lean
  Subject:   THE BYTES OF A NUMBER in the memory of a host of either byte order.

  A host holds a `w`-byte number least significant byte first (`little`) or most significant
  byte first (`big`). The conversion to network order (`toBig`) swaps on a little-endian host
  and does nothing on a big-endian one; so the bytes a host writes after the conversion are
  the same on every host (`memBytes_toBig`), and what a host reads through the conversion
  depends on the bytes alone (`toBig_memVal`).
-/
import Mathlib.Data.List.Basic
import Mathlib.Tactic.Ring

namespace Lib

/-- The order in which a host lays the bytes of a number in memory. -/
inductive ByteOrder where
  | little
  | big
  deriving DecidableEq, Repr

/-! ## 1. Least significant byte first -/

/-- The `w` bytes of `n`, least significant first; what exceeds `w` bytes is lost. -/
def leBytes : Nat → Nat → List UInt8
  | 0, _ => []
  | w + 1, n => UInt8.ofNat n :: leBytes w (n / 256)

/-- The number a list of bytes stands for, least significant first. -/
def leVal : List UInt8 → Nat
  | [] => 0
  | b :: bs => b.toNat + 256 * leVal bs

@[simp] theorem leBytes_length (w n : Nat) : (leBytes w n).length = w := by
  induction w generalizing n with
  | zero => rfl
  | succ w ih =>
    unfold leBytes
    rw [List.length_cons, ih]

/-- Reading back what was laid down: the number, cut to `w` bytes. -/
theorem leVal_leBytes (w n : Nat) : leVal (leBytes w n) = n % 256 ^ w := by
  induction w generalizing n with
  | zero => simp [leBytes, leVal, Nat.mod_one]
  | succ w ih =>
    have hb : (UInt8.ofNat n).toNat = n % 256 := UInt8.toNat_ofNat'
    unfold leBytes leVal
    rw [ih, hb, Nat.pow_succ', Nat.mod_mul]

theorem leVal_lt (bs : List UInt8) : leVal bs < 256 ^ bs.length := by
  induction bs with
  | nil => simp [leVal]
  | cons b bs ih =>
    have hb : b.toNat < 256 := b.toNat_lt
    unfold leVal
    rw [List.length_cons, Nat.pow_succ']
    omega

/-- Laying down what was read: every byte list is the bytes of its number. -/
theorem leBytes_leVal (bs : List UInt8) : leBytes bs.length (leVal bs) = bs := by
  induction bs with
  | nil => rfl
  | cons b bs ih =>
    have hb : b.toNat < 256 := b.toNat_lt
    have hdiv : (b.toNat + 256 * leVal bs) / 256 = leVal bs := by omega
    have hhead : UInt8.ofNat (b.toNat + 256 * leVal bs) = b := by
      apply UInt8.toNat_inj.mp
      rw [UInt8.toNat_ofNat']
      omega
    show UInt8.ofNat (b.toNat + 256 * leVal bs) ::
      leBytes bs.length ((b.toNat + 256 * leVal bs) / 256) = b :: bs
    rw [hdiv, hhead, ih]

theorem leBytes_leVal_of_length {w : Nat} {bs : List UInt8} (h : bs.length = w) :
    leBytes w (leVal bs) = bs := by
  subst h
  exact leBytes_leVal bs

/-! ## 2. A host's memory -/

/-- The bytes at which a host of order `o` holds the `w`-byte number `n`. -/
def memBytes (o : ByteOrder) (w n : Nat) : List UInt8 :=
  match o with
  | .little => leBytes w n
  | .big => (leBytes w n).reverse

/-- The number a host of order `o` reads from the bytes `bs`. -/
def memVal (o : ByteOrder) (bs : List UInt8) : Nat :=
  match o with
  | .little => leVal bs
  | .big => leVal bs.reverse

/-- The number with the same `w` bytes in the opposite order. -/
def byteSwap (w n : Nat) : Nat := leVal (leBytes w n).reverse

/-- The conversion of a host of order `o` between its own order and network order. It is its
    own inverse, so one definition serves both directions. -/
def toBig (o : ByteOrder) (w n : Nat) : Nat :=
  match o with
  | .little => byteSwap w n
  | .big => n

@[simp] theorem memBytes_length (o : ByteOrder) (w n : Nat) : (memBytes o w n).length = w := by
  cases o <;> simp [memBytes]

theorem byteSwap_lt (w n : Nat) : byteSwap w n < 256 ^ w := by
  have h := leVal_lt (leBytes w n).reverse
  rwa [List.length_reverse, leBytes_length] at h

theorem toBig_lt {o : ByteOrder} {w n : Nat} (h : n < 256 ^ w) : toBig o w n < 256 ^ w := by
  cases o with
  | little => exact byteSwap_lt w n
  | big => exact h

theorem memVal_lt (o : ByteOrder) {w : Nat} {bs : List UInt8} (h : bs.length = w) :
    memVal o bs < 256 ^ w := by
  cases o with
  | little => exact h ▸ leVal_lt bs
  | big =>
    have hr : bs.reverse.length = w := by rw [List.length_reverse, h]
    exact hr ▸ leVal_lt bs.reverse

/-- A host reads back the number it laid down, cut to `w` bytes. -/
theorem memVal_memBytes (o : ByteOrder) (w n : Nat) : memVal o (memBytes o w n) = n % 256 ^ w := by
  cases o with
  | little => exact leVal_leBytes w n
  | big =>
    show leVal (leBytes w n).reverse.reverse = _
    rw [List.reverse_reverse]
    exact leVal_leBytes w n

/-- **After the conversion every host writes the same bytes**, most significant first. -/
theorem memBytes_toBig (o : ByteOrder) (w n : Nat) :
    memBytes o w (toBig o w n) = (leBytes w n).reverse := by
  cases o with
  | little =>
    show leBytes w (leVal (leBytes w n).reverse) = (leBytes w n).reverse
    exact leBytes_leVal_of_length (by rw [List.length_reverse, leBytes_length])
  | big => rfl

/-- **Through the conversion every host reads the same number** from the same bytes. -/
theorem toBig_memVal (o : ByteOrder) {w : Nat} {bs : List UInt8} (h : bs.length = w) :
    toBig o w (memVal o bs) = leVal bs.reverse := by
  cases o with
  | little =>
    show leVal (leBytes w (leVal bs)).reverse = leVal bs.reverse
    rw [leBytes_leVal_of_length h]
  | big => rfl

end Lib
