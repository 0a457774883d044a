import Knomosis.Kernel.Cbe
import Knomosis.Lib.Cursor

/-!
# Heads under a cursor

Programs beside the kernel read its bytes with cursors of their own.  They have in
common that a field begins with a head: a tag and a number of fixed width.  Whoever
reads exactly the heads of a tag reads exactly the numbers, the amounts and the byte
strings of the kernel.
-/

namespace Knomosis.Kernel

open Lib Smt Walk

variable {ε : Type}

/-- The walk reads a tag and the bytes of a number behind it. -/
def ReadsHead (p : Walk ε UInt8 Bytes) (tag : UInt8) (width : ℕ) : Prop :=
  Reads p (fun w payload => w = tag :: payload ∧ payload.length = width)

variable {le : Bytes} {width n : ℕ} {p : Walk ε UInt8 Bytes}

theorem head_eq_iff {w : Bytes} {tag : UInt8} (hlen : le.length = width) (hn : leNat le = n) :
    w = tag :: le ↔ w = headEncode tag width n := by
  rw [headEncode_eq, ← hn, ← hlen, leBytes_leNat]

theorem leNat_lt_of_length (hlen : le.length = width) : leNat le < 256 ^ width := by
  rw [← hlen]
  exact leNat_lt le

theorem leNat_leBytes_of_lt (h : n < 256 ^ width) : leNat (leBytes width n) = n := by
  rw [leNat_leBytes, Nat.mod_eq_of_lt h]

theorem reads_uint {tag : UInt8} (hp : ReadsHead p tag 8) :
    Reads (p >>= fun le => pure (UInt64.ofNat (leNat le)))
      (fun w v => w = cborHeadEncode tag v.toNat) := by
  refine Reads.last hp fun w v => ⟨fun hw => ?_, ?_⟩
  · have hback : leNat (leBytes 8 v.toNat) = v.toNat :=
      leNat_leBytes_of_lt (by simpa using v.toNat_lt)
    refine ⟨leBytes 8 v.toNat, ⟨?_, leBytes_length 8 _⟩, ?_⟩
    · exact (head_eq_iff (leBytes_length 8 _) hback).mpr hw
    · rw [hback, UInt64.ofNat_toNat]
  · rintro ⟨le, ⟨hw, hlen⟩, rfl⟩
    have hlt : leNat le < 2 ^ 64 := leNat_lt_of_length hlen
    refine (head_eq_iff hlen ?_).mp hw
    rw [UInt64.toNat_ofNat', Nat.mod_eq_of_lt hlt]

theorem reads_amount (hp : ReadsHead p cbeTagAmount 32) :
    Reads (p >>= fun le => pure (BitVec.ofNat 256 (leNat le)))
      (fun w v => w = encodeAmount v.toNat) := by
  refine Reads.last hp fun w v => ⟨fun hw => ?_, ?_⟩
  · have hback : leNat (leBytes 32 v.toNat) = v.toNat :=
      leNat_leBytes_of_lt (by simpa using v.isLt)
    refine ⟨leBytes 32 v.toNat, ⟨?_, leBytes_length 32 _⟩, ?_⟩
    · exact (head_eq_iff (leBytes_length 32 _) hback).mpr hw
    · rw [hback, BitVec.ofNat_toNat, BitVec.setWidth_eq]
  · rintro ⟨le, ⟨hw, hlen⟩, rfl⟩
    have hlt : leNat le < 2 ^ 256 := leNat_lt_of_length hlen
    refine (head_eq_iff hlen ?_).mp hw
    rw [BitVec.toNat_ofNat, Nat.mod_eq_of_lt hlt]

theorem encodeBytes_eq_iff {w bs : Bytes} :
    w = encodeBytes bs ∧ bs.length < 2 ^ 64 ↔
      ∃ le, le.length = 8 ∧ leNat le = bs.length ∧ w = cbeTagBytes :: le ++ bs := by
  constructor
  · rintro ⟨rfl, hlt⟩
    refine ⟨leBytes 8 bs.length, leBytes_length 8 _, leNat_leBytes_of_lt (by simpa using hlt), ?_⟩
    rw [encodeBytes, cborHeadEncode, headEncode_eq]
  · rintro ⟨le, hlen, hcount, rfl⟩
    have hlt : leNat le < 2 ^ 64 := leNat_lt_of_length hlen
    rw [encodeBytes, cborHeadEncode, headEncode_eq, ← hcount, ← hlen, leBytes_leNat]
    exact ⟨rfl, hlt⟩

end Knomosis.Kernel
