import Knomosis.Kernel.Cbe

/-!
# Reading encoded bytes at an offset

The contracts read the canonical encoding from calldata with an offset that each
reader moves forward.  Every reader checks its bound before it loads a word, so
what it returns does not depend on the calldata behind the argument, and the
argument is a list of bytes here.
-/

namespace Knomosis.Contracts

open Lib Kernel List

inductive CbeError where
  | unexpectedEof
  | invalidMajorType (got expected : UInt8)
  | invalidLength
  | sizeMismatch (expected actual : ℕ)
deriving DecidableEq

namespace CBEDecode

section Readers

variable (buf : List UInt8) (offset : ℕ)

def readLE (width : ℕ) : Except CbeError (ℕ × ℕ) :=
  if buf.length < offset + width then .error .unexpectedEof
  else .ok (leNat ((buf.drop offset).take width), offset + width)

/-- A type byte and the number behind it. -/
def readTag (expectedTag : UInt8) (width : ℕ) : Except CbeError (ℕ × ℕ) :=
  match buf[offset]? with
  | none => .error .unexpectedEof
  | some gotTag =>
    if gotTag ≠ expectedTag then .error (.invalidMajorType gotTag expectedTag)
    else readLE buf (offset + 1) width

def readHead (expectedTag : UInt8) : Except CbeError (ℕ × ℕ) := readTag buf offset expectedTag 8

def readUint : Except CbeError (ℕ × ℕ) := readHead buf offset cbeTagUint

def readAmount : Except CbeError (ℕ × ℕ) := readTag buf offset cbeTagAmount 32

def readArrayHead : Except CbeError (ℕ × ℕ) := readHead buf offset cbeTagArray

def readBytes : Except CbeError (List UInt8 × ℕ) := do
  let (length, afterHead) ← readHead buf offset cbeTagBytes
  if buf.length < afterHead + length then .error .invalidLength
  else .ok ((buf.drop afterHead).take length, afterHead + length)

/-- A byte string of a given length, bounds checked before the size. -/
def readBytesExact (expectedSize : ℕ) : Except CbeError (List UInt8 × ℕ) := do
  let (payload, nextOffset) ← readBytes buf offset
  if payload.length ≠ expectedSize then .error (.sizeMismatch expectedSize payload.length)
  else .ok (payload, nextOffset)

def readBytes32Exact : Except CbeError (Bytes32 × ℕ) := do
  let (payload, nextOffset) ← readBytesExact buf offset 32
  .ok (bytesWord payload, nextOffset)

def readAddressExact : Except CbeError (Address × ℕ) := do
  let (payload, nextOffset) ← readBytesExact buf offset 20
  .ok (Fin.ofNat (2 ^ 160) (beNat payload), nextOffset)

def assertFullyConsumed : Except CbeError Unit :=
  if offset ≠ buf.length then .error .invalidLength else .ok ()

end Readers

section Positions

variable {buf rest : List UInt8} {offset : ℕ} {s bs : List UInt8} {n : ℕ} {a : Address}

theorem length_of_drop (h : buf.drop offset = s ++ rest) (hs : s ≠ []) :
    offset + s.length + rest.length = buf.length := by
  have hlen := congrArg List.length h
  rw [length_drop, length_append] at hlen
  have hpos := length_pos_of_ne_nil hs
  omega

theorem drop_of_append (h : buf.drop offset = s ++ rest) : buf.drop (offset + s.length) = rest := by
  rw [← drop_drop, h, drop_left]

theorem readTag_of_drop {tag : UInt8} {width : ℕ} (hn : n < 256 ^ width)
    (h : buf.drop offset = headEncode tag width n ++ rest) :
    readTag buf offset tag width = .ok (n, offset + (width + 1)) ∧
      buf.drop (offset + (width + 1)) = rest := by
  rw [headEncode_eq] at h
  have hlen := length_of_drop h (cons_ne_nil _ _)
  have hrest := drop_of_append h
  rw [length_cons, leBytes_length] at hlen hrest
  refine ⟨?_, hrest⟩
  have hhead : buf[offset]? = some tag := by
    rw [← List.head?_drop, h]
    rfl
  have htail : buf.drop (offset + 1) = leBytes width n ++ rest := by
    rw [← drop_drop, h]
    rfl
  rw [readTag, hhead]
  simp only [ne_eq, not_true_eq_false, if_false]
  rw [readLE, if_neg (by omega), htail, take_left' (leBytes_length width n), leNat_leBytes,
    Nat.mod_eq_of_lt hn, Nat.add_assoc, Nat.add_comm 1]

theorem readUint_of_drop (hn : n < 2 ^ 64) (h : buf.drop offset = encodeNat n ++ rest) :
    readUint buf offset = .ok (n, offset + 9) ∧ buf.drop (offset + 9) = rest :=
  readTag_of_drop (by simpa using hn) h

theorem readArrayHead_of_drop (hn : n < 2 ^ 64)
    (h : buf.drop offset = cborHeadEncode cbeTagArray n ++ rest) :
    readArrayHead buf offset = .ok (n, offset + 9) ∧ buf.drop (offset + 9) = rest :=
  readTag_of_drop (by simpa using hn) h

theorem readBytes_of_drop (hbs : bs.length < 2 ^ 64)
    (h : buf.drop offset = encodeBytes bs ++ rest) :
    readBytes buf offset = .ok (bs, offset + (9 + bs.length)) ∧
      buf.drop (offset + (9 + bs.length)) = rest := by
  rw [encodeBytes, append_assoc] at h
  obtain ⟨hhead, htail⟩ := readTag_of_drop (by simpa using hbs) h
  have hrest := drop_of_append htail
  have hlen : offset + 9 + bs.length ≤ buf.length := by
    have hlen := congrArg List.length h
    rw [length_drop, length_append, length_append, cborHeadEncode, headEncode_eq,
      length_cons, leBytes_length] at hlen
    omega
  refine ⟨?_, by rw [← Nat.add_assoc]; exact hrest⟩
  rw [readBytes, readHead, hhead]
  change (if buf.length < offset + 9 + bs.length then _ else _) = _
  rw [if_neg (by omega), htail, take_left, Nat.add_assoc]

theorem readBytesExact_of_drop (hbs : bs.length < 2 ^ 64)
    (h : buf.drop offset = encodeBytes bs ++ rest) :
    readBytesExact buf offset bs.length = .ok (bs, offset + (9 + bs.length)) ∧
      buf.drop (offset + (9 + bs.length)) = rest := by
  obtain ⟨hread, hrest⟩ := readBytes_of_drop hbs h
  refine ⟨?_, hrest⟩
  rw [readBytesExact, hread, ok_bind]
  exact if_neg (not_not.mpr rfl)

theorem readBytes32Exact_of_drop {w : Bytes32}
    (h : buf.drop offset = encodeBytes (bytes32Bytes w) ++ rest) :
    readBytes32Exact buf offset = .ok (w, offset + 41) ∧ buf.drop (offset + 41) = rest := by
  have hlen : (bytes32Bytes w).length = 32 := bytes32Bytes_length w
  obtain ⟨hread, hrest⟩ := readBytesExact_of_drop (by omega) h
  rw [hlen] at hread hrest
  refine ⟨?_, hrest⟩
  rw [readBytes32Exact, hread, ok_bind]
  change Except.ok (bytesWord (bytes32Bytes w), _) = _
  rw [bytesWord_bytes32Bytes]

theorem readTag_eq_ok {tag : UInt8} {width n off : ℕ} :
    readTag buf offset tag width = .ok (n, off) ↔ n < 256 ^ width ∧ off = offset + (width + 1) ∧
        buf.drop offset = headEncode tag width n ++ buf.drop off := by
  constructor
  · intro h
    rw [readTag] at h
    cases hhead : buf[offset]? with
    | none =>
      rw [hhead] at h
      cases h
    | some got =>
      rw [hhead] at h
      obtain ⟨htag, h⟩ := guard_eq_ok.mp h
      obtain ⟨hlen, h⟩ := guard_eq_ok.mp h
      obtain ⟨hn, hoff⟩ := Prod.mk.inj (Except.ok.inj h)
      obtain rfl := not_not.mp htag
      have hbytes : ((buf.drop (offset + 1)).take width).length = width := by
        rw [length_take, length_drop]
        omega
      have hdrop : buf.drop offset = got :: buf.drop (offset + 1) := by
        rw [← cons_getElem_drop_succ (h := (List.getElem?_eq_some_iff.mp hhead).1)]
        rw [(List.getElem?_eq_some_iff.mp hhead).2]
      refine ⟨?_, ?_, ?_⟩
      · rw [← hn]
        simpa [hbytes] using leNat_lt ((buf.drop (offset + 1)).take width)
      · omega
      · have hword := leBytes_leNat ((buf.drop (offset + 1)).take width)
        rw [hbytes] at hword
        have htail : buf.drop (offset + 1 + width) = (buf.drop (offset + 1)).drop width :=
          drop_drop.symm
        rw [headEncode_eq, hdrop, ← hn, ← hoff, htail, hword, cons_append, take_append_drop]
  · rintro ⟨hn, rfl, h⟩
    exact (readTag_of_drop hn h).1

theorem readUint_eq_ok {n off : ℕ} :
    readUint buf offset = .ok (n, off) ↔
      n < 2 ^ 64 ∧ off = offset + 9 ∧ buf.drop offset = encodeNat n ++ buf.drop off := by
  rw [readUint, readHead, readTag_eq_ok]
  rfl

theorem readAmount_eq_ok {n off : ℕ} :
    readAmount buf offset = .ok (n, off) ↔
      n < 2 ^ 256 ∧ off = offset + 33 ∧ buf.drop offset = encodeAmount n ++ buf.drop off := by
  rw [readAmount, readTag_eq_ok]
  rfl

theorem readBytes_eq_ok {bs : List UInt8} {off : ℕ} :
    readBytes buf offset = .ok (bs, off) ↔
      bs.length < 2 ^ 64 ∧ off = offset + (9 + bs.length) ∧
        buf.drop offset = encodeBytes bs ++ buf.drop off := by
  constructor
  · intro h
    obtain ⟨⟨length, afterHead⟩, hhead, h⟩ := bind_eq_ok.mp h
    obtain ⟨hlt, rfl, hdrop⟩ := readTag_eq_ok.mp hhead
    obtain ⟨hfits, h⟩ := guard_eq_ok.mp h
    cases h
    have hlen : ((buf.drop (offset + (8 + 1))).take length).length = length := by
      rw [length_take, length_drop]
      omega
    rw [hlen]
    refine ⟨by simpa using hlt, by omega, ?_⟩
    have htail : buf.drop (offset + (8 + 1) + length) =
        (buf.drop (offset + (8 + 1))).drop length := drop_drop.symm
    rw [hdrop, encodeBytes, hlen, append_assoc, htail, take_append_drop]
    rfl
  · rintro ⟨hlt, rfl, h⟩
    exact (readBytes_of_drop hlt h).1

theorem readAddressExact_eq_ok {off : ℕ} (h : readAddressExact buf offset = .ok (a, off)) :
    off = offset + 29 ∧ buf.drop offset = encodeBytes (beBytes 20 a.val) ++ buf.drop off := by
  obtain ⟨⟨payload, next⟩, hexact, hread⟩ := bind_eq_ok.mp h
  obtain ⟨⟨payload', next'⟩, hbytes, hguard⟩ := bind_eq_ok.mp hexact
  obtain ⟨hsize, heq⟩ := guard_eq_ok.mp hguard
  obtain ⟨rfl, rfl⟩ := Prod.mk.inj (Except.ok.inj heq)
  obtain ⟨rfl, rfl⟩ := Prod.mk.inj (Except.ok.inj hread)
  have hlen : payload'.length = 20 := not_not.mp hsize
  obtain ⟨-, hoff, hdrop⟩ := readBytes_eq_ok.mp hbytes
  have hlt : beNat payload' < 2 ^ 160 := by simpa [hlen] using beNat_lt payload'
  have hvalue : beBytes 20 (Fin.ofNat (2 ^ 160) (beNat payload')).val = payload' := by
    rw [Fin.val_ofNat, Nat.mod_eq_of_lt hlt, ← hlen]
    exact beBytes_beNat payload'
  rw [hvalue]
  exact ⟨by rw [hoff, hlen], hdrop⟩

end Positions

end CBEDecode

end Knomosis.Contracts
