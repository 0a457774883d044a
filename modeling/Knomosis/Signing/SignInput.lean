import Knomosis.StepVM.Fields

/-!
# SignInput

The contract's own way to the bytes that an actor signed.  It has the action only
in its packed form, with big-endian fields at fixed offsets, and writes each field
anew in the kernel's encoding.  Actions that it does not look into are packed as
they are encoded and pass through as they are.
-/

namespace Knomosis.Signing

open Lib Contracts Smt Kernel StepVM
open StepWrites CBEEncode

namespace SignInput

/-- Why there is nothing to sign. -/
inductive SignInputError where
  | unknownActionKind (kind : ℕ)
  | fieldsWrongLength (kind got expected : ℕ)
  | cbe (e : StepError)
deriving DecidableEq

/-- The domain in front of what is signed. -/
def DOMAIN : Bytes := "legalkernel/v1/signedaction".toList.map (fun c => UInt8.ofNat c.toNat)

/-- A field of the packed form: where it starts, and how it is written. -/
inductive Slot where
  | u64BE (offset : ℕ)
  | u256BE (offset : ℕ)
  | slice (offset len : ℕ)

/-- A field in the kernel's encoding. -/
def Slot.value (fields : Bytes) : Slot → Except StepError Bytes
  | u64BE offset => uintValue (fieldAt fields offset 8)
  | u256BE offset => amountValue (fieldAt fields offset 32)
  | slice offset len => bytesValue ((fields.drop offset).take len)

/-- The fields of a packed form of a fixed length. -/
def transcode (kind : ℕ) (fields : Bytes) (expected : ℕ) (slots : List Slot) :
    Except SignInputError Bytes :=
  if fields.length ≠ expected then
    .error (.fieldsWrongLength kind fields.length expected)
  else do
    let values ← (slots.mapM (Slot.value fields)).mapError .cbe
    .ok values.flatten

/-- An actor and a key of any length. -/
def transcodeKey (kind : ℕ) (fields : Bytes) : Except SignInputError Bytes :=
  if fields.length < 8 then .error (.fieldsWrongLength kind fields.length 8)
  else do
    let actor ← (uintValue (fieldAt fields 0 8)).mapError .cbe
    let key ← (bytesValue (fields.drop 8)).mapError .cbe
    .ok (actor ++ key)

/-- The encoding of the fields behind the index of the kind. -/
def cbeFields (kind : ℕ) (fields : Bytes) : Except SignInputError Bytes :=
  match kind with
  | 0 => transcode kind fields 56 [.u64BE 0, .u64BE 8, .u64BE 16, .u256BE 24]
  | 1 | 2 | 5 | 6 | 7 => transcode kind fields 48 [.u64BE 0, .u64BE 8, .u256BE 16]
  | 3 => transcode kind fields 8 [.u64BE 0]
  | 4 | 12 => transcodeKey kind fields
  | 8 | 9 | 10 | 11 | 15 | 16 | 17 | 18 => .ok fields
  | 13 => transcode kind fields 56 [.u64BE 0, .u64BE 8, .u256BE 16, .u64BE 48]
  | 14 => transcode kind fields 68 [.u64BE 0, .u64BE 8, .u256BE 16, .slice 48 20]
  | 19 => transcode kind fields 136 [.u64BE 0, .u64BE 8, .u64BE 16, .u256BE 24, .u256BE 56,
      .u64BE 88, .u64BE 96, .u256BE 104]
  | 20 => transcode kind fields 56 [.u64BE 0, .u256BE 8, .u64BE 40, .u64BE 48]
  | 21 => transcode kind fields 64 [.u64BE 0, .u64BE 8, .u256BE 16, .u64BE 48, .u64BE 56]
  | 22 => transcode kind fields 56 [.u64BE 0, .u64BE 8, .u256BE 16, .u64BE 48]
  | 24 => transcode kind fields 56 [.u64BE 0, .u256BE 8, .u64BE 40, .u64BE 48]
  | 25 => transcode kind fields 96 [.u64BE 0, .u64BE 8, .u64BE 16, .u256BE 24, .u256BE 56,
      .u64BE 88]
  | _ => .error (.unknownActionKind kind)

/-- The action as the kernel encodes it. -/
def cbeAction (kind : ℕ) (fields : Bytes) : Except SignInputError Bytes := do
  let tag ← (uintValue kind).mapError .cbe
  let body ← cbeFields kind fields
  .ok (tag ++ body)

/-- The bytes that the contract has the signature checked against. -/
def signingInput (kind : ℕ) (fields : Bytes) (signer nonce : ℕ) (deploymentId : Bytes) :
    Except SignInputError Bytes := do
  let domain ← (bytesValue DOMAIN).mapError .cbe
  let deployment ← (bytesValue deploymentId).mapError .cbe
  let action ← cbeAction kind fields
  let signer ← (uintValue signer).mapError .cbe
  let nonce ← (uintValue nonce).mapError .cbe
  .ok (domain ++ deployment ++ action ++ signer ++ nonce)

theorem uintValue_of_lt {n : ℕ} (h : n < 2 ^ 64) : uintValue n = .ok (encodeNat n) :=
  uintValue_eq_ok.mpr ⟨h, rfl⟩

@[simp] theorem uintValue_id (a : UInt64) : uintValue a.toNat = .ok (encodeNat a.toNat) :=
  uintValue_of_lt a.toNat_lt

/-- Slots that are written one by one are written together. -/
theorem transcode_eq
    {kind expected : ℕ} {fields body : Bytes} {slots : List Slot} (values : List Bytes)
    (hvalues : List.Forall₂ (fun slot value => slot.value fields = .ok value) slots values)
    (hlen : fields.length = expected := by simp [actionFieldsForL1])
    (hbody : values.flatten = body := by simp [Action.encodeFields]) :
    transcode kind fields expected slots = .ok body := by
  have hmap : slots.mapM (Slot.value fields) = .ok values := by
    have hmap := mapM_of_forall₂ (g := id) hvalues
    rwa [List.map_id] at hmap
  rw [transcode, if_neg (not_not.mpr hlen), hmap, ← hbody]
  rfl

end SignInput

end Knomosis.Signing
