import Knomosis.Contracts.BridgeRoots
import Knomosis.Kernel.WithdrawalRoot
import Knomosis.Lib.Reentrant

/-!
# Redemption of withdrawals

A withdrawal that the bridge pays is the pending withdrawal of its identifier in the
state that the root commits to.  The lowest level of the tree hashes a leaf and its
neighbour without a frame, so the bytes could be cut elsewhere; the layout of an
encoded withdrawal and the identifier inside of it leave one cut only.
-/

namespace Knomosis.Contracts

open Lib Smt Kernel List Nat CBEDecode SparseTree

namespace Bridge

structure PendingWithdrawal.Fits (wd : PendingWithdrawal) : Prop where
  resourceId : wd.resourceId < 2 ^ 64
  amount : wd.amount < 2 ^ 256
  l2LogIndex : wd.l2LogIndex < 2 ^ 64
  wdId : wd.wdId < 2 ^ 64

def PendingWithdrawal.encode (wd : PendingWithdrawal) : Bytes :=
  encodeNat wd.resourceId ++ encodeBytes (beBytes 20 wd.recipientL1.val) ++
    encodeAmount wd.amount ++ encodeNat wd.l2LogIndex ++ encodeNat wd.wdId

theorem PendingWithdrawal.encode_length (wd : PendingWithdrawal) : wd.encode.length = 89 := by
  simp [PendingWithdrawal.encode, encodeBytes_length]

theorem decodePendingWithdrawal_eq_ok {leafBlob : List UInt8} {wd : PendingWithdrawal}
    (h : decodePendingWithdrawal leafBlob = .ok wd) : wd.Fits ∧ leafBlob = wd.encode := by
  obtain ⟨⟨resourceId, off1⟩, h1, h⟩ := bind_eq_ok.mp h
  obtain ⟨⟨recipientL1, off2⟩, h2, h⟩ := bind_eq_ok.mp h
  obtain ⟨⟨amount, off3⟩, h3, h⟩ := bind_eq_ok.mp h
  obtain ⟨⟨l2LogIndex, off4⟩, h4, h⟩ := bind_eq_ok.mp h
  obtain ⟨⟨wdId, off5⟩, h5, h⟩ := bind_eq_ok.mp h
  obtain ⟨⟨⟩, hend, h⟩ := bind_eq_ok.mp h
  obtain ⟨hend, -⟩ := guard_eq_ok.mp hend
  cases h
  obtain ⟨hresource, -, hd1⟩ := readUint_eq_ok.mp h1
  obtain ⟨-, hd2⟩ := readAddressExact_eq_ok h2
  obtain ⟨hamount, -, hd3⟩ := readAmount_eq_ok.mp h3
  obtain ⟨hindex, -, hd4⟩ := readUint_eq_ok.mp h4
  obtain ⟨hid, -, hd5⟩ := readUint_eq_ok.mp h5
  refine ⟨⟨hresource, hamount, hindex, hid⟩, ?_⟩
  have hnil : leafBlob.drop off5 = [] := by
    rw [show off5 = leafBlob.length from not_not.mp hend, drop_length]
  rw [drop_zero] at hd1
  rw [hd1, hd2, hd3, hd4, hd5, hnil, PendingWithdrawal.encode]
  simp only [append_assoc, append_nil]

theorem PendingWithdrawal.encode_injective {wd wd' : PendingWithdrawal} (hfits : wd.Fits)
    (hfits' : wd'.Fits) (h : wd.encode = wd'.encode) : wd = wd' := by
  obtain ⟨h, hid⟩ := append_inj h (by simp [encodeBytes_length])
  obtain ⟨h, hindex⟩ := append_inj h (by simp [encodeBytes_length])
  obtain ⟨h, hamount⟩ := append_inj h (by simp [encodeBytes_length])
  obtain ⟨hresource, hrecipient⟩ := append_inj h (by simp)
  have haddress : beBytes 20 wd.recipientL1.val = beBytes 20 wd'.recipientL1.val := by
    rw [encodeBytes, encodeBytes, beBytes_length, beBytes_length] at hrecipient
    exact append_cancel_left hrecipient
  have hr := encodeNat_injective hfits.resourceId hfits'.resourceId hresource
  have ha := encodeAmount_injective hfits.amount hfits'.amount hamount
  have hi := encodeNat_injective hfits.l2LogIndex hfits'.l2LogIndex hindex
  have hw := encodeNat_injective hfits.wdId hfits'.wdId hid
  have hp := Fin.ext (beBytes_injective (by simp) (by simp) haddress)
  cases wd
  cases wd'
  simp_all

def ofKernel (wd : Kernel.PendingWithdrawal) : PendingWithdrawal :=
  ⟨wd.resource.toNat, wd.recipient, wd.amount, wd.l2LogIndex, wd.wdId⟩

section Cut

variable {b : BridgeState} {k : ℕ}

theorem pendingLeaf_cases (b : BridgeState) (k : ℕ) :
    (pendingLeaf b k).length = 89 ∨ (b.pending[k]? = none ∧ pendingLeaf b k = emptyLeafHash) := by
  rw [pendingLeaf, leafOf]
  cases hk : b.pending[k]? with
  | none => exact Or.inr ⟨rfl, rfl⟩
  | some wd => exact Or.inl (ofKernel wd).encode_length

/-- On the left side no leaf of zeros fits in front: a withdrawal has the type of its recipient in
its tenth byte. -/
theorem cut_left {wd : PendingWithdrawal} {s right : Bytes}
    (h : wd.encode ++ s = pendingLeaf b k ++ right) : wd.encode = pendingLeaf b k := by
  rcases pendingLeaf_cases b k with hlen | ⟨-, hempty⟩
  · exact (append_inj h (by rw [hlen, wd.encode_length])).1
  have htag : (wd.encode ++ s)[9]? = some cbeTagBytes := by
    simp only [PendingWithdrawal.encode, append_assoc]
    rw [List.getElem?_append_right (by simp)]
    simp [encodeBytes, cborHeadEncode, headEncode_eq]
  rw [h, hempty, emptyLeafHash, List.getElem?_append_left (by simp)] at htag
  simp [cbeTagBytes] at htag

/-- On the right side no leaf of zeros fits behind: the identifier would be zero, which is on the
left. -/
theorem cut_right {wd : PendingWithdrawal} {s left : Bytes} (hfits : wd.Fits)
    (hodd : wd.wdId % 2 = 1) (h : s ++ wd.encode = left ++ pendingLeaf b k) :
    wd.encode = pendingLeaf b k := by
  rcases pendingLeaf_cases b k with hlen | ⟨-, hempty⟩
  · exact (append_inj' h (by rw [hlen, wd.encode_length])).2
  have hzeros : emptyLeafHash = List.replicate 23 0 ++ encodeNat 0 := by decide
  rw [hempty, hzeros, PendingWithdrawal.encode, ← append_assoc, ← append_assoc left] at h
  have hid := (append_inj' h (by simp)).2
  have hzero := encodeNat_injective hfits.wdId (by decide) hid
  omega

end Cut

section Climb

variable [Keccak]

/-- The strings that are hashed on the way from a leaf to the root of a state. -/
def pathInputs (b : BridgeState) (k : ℕ) : List Bytes :=
  (pathPairs joinBytes (pendingLeaf b) k smtHeight).map (fun p => p.1 ++ p.2)

/-- The strings that a call hashes. -/
def callInputs (proofBlob leafBlob : List UInt8) : List Bytes :=
  leafBlob ::
    match decodeWithdrawalProof proofBlob with
    | .error _ => []
    | .ok proof =>
      proof.leaf :: (climbPairs joinBytes proof.index proof.leaf
        proof.siblings.reverse).map (fun p => p.1 ++ p.2)

def WordPair (p : Bytes × Bytes) : Prop := p.1.length = 32 ∧ p.2.length = 32

theorem joinBytes_length (x y : Bytes) : (joinBytes x y).length = 32 := bytes32Bytes_length _

variable {i : ℕ} {n s : Bytes} {p : Bytes × Bytes} {S : Set Bytes}

omit [Keccak] in
theorem wordPair_pair (hn : n.length = 32) (hs : s.length = 32) :
    WordPair (SparseTree.pair i n s) := by
  rw [SparseTree.pair]
  split_ifs
  · exact ⟨hs, hn⟩
  · exact ⟨hn, hs⟩

theorem wordPair_of_mem_climbPairs {siblings : List Bytes} (hn : n.length = 32)
    (hsiblings : ∀ s ∈ siblings, s.length = 32)
    (hp : p ∈ climbPairs joinBytes i n siblings) : WordPair p := by
  induction siblings generalizing i n with
  | nil => cases hp
  | cons s _ ih =>
    have hs := hsiblings s mem_cons_self
    rcases mem_cons.mp hp with rfl | hp
    · exact wordPair_pair hn hs
    · exact ih (joinBytes_length _ _) (fun s' hs' => hsiblings s' (mem_cons_of_mem s hs')) hp

theorem wordPair_of_mem_pathPairs {leaf : ℕ → Bytes} {d : ℕ} (hleaf : ∀ k, (leaf k).length = 32)
    (hp : p ∈ pathPairs joinBytes leaf i d) : WordPair p := by
  induction d generalizing leaf i with
  | zero => cases hp
  | succ d ih =>
    rcases mem_cons.mp hp with rfl | hp
    · exact ⟨hleaf _, hleaf _⟩
    · exact ih (fun k => joinBytes_length _ _) hp

theorem injOn_joinBytes {P : Set (Bytes × Bytes)} (hinj : Set.InjOn keccak256 S)
    (hwords : ∀ p ∈ P, WordPair p) (hinputs : ∀ p ∈ P, p.1 ++ p.2 ∈ S) :
    Set.InjOn (fun p : Bytes × Bytes => joinBytes p.1 p.2) P := by
  intro p hp q hq h
  have hstring := hinj (hinputs p hp) (hinputs q hq) (bytes32Bytes_injective h)
  obtain ⟨h1, h2⟩ := append_inj hstring ((hwords p hp).1.trans (hwords q hq).1.symm)
  exact Prod.ext h1 h2

/-- A climb to the root of a state starts with the strings that the tree has at the bottom. -/
theorem bottom_of_climb {bs : BridgeState} {k : ℕ} {leaf : Bytes} {upper : List Bytes}
    (hinj : Set.InjOn keccak256 S)
    (hcall : ∀ p ∈ climbPairs joinBytes k leaf (s :: upper), p.1 ++ p.2 ∈ S)
    (hpath : ∀ x ∈ pathInputs bs k, x ∈ S) (hupper : ∀ s ∈ upper, s.length = 32)
    (hlen : upper.length = 63) (hk : k < 2 ^ 64)
    (h : SparseTree.climb joinBytes k leaf (s :: upper) =
      node joinBytes (pendingLeaf bs) 64 0) :
    (pair k leaf s).1 ++ (pair k leaf s).2 =
      pendingLeaf bs (2 * (k / 2)) ++ pendingLeaf bs (2 * (k / 2) + 1) := by
  have hpath' : ∀ p ∈ pathPairs joinBytes (pendingLeaf bs) k 64, p.1 ++ p.2 ∈ S :=
    fun p hp => hpath _ (mem_map.mpr ⟨p, hp, rfl⟩)
  rw [SparseTree.climb, ← node_parents] at h
  have hzero : k / 2 / 2 ^ upper.length = 0 := by
    rw [hlen]
    exact div_eq_of_lt (by omega)
  have hwords : ∀ p, p ∈ climbPairs joinBytes (k / 2)
        (joinBytes (pair k leaf s).1 (pair k leaf s).2) upper ∨
      p ∈ pathPairs joinBytes (parents joinBytes (pendingLeaf bs)) (k / 2)
        upper.length → WordPair p := by
    rintro p (hp | hp)
    · exact wordPair_of_mem_climbPairs (joinBytes_length _ _) hupper hp
    · exact wordPair_of_mem_pathPairs (fun _ => joinBytes_length _ _) hp
  have hinputs : ∀ p, p ∈ climbPairs joinBytes (k / 2)
        (joinBytes (pair k leaf s).1 (pair k leaf s).2) upper ∨
      p ∈ pathPairs joinBytes (parents joinBytes (pendingLeaf bs)) (k / 2)
        upper.length → p.1 ++ p.2 ∈ S := by
    rintro p (hp | hp)
    · exact hcall p (mem_cons_of_mem _ hp)
    · rw [hlen] at hp
      exact hpath' p (mem_cons_of_mem _ hp)
  have hup := eq_leaf_of_climb (injOn_joinBytes hinj hwords hinputs)
    (by rw [h, hzero, hlen])
  exact hinj (hcall _ mem_cons_self) (hpath' (_, _) mem_cons_self) (bytes32Bytes_injective hup)

end Climb

section Soundness

variable [Keccak] {cfg : BridgeConfig} {b b' : Bridge} {block : Block} {k : ℕ}
  {proofBlob leafBlob : List UInt8} {wd : PendingWithdrawal}

def hashBytes (bs : Bytes) : Bytes := bytes32Bytes (keccak256 bs)

structure Redeemed (cfg : BridgeConfig) (b : Bridge) (block : Block) (k : ℕ)
    (proofBlob leafBlob : List UInt8) (wd : PendingWithdrawal) (root : Bytes32)
    (proof : WithdrawalProof) : Prop where
  leafRead : decodePendingWithdrawal leafBlob = .ok wd
  rootRead : b.redeemableRoot cfg block k = .ok root
  fresh : b.withdrawalLeafRedeemed (keccak256 leafBlob) = false
  proofRead : decodeWithdrawalProof proofBlob = .ok proof
  sameHash : keccak256 proof.leaf = keccak256 leafBlob
  sameIndex : proof.index = wd.wdId
  recomputed : recomputeRoot proof.index proof.leaf proof.siblings = .ok root

theorem withdrawWithProof_eq_ok
    (h : b.withdrawWithProof cfg block k proofBlob leafBlob = .ok (b', wd)) :
    (∃ root proof, Redeemed cfg b block k proofBlob leafBlob wd root proof) ∧
      b'.withdrawalLeafRedeemed =
        Function.update b.withdrawalLeafRedeemed (keccak256 leafBlob) true := by
  obtain ⟨-, h⟩ := guard_eq_ok.mp h
  obtain ⟨wd', hleaf, h⟩ := bind_eq_ok.mp h
  obtain ⟨-, h⟩ := guard_eq_ok.mp h
  obtain ⟨root, hroot, h⟩ := bind_eq_ok.mp h
  obtain ⟨hfresh, h⟩ := guard_eq_ok.mp h
  obtain ⟨proof, hproof, h⟩ := bind_eq_ok.mp h
  obtain ⟨hhash, h⟩ := guard_eq_ok.mp h
  obtain ⟨hindex, h⟩ := guard_eq_ok.mp h
  obtain ⟨verified, hverified, h⟩ := bind_eq_ok.mp h
  obtain ⟨htrue, h⟩ := guard_eq_ok.mp h
  obtain ⟨-, h⟩ := guard_eq_ok.mp h
  obtain ⟨-, h⟩ := guard_eq_ok.mp h
  obtain ⟨-, h⟩ := guard_eq_ok.mp h
  cases h
  obtain ⟨recomputed, hrecomputed, heq⟩ := bind_eq_ok.mp (mapError_eq_ok.mp hverified)
  have hsame : recomputed = root := by
    cases heq
    simpa using htrue
  subst hsame
  exact ⟨⟨recomputed, proof, mapError_eq_ok.mp hleaf, hroot, Bool.not_eq_true _ ▸ hfresh, hproof,
    not_not.mp hhash, not_not.mp hindex, hrecomputed⟩, rfl⟩

/-- The withdrawals of a state are filed under their identifiers and fit their fields. -/
def Representable (bs : BridgeState) : Prop :=
  ∀ (k : ℕ) w, bs.pending[k]? = some w →
    k < 2 ^ 64 ∧ w.wdId = k ∧ w.amount < 2 ^ 256 ∧ w.l2LogIndex < 2 ^ 64

/-- No two strings that the call or the tree hashes on the way to the root collide. -/
def CollisionFree (bs : BridgeState) (k : ℕ) (proofBlob leafBlob : List UInt8) : Prop :=
  Set.InjOn keccak256 {x | x ∈ callInputs proofBlob leafBlob ∨ x ∈ pathInputs bs k}

/-- What is redeemed is the pending withdrawal of its identifier, byte for byte. -/
theorem Redeemed.pending {root : Bytes32} {proof : WithdrawalProof} {bs : BridgeState}
    (h : Redeemed cfg b block k proofBlob leafBlob wd root proof)
    (hroot : bytes32Bytes root = withdrawalRoot hashBytes bs) (hbs : Representable bs)
    (hinj : CollisionFree bs wd.wdId proofBlob leafBlob) :
    ∃ w, bs.pending[wd.wdId]? = some w ∧ wd = ofKernel w ∧ leafBlob = leafBytes w := by
  obtain ⟨hfits, hblob⟩ := decodePendingWithdrawal_eq_ok h.leafRead
  obtain ⟨s, upper, hrev, hlen, hupper, hclimb⟩ := recomputeRoot_eq_ok h.recomputed
  have hinputs : callInputs proofBlob leafBlob = leafBlob :: proof.leaf ::
      (SparseTree.climbPairs joinBytes proof.index proof.leaf (s :: upper)).map
        (fun p => p.1 ++ p.2) := by
    rw [callInputs, h.proofRead]
    simp only [hrev]
  have hleaf : proof.leaf = leafBlob :=
    hinj (Or.inl (by simp [hinputs])) (Or.inl (by simp [hinputs])) h.sameHash
  rw [h.sameIndex, hleaf] at hinputs hclimb
  have hnode := withdrawalRoot_eq_node (H := hashBytes) (fun k w hk => (hbs k w hk).1)
  rw [hroot, hnode] at hclimb
  have hbottom := bottom_of_climb hinj (fun p hp => Or.inl (by
      rw [hinputs]
      exact .tail _ (.tail _ (mem_map.mpr ⟨p, hp, rfl⟩))))
    (fun x hx => Or.inr hx) hupper hlen hfits.wdId hclimb.symm
  -- the cut between the leaf and its neighbour
  have hcut : wd.encode = pendingLeaf bs wd.wdId := by
    rw [hblob, SparseTree.pair] at hbottom
    split_ifs at hbottom with hodd
    · have hk : 2 * (wd.wdId / 2) + 1 = wd.wdId := by omega
      rw [hk] at hbottom
      exact cut_right hfits hodd hbottom
    · have hk : 2 * (wd.wdId / 2) = wd.wdId := by omega
      rw [hk] at hbottom
      exact cut_left hbottom
  cases hw : bs.pending[wd.wdId]? with
  | none =>
    have hlength := congrArg List.length hcut
    rw [wd.encode_length, pendingLeaf, hw] at hlength
    cases hlength
  | some w =>
    obtain ⟨-, hid, hamount, hindex⟩ := hbs _ w hw
    rw [pendingLeaf, hw] at hcut
    have hfits' : (ofKernel w).Fits :=
      ⟨w.resource.toNat_lt, hamount, hindex, lt_of_eq_of_lt hid hfits.wdId⟩
    exact ⟨w, rfl, PendingWithdrawal.encode_injective hfits hfits' hcut, hblob.trans hcut⟩

end Soundness

section System

/-- A withdrawal that was paid: the call and the root it was redeemed against. -/
structure Payment where
  atLogIndexHigh : ℕ
  root : Bytes32
  proofBlob : List UInt8
  leafBlob : List UInt8
  withdrawal : PendingWithdrawal
deriving DecidableEq

/-- The bridge with the payments it has made, the last one first. -/
structure World where
  bridge : Bridge
  paid : List Payment

/-- Calls on the bridge, and calls of others during a transfer. -/
inductive Call where
  | roots (call : RootCall)
  | withdrawWithProof (block : Block) (atLogIndexHigh : ℕ) (proofBlob leafBlob : List UInt8)
  | outside

/-- What is still to be done after a transfer. -/
inductive Pending where
  | withdraw
  | outside
deriving DecidableEq

variable [Keccak] [Ecdsa] (cfg : BridgeConfig)

/-- A call up to its transfer, if it makes one. -/
def act (w : World) : Call → Except BridgeError (World × Option Pending)
  | .roots call => do
    let b ← stepRoots cfg w.bridge call
    .ok ({ w with bridge := b }, none)
  | .withdrawWithProof block k proofBlob leafBlob => do
    let (b, wd) ← w.bridge.withdrawWithProof cfg block k proofBlob leafBlob
    let root ← w.bridge.redeemableRoot cfg block k
    .ok (⟨b, ⟨k, root, proofBlob, leafBlob, wd⟩ :: w.paid⟩, some .withdraw)
  | .outside => .ok (w, some .outside)

/-- What a call does after its transfer. -/
def rest : Pending → World → Option World
  | .withdraw, w => some { w with bridge := { w.bridge with entered := false } }
  | .outside, w => some w

/-- The bridge under any calls, also during transfers. -/
def system : Reentrant World Call Pending where
  act w c := (act cfg w c).toOption
  rest := rest

end System

section Runs

variable [Keccak] {cfg : BridgeConfig}

/-- A payment passed the checks in some state of the bridge. -/
def Payment.Checked (cfg : BridgeConfig) (p : Payment) : Prop :=
  ∃ b block proof, Redeemed cfg b block p.atLogIndexHigh p.proofBlob p.leafBlob p.withdrawal p.root
    proof

/-- Payments passed the checks, and their leaves are redeemed and differ. -/
structure PaidLaw (cfg : BridgeConfig) (w : World) : Prop where
  checked : ∀ p ∈ w.paid, p.Checked cfg
  redeemed : ∀ p ∈ w.paid, w.bridge.withdrawalLeafRedeemed (keccak256 p.leafBlob) = true
  once : w.paid.Pairwise (fun p q => keccak256 p.leafBlob ≠ keccak256 q.leafBlob)

theorem PaidLaw.pay
    {w : World} {block : Block} {k : ℕ} {proofBlob leafBlob : List UInt8} {b : Bridge}
    {wd : PendingWithdrawal} {root : Bytes32} (hlaw : PaidLaw cfg w)
    (h : w.bridge.withdrawWithProof cfg block k proofBlob leafBlob = .ok (b, wd))
    (hroot : w.bridge.redeemableRoot cfg block k = .ok root) :
    PaidLaw cfg ⟨b, ⟨k, root, proofBlob, leafBlob, wd⟩ :: w.paid⟩ := by
  obtain ⟨⟨root', proof, hredeemed⟩, hwritten⟩ := withdrawWithProof_eq_ok h
  obtain rfl := Except.ok.inj (hroot.symm.trans hredeemed.rootRead)
  refine ⟨?_, ?_, pairwise_cons.mpr ⟨?_, hlaw.once⟩⟩
  · intro p hp
    rcases mem_cons.mp hp with rfl | hp
    · exact ⟨w.bridge, block, proof, hredeemed⟩
    · exact hlaw.checked p hp
  · intro p hp
    rw [hwritten]
    by_cases hsame : keccak256 p.leafBlob = keccak256 leafBlob
    · rw [hsame, Function.update_self]
    · rw [Function.update_of_ne hsame]
      rcases mem_cons.mp hp with rfl | hp
      · exact absurd rfl hsame
      · exact hlaw.redeemed p hp
  · intro p hp hsame
    have hbefore := hlaw.redeemed p hp
    rw [← hsame] at hbefore
    exact Bool.false_ne_true (hredeemed.fresh.symm.trans hbefore)

theorem PaidLaw.frame {w : World} {b : Bridge} (hlaw : PaidLaw cfg w)
    (hsame : b.withdrawalLeafRedeemed = w.bridge.withdrawalLeafRedeemed) :
    PaidLaw cfg { w with bridge := b } :=
  ⟨hlaw.checked, fun p hp => hsame ▸ hlaw.redeemed p hp, hlaw.once⟩

theorem PaidLaw.act [Ecdsa] {w w' : World} {c : Call} {t : Option Pending} (hlaw : PaidLaw cfg w)
    (h : Bridge.act cfg w c = .ok (w', t)) : PaidLaw cfg w' := by
  cases c with
  | roots =>
    obtain ⟨b, hb, h⟩ := bind_eq_ok.mp h
    cases h
    exact hlaw.frame (stepRoots_redeemed hb)
  | withdrawWithProof =>
    obtain ⟨⟨b, wd⟩, hb, h⟩ := bind_eq_ok.mp h
    obtain ⟨root, hroot, h⟩ := bind_eq_ok.mp h
    cases h
    exact hlaw.pay hb hroot
  | outside =>
    cases h
    exact hlaw

theorem PaidLaw.rest {w w' : World} {t : Pending} (hlaw : PaidLaw cfg w)
    (h : Bridge.rest t w = some w') : PaidLaw cfg w' := by
  cases t with
  | withdraw =>
    cases h
    exact hlaw.frame rfl
  | outside =>
    cases h
    exact hlaw

def World.deployed : World := ⟨Bridge.deployed, []⟩

theorem paidLaw_of_run
    [Ecdsa] {h : List (Entry (Reentrant.Config World Pending) (Reentrant.Event Call) Unit)}
    {c : Reentrant.Config World Pending}
    (hrun : Run (system cfg).machine ⟨World.deployed, []⟩ h c) : PaidLaw cfg c.world :=
  (Reentrant.invariant (I := fun w _ => PaidLaw cfg w)
    ⟨fun _ hp => absurd hp not_mem_nil, fun _ hp => absurd hp not_mem_nil, .nil⟩
    (fun _ _ _ _ _ hlaw hact => hlaw.act (toOption_eq_some.mp hact))
    (fun _ _ _ _ hlaw hrest => hlaw.rest hrest) hrun).1

/-- The root of a payment is the withdrawal root of a state. -/
def Payment.Backed (p : Payment) (bs : BridgeState) : Prop :=
  bytes32Bytes p.root = withdrawalRoot hashBytes bs ∧ Representable bs ∧
    CollisionFree bs p.withdrawal.wdId p.proofBlob p.leafBlob

/-- A call that is not reverted pays the recipient, resource and amount of the pending withdrawal
with the identifier of the leaf; and in every run two payments against roots of one history are of
withdrawals with different identifiers. -/
theorem withdrawal_redemption_sound [Ecdsa] (cfg : BridgeConfig) :
    (∀ (b b' : Bridge) block k proofBlob leafBlob wd record (bs : BridgeState),
      b.withdrawWithProof cfg block k proofBlob leafBlob = .ok (b', wd) →
      b.stateRoots k = some record → bytes32Bytes record.root = withdrawalRoot hashBytes bs →
      Representable bs → CollisionFree bs wd.wdId proofBlob leafBlob →
        ∃ w, bs.pending[wd.wdId]? = some w ∧ wd.recipientL1 = w.recipient ∧
          wd.resourceId = w.resource.toNat ∧ wd.amount = w.amount) ∧
    ∀ h c, Run (system cfg).machine ⟨World.deployed, []⟩ h c →
      ∀ hist : L2History, c.world.paid.Pairwise (fun p q => ∀ m n,
        p.Backed (hist.states m) → q.Backed (hist.states n) →
          p.withdrawal.wdId ≠ q.withdrawal.wdId) := by
  constructor
  · intro b b' block k proofBlob leafBlob wd record bs h hrecord hroot hbs hinj
    obtain ⟨⟨root, proof, hredeemed⟩, -⟩ := withdrawWithProof_eq_ok h
    have hsame : record.root = root := by
      have hred := hredeemed.rootRead
      rw [redeemableRoot, hrecord] at hred
      dsimp only at hred
      split_ifs at hred
      exact Except.ok.inj hred
    obtain ⟨w, hw, rfl, -⟩ := hredeemed.pending (hsame ▸ hroot) hbs hinj
    exact ⟨w, hw, rfl, rfl, rfl⟩
  · intro h c hrun hist
    have hlaw := paidLaw_of_run hrun
    refine hlaw.once.imp_of_mem ?_
    rintro p q hp hq hne m n ⟨hrootp, hrepp, hinjp⟩ ⟨hrootq, hrepq, hinjq⟩ hsame
    obtain ⟨bp, blockp, proofp, hcheckp⟩ := hlaw.checked p hp
    obtain ⟨bq, blockq, proofq, hcheckq⟩ := hlaw.checked q hq
    obtain ⟨wp, hwp, -, hleafp⟩ := hcheckp.pending hrootp hrepp hinjp
    obtain ⟨wq, hwq, -, hleafq⟩ := hcheckq.pending hrootq hrepq hinjq
    -- one identifier, one withdrawal, one leaf
    rw [← hsame] at hwq
    have hsameWd := hist.pending_unique hwp hwq
    exact hne (by rw [hleafp, hleafq, hsameWd])

end Runs

section Blob

def WithdrawalProof.encode (proof : WithdrawalProof) : Bytes :=
  encodeBytes proof.leaf ++ (encodeNat proof.index ++
    (cborHeadEncode cbeTagArray SMT_HEIGHT ++ proof.siblings.flatMap encodeBytes))

theorem readSiblings_of_drop {buf : List UInt8} {siblings : List Bytes} {off : ℕ}
    (hsizes : ∀ s ∈ siblings, s.length < 2 ^ 64) (hoff : off ≤ buf.length)
    (h : buf.drop off = siblings.flatMap encodeBytes) :
    readSiblings buf siblings.length off = .ok (siblings, buf.length) := by
  induction siblings generalizing off with
  | nil =>
    have hlen := congrArg List.length h
    rw [length_drop, flatMap_nil, length_nil] at hlen
    rw [length_nil, readSiblings, show off = buf.length by omega]
  | cons s _ ih =>
    rw [flatMap_cons] at h
    obtain ⟨hread, hrest⟩ := readBytes_of_drop (hsizes s mem_cons_self) h
    have hlen := length_of_drop h (ne_nil_of_length_pos (by
      rw [encodeBytes_length]
      omega))
    rw [encodeBytes_length] at hlen
    have hnext := ih (fun t ht => hsizes t (mem_cons_of_mem s ht)) (by omega) hrest
    rw [length_cons, readSiblings, hread, ok_bind]
    simp only
    rw [hnext]
    rfl

theorem decodeWithdrawalProof_encode {proof : WithdrawalProof} (hleaf : proof.leaf.length < 2 ^ 64)
    (hindex : proof.index < 2 ^ 64) (hheight : proof.siblings.length = SMT_HEIGHT)
    (hsizes : ∀ s ∈ proof.siblings, s.length < 2 ^ 64) :
    decodeWithdrawalProof proof.encode = .ok proof := by
  obtain ⟨h1, h⟩ := readBytes_of_drop hleaf
    (show proof.encode.drop 0 = encodeBytes proof.leaf ++ _ from rfl)
  obtain ⟨h2, h⟩ := readUint_of_drop hindex h
  obtain ⟨h3, h⟩ := readArrayHead_of_drop (by decide) h
  have h4 := readSiblings_of_drop hsizes (by
    rw [WithdrawalProof.encode, length_append, encodeBytes_length, length_append,
      encodeNat_length, length_append]
    have hhead : (cborHeadEncode cbeTagArray SMT_HEIGHT).length = 9 := by decide
    omega) h
  rw [hheight] at h4
  rw [decodeWithdrawalProof, h1]
  simp only [Except.mapError, ok_bind, h2, h3, ne_eq, not_true_eq_false, if_false, h4,
    assertFullyConsumed]

def honestProof [Keccak] (bs : BridgeState) (k : ℕ) : WithdrawalProof where
  leaf := pendingLeaf bs k
  index := k
  siblings := (siblings joinBytes (pendingLeaf bs) k SMT_HEIGHT).reverse

end Blob

section Sample

open Std (TreeMap)

/-- Two words hash to one more than the larger of them, and other strings to their length. -/
abbrev countKeccak : Keccak where
  keccak256 := fun bs =>
    if bs.length = 64 then BitVec.ofNat 256 (1 + max (beNat (bs.take 32)) (beNat (bs.drop 32)))
    else BitVec.ofNat 256 (1000 + bs.length)

def sampleWithdrawal : Kernel.PendingWithdrawal := ⟨0, 7, 5, 3, 0⟩

def sampleState : BridgeState :=
  { BridgeState.empty with
    pending := (∅ : TreeMap WithdrawalId Kernel.PendingWithdrawal compare).insert 0 sampleWithdrawal
    nextWdId := 1 }

def sampleProof : WithdrawalProof := @honestProof countKeccak sampleState 0

/-- The root of the state is final in block 11. -/
def sampleFinal : Bridge :=
  { Bridge.deployed with
    stateRoots := Function.update Bridge.deployed.stateRoots 1 (some ⟨BitVec.ofNat 256 1184, 1, 1⟩)
    totalLockedValue := 100 }

theorem sampleState_pending (k : ℕ) :
    sampleState.pending[k]? = if k = 0 then some sampleWithdrawal else none := by
  simp only [sampleState, TreeMap.getElem?_insert, compare_eq_iff_eq, eq_comm (a := 0),
    TreeMap.getElem?_emptyc]

theorem countKeccak_words (a b : ℕ) (ha : a < 2 ^ 256) (hb : b < 2 ^ 256) :
    @joinBytes countKeccak (bytes32Bytes (BitVec.ofNat 256 a)) (bytes32Bytes (BitVec.ofNat 256 b)) =
      bytes32Bytes (BitVec.ofNat 256 (1 + max a b)) := by
  have htake : (bytes32Bytes (BitVec.ofNat 256 a) ++ bytes32Bytes (BitVec.ofNat 256 b)).take 32 =
      bytes32Bytes (BitVec.ofNat 256 a) := take_left' (bytes32Bytes_length _)
  have hdrop : (bytes32Bytes (BitVec.ofNat 256 a) ++ bytes32Bytes (BitVec.ofNat 256 b)).drop 32 =
      bytes32Bytes (BitVec.ofNat 256 b) := drop_left' (bytes32Bytes_length _)
  have hlen : (bytes32Bytes (BitVec.ofNat 256 a) ++ bytes32Bytes (BitVec.ofNat 256 b)).length =
      64 := by
    simp
  change bytes32Bytes (if _ = 64 then _ else _) = _
  rw [if_pos hlen, htake, hdrop, beNat_bytes32Bytes, beNat_bytes32Bytes, BitVec.toNat_ofNat,
    BitVec.toNat_ofNat, mod_eq_of_lt ha, mod_eq_of_lt hb]

theorem sample_node_empty {j c : ℕ} (hj : j ≤ 64) (hc : 0 < c) :
    node (@joinBytes countKeccak) (pendingLeaf sampleState) j c =
      bytes32Bytes (BitVec.ofNat 256 j) := by
  induction j generalizing c with
  | zero =>
    rw [node, pendingLeaf, sampleState_pending, if_neg hc.ne']
    decide
  | succ j ih =>
    rw [node, ih (by omega) (by omega), ih (by omega) (by omega),
      countKeccak_words j j (by omega) (by omega), max_self, add_comm]

theorem sample_node_path {j : ℕ} (hj : j ≤ 63) :
    node (@joinBytes countKeccak) (pendingLeaf sampleState) (j + 1) 0 =
      bytes32Bytes (BitVec.ofNat 256 (1121 + j)) := by
  induction j with
  | zero =>
    rw [node, node, node, pendingLeaf, pendingLeaf,
      sampleState_pending, sampleState_pending]
    decide +kernel
  | succ j ih =>
    rw [node, mul_zero, ih (by omega), sample_node_empty (by omega) (by omega),
      countKeccak_words _ _ (by omega) (by omega), max_eq_left (by omega), add_comm 1]
    rfl

theorem sample_representable : Representable sampleState := by
  intro k w hk
  rw [sampleState_pending] at hk
  split_ifs at hk with hzero
  cases hk
  subst hzero
  decide

/-- The strings that are hashed on the way to the root, the withdrawal first. -/
def sampleStrings : List Bytes :=
  leafBytes sampleWithdrawal :: (leafBytes sampleWithdrawal ++ bytes32Bytes 0) ::
    (List.range 63).map fun j =>
      bytes32Bytes (BitVec.ofNat 256 (1121 + j)) ++ bytes32Bytes (BitVec.ofNat 256 (j + 1))

theorem sampleLeaf : pendingLeaf sampleState 0 = leafBytes sampleWithdrawal := by
  rw [pendingLeaf, sampleState_pending, if_pos rfl]
  rfl

theorem sampleProof_eq :
    sampleProof = ⟨leafBytes sampleWithdrawal, 0,
      ((List.range 64).map fun j => bytes32Bytes (BitVec.ofNat 256 j)).reverse⟩ := by
  unfold sampleProof honestProof
  rw [sampleLeaf, siblings_zero]
  refine congrArg (fun l => WithdrawalProof.mk (leafBytes sampleWithdrawal) 0 (List.reverse l))
    (map_congr_left fun j hj => sample_node_empty ?_ one_pos)
  exact (mem_range.mp hj).le

theorem sampleProof_read : decodeWithdrawalProof sampleProof.encode = .ok sampleProof := by
  rw [sampleProof_eq]
  refine decodeWithdrawalProof_encode (by decide) (by decide) (by decide) ?_
  decide +kernel

theorem sample_collisionFree :
    @CollisionFree countKeccak sampleState 0 sampleProof.encode (leafBytes sampleWithdrawal) := by
  have hnodup : (sampleStrings.map (@keccak256 countKeccak)).Nodup := by decide +kernel
  have hcall : @callInputs countKeccak sampleProof.encode (leafBytes sampleWithdrawal) =
      leafBytes sampleWithdrawal :: sampleStrings := by
    unfold callInputs
    rw [sampleProof_read, sampleProof_eq]
    decide +kernel
  have hpath : ∀ x ∈ @pathInputs countKeccak sampleState 0, x ∈ sampleStrings := by
    intro x hx
    obtain ⟨p, hp, rfl⟩ := mem_map.mp hx
    obtain ⟨j, hj, rfl⟩ := mem_pathPairs.mp hp
    simp only [Nat.zero_div, Nat.mul_zero, Nat.zero_add]
    have hj : j < 64 := hj
    rw [sample_node_empty (Nat.le_of_lt hj) Nat.one_pos]
    cases j with
    | zero =>
      rw [node, sampleLeaf]
      simp [sampleStrings]
    | succ j =>
      rw [sample_node_path (by omega)]
      exact .tail _ (mem_cons_of_mem _
        (mem_map.mpr ⟨j, mem_range.mpr (Nat.lt_of_succ_lt_succ hj), rfl⟩))
  have hall : ∀ x, x ∈ @callInputs countKeccak sampleProof.encode (leafBytes sampleWithdrawal) ∨
      x ∈ @pathInputs countKeccak sampleState 0 → x ∈ sampleStrings := by
    rintro x (hx | hx)
    · rw [hcall] at hx
      exact (mem_cons.mp hx).elim (fun h => h ▸ .head _) id
    · exact hpath x hx
  exact fun x hx y hy h => inj_on_of_nodup_map hnodup (hall x hx) (hall y hy) h

/-- The one pending withdrawal is paid to its recipient. -/
theorem withdrawal_redemption_sound_one :
    ∃ b' wd, @Bridge.withdrawWithProof countKeccak sampleBridge sampleFinal
        ⟨11, by decide, by decide⟩ 1 sampleProof.encode (leafBytes sampleWithdrawal) =
          .ok (b', wd) ∧
      ∃ w, sampleState.pending[wd.wdId]? = some w ∧ wd.recipientL1 = w.recipient ∧
        wd.resourceId = w.resource.toNat ∧ wd.amount = w.amount := by
  have hroot : bytes32Bytes (BitVec.ofNat 256 1184) =
      withdrawalRoot (@hashBytes countKeccak) sampleState := by
    rw [withdrawalRoot_eq_node (fun k w hk => (sample_representable k w hk).1)]
    exact (sample_node_path (le_refl 63)).symm
  have hpaid : (@Bridge.withdrawWithProof countKeccak sampleBridge sampleFinal
      ⟨11, by decide, by decide⟩ 1 sampleProof.encode
        (leafBytes sampleWithdrawal)).toOption.map Prod.snd = some (ofKernel sampleWithdrawal) := by
    unfold Bridge.withdrawWithProof
    rw [sampleProof_read, sampleProof_eq]
    decide +kernel
  obtain ⟨⟨b', wd⟩, hcall, rfl⟩ := Option.map_eq_some_iff.mp hpaid
  have hcall := toOption_eq_some.mp hcall
  exact ⟨b', _, hcall, (@withdrawal_redemption_sound countKeccak firstByteEcdsa sampleBridge).1
    _ _ _ _ _ _ _ _ sampleState hcall rfl hroot sample_representable sample_collisionFree⟩

end Sample

end Bridge

end Knomosis.Contracts
