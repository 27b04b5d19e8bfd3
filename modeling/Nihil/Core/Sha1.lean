/-
Module: Nihil.Core.Sha1
Layer: Core
Purpose: sha1. Bytes are collected in a block that is compressed when it is full; the digest is taken behind
  a padding whose length field has 32 bits. Over whatever the block held before, and however a message is
  divided into calls, the digest is the secure hash of the message.
Imports: Nihil.Library.SecureHash
Trusted boundary: none
Main exports: Sha1, leftRotate, reset, processByte, processBlock, processBytes, getDigest, getDigestBytes,
  Feeding, compressBlock_refines, Behind, getDigestBytes_eq
-/
import Mathlib.Algebra.Group.Nat.Defs
import Nihil.Library.SecureHash

namespace Nihil

open Nihil.Library Nihil.Library.SecureHash

/-- `sha1::block_bytes`. -/
abbrev blockBytes : Nat := 64

/-- `sha1`. The index of the next byte is inside the block wherever a member function begins or ends. -/
structure Sha1 where
  digest : Vector (BitVec 32) 5
  block : Vector (BitVec 8) 64
  blockByteIndex : Nat
  byteCount : BitVec 64
  inside : blockByteIndex < 64

namespace Sha1

/-- `sha1::left_rotate`. -/
def leftRotate (value : BitVec 32) (count : Nat) : BitVec 32 :=
  (value <<< count) ^^^ (value >>> (32 - count))

/-- `sha1::reset`, which leaves the bytes of the block where they are. -/
def reset (self : Sha1) : Sha1 where
  digest := #v[0x67452301, 0xEFCDAB89, 0x98BADCFE, 0x10325476, 0xC3D2E1F0]
  block := self.block
  blockByteIndex := 0
  byteCount := 0
  inside := Nat.zero_lt_succ 63

/-- `sha1::sha1`. -/
def construct : Sha1 :=
  reset ⟨Vector.replicate 5 0, Vector.replicate 64 0, 0, 0, Nat.zero_lt_succ 63⟩

/-! ### One block -/

/-- The first loop of the private `process_block`: the words of the block. -/
def loadWords (block : Vector (BitVec 8) 64) (w : Vector (BitVec 32) 80) : Vector (BitVec 32) 80 :=
  Nat.fold 16 (fun i _ w => w.set i
    ((block[i * 4 + 0].setWidth 32 <<< 24) ||| (block[i * 4 + 1].setWidth 32 <<< 16)
      ||| (block[i * 4 + 2].setWidth 32 <<< 8) ||| block[i * 4 + 3].setWidth 32)) w

/-- One step of the second loop, at `16 + k`. -/
def extendWord (k : Nat) (below : k < 64) (w : Vector (BitVec 32) 80) : Vector (BitVec 32) 80 :=
  let i := 16 + k
  w.set i (leftRotate (w[i - 3] ^^^ w[i - 8] ^^^ w[i - 14] ^^^ w[i - 16]) 1)

/-- The second loop: the words that are made from earlier ones. -/
def extendWords (w : Vector (BitVec 32) 80) : Vector (BitVec 32) 80 := Nat.fold 64 extendWord w

/-- The body of the third loop, on the locals `a` to `e`. -/
def roundStep (w : Vector (BitVec 32) 80) (i : Nat) (below : i < 80) (locals : Registers) : Registers :=
  let ⟨a, b, c, d, e⟩ := locals
  let (f, k) : BitVec 32 × BitVec 32 :=
    if i < 20 then ((b &&& c) ||| (~~~b &&& d), 0x5A827999)
    else if i < 40 then (b ^^^ c ^^^ d, 0x6ED9EBA1)
    else if i < 60 then ((b &&& c) ||| (b &&& d) ||| (c &&& d), 0x8F1BBCDC)
    else (b ^^^ c ^^^ d, 0xCA62C1D6)
  let temp := leftRotate a 5 + f + e + k + w[i]
  ⟨temp, a, leftRotate b 30, c, d⟩

/-- The private `sha1::process_block`: the digest behind the block. -/
def compressBlock (digest : Vector (BitVec 32) 5) (block : Vector (BitVec 8) 64) : Vector (BitVec 32) 5 :=
  let w := extendWords (loadWords block (Vector.replicate 80 0))
  let ⟨a, b, c, d, e⟩ :=
    Nat.fold 80 (roundStep w) ⟨digest[0], digest[1], digest[2], digest[3], digest[4]⟩
  #v[digest[0] + a, digest[1] + b, digest[2] + c, digest[3] + d, digest[4] + e]

/-! ### Bytes -/

/-- `sha1::process_byte`. -/
def processByte (self : Sha1) (octet : BitVec 8) : Sha1 :=
  let block := self.block.set self.blockByteIndex octet self.inside
  if full : self.blockByteIndex + 1 = blockBytes then
    { digest := compressBlock self.digest block
      block, blockByteIndex := 0, byteCount := self.byteCount + 1, inside := Nat.zero_lt_succ 63 }
  else
    { digest := self.digest
      block, blockByteIndex := self.blockByteIndex + 1, byteCount := self.byteCount + 1
      inside := Nat.lt_of_le_of_ne self.inside full }

/-- `sha1::process_block` of a range of bytes. -/
def processBlock (self : Sha1) (range : List (BitVec 8)) : Sha1 := range.foldl processByte self

/-- `sha1::process_bytes`. -/
def processBytes (self : Sha1) (data : List (BitVec 8)) : Sha1 := self.processBlock data

/-! ### The digest -/

theorem blockByteIndex_processByte (self : Sha1) (octet : BitVec 8) :
    (self.processByte octet).blockByteIndex
      = if self.blockByteIndex + 1 = 64 then 0 else self.blockByteIndex + 1 := by
  unfold processByte
  split
  case isTrue => simp
  case isFalse => simp

/-- `while (m_blockByteIndex < 56) process_byte(0)`. -/
def zerosBelow (self : Sha1) : Sha1 :=
  if self.blockByteIndex < 56 then zerosBelow (self.processByte 0) else self
termination_by 56 - self.blockByteIndex
decreasing_by
  rw [blockByteIndex_processByte]
  split <;> omega

/-- `while (m_blockByteIndex != 0) process_byte(0)`. -/
def zerosToEnd (self : Sha1) : Sha1 :=
  if self.blockByteIndex ≠ 0 then zerosToEnd (self.processByte 0) else self
termination_by (64 - self.blockByteIndex) % 64
decreasing_by
  rw [blockByteIndex_processByte]
  have := self.inside
  split <;> omega

/-- `sha1::get_digest`: the digest, and the hasher behind the padding. -/
def getDigest (self : Sha1) : Vector (BitVec 32) 5 × Sha1 :=
  let bitCount := self.byteCount * 8
  let marked := self.processByte 0x80
  let padded := if marked.blockByteIndex > 56 then marked.zerosToEnd.zerosBelow else marked.zerosBelow
  let counted := (padded.processByte 0).processByte 0 |>.processByte 0 |>.processByte 0
    |>.processByte (((bitCount >>> 24) &&& 0xFF).setWidth 8)
    |>.processByte (((bitCount >>> 16) &&& 0xFF).setWidth 8)
    |>.processByte (((bitCount >>> 8) &&& 0xFF).setWidth 8)
    |>.processByte ((bitCount &&& 0xFF).setWidth 8)
  (counted.digest, counted)

/-- `sha1::get_digest_bytes`. -/
def getDigestBytes (self : Sha1) : Vector (BitVec 8) 20 × Sha1 :=
  let (d32, after) := self.getDigest
  (#v[(d32[0] >>> 24).setWidth 8, (d32[0] >>> 16).setWidth 8, (d32[0] >>> 8).setWidth 8,
      (d32[0] >>> 0).setWidth 8,
      (d32[1] >>> 24).setWidth 8, (d32[1] >>> 16).setWidth 8, (d32[1] >>> 8).setWidth 8,
      (d32[1] >>> 0).setWidth 8,
      (d32[2] >>> 24).setWidth 8, (d32[2] >>> 16).setWidth 8, (d32[2] >>> 8).setWidth 8,
      (d32[2] >>> 0).setWidth 8,
      (d32[3] >>> 24).setWidth 8, (d32[3] >>> 16).setWidth 8, (d32[3] >>> 8).setWidth 8,
      (d32[3] >>> 0).setWidth 8,
      (d32[4] >>> 24).setWidth 8, (d32[4] >>> 16).setWidth 8, (d32[4] >>> 8).setWidth 8,
      (d32[4] >>> 0).setWidth 8], after)

/-! ### A block is compressed as the standard says -/

theorem leftRotate_eq_rotl (value : BitVec 32) {count : Nat} (positive : 0 < count) (below : count < 32) :
    leftRotate value count = rotl count value := by
  apply BitVec.eq_of_getLsbD_eq
  intro i small
  rw [leftRotate, rotl, BitVec.getLsbD_rotateLeft_of_le below]
  simp only [BitVec.getLsbD_xor, BitVec.getLsbD_shiftLeft, BitVec.getLsbD_ushiftRight]
  by_cases low : i < count
  · simp [low]
  · have past : 32 ≤ 32 - count + i := by omega
    simp [low, small, BitVec.getLsbD_of_ge _ _ past]

/-- Shifting bytes to their places puts them one behind another. -/
theorem shiftedBytes_eq (b₀ b₁ b₂ b₃ : BitVec 8) :
    (b₀.setWidth 32 <<< 24) ||| (b₁.setWidth 32 <<< 16) ||| (b₂.setWidth 32 <<< 8) ||| b₃.setWidth 32
      = b₀ ++ b₁ ++ b₂ ++ b₃ := by
  apply BitVec.eq_of_getLsbD_eq
  intro i small
  have above : ∀ (b : BitVec 8) (j : Nat), 8 ≤ j → b.getLsbD j = false := BitVec.getLsbD_of_ge
  simp only [BitVec.getLsbD_or, BitVec.getLsbD_shiftLeft, BitVec.getLsbD_setWidth, BitVec.getLsbD_append]
  grind

theorem wordAt_toList (block : Vector (BitVec 8) 64) {i : Nat} (input : i < 16) :
    wordAt block.toList i
      = block[i * 4 + 0] ++ block[i * 4 + 1] ++ block[i * 4 + 2] ++ block[i * 4 + 3] := by
  have read : ∀ j (inside : j < 64), block.toList.getD j 0 = block[j] := by
    intro j inside
    simp [List.getD, inside]
  rw [wordAt, Nat.mul_comm 4 i, read _ (by omega), read _ (by omega), read _ (by omega), read _ (by omega)]
  rfl

theorem choice_eq (x y z : BitVec 32) : (x &&& y) ||| (~~~x &&& z) = choice x y z := by
  apply BitVec.eq_of_getLsbD_eq
  intro i small
  simp only [choice, BitVec.getLsbD_or, BitVec.getLsbD_and, BitVec.getLsbD_not, BitVec.getLsbD_xor, small]
  cases x.getLsbD i <;> simp

theorem majority_eq (x y z : BitVec 32) : (x &&& y) ||| (x &&& z) ||| (y &&& z) = majority x y z := by
  apply BitVec.eq_of_getLsbD_eq
  intro i _
  simp only [majority, BitVec.getLsbD_or, BitVec.getLsbD_and, BitVec.getLsbD_xor]
  cases x.getLsbD i <;> cases y.getLsbD i <;> simp

/-- What a loop over the numbers below a bound keeps holds behind it. -/
theorem fold_keeps {σ : Type} {bound : Nat} {body : (i : Nat) → i < bound → σ → σ} {state : σ}
    (holds : Nat → σ → Prop) (start : holds 0 state)
    (kept : ∀ i (below : i < bound) s, holds i s → holds (i + 1) (body i below s)) :
    holds bound (Nat.fold bound body state) := by
  induction bound with
  | zero => exact start
  | succ bound ih =>
      have before : holds bound (Nat.fold bound (fun i below => body i (Nat.lt_succ_of_lt below)) state) :=
        ih fun i below => kept i (Nat.lt_succ_of_lt below)
      rw [Nat.fold_succ]
      exact kept bound (Nat.lt_succ_self bound) _ before

variable (block : Vector (BitVec 8) 64)

/-- The words that are already those of the schedule. -/
def Scheduled (count : Nat) (w : Vector (BitVec 32) 80) : Prop :=
  ∀ t (inside : t < 80), t < count → w[t] = schedule block.toList t

theorem scheduled_loadWords (w : Vector (BitVec 32) 80) : Scheduled block 16 (loadWords block w) := by
  refine fold_keeps (Scheduled block) (fun t _ none => absurd none (Nat.not_lt_zero t)) ?_
  intro i below w before t inside input
  rw [Vector.getElem_set]
  split
  case isTrue here =>
    subst here
    rw [shiftedBytes_eq, schedule_input below, wordAt_toList block below]
  case isFalse elsewhere => exact before t inside (by omega)

theorem scheduled_extendWords {w : Vector (BitVec 32) 80} (input : Scheduled block 16 w) :
    Scheduled block 80 (extendWords w) := by
  suffices looped : Scheduled block (16 + 64) (Nat.fold 64 extendWord w) from looped
  refine fold_keeps (fun k => Scheduled block (16 + k)) input ?_
  intro k below w before t inside upTo
  rw [extendWord, Vector.getElem_set]
  split
  case isTrue here =>
    subst here
    rw [leftRotate_eq_rotl _ (by decide) (by decide), schedule_later (Nat.le_add_right 16 k),
      before (16 + k - 3) (by omega) (by omega), before (16 + k - 8) (by omega) (by omega),
      before (16 + k - 14) (by omega) (by omega), before (16 + k - 16) (by omega) (by omega)]
  case isFalse elsewhere => exact before t inside (by omega)

theorem roundStep_eq {w : Vector (BitVec 32) 80} (scheduled : Scheduled block 80 w) {i : Nat} (below : i < 80)
    (locals : Registers) : roundStep w i below locals = oneRound (schedule block.toList) locals i := by
  have rotated : ∀ word, leftRotate word 5 = rotl 5 word := fun word =>
    leftRotate_eq_rotl word (by decide) (by decide)
  have rotated' : ∀ word, leftRotate word 30 = rotl 30 word := fun word =>
    leftRotate_eq_rotl word (by decide) (by decide)
  rw [roundStep, oneRound, rotated, rotated', scheduled i below below, mixing, constant]
  split_ifs
  · simp only [choice_eq]
  · rfl
  · simp only [majority_eq]
  · rfl

/-- The five words of a digest. -/
def words (digest : Vector (BitVec 32) 5) : Registers :=
  ⟨digest[0], digest[1], digest[2], digest[3], digest[4]⟩

/-- The private `process_block` is the compression of the standard. -/
theorem compressBlock_refines (digest : Vector (BitVec 32) 5) :
    words (compressBlock digest block) = compress (words digest) block.toList := by
  have scheduled := scheduled_extendWords block (scheduled_loadWords block (Vector.replicate 80 0))
  have looped : Nat.fold 80 (roundStep (extendWords (loadWords block (Vector.replicate 80 0)))) (words digest)
      = rounds (schedule block.toList) 80 (words digest) := by
    refine fold_keeps (fun i s => s = rounds (schedule block.toList) i (words digest)) rfl ?_
    intro i below s before
    rw [roundStep_eq block scheduled, before, rounds_succ]
  rw [compress, ← looped]
  rfl

/-! ### What the hasher has absorbed -/

/-- The hasher as a machine that absorbs a message: the bytes of the block from its index on count for
nothing. -/
def absorbing (self : Sha1) : Absorbing Registers (BitVec 8) :=
  ⟨words self.digest, self.block.toList.take self.blockByteIndex⟩

@[simp] theorem length_pending (self : Sha1) : self.absorbing.pending.length = self.blockByteIndex := by
  have := self.inside
  simp only [absorbing, List.length_take, Vector.length_toList]
  omega

theorem value_absorbing (self : Sha1) : self.absorbing.value = words self.digest := rfl

@[simp] theorem absorbing_reset (self : Sha1) : self.reset.absorbing = ⟨Registers.initial, []⟩ := rfl

theorem take_set (self : Sha1) (octet : BitVec 8) :
    (self.block.set self.blockByteIndex octet self.inside).toList.take (self.blockByteIndex + 1)
      = self.absorbing.pending ++ [octet] := by
  have long : self.blockByteIndex < self.block.toList.length := by simpa using self.inside
  rw [Vector.toList_set, List.take_succ_eq_append_getElem (by simpa using self.inside), List.getElem_set_self]
  rw [List.take_set_of_le (Nat.le_refl _)]
  rfl

theorem absorbing_processByte (self : Sha1) (octet : BitVec 8) :
    (self.processByte octet).absorbing = self.absorbing.feed compress 64 octet := by
  have stored := self.take_set octet
  rw [Absorbing.feed, length_pending, processByte]
  split
  case isTrue full =>
    rw [full] at stored
    have whole : (self.block.set self.blockByteIndex octet self.inside).toList
        = self.absorbing.pending ++ [octet] := by
      rw [← stored, List.take_of_length_le (by simp)]
    simp only [absorbing, compressBlock_refines, whole, List.take_zero]
  case isFalse more =>
    simp only [absorbing, stored]

theorem absorbing_processBlock (self : Sha1) (range : List (BitVec 8)) :
    (self.processBlock range).absorbing = self.absorbing.feedAll compress 64 range := by
  induction range generalizing self with
  | nil => rfl
  | cons octet range ih =>
      rw [processBlock, List.foldl_cons, ← processBlock, ih, absorbing_processByte]
      rfl

/-- The hasher behind a message, from a reset: all it holds is a function of the message. -/
structure Behind (message : List (BitVec 8)) (hasher : Sha1) : Prop where
  absorbed : hasher.absorbing = ⟨chained compress 64 Registers.initial message, unfinished 64 message⟩
  counted : hasher.byteCount = BitVec.ofNat 64 message.length

theorem behind_reset (self : Sha1) : Behind [] self.reset where
  absorbed := rfl
  counted := rfl

theorem byteCount_processByte (self : Sha1) (octet : BitVec 8) :
    (self.processByte octet).byteCount = self.byteCount + 1 := by
  unfold processByte
  split
  case isTrue => rfl
  case isFalse => rfl

theorem byteCount_processBlock (self : Sha1) (range : List (BitVec 8)) :
    (self.processBlock range).byteCount = self.byteCount + BitVec.ofNat 64 range.length := by
  induction range generalizing self with
  | nil => simp [processBlock]
  | cons octet range ih =>
      rw [processBlock, List.foldl_cons, ← processBlock, ih, byteCount_processByte, BitVec.add_assoc,
        List.length_cons, Nat.add_comm, BitVec.ofNat_add]
      rfl

theorem processBlock_append (self : Sha1) (range range' : List (BitVec 8)) :
    self.processBlock (range ++ range') = (self.processBlock range).processBlock range' :=
  List.foldl_append

/-- More bytes put the hasher behind a longer message. -/
theorem Behind.more {message : List (BitVec 8)} {self : Sha1} (behind : Behind message self)
    (range : List (BitVec 8)) : Behind (message ++ range) (self.processBlock range) where
  absorbed := by
    rw [absorbing_processBlock, behind.absorbed, ← feedAll_eq (by decide), Absorbing.feedAll,
      Absorbing.feedAll, ← List.foldl_append, ← Absorbing.feedAll, feedAll_eq (by decide)]
  counted := by
    rw [byteCount_processBlock, behind.counted, List.length_append, BitVec.ofNat_add]

theorem Behind.blockByteIndex {message : List (BitVec 8)} {self : Sha1} (behind : Behind message self) :
    self.blockByteIndex = message.length % 64 := by
  rw [← length_pending, behind.absorbed, length_unfinished_eq]

/-! ### The padding -/

theorem zerosBelow_eq (self : Sha1) :
    self.zerosBelow = self.processBlock (List.replicate (56 - self.blockByteIndex) 0) := by
  fun_induction zerosBelow self with
  | case1 self below ih =>
      have more : 56 - self.blockByteIndex = 56 - (self.blockByteIndex + 1) + 1 := by omega
      rw [ih, blockByteIndex_processByte, if_neg (by omega), more, List.replicate_succ]
      rfl
  | case2 self enough =>
      have no_more : 56 - self.blockByteIndex = 0 := by omega
      rw [no_more]
      rfl

theorem zerosToEnd_eq (self : Sha1) :
    self.zerosToEnd = self.processBlock (List.replicate ((64 - self.blockByteIndex) % 64) 0) := by
  fun_induction zerosToEnd self with
  | case1 self begun ih =>
      have inside := self.inside
      have more : (64 - self.blockByteIndex) % 64 = 64 - (self.blockByteIndex + 1) + 1 := by omega
      rw [ih, blockByteIndex_processByte, more, List.replicate_succ]
      split
      case isTrue last =>
        rw [last]
        rfl
      case isFalse inner =>
        rw [Nat.mod_eq_of_lt (by omega)]
        rfl
  | case2 self ended =>
      have at_start : self.blockByteIndex = 0 := by omega
      rw [at_start]
      rfl

theorem blockByteIndex_zerosToEnd (self : Sha1) : self.zerosToEnd.blockByteIndex = 0 := by
  fun_induction zerosToEnd self with
  | case1 self begun ih => exact ih
  | case2 self ended => exact Decidable.not_not.mp ended

/-- The two branches of `get_digest` fill the block with zeros up to byte 56. -/
theorem padded_eq (marked : Sha1) :
    (if marked.blockByteIndex > 56 then marked.zerosToEnd.zerosBelow else marked.zerosBelow)
      = marked.processBlock (List.replicate (zerosTo 64 56 marked.blockByteIndex) 0) := by
  have inside := marked.inside
  unfold zerosTo
  split
  case isTrue beyond =>
    rw [if_neg (by omega), zerosBelow_eq, marked.blockByteIndex_zerosToEnd, zerosToEnd_eq,
      ← processBlock_append, List.replicate_append_replicate, Nat.mod_eq_of_lt (by omega)]
  case isFalse within => rw [if_pos (by omega), zerosBelow_eq]

theorem setWidth_masked (number : BitVec 64) : (number &&& 0xFF).setWidth 8 = number.setWidth 8 := by
  rw [BitVec.setWidth_and]
  exact BitVec.and_allOnes

/-- A byte of the low half of a number that has lost its high half. -/
theorem lowByte_eq (number : BitVec 64) {shift : Nat} (low : shift + 8 ≤ 32) :
    (((number.setWidth 32).setWidth 64) >>> shift).setWidth 8 = (number >>> shift).setWidth 8 := by
  apply BitVec.eq_of_getLsbD_eq
  intro i small
  have inLow : shift + i < 32 := by omega
  have inside : shift + i < 64 := by omega
  simp [small, inLow, inside]

/-- A byte of its high half. -/
theorem highByte_eq (number : BitVec 64) {shift : Nat} (high : 32 ≤ shift) :
    (((number.setWidth 32).setWidth 64) >>> shift).setWidth 8 = 0 := by
  apply BitVec.eq_of_getLsbD_eq
  intro i small
  have beyond : ¬ shift + i < 32 := by omega
  simp [beyond]

/-- The bytes of the count, behind the four zero bytes. -/
theorem countBytes_eq (bitCount : BitVec 64) :
    bigEndian 8 ((bitCount.setWidth 32).setWidth 64)
      = [(0 : BitVec 8), 0, 0, 0, ((bitCount >>> 24) &&& 0xFF).setWidth 8,
          ((bitCount >>> 16) &&& 0xFF).setWidth 8, ((bitCount >>> 8) &&& 0xFF).setWidth 8,
          (bitCount &&& 0xFF).setWidth 8] := by
  have places : List.range 8 = [0, 1, 2, 3, 4, 5, 6, 7] := rfl
  simp only [bigEndian, places, List.map_cons, List.map_nil, setWidth_masked]
  rw [highByte_eq _ (by decide), highByte_eq _ (by decide), highByte_eq _ (by decide),
    highByte_eq _ (by decide), lowByte_eq _ (by decide), lowByte_eq _ (by decide), lowByte_eq _ (by decide),
    lowByte_eq _ (by decide)]
  rfl

/-- The field for the length in the padding: the number of bits, of which 32 bits are written. -/
def lengthField (length : Nat) : BitVec 64 := (BitVec.ofNat 32 (8 * length)).setWidth 64

theorem lengthField_eq (length : Nat) :
    lengthField length = ((BitVec.ofNat 64 length * 8).setWidth 32).setWidth 64 := by
  have bits : (BitVec.ofNat 64 length * 8).setWidth 32 = BitVec.ofNat 32 (8 * length) := by
    apply BitVec.eq_of_toNat_eq
    have eight : (8 : BitVec 64).toNat = 8 := rfl
    simp only [BitVec.toNat_setWidth, BitVec.toNat_mul, BitVec.toNat_ofNat, eight]
    omega
  rw [bits, lengthField]

/-- A field of 32 bits is enough for the number of bits of a message of less than 2^29 bytes. -/
theorem lengthField_of_short {length : Nat} (short : length < 2 ^ 29) :
    lengthField length = BitVec.ofNat 64 (8 * length) := by
  apply BitVec.eq_of_toNat_eq
  simp only [lengthField, BitVec.toNat_setWidth, BitVec.toNat_ofNat]
  omega

/-- `get_digest` processes the padding of what the hasher has processed. -/
theorem Behind.snd_getDigest {message : List (BitVec 8)} {hasher : Sha1} (behind : Behind message hasher) :
    hasher.getDigest.2 = hasher.processBlock (padding (lengthField message.length) message.length) := by
  have marked := (behind.more [0x80]).blockByteIndex
  rw [List.length_append, List.length_singleton] at marked
  rw [padding, lengthField_eq, countBytes_eq, ← behind.counted, ← List.singleton_append,
    processBlock_append, processBlock_append, ← marked, ← padded_eq]
  simp only [getDigest, processBlock, List.foldl_cons, List.foldl_nil]
  rfl

theorem getDigest_fst (self : Sha1) : self.getDigest.1 = self.getDigest.2.digest := by
  simp only [getDigest]

/-- The digest behind a message. -/
theorem Behind.digest_eq {message : List (BitVec 8)} {hasher : Sha1} (behind : Behind message hasher) :
    words hasher.getDigest.1 = paddedHash (lengthField message.length) message := by
  have after := (behind.more (padding (lengthField message.length) message.length)).absorbed
  rw [← behind.snd_getDigest] at after
  rw [getDigest_fst, ← value_absorbing, after, paddedHash]

theorem toList_getDigestBytes (self : Sha1) :
    self.getDigestBytes.1.toList = (words self.getDigest.1).bytes := by
  simp only [getDigestBytes]
  rfl

/-! ### Whatever the calls are -/

/-- A call that gives the hasher bytes. -/
inductive Feeding where
  | processByte (octet : BitVec 8)
  | processBlock (range : List (BitVec 8))
  | processBytes (data : List (BitVec 8))

def Feeding.bytes : Feeding → List (BitVec 8)
  | .processByte octet => [octet]
  | .processBlock range => range
  | .processBytes data => data

def Feeding.call (self : Sha1) : Feeding → Sha1
  | .processByte octet => self.processByte octet
  | .processBlock range => self.processBlock range
  | .processBytes data => self.processBytes data

theorem Feeding.call_eq (self : Sha1) (feeding : Feeding) :
    feeding.call self = self.processBlock feeding.bytes := by
  cases feeding with
  | processByte octet => rfl
  | processBlock range => rfl
  | processBytes data => rfl

theorem Behind.calls {message : List (BitVec 8)} {hasher : Sha1} (behind : Behind message hasher)
    (feedings : List Feeding) :
    Behind (message ++ feedings.flatMap Feeding.bytes) (feedings.foldl Feeding.call hasher) := by
  induction feedings generalizing message hasher with
  | nil => simpa using behind
  | cons feeding feedings ih =>
      have first := behind.more feeding.bytes
      rw [← Feeding.call_eq] at first
      have rest := ih first
      rw [List.append_assoc] at rest
      exact rest

/-- The digest of a hasher that was reset and then given bytes, in whatever calls, is the hash of these bytes
under a length field of 32 bits, and below 2^29 bytes it is the secure hash of the standard. Nothing of what
the hasher held before plays a part. -/
theorem getDigestBytes_eq (hasher : Sha1) (feedings : List Feeding) :
    let message := feedings.flatMap Feeding.bytes
    let digest := (feedings.foldl Feeding.call hasher.reset).getDigestBytes.1.toList
    digest = (paddedHash (lengthField message.length) message).bytes
      ∧ (message.length < 2 ^ 29 → digest = (secureHash message).bytes) := by
  intro message digest
  have behind := (behind_reset hasher).calls feedings
  rw [List.nil_append] at behind
  have hashed : digest = (paddedHash (lengthField message.length) message).bytes := by
    rw [← behind.digest_eq, ← toList_getDigestBytes]
  refine ⟨hashed, fun short => ?_⟩
  rw [hashed, lengthField_of_short short, secureHash]

-- "abc" in two calls.
example : ((construct.processByte 0x61).processBytes [0x62, 0x63]).getDigestBytes.1.toList
    = [0xa9, 0x99, 0x3e, 0x36, 0x47, 0x06, 0x81, 0x6a, 0xba, 0x3e, 0x25, 0x71, 0x78, 0x50, 0xc2, 0x6c, 0x9c,
        0xd0, 0xd8, 0x9d] := by
  decide +kernel

end Sha1

end Nihil
