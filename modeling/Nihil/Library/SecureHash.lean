/-
Module: Nihil.Library.SecureHash
Layer: Library
Purpose: The secure hash standard's first algorithm on messages of bytes: its functions of words, the message
  schedule, the eighty rounds on one block, the padding, and the hash of a message. The field for the length
  in the padding is a parameter of the padding, for messages too long for it.
Imports: Nihil.Library.BlockHash
Trusted boundary: none
Main exports: Registers, rotl, mixing, constant, schedule, oneRound, compress, bigEndian, padding, paddedHash,
  secureHash, length_padded
-/
import Nihil.Library.BlockHash

namespace Nihil.Library.SecureHash

/-- The five words of a chaining value, and of the rounds. -/
@[ext]
structure Registers where
  a : BitVec 32
  b : BitVec 32
  c : BitVec 32
  d : BitVec 32
  e : BitVec 32
deriving DecidableEq

/-- The initial chaining value. -/
def Registers.initial : Registers :=
  ⟨0x67452301, 0xefcdab89, 0x98badcfe, 0x10325476, 0xc3d2e1f0⟩

def Registers.add (left right : Registers) : Registers :=
  ⟨left.a + right.a, left.b + right.b, left.c + right.c, left.d + right.d, left.e + right.e⟩

/-! ### Functions of words -/

def rotl (count : Nat) (word : BitVec 32) : BitVec 32 := word.rotateLeft count

/-- The choice between two words, bit by bit. -/
def choice (x y z : BitVec 32) : BitVec 32 := (x &&& y) ^^^ (~~~x &&& z)

def parity (x y z : BitVec 32) : BitVec 32 := x ^^^ y ^^^ z

def majority (x y z : BitVec 32) : BitVec 32 := (x &&& y) ^^^ (x &&& z) ^^^ (y &&& z)

/-- The function of a round. -/
def mixing (t : Nat) : BitVec 32 → BitVec 32 → BitVec 32 → BitVec 32 :=
  if t < 20 then choice else if t < 40 then parity else if t < 60 then majority else parity

/-- The constant of a round. -/
def constant (t : Nat) : BitVec 32 :=
  if t < 20 then 0x5a827999 else if t < 40 then 0x6ed9eba1 else if t < 60 then 0x8f1bbcdc else 0xca62c1d6

/-! ### One block -/

/-- A word of a block, the most significant byte first. -/
def wordAt (block : List (BitVec 8)) (t : Nat) : BitVec 32 :=
  block.getD (4 * t) 0 ++ block.getD (4 * t + 1) 0 ++ block.getD (4 * t + 2) 0 ++ block.getD (4 * t + 3) 0

/-- The message schedule. -/
def schedule (block : List (BitVec 8)) (t : Nat) : BitVec 32 :=
  if t < 16 then wordAt block t
  else rotl 1 (schedule block (t - 3) ^^^ schedule block (t - 8) ^^^ schedule block (t - 14)
    ^^^ schedule block (t - 16))
termination_by t
decreasing_by all_goals omega

/-- One round. -/
def oneRound (words : Nat → BitVec 32) (registers : Registers) (t : Nat) : Registers :=
  ⟨rotl 5 registers.a + mixing t registers.b registers.c registers.d + registers.e + constant t + words t,
    registers.a, rotl 30 registers.b, registers.c, registers.d⟩

/-- The first rounds, up to a number of them. -/
def rounds (words : Nat → BitVec 32) (count : Nat) (registers : Registers) : Registers :=
  (List.range count).foldl (oneRound words) registers

/-- What a block does to the chaining value. -/
def compress (chaining : Registers) (block : List (BitVec 8)) : Registers :=
  chaining.add (rounds (schedule block) 80 chaining)

theorem schedule_input {block : List (BitVec 8)} {t : Nat} (input : t < 16) :
    schedule block t = wordAt block t := by
  rw [schedule, if_pos input]

theorem schedule_later {block : List (BitVec 8)} {t : Nat} (later : 16 ≤ t) :
    schedule block t = rotl 1 (schedule block (t - 3) ^^^ schedule block (t - 8) ^^^ schedule block (t - 14)
      ^^^ schedule block (t - 16)) := by
  rw [schedule, if_neg (Nat.not_lt.mpr later)]

@[simp] theorem rounds_zero (words : Nat → BitVec 32) (registers : Registers) :
    rounds words 0 registers = registers := rfl

theorem rounds_succ (words : Nat → BitVec 32) (count : Nat) (registers : Registers) :
    rounds words (count + 1) registers = oneRound words (rounds words count registers) count := by
  rw [rounds, List.range_succ, List.foldl_append, List.foldl_cons, List.foldl_nil, rounds]

/-! ### Padding -/

/-- The bytes of a number, the most significant byte first. -/
def bigEndian {width : Nat} (count : Nat) (number : BitVec width) : List (BitVec 8) :=
  (List.range count).map fun i => (number >>> (8 * (count - 1 - i))).setWidth 8

@[simp] theorem length_bigEndian {width count : Nat} (number : BitVec width) :
    (bigEndian count number).length = count := by
  simp [bigEndian]

/-- What is put behind a message of a length: a one bit, zeros, and the field for the length. -/
def padding (lengthField : BitVec 64) (length : Nat) : List (BitVec 8) :=
  0x80 :: (List.replicate (zerosTo 64 56 ((length + 1) % 64)) 0 ++ bigEndian 8 lengthField)

/-- The hash of a message under a field for its length. -/
def paddedHash (lengthField : BitVec 64) (message : List (BitVec 8)) : Registers :=
  chained compress 64 Registers.initial (message ++ padding lengthField message.length)

/-- The hash of a message. The standard defines it for fewer than 2^64 bits. -/
def secureHash (message : List (BitVec 8)) : Registers :=
  paddedHash (BitVec.ofNat 64 (8 * message.length)) message

/-- A padded message consists of whole blocks. -/
theorem length_padded (lengthField : BitVec 64) (message : List (BitVec 8)) :
    (message ++ padding lengthField message.length).length % 64 = 0 := by
  have target : (message.length + 1 + zerosTo 64 56 ((message.length + 1) % 64)) % 64 = 56 :=
    zerosTo_whole rfl (by decide)
  simp only [padding, List.length_append, List.length_cons, List.length_replicate, length_bigEndian]
  omega

/-- The twenty bytes of a hash. -/
def Registers.bytes (self : Registers) : List (BitVec 8) :=
  [self.a, self.b, self.c, self.d, self.e].flatMap (bigEndian 4)

@[simp] theorem length_bytes (self : Registers) : self.bytes.length = 20 := by
  simp [Registers.bytes]

end Nihil.Library.SecureHash
