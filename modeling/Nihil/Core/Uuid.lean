/-
Module: Nihil.Core.Uuid
Layer: Core
Purpose: uuid and its generators. A name-based uuid is made from the hash of the namespace and the name and
  from nothing else, whatever the generator did before; a random one takes its bits from sixteen draws. Both
  carry the variant and the version of their kind and keep all other bits of what they are made from.
Imports: Nihil.Core.Error, Nihil.Core.Sha1
Trusted boundary: the random engine is a parameter, with what it draws next.
Main exports: Uuid, Uuid.ofSpan, Uuid.variant, Uuid.version, Uuid.less, UuidNameGenerator, RandomEngine,
  rfcOctets, nameUuid, nameCalls_eq, randomUuid, randomCalls_eq, randomUuid_eq_iff
-/
import Mathlib.Logic.Function.Iterate
import Nihil.Core.Error
import Nihil.Core.Sha1

namespace Nihil

open Nihil.Library Nihil.Library.SecureHash

/-- `uuid_variant`. -/
inductive UuidVariant where
  | ncs
  | rfc
  | microsoft
  | reserved
deriving DecidableEq, Repr

/-- `uuid_version`. -/
inductive UuidVersion where
  | none
  | timeBased
  | dceSecurity
  | nameBasedMd5
  | randomNumberBased
  | nameBasedSha1
deriving DecidableEq, Repr

/-- `uuid`. -/
@[ext]
structure Uuid where
  data : Vector (BitVec 8) 16
deriving DecidableEq

namespace Uuid

/-- The default uuid. -/
def nil : Uuid := ⟨Vector.replicate 16 0⟩

/-- `uuid::uuid` from a span of any size, or from a range. -/
def ofSpan (bytes : List (BitVec 8)) : Except LogicError Uuid :=
  if size : bytes.length = 16 then .ok ⟨⟨bytes.toArray, size⟩⟩
  else .error ⟨"wrong size for uuid".toList⟩

/-- `uuid::variant`. -/
def variant (self : Uuid) : UuidVariant :=
  if self.data[8] &&& 0x80 = 0x00 then .ncs
  else if self.data[8] &&& 0xC0 = 0x80 then .rfc
  else if self.data[8] &&& 0xE0 = 0xC0 then .microsoft
  else .reserved

/-- `uuid::version`. -/
def version (self : Uuid) : UuidVersion :=
  if self.data[6] &&& 0xF0 = 0x10 then .timeBased
  else if self.data[6] &&& 0xF0 = 0x20 then .dceSecurity
  else if self.data[6] &&& 0xF0 = 0x30 then .nameBasedMd5
  else if self.data[6] &&& 0xF0 = 0x40 then .randomNumberBased
  else if self.data[6] &&& 0xF0 = 0x50 then .nameBasedSha1
  else .none

/-- `operator<`: the arrays are compared lexicographically. -/
def less (lhs rhs : Uuid) : Bool := decide (lhs.data.toList < rhs.data.toList)

end Uuid

/-! ### Generators -/

/-- What both generators do to their bytes: the variant, and a version under the mask it is written with. -/
def setVariantAndVersion {n : Nat} (mask version : BitVec 8) (bytes : Vector (BitVec 8) n) (room : 8 < n) :
    Vector (BitVec 8) n :=
  let bytes := bytes.set 8 (bytes[8] &&& 0xBF)
  let bytes := bytes.set 8 (bytes[8] ||| 0x80)
  let bytes := bytes.set 6 (bytes[6] &&& mask)
  bytes.set 6 (bytes[6] ||| version)

/-- A string: whether its characters are of type char, and the characters as `std::uint32_t`. -/
structure Name where
  isChar : Bool
  characters : List (BitVec 32)

/-- `uuid_name_generator`. -/
structure UuidNameGenerator where
  nsuuid : Uuid
  hasher : Sha1

namespace UuidNameGenerator

/-- `uuid_name_generator::uuid_name_generator`. -/
def construct (namespaceUuid : Uuid) : UuidNameGenerator := ⟨namespaceUuid, Sha1.construct⟩

/-- `uuid_name_generator::reset`. -/
def reset (self : UuidNameGenerator) : UuidNameGenerator :=
  { self with hasher := self.hasher.reset.processBytes self.nsuuid.data.toList }

/-- The body of the loop of `process_characters`. -/
def processCharacter (isChar : Bool) (hasher : Sha1) (c : BitVec 32) : Sha1 :=
  let hasher := hasher.processByte ((c &&& 0xFF).setWidth 8)
  if isChar then hasher
  else
    hasher.processByte (((c >>> 8) &&& 0xFF).setWidth 8)
      |>.processByte (((c >>> 16) &&& 0xFF).setWidth 8)
      |>.processByte (((c >>> 24) &&& 0xFF).setWidth 8)

/-- `uuid_name_generator::process_characters`. -/
def processCharacters (self : UuidNameGenerator) (str : Name) : UuidNameGenerator :=
  { self with hasher := str.characters.foldl (processCharacter str.isChar) self.hasher }

/-- `uuid_name_generator::make_uuid`. -/
def makeUuid (self : UuidNameGenerator) : Except LogicError Uuid × UuidNameGenerator :=
  let (digest, hasher) := self.hasher.getDigestBytes
  let digest := setVariantAndVersion 0x5F 0x50 digest (by decide)
  (Uuid.ofSpan (digest.toList.take 16), { self with hasher })

/-- `uuid_name_generator::operator()`. -/
def call (self : UuidNameGenerator) (name : Name) : Except LogicError Uuid × UuidNameGenerator :=
  (self.reset.processCharacters name).makeUuid

/-- Calls on one generator, one after another. -/
def calls (self : UuidNameGenerator) : List Name → List (Except LogicError Uuid)
  | [] => []
  | name :: names =>
      let (made, after) := self.call name
      made :: after.calls names

end UuidNameGenerator

/-- The engine of a `basic_uuid_random_generator`, by what `distribution(*generator)` gives in a state. -/
structure RandomEngine (γ : Type) where
  draw : γ → BitVec 32 × γ

namespace RandomEngine

variable {γ : Type} (engine : RandomEngine γ)

/-- `std::ranges::generate` over the bytes of an array: a draw is truncated to a byte. -/
def generate : Nat → γ → List (BitVec 8) × γ
  | 0, state => ([], state)
  | n + 1, state =>
      let (drawn, state) := engine.draw state
      let (bytes, state) := generate n state
      (drawn.setWidth 8 :: bytes, state)

theorem length_generate (n : Nat) (state : γ) : (engine.generate n state).1.length = n := by
  induction n generalizing state with
  | zero => rfl
  | succ n ih => rw [generate, List.length_cons, ih]

/-- `basic_uuid_random_generator::operator()`. -/
def call (state : γ) : Except LogicError Uuid × γ :=
  let generated := engine.generate 16 state
  let bytes : Vector (BitVec 8) 16 := ⟨generated.1.toArray, engine.length_generate 16 state⟩
  (Uuid.ofSpan (setVariantAndVersion 0x4F 0x40 bytes (by decide)).toList, generated.2)

/-- Calls on one generator, one after another. -/
def calls : Nat → γ → List (Except LogicError Uuid)
  | 0, _ => []
  | n + 1, state =>
      let (made, after) := engine.call state
      made :: calls n after

end RandomEngine

/-! ### What a generator is for -/

/-- The octets of a uuid of the standard's variant and of a version: all but six of their bits are those of
the bytes it is made from. -/
def rfcOctets (version : BitVec 4) (bytes : List (BitVec 8)) : List (BitVec 8) :=
  (bytes.modify 6 fun octet => version ++ octet.setWidth 4).modify 8 fun octet => 0b10#2 ++ octet.setWidth 6

@[simp] theorem length_rfcOctets (version : BitVec 4) (bytes : List (BitVec 8)) :
    (rfcOctets version bytes).length = bytes.length := by
  simp [rfcOctets]

theorem maskedVariant_eq : ∀ octet : BitVec 8, (octet &&& 0xBF) ||| 0x80 = 0b10#2 ++ octet.setWidth 6 := by
  decide

/-- A mask that keeps the low half, and of the high half no more than the version sets, puts the version into
the high half. -/
theorem maskedVersion_eq {mask version : BitVec 8} {nibble : BitVec 4}
    (masked : ∀ octet : BitVec 8, (octet &&& mask) ||| version = nibble ++ octet.setWidth 4)
    {n : Nat} (bytes : Vector (BitVec 8) n) (room : 8 < n) :
    (setVariantAndVersion mask version bytes room).toList = rfcOctets nibble bytes.toList := by
  have six : 6 < n := by omega
  apply List.ext_getElem
  · simp
  · intro i inside inside'
    have bound : i < n := by simpa using inside
    by_cases at_eight : i = 8
    · subst at_eight
      simp [setVariantAndVersion, rfcOctets]
      exact maskedVariant_eq _
    · by_cases at_six : i = 6
      · subst at_six
        simp [setVariantAndVersion, rfcOctets, masked]
      · simp [setVariantAndVersion, rfcOctets, Ne.symm at_eight, Ne.symm at_six]

theorem take_rfcOctets (version : BitVec 4) (bytes : List (BitVec 8)) :
    (rfcOctets version bytes).take 16 = rfcOctets version (bytes.take 16) := by
  simp [rfcOctets, List.take_modify]

theorem Uuid.ofSpan_of_length {bytes : List (BitVec 8)} (size : bytes.length = 16) :
    Uuid.ofSpan bytes = .ok ⟨⟨bytes.toArray, size⟩⟩ := by
  rw [Uuid.ofSpan, dif_pos size]

/-! ### Names -/

/-- The bytes that a name is hashed as: a char is one byte, any other character four, the least significant
first. -/
def Name.octets (self : Name) : List (BitVec 8) :=
  self.characters.flatMap fun c => if self.isChar then [c.setWidth 8] else (bigEndian 4 c).reverse

/-- The hash of a name in a namespace, as the standard has it for the bytes of both. -/
def nameHash (nsuuid : Uuid) (name : Name) : Registers :=
  let message := nsuuid.data.toList ++ name.octets
  paddedHash (Sha1.lengthField message.length) message

/-- The uuid of a name in a namespace. -/
def nameUuid (nsuuid : Uuid) (name : Name) : Uuid :=
  ⟨⟨(rfcOctets 5 ((nameHash nsuuid name).bytes.take 16)).toArray, by simp⟩⟩

theorem setWidth_masked_word (word : BitVec 32) : (word &&& 0xFF).setWidth 8 = word.setWidth 8 := by
  rw [BitVec.setWidth_and]
  exact BitVec.and_allOnes

namespace UuidNameGenerator

theorem processCharacter_eq (isChar : Bool) (hasher : Sha1) (c : BitVec 32) :
    processCharacter isChar hasher c
      = hasher.processBlock (if isChar then [c.setWidth 8] else (bigEndian 4 c).reverse) := by
  have places : List.range 4 = [0, 1, 2, 3] := rfl
  simp only [processCharacter, setWidth_masked_word]
  cases isChar with
  | true => rfl
  | false => simp [Sha1.processBlock, bigEndian, places]

theorem processCharacters_hasher (self : UuidNameGenerator) (name : Name) :
    (self.processCharacters name).hasher = self.hasher.processBlock name.octets := by
  obtain ⟨isChar, characters⟩ := name
  obtain ⟨nsuuid, hasher⟩ := self
  simp only [processCharacters, Name.octets]
  induction characters generalizing hasher with
  | nil => rfl
  | cons c characters ih =>
      rw [List.foldl_cons, ih, processCharacter_eq, List.flatMap_cons, Sha1.processBlock_append]

/-- A call gives the uuid of the name in the namespace, whatever the generator did before. -/
theorem call_fst (self : UuidNameGenerator) (name : Name) :
    (self.call name).1 = .ok (nameUuid self.nsuuid name) := by
  have behind := ((Sha1.behind_reset self.hasher).more self.nsuuid.data.toList).more name.octets
  have hasher : (self.reset.processCharacters name).hasher
      = (self.hasher.reset.processBlock self.nsuuid.data.toList).processBlock name.octets :=
    processCharacters_hasher self.reset name
  rw [← hasher, List.nil_append] at behind
  have stamped : ∀ octet : BitVec 8, (octet &&& 0x5F) ||| 0x50 = 5#4 ++ octet.setWidth 4 := by decide
  have size : (rfcOctets 5#4 ((nameHash self.nsuuid name).bytes.take 16)).length = 16 := by simp
  simp only [call, makeUuid, maskedVersion_eq stamped, Sha1.toList_getDigestBytes, behind.digest_eq]
  rw [take_rfcOctets]
  exact Uuid.ofSpan_of_length size

theorem call_nsuuid (self : UuidNameGenerator) (name : Name) : (self.call name).2.nsuuid = self.nsuuid := by
  simp only [call, makeUuid, processCharacters, reset]

theorem calls_eq (self : UuidNameGenerator) (names : List Name) :
    self.calls names = names.map fun name => .ok (nameUuid self.nsuuid name) := by
  induction names generalizing self with
  | nil => rfl
  | cons name names ih => simp only [calls, List.map_cons, call_fst, ih, call_nsuuid]

end UuidNameGenerator

/-! ### What is read back from the octets -/

theorem variant_of_octets {uuid : Uuid} {version : BitVec 4} {bytes : List (BitVec 8)}
    (octets : uuid.data.toList = rfcOctets version bytes) : uuid.variant = .rfc := by
  have bits : ∀ low : BitVec 6, (0b10#2 ++ low) &&& 0x80 ≠ 0x00 ∧ (0b10#2 ++ low) &&& 0xC0 = 0x80 := by
    decide
  have long : 8 < bytes.length := by
    have same := congrArg List.length octets
    simp only [Vector.length_toList, length_rfcOctets] at same
    omega
  have eighth : uuid.data[8] = 0b10#2 ++ bytes[8].setWidth 6 := by
    have read : uuid.data.toList[8]? = (rfcOctets version bytes)[8]? := by rw [octets]
    simpa [rfcOctets, long] using read
  obtain ⟨high, rfc⟩ := bits (bytes[8].setWidth 6)
  rw [Uuid.variant, eighth, if_neg high, if_pos rfc]

theorem version_of_octets {uuid : Uuid} {version : BitVec 4} {bytes : List (BitVec 8)}
    (octets : uuid.data.toList = rfcOctets version bytes) :
    uuid.version
      = if version = 1 then .timeBased else if version = 2 then .dceSecurity
        else if version = 3 then .nameBasedMd5 else if version = 4 then .randomNumberBased
        else if version = 5 then .nameBasedSha1 else .none := by
  have high : ∀ version low : BitVec 4, (version ++ low : BitVec 8) &&& 0xF0 = version ++ 0#4 := by decide
  have same : ∀ version : BitVec 4, ((version ++ 0#4 : BitVec 8) = 0x10 ↔ version = 1)
      ∧ ((version ++ 0#4 : BitVec 8) = 0x20 ↔ version = 2)
      ∧ ((version ++ 0#4 : BitVec 8) = 0x30 ↔ version = 3)
      ∧ ((version ++ 0#4 : BitVec 8) = 0x40 ↔ version = 4)
      ∧ ((version ++ 0#4 : BitVec 8) = 0x50 ↔ version = 5) := by decide
  have long : 6 < bytes.length := by
    have same := congrArg List.length octets
    simp only [Vector.length_toList, length_rfcOctets] at same
    omega
  have sixth : uuid.data[6] = version ++ bytes[6].setWidth 4 := by
    have read : uuid.data.toList[6]? = (rfcOctets version bytes)[6]? := by rw [octets]
    simpa [rfcOctets, long] using read
  obtain ⟨one, two, three, four, five⟩ := same version
  simp only [Uuid.version, sixth, high, one, two, three, four, five]

/-- On a generator that is called again and again, each uuid is the one of its name in the namespace: it does
not depend on the names before. All of them are of the standard's variant and of the version for names, and
below 2^29 bytes the hash in them is that of the standard. -/
theorem nameCalls_eq (generator : UuidNameGenerator) (names : List Name) :
    generator.calls names = names.map (fun name => .ok (nameUuid generator.nsuuid name))
      ∧ ∀ name ∈ names,
        (nameUuid generator.nsuuid name).variant = .rfc
        ∧ (nameUuid generator.nsuuid name).version = .nameBasedSha1
        ∧ (16 + name.octets.length < 2 ^ 29 →
            nameHash generator.nsuuid name = secureHash (generator.nsuuid.data.toList ++ name.octets)) := by
  refine ⟨generator.calls_eq names, fun name _ => ?_⟩
  have octets : (nameUuid generator.nsuuid name).data.toList
      = rfcOctets 5 ((nameHash generator.nsuuid name).bytes.take 16) := rfl
  refine ⟨variant_of_octets octets, version_of_octets octets, fun short => ?_⟩
  have length : (generator.nsuuid.data.toList ++ name.octets).length < 2 ^ 29 := by simpa using short
  rw [nameHash, secureHash, Sha1.lengthField_of_short length]

/-! ### Draws -/

namespace RandomEngine

variable {γ : Type} (engine : RandomEngine γ)

/-- The state of the engine behind a number of draws. -/
def after (state : γ) (count : Nat) : γ := (fun state => (engine.draw state).2)^[count] state

/-- What it draws there. -/
def drawn (state : γ) (count : Nat) : BitVec 32 := (engine.draw (engine.after state count)).1

theorem after_after (state : γ) (count count' : Nat) :
    engine.after (engine.after state count) count' = engine.after state (count + count') := by
  rw [after, after, after, ← Function.iterate_add_apply, Nat.add_comm]

theorem drawn_after (state : γ) (count count' : Nat) :
    engine.drawn (engine.after state count) count' = engine.drawn state (count + count') := by
  rw [drawn, after_after, drawn]

theorem generate_eq (n : Nat) (state : γ) :
    engine.generate n state
      = ((List.range n).map fun i => (engine.drawn state i).setWidth 8, engine.after state n) := by
  induction n generalizing state with
  | zero => rfl
  | succ n ih =>
      have next : (engine.draw state).2 = engine.after state 1 := rfl
      simp only [generate, ih, next, after_after, drawn_after, List.range_succ_eq_map, List.map_cons,
        List.map_map, Nat.add_comm 1]
      rfl

end RandomEngine

/-- The uuid of sixteen draws. -/
def randomUuid (draws : Nat → BitVec 32) : Uuid :=
  ⟨⟨(rfcOctets 4 ((List.range 16).map fun i => (draws i).setWidth 8)).toArray, by simp⟩⟩

namespace RandomEngine

variable {γ : Type} (engine : RandomEngine γ)

theorem call_eq (state : γ) :
    engine.call state = (.ok (randomUuid (engine.drawn state)), engine.after state 16) := by
  have stamped : ∀ octet : BitVec 8, (octet &&& 0x4F) ||| 0x40 = 4#4 ++ octet.setWidth 4 := by decide
  have size : (rfcOctets 4#4 ((List.range 16).map fun i => (engine.drawn state i).setWidth 8)).length = 16 := by
    simp
  simp only [call, maskedVersion_eq stamped, generate_eq]
  exact congrArg (·, engine.after state 16) (Uuid.ofSpan_of_length size)

theorem calls_eq (n : Nat) (state : γ) :
    engine.calls n state
      = (List.range n).map fun i => .ok (randomUuid fun k => engine.drawn state (16 * i + k)) := by
  induction n generalizing state with
  | zero => rfl
  | succ n ih =>
      have place : ∀ i k, 16 + (16 * i + k) = 16 * (i + 1) + k := by omega
      simp only [calls, call_eq, ih, List.range_succ_eq_map, List.map_cons, List.map_map, drawn_after, place,
        Function.comp_def, Nat.mul_zero, Nat.zero_add]

end RandomEngine

/-- The bits of a draw that a random uuid keeps, by the place of its byte. -/
def keptBits (i : Nat) (draw : BitVec 32) : BitVec 8 :=
  if i = 6 then (draw.setWidth 4).setWidth 8 else if i = 8 then (draw.setWidth 6).setWidth 8
  else draw.setWidth 8

theorem getElem?_rfcOctets (version : BitVec 4) (bytes : List (BitVec 8)) (i : Nat) :
    (rfcOctets version bytes)[i]?
      = bytes[i]?.map fun octet =>
          if i = 6 then version ++ octet.setWidth 4 else if i = 8 then 0b10#2 ++ octet.setWidth 6
          else octet := by
  by_cases at_six : i = 6
  · subst at_six
    simp [rfcOctets]
  · by_cases at_eight : i = 8
    · subst at_eight
      simp [rfcOctets]
    · simp [rfcOctets, at_six, at_eight, Ne.symm at_six, Ne.symm at_eight]

/-- Two octets of random uuids at one place are equal exactly if the bits that are kept are. -/
theorem octet_eq_iff (i : Nat) (draw draw' : BitVec 32) :
    (if i = 6 then 4#4 ++ (draw.setWidth 8).setWidth 4
        else if i = 8 then 0b10#2 ++ (draw.setWidth 8).setWidth 6 else draw.setWidth 8)
      = (if i = 6 then 4#4 ++ (draw'.setWidth 8).setWidth 4
        else if i = 8 then 0b10#2 ++ (draw'.setWidth 8).setWidth 6 else draw'.setWidth 8)
      ↔ keptBits i draw = keptBits i draw' := by
  have low_four : ∀ low : BitVec 4,
      (4#4 ++ low).setWidth 4 = low ∧ (low.setWidth 8).setWidth 4 = low := by decide
  have low_six : ∀ low : BitVec 6,
      (0b10#2 ++ low).setWidth 6 = low ∧ (low.setWidth 8).setWidth 6 = low := by decide
  have four : ∀ word : BitVec 32, (word.setWidth 8).setWidth 4 = word.setWidth 4 := fun word =>
    BitVec.setWidth_setWidth_of_le word (by decide)
  have six : ∀ word : BitVec 32, (word.setWidth 8).setWidth 6 = word.setWidth 6 := fun word =>
    BitVec.setWidth_setWidth_of_le word (by decide)
  unfold keptBits
  simp only [four, six]
  split_ifs
  · constructor
    · intro same
      rw [← (low_four (draw.setWidth 4)).1, ← (low_four (draw'.setWidth 4)).1, same]
    · intro same
      rw [← (low_four (draw.setWidth 4)).2, ← (low_four (draw'.setWidth 4)).2, same]
  · constructor
    · intro same
      rw [← (low_six (draw.setWidth 6)).1, ← (low_six (draw'.setWidth 6)).1, same]
    · intro same
      rw [← (low_six (draw.setWidth 6)).2, ← (low_six (draw'.setWidth 6)).2, same]
  · exact Iff.rfl

/-- Two random uuids are equal exactly if their draws agree on the bits that are kept. -/
theorem randomUuid_eq_iff (draws draws' : Nat → BitVec 32) :
    randomUuid draws = randomUuid draws' ↔ ∀ i < 16, keptBits i (draws i) = keptBits i (draws' i) := by
  have lists : randomUuid draws = randomUuid draws'
      ↔ rfcOctets 4 ((List.range 16).map fun i => (draws i).setWidth 8)
        = rfcOctets 4 ((List.range 16).map fun i => (draws' i).setWidth 8) := by
    simp [randomUuid]
  rw [lists, List.ext_getElem?_iff]
  simp only [getElem?_rfcOctets, List.getElem?_map]
  constructor
  · intro same i inside
    have here := same i
    rw [List.getElem?_range inside] at here
    exact (octet_eq_iff i _ _).mp (Option.some.inj here)
  · intro same i
    by_cases inside : i < 16
    · rw [List.getElem?_range inside]
      exact congrArg some ((octet_eq_iff i _ _).mpr (same i inside))
    · rw [List.getElem?_eq_none (by simpa using inside)]
      rfl

/-- On a generator that is called again and again, the uuid of number `i` is made from the sixteen draws from
`16 * i` on. All of them are of the standard's variant and of the version for random numbers, and two of them
are equal exactly if their draws agree on the 122 bits that are kept. -/
theorem randomCalls_eq {γ : Type} (engine : RandomEngine γ) (state : γ) (n : Nat) :
    engine.calls n state
        = (List.range n).map (fun i => .ok (randomUuid fun k => engine.drawn state (16 * i + k)))
      ∧ (∀ draws, (randomUuid draws).variant = .rfc ∧ (randomUuid draws).version = .randomNumberBased)
      ∧ ∀ i j, randomUuid (fun k => engine.drawn state (16 * i + k))
          = randomUuid (fun k => engine.drawn state (16 * j + k))
        ↔ ∀ k < 16, keptBits k (engine.drawn state (16 * i + k))
            = keptBits k (engine.drawn state (16 * j + k)) := by
  refine ⟨engine.calls_eq n state, fun draws => ?_, fun i j => randomUuid_eq_iff _ _⟩
  have octets : (randomUuid draws).data.toList
      = rfcOctets 4 ((List.range 16).map fun i => (draws i).setWidth 8) := rfl
  exact ⟨variant_of_octets octets, version_of_octets octets⟩

end Nihil
