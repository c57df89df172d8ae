import Mathlib.Data.Nat.Bitwise

/-!
# Page table entries

The 64-bit entry `pt_entry_t` of the page tables, as its bit fields and as the
word that holds them.  The first field is the least significant bit.
-/

namespace StarterKernel

/-- The bit fields of `pt_entry_t`. -/
structure PtEntry where
  present : Bool
  writable : Bool
  user : Bool
  writeThrough : Bool
  cacheDisable : Bool
  accessed : Bool
  dirty : Bool
  pageSize : Bool
  unused0 : BitVec 4
  address : BitVec 40
  unused1 : BitVec 11
  noExecute : Bool
  deriving DecidableEq

namespace PtEntry

/-- The fields held by a word. -/
def decode (word : Nat) : PtEntry where
  present := word.testBit 0
  writable := word.testBit 1
  user := word.testBit 2
  writeThrough := word.testBit 3
  cacheDisable := word.testBit 4
  accessed := word.testBit 5
  dirty := word.testBit 6
  pageSize := word.testBit 7
  unused0 := BitVec.ofNat 4 (word / 2 ^ 8)
  address := BitVec.ofNat 40 (word / 2 ^ 12)
  unused1 := BitVec.ofNat 11 (word / 2 ^ 52)
  noExecute := word.testBit 63

/-- The word that holds the given fields. -/
def encode (entry : PtEntry) : Nat :=
  entry.present.toNat + entry.writable.toNat * 2 ^ 1 +
    entry.user.toNat * 2 ^ 2 + entry.writeThrough.toNat * 2 ^ 3 +
    entry.cacheDisable.toNat * 2 ^ 4 + entry.accessed.toNat * 2 ^ 5 +
    entry.dirty.toNat * 2 ^ 6 + entry.pageSize.toNat * 2 ^ 7 +
    entry.unused0.toNat * 2 ^ 8 + entry.address.toNat * 2 ^ 12 +
    entry.unused1.toNat * 2 ^ 52 + entry.noExecute.toNat * 2 ^ 63

/-- The physical address `address << 12`, computed in `uintptr_t`. -/
def frame (entry : PtEntry) : Nat := entry.address.toNat <<< 12

theorem frame_eq (entry : PtEntry) :
    entry.frame = entry.address.toNat * 4096 := by
  simp [frame, Nat.shiftLeft_eq]

theorem frame_mod (entry : PtEntry) : entry.frame % 4096 = 0 := by
  rw [frame_eq]
  omega

theorem frame_lt (entry : PtEntry) : entry.frame < 2 ^ 52 := by
  have bound := entry.address.isLt
  rw [frame_eq]
  omega

/-- An address field filled with a page-aligned physical address below `2 ^ 52`
points back to it. -/
theorem frame_of_address
    {entry : PtEntry} {paddr : Nat}
    (field : entry.address = BitVec.ofNat 40 (paddr >>> 12))
    (aligned : paddr % 4096 = 0) (bound : paddr < 2 ^ 52) :
    entry.frame = paddr := by
  rw [frame_eq, field, BitVec.toNat_ofNat, Nat.shiftRight_eq_div_pow]
  omega

/-- Each field is smaller than its width allows. -/
private theorem fields_lt (entry : PtEntry) :
    (entry.present.toNat < 2 ∧ entry.writable.toNat < 2 ∧ entry.user.toNat < 2 ∧
      entry.writeThrough.toNat < 2 ∧ entry.cacheDisable.toNat < 2 ∧
      entry.accessed.toNat < 2 ∧ entry.dirty.toNat < 2 ∧ entry.pageSize.toNat < 2 ∧
      entry.noExecute.toNat < 2) ∧
    entry.unused0.toNat < 2 ^ 4 ∧ entry.address.toNat < 2 ^ 40 ∧
    entry.unused1.toNat < 2 ^ 11 :=
  ⟨⟨Bool.toNat_lt _, Bool.toNat_lt _, Bool.toNat_lt _, Bool.toNat_lt _, Bool.toNat_lt _,
    Bool.toNat_lt _, Bool.toNat_lt _, Bool.toNat_lt _, Bool.toNat_lt _⟩,
    entry.unused0.isLt, entry.address.isLt, entry.unused1.isLt⟩

theorem encode_lt (entry : PtEntry) : entry.encode < 2 ^ 64 := by
  have bounds := entry.fields_lt
  unfold encode
  omega

private theorem testBit_eq_of_div_mod
    {word position : Nat} {bit : Bool}
    (same : word / 2 ^ position % 2 = bit.toNat) :
    word.testBit position = bit := by
  rw [Nat.testBit_eq_decide_div_mod_eq, same]
  cases bit <;> rfl

private theorem ofNat_eq_of_mod
    {width word : Nat} {value : BitVec width}
    (same : word % 2 ^ width = value.toNat) :
    BitVec.ofNat width word = value := by
  apply BitVec.eq_of_toNat_eq
  rw [BitVec.toNat_ofNat, same]

/-- The word of an entry holds exactly its fields. -/
@[simp] theorem decode_encode (entry : PtEntry) :
    decode entry.encode = entry := by
  have bounds := entry.fields_lt
  obtain ⟨present, writable, user, writeThrough, cacheDisable, accessed, dirty,
    pageSize, unused0, address, unused1, noExecute⟩ := entry
  dsimp only at bounds
  simp only [decode, encode, PtEntry.mk.injEq]
  refine ⟨testBit_eq_of_div_mod ?_, testBit_eq_of_div_mod ?_,
    testBit_eq_of_div_mod ?_, testBit_eq_of_div_mod ?_,
    testBit_eq_of_div_mod ?_, testBit_eq_of_div_mod ?_,
    testBit_eq_of_div_mod ?_, testBit_eq_of_div_mod ?_,
    ofNat_eq_of_mod ?_, ofNat_eq_of_mod ?_, ofNat_eq_of_mod ?_,
    testBit_eq_of_div_mod ?_⟩ <;> omega

/-- A 64-bit word is determined by the fields it holds. -/
theorem encode_decode {word : Nat} (bound : word < 2 ^ 64) :
    (decode word).encode = word := by
  have bit (position : Nat) :
      (word.testBit position).toNat = word / 2 ^ position % 2 := by
    rw [Nat.testBit_eq_decide_div_mod_eq]
    rcases Nat.mod_two_eq_zero_or_one (word / 2 ^ position) with zero | one
    · simp [zero]
    · simp [one]
  simp only [encode, decode, bit, BitVec.toNat_ofNat]
  omega

end PtEntry
end StarterKernel
