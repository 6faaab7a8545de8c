/-
This file is about what a reading of the timer does in `nos_rand_byte`.

The reading is mixed into the low half of the state, and the byte that the call
returns is the top byte. So the byte never depends on the reading of its own
call: it is decided by the state before.

The states themselves never merge. The multiplier is odd, so the advance can be
undone, and mixing in one and the same reading can be undone as well; the same
readings keep any two states apart, over any number of calls.
-/

import Nosgem.Entropy

namespace Nosgem

open Generator Interaction

/-! ### Mixing -/

theorem topByte_toNat (state : UInt32) : (topByte state).toNat = state.toNat / 2 ^ 24 := by
  have inRange := state.toNat_lt
  have shift : (24 : UInt32).toNat % 32 = 24 := by decide
  rw [topByte, UInt32.toNat_toUInt8, UInt32.toNat_shiftRight, shift, Nat.shiftRight_eq_div_pow]
  omega

/-- A reading changes the low half of the state only. -/
theorem mixPit_toNat (state : UInt32) (pit : UInt16) :
    (mixPit state pit).toNat =
      2 ^ 16 * (state.toNat / 2 ^ 16) + (state.toNat % 2 ^ 16 ^^^ pit.toNat) := by
  have inRange : pit.toNat < 2 ^ 16 := pit.toNat_lt
  have mixed : (mixPit state pit).toNat = state.toNat ^^^ pit.toNat := by
    rw [mixPit, UInt32.toNat_xor, UInt16.toNat_toUInt32]
  have high : (state.toNat ^^^ pit.toNat) / 2 ^ 16 = state.toNat / 2 ^ 16 := by
    rw [Nat.xor_div_two_pow, Nat.div_eq_of_lt inRange, Nat.xor_zero]
  have low : (state.toNat ^^^ pit.toNat) % 2 ^ 16 = state.toNat % 2 ^ 16 ^^^ pit.toNat := by
    rw [Nat.xor_mod_two_pow, Nat.mod_eq_of_lt inRange]
  rw [mixed, ← high, ← low, Nat.div_add_mod]

/-- The byte that is shown is blind to the reading. -/
theorem mixPit_blind : Blind mixPit topByte := by
  intro state pit
  have low : state.toNat % 2 ^ 16 ^^^ pit.toNat < 2 ^ 16 :=
    Nat.xor_lt_two_pow (Nat.mod_lt _ (by decide)) pit.toNat_lt
  apply UInt8.toNat_inj.mp
  rw [topByte_toNat, topByte_toNat, mixPit_toNat]
  omega

/-! ### The byte of a call -/

theorem topByte_lcgStep (state : UInt32) (pit : UInt16) :
    topByte (lcgStep state pit) = topByte (lcgNext state) :=
  mixPit_blind.mixedStep lcgNext state pit

/-- The byte of a call is decided by the state before it. -/
theorem nosRandByte_byte {state next : UInt32} {byte : UInt8}
    {trace : List (Event EntropyAnswer)}
    (run : Steps anyEnv () (nosRandByte state) trace () (.ret (byte, next))) :
    byte = topByte (lcgNext state) := by
  obtain ⟨pit, _, equal⟩ := nosRandByte_ret run
  cases equal
  exact topByte_lcgStep state pit

/-- The byte of a call is mixed with the timer: two readings make it return different bytes. -/
def MixedWithTimer (state : UInt32) : Prop :=
  ∃ pit other byte otherByte next otherNext,
    Steps anyEnv () (nosRandByte state) (pitReading pit) () (.ret (byte, next)) ∧
      Steps anyEnv () (nosRandByte state) (pitReading other) () (.ret (otherByte, otherNext)) ∧
      byte ≠ otherByte

/-- No state has its byte mixed with the timer. -/
theorem nosRandByte_unmixed (state : UInt32) : ¬ MixedWithTimer state := by
  rintro ⟨pit, other, byte, otherByte, next, otherNext, run, otherRun, different⟩
  exact different ((nosRandByte_byte run).trans (nosRandByte_byte otherRun).symm)

/-- The seed that stands in for zero: its byte is the same for every reading. -/
theorem nosRandByte_unmixed_seed : ¬ MixedWithTimer 0xDEADBEEF := by
  rintro ⟨pit, other, byte, otherByte, next, otherNext, run, otherRun, different⟩
  have known : topByte (lcgNext 0xDEADBEEF) = 0x6A := by decide
  exact different (((nosRandByte_byte run).trans known).trans
    ((nosRandByte_byte otherRun).trans known).symm)

/-! ### The states -/

/-- Advancing merges no states: the multiplier can be undone. -/
theorem lcgNext_injective : Function.Injective lcgNext := by
  refine congruential_injective 4276115653 (fun state => ?_) 1013904223
  have inverse : (1664525 : UInt32) * 4276115653 = 1 := by decide
  rw [UInt32.mul_assoc, inverse, UInt32.mul_one]

/-- Mixing in a reading merges no states. -/
theorem mixPit_injective (pit : UInt16) : Function.Injective fun state => mixPit state pit :=
  fun _ _ same => (UInt32.xor_left_inj _).mp same

/-- The same readings never merge two states, whatever the number of calls. -/
theorem nosRandBytes_apart (pits : List UInt16) :
    (∀ state result,
      Steps anyEnv () (nosRandBytes pits.length state) (pits.flatMap pitReading) ()
          (.ret result) ↔
        result = (bytesAfter pits state, stateAfter lcgStep pits state)) ∧
      Function.Injective (stateAfter lcgStep pits) := by
  constructor
  · intro state result
    constructor
    · intro run
      have same : pits.flatMap pitReading ++ [] = pits.flatMap pitReading ++ [] := rfl
      exact (run.ret_unique (nosRandBytes_run pits state) same).1
    · rintro rfl
      exact nosRandBytes_run pits state
  · exact stateAfter_injective (mixedStep_injective lcgNext_injective mixPit_injective) pits

end Nosgem
