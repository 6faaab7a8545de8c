/-
This file models `entropy.c`: the readings of the clock and of the timer, the
seeding of the generator by `nos_entropy_init`, and `nos_rand_byte`. The state of
the generator is a static variable of the source and an argument here. An
`unsigned int` has 16 bits and an `unsigned long` has 32; what the hardware
answers is left to the environments the programs are run against.
-/

import Nosgem.Generator
import Nosgem.Interaction
import Mathlib.Data.UInt

namespace Nosgem

open Generator Interaction

/-! ### The hardware -/

/-- What `entropy.c` asks of the machine: a byte written to a port, a byte read from one, the low
word of the BIOS tick counter, and `time`. -/
inductive EntropyOp where
  | outp (port : UInt16) (value : UInt8)
  | inp (port : UInt16)
  | biosTicks
  | time
  deriving DecidableEq, Repr

/-- The answers. -/
abbrev EntropyAnswer : EntropyOp → Type
  | .outp _ _ => Unit
  | .inp _ => UInt8
  | .biosTicks => UInt16
  | .time => UInt32

/-- Programs that read the clock and the timer. -/
abbrev EntropyIo (Result : Type) : Type := Prog EntropyAnswer Result

/-- A call of the hardware. -/
def onHardware (op : EntropyOp) : EntropyIo (EntropyAnswer op) := perform op

/-! ### The source functions -/

/-- `read_bios_ticks`. -/
def readBiosTicks : EntropyIo UInt16 := onHardware .biosTicks

/-- `read_pit`. -/
def readPit : EntropyIo UInt16 := do
  onHardware (.outp 0x43 0x00)
  let lo ← onHardware (.inp 0x40)
  let hi ← onHardware (.inp 0x40)
  return (hi.toUInt16 <<< 8) ||| lo.toUInt16

/-- The mixing of all the readings in `nos_entropy_init`. -/
def mixSeed (ticks1 pit1 ticks2 pit2 t : UInt16) : UInt32 :=
  ticks1.toUInt32 ^^^ pit1.toUInt32 <<< 16 ^^^ ticks2.toUInt32 <<< 8 ^^^ pit2.toUInt32 ^^^
    t.toUInt32 ^^^ t.toUInt32 <<< 13

/-- `nos_entropy_init`: the state it leaves. -/
def nosEntropyInit : EntropyIo UInt32 := do
  let ticks1 ← readBiosTicks
  let pit1 ← readPit
  -- here the source waits for the timer to advance
  let ticks2 ← readBiosTicks
  let pit2 ← readPit
  let t ← onHardware .time
  let seed := mixSeed ticks1 pit1 ticks2 pit2 t.toUInt16
  return if seed = 0 then 0xDEADBEEF else seed

/-- The assignment that advances `nos_lcg_state`. -/
def lcgNext (state : UInt32) : UInt32 := congruential 1664525 1013904223 state

/-- The assignment that mixes a reading of the timer into `nos_lcg_state`. -/
def mixPit (state : UInt32) (pit : UInt16) : UInt32 := state ^^^ pit.toUInt32

/-- The byte that `nos_rand_byte` shows of the state. -/
def topByte (state : UInt32) : UInt8 := (state >>> 24).toUInt8

/-- `nos_rand_byte`: the byte, and the state it leaves. -/
def nosRandByte (state : UInt32) : EntropyIo (UInt8 × UInt32) := do
  let pit ← readPit
  let state := mixPit (lcgNext state) pit
  return (topByte state, state)

/-- `count` calls of `nos_rand_byte`: the bytes, and the state they leave. -/
def nosRandBytes : (count : Nat) → (state : UInt32) → EntropyIo (List UInt8 × UInt32)
  | 0, state => return ([], state)
  | count + 1, state => do
    let (byte, state) ← nosRandByte state
    let (bytes, state) ← nosRandBytes count state
    return (byte :: bytes, state)

/-! ### Readings of the timer -/

/-- The calls of `read_pit`, answered with the two bytes of a counter. -/
def pitReading (pit : UInt16) : List (Event EntropyAnswer) :=
  [⟨.outp 0x43 0x00, ()⟩, ⟨.inp 0x40, pit.toUInt8⟩, ⟨.inp 0x40, (pit >>> 8).toUInt8⟩]

theorem toNat_shiftRight_eight (pit : UInt16) : (pit >>> 8).toNat = pit.toNat / 2 ^ 8 := by
  have eight : (8 : UInt16).toNat % 16 = 8 := by decide
  rw [UInt16.toNat_shiftRight, eight, Nat.shiftRight_eq_div_pow]

/-- The counter that `read_pit` makes up of two bytes. -/
theorem counter_toNat (hi lo : UInt8) :
    ((hi.toUInt16 <<< 8) ||| lo.toUInt16).toNat = 2 ^ 8 * hi.toNat + lo.toNat := by
  have hiRange := hi.toNat_lt
  have high : (hi.toUInt16 <<< 8).toNat = hi.toNat <<< 8 := by
    simp [Nat.shiftLeft_eq]
    omega
  rw [UInt16.toNat_or, high, UInt8.toNat_toUInt16, ← Nat.shiftLeft_add_eq_or_of_lt lo.toNat_lt,
    Nat.shiftLeft_eq, Nat.mul_comm]

/-- The two bytes of a counter make up the counter. -/
theorem counter_of_bytes (pit : UInt16) :
    ((pit >>> 8).toUInt8.toUInt16 <<< 8) ||| pit.toUInt8.toUInt16 = pit := by
  have inRange := pit.toNat_lt
  apply UInt16.toNat_inj.mp
  rw [counter_toNat, UInt16.toNat_toUInt8, UInt16.toNat_toUInt8, toNat_shiftRight_eight]
  omega

/-- The bytes of a counter are the two that it was made up of. -/
theorem bytes_of_counter (hi lo : UInt8) :
    ((hi.toUInt16 <<< 8) ||| lo.toUInt16).toUInt8 = lo ∧
      (((hi.toUInt16 <<< 8) ||| lo.toUInt16) >>> 8).toUInt8 = hi := by
  have hiRange := hi.toNat_lt
  have loRange := lo.toNat_lt
  constructor
  · apply UInt8.toNat_inj.mp
    rw [UInt16.toNat_toUInt8, counter_toNat]
    omega
  · apply UInt8.toNat_inj.mp
    rw [UInt16.toNat_toUInt8, toNat_shiftRight_eight, counter_toNat]
    omega

/-- `read_pit` returns the counter that it reads. -/
theorem readPit_run (pit : UInt16) :
    Steps anyEnv () readPit (pitReading pit) () (.ret pit) := by
  refine .any (.any (.any ?_))
  rw [counter_of_bytes]
  exact .refl _ _

/-- Every run of `read_pit` reads the counter that it returns. -/
theorem readPit_ret {trace : List (Event EntropyAnswer)} {pit : UInt16}
    (run : Steps anyEnv () readPit trace () (.ret pit)) : trace = pitReading pit := by
  obtain ⟨_, _, _, _, latched, rfl⟩ := run.perform_ret
  obtain ⟨lo, _, _, _, readLo, rfl⟩ := latched.perform_ret
  obtain ⟨hi, _, _, _, readHi, rfl⟩ := readLo.perform_ret
  obtain ⟨rfl, _, equal⟩ := readHi.of_ret
  cases equal
  obtain ⟨low, high⟩ := bytes_of_counter hi lo
  rw [pitReading, low, high]

/-! ### The generator -/

/-- One step of the generator: `nos_lcg_state` after a call that reads a counter. -/
def lcgStep (state : UInt32) (pit : UInt16) : UInt32 := mixedStep lcgNext mixPit state pit

/-- The bytes that successive calls return. -/
def bytesAfter : (pits : List UInt16) → (state : UInt32) → List UInt8
  | [], _ => []
  | pit :: pits, state => topByte (lcgStep state pit) :: bytesAfter pits (lcgStep state pit)

/-- A call of `nos_rand_byte` takes one step of the generator and shows its top byte. -/
theorem nosRandByte_run (state : UInt32) (pit : UInt16) :
    Steps anyEnv () (nosRandByte state) (pitReading pit) ()
      (.ret (topByte (lcgStep state pit), lcgStep state pit)) :=
  (readPit_run pit).bind (.refl () _)

/-- The calls of `nos_rand_byte` step the generator once for each counter that they read. -/
theorem nosRandBytes_run (pits : List UInt16) (state : UInt32) :
    Steps anyEnv () (nosRandBytes pits.length state) (pits.flatMap pitReading) ()
      (.ret (bytesAfter pits state, stateAfter lcgStep pits state)) := by
  induction pits generalizing state with
  | nil => exact .refl _ _
  | cons pit pits inductionHypothesis =>
    rw [List.flatMap_cons, stateAfter_cons, Function.comp_apply, bytesAfter]
    have others := (inductionHypothesis (lcgStep state pit)).bind_left fun later =>
      (.ret (topByte (lcgStep state pit) :: later.1, later.2) : EntropyIo (List UInt8 × UInt32))
    -- What the step computes plays no part in the sequence of the calls.
    have first := nosRandByte_run state pit
    generalize lcgStep state pit = left at first others ⊢
    exact first.bind others

/-- Every run of `nos_rand_byte` reads one counter and takes one step of the generator. -/
theorem nosRandByte_ret {state : UInt32} {trace : List (Event EntropyAnswer)}
    {result : UInt8 × UInt32} (run : Steps anyEnv () (nosRandByte state) trace () (.ret result)) :
    ∃ pit, trace = pitReading pit ∧ result = (topByte (lcgStep state pit), lcgStep state pit) := by
  obtain ⟨pit, front, back, _, reading, rest, rfl⟩ := run.bind_ret
  obtain ⟨rfl, _, equal⟩ := rest.of_ret
  cases equal
  exact ⟨pit, by rw [List.append_nil, readPit_ret reading], rfl⟩

end Nosgem
