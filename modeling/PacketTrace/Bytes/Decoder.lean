import PacketTrace.Bytes.LittleEndian
import PacketTrace.Failure

/-!
# Decoders of unfinished input

A decoder reads a value off the front of a byte string that may still grow: it
yields the value and the bytes after it, refuses the input for good, or asks
for more. The number of bytes it asks for (`Decoded.short`) is counted from
the field that is cut off, not from the start of the record, so it is a lower
bound on what the whole record needs: a field after it may ask again.

* `Decoder.take`: the next `n` bytes;
* `Decoder.demand`: asks for `n` bytes ahead of the fields that use them;
* `Decoder.uint16`, `Decoder.uint32`, `Decoder.uint64`, `Decoder.int32`:
  little-endian words.

Decoders are sequenced as a monad, each going on where the one before it
stopped.
-/

namespace PacketTrace

/-- What a decoder makes of its input. -/
inductive Decoded (α : Type) where
  /-- A value, and the bytes after it. -/
  | value (a : α) (rest : Bytes)
  /-- The input ends `missing` bytes before the end of a field. -/
  | short (missing : Nat)
  /-- No input that starts like this one can be decoded. -/
  | refused (failure : Failure)
  deriving DecidableEq

/-- A decoder of values of type `α`. -/
def Decoder (α : Type) := Bytes → Decoded α

namespace Decoder

variable {α β : Type}

/-- Decodes with `d`, and goes on after its value with the decoder that `f`
    gives for it. -/
protected def bind (d : Decoder α) (f : α → Decoder β) : Decoder β := fun input =>
  match d input with
  | .value a rest => f a rest
  | .short missing => .short missing
  | .refused failure => .refused failure

instance : Monad Decoder where
  pure a := fun input => .value a input
  bind := Decoder.bind

@[simp]
theorem pure_apply (a : α) (input : Bytes) :
    (pure a : Decoder α) input = .value a input := rfl

theorem bind_apply (d : Decoder α) (f : α → Decoder β) (input : Bytes) :
    (d >>= f) input =
      match d input with
      | .value a rest => f a rest
      | .short missing => .short missing
      | .refused failure => .refused failure := rfl

theorem bind_of_eq_value {d : Decoder α} {f : α → Decoder β} {input rest : Bytes} {a : α}
    (h : d input = .value a rest) : (d >>= f) input = f a rest := by
  rw [bind_apply, h]

theorem bind_eq_value {d : Decoder α} {f : α → Decoder β} {input rest : Bytes} {b : β} :
    (d >>= f) input = .value b rest ↔
      ∃ a mid, d input = .value a mid ∧ f a mid = .value b rest := by
  rw [bind_apply]
  cases d input <;> simp [and_assoc]

/-- Refuses every input. -/
def refuse (failure : Failure) : Decoder α := fun _ => .refused failure

/-- The next `n` bytes. -/
def take (n : Nat) : Decoder Bytes := fun input =>
  let taken := input.take n
  if taken.length < n then .short (n - taken.length) else .value taken (input.drop n)

/-- Asks for `n` bytes, and leaves them where they are. -/
def demand (n : Nat) : Decoder Unit := fun input =>
  let available := (input.take n).length
  if available < n then .short (n - available) else .value () input

/-- The number held by the next `n` bytes, lowest first. -/
def word (n : Nat) : Decoder Nat := do
  let bytes ← take n
  return bytes.toNat

/-- A 16-bit word. -/
def uint16 : Decoder UInt16 := do return UInt16.ofNat (← word 2)

/-- A 32-bit word. -/
def uint32 : Decoder UInt32 := do return UInt32.ofNat (← word 4)

/-- A 64-bit word. -/
def uint64 : Decoder UInt64 := do return UInt64.ofNat (← word 8)

/-- A signed 32-bit word, in two's complement. -/
def int32 : Decoder Int32 := do return (← uint32).toInt32

theorem take_of_le {n : Nat} {input : Bytes} (h : n ≤ input.length) :
    take n input = .value (input.take n) (input.drop n) := by
  simp [take, Nat.min_eq_left h]

theorem take_of_lt {n : Nat} {input : Bytes} (h : input.length < n) :
    take n input = .short (n - input.length) := by
  have hmin : min n input.length = input.length := Nat.min_eq_right (Nat.le_of_lt h)
  simp [take, hmin, h]

theorem demand_of_le {n : Nat} {input : Bytes} (h : n ≤ input.length) :
    demand n input = .value () input := by
  simp [demand, Nat.min_eq_left h]

theorem demand_of_lt {n : Nat} {input : Bytes} (h : input.length < n) :
    demand n input = .short (n - input.length) := by
  have hmin : min n input.length = input.length := Nat.min_eq_right (Nat.le_of_lt h)
  simp [demand, hmin, h]

/-- The bytes that `take` yields are those that it takes off the input. -/
theorem take_eq_value {n : Nat} {input bytes rest : Bytes}
    (h : take n input = .value bytes rest) : bytes.length = n ∧ input = bytes ++ rest := by
  rcases Nat.lt_or_ge input.length n with hn | hn
  · rw [take_of_lt hn] at h
    contradiction
  · rw [take_of_le hn] at h
    cases h
    exact ⟨by simp [Nat.min_eq_left hn], (List.take_append_drop n input).symm⟩

theorem take_append {n : Nat} {bytes : Bytes} (h : bytes.length = n) (rest : Bytes) :
    take n (bytes ++ rest) = .value bytes rest := by
  subst h
  rw [take_of_le (by simp), List.take_left, List.drop_left]

theorem word_littleEndian {n v : Nat} (h : v < 256 ^ n) (rest : Bytes) :
    word n (Bytes.littleEndian n v ++ rest) = .value v rest := by
  rw [word, bind_apply, take_append (Bytes.length_littleEndian n v)]
  simp [Bytes.toNat_littleEndian h]

/-! ### Words are read as they are written -/

@[simp]
theorem uint16_ofUInt16 (w : UInt16) (rest : Bytes) :
    uint16 (Bytes.ofUInt16 w ++ rest) = .value w rest := by
  rw [uint16, bind_apply, Bytes.ofUInt16, word_littleEndian w.toNat_lt]
  simp

@[simp]
theorem uint32_ofUInt32 (w : UInt32) (rest : Bytes) :
    uint32 (Bytes.ofUInt32 w ++ rest) = .value w rest := by
  rw [uint32, bind_apply, Bytes.ofUInt32, word_littleEndian w.toNat_lt]
  simp

@[simp]
theorem uint64_ofUInt64 (w : UInt64) (rest : Bytes) :
    uint64 (Bytes.ofUInt64 w ++ rest) = .value w rest := by
  rw [uint64, bind_apply, Bytes.ofUInt64, word_littleEndian w.toNat_lt]
  simp

@[simp]
theorem int32_ofInt32 (w : Int32) (rest : Bytes) :
    int32 (Bytes.ofInt32 w ++ rest) = .value w rest := by
  rw [int32, bind_apply, Bytes.ofInt32, uint32_ofUInt32]
  simp

/-! ### What is read was there -/

theorem word_eq_value {n v : Nat} {input rest : Bytes} (h : word n input = .value v rest) :
    ∃ bytes : Bytes, bytes.length = n ∧ input = bytes ++ rest ∧ v = bytes.toNat := by
  obtain ⟨bytes, mid, htake, hpure⟩ := bind_eq_value.1 h
  cases hpure
  exact ⟨bytes, (take_eq_value htake).1, (take_eq_value htake).2, rfl⟩

theorem uint64_eq_value {w : UInt64} {input rest : Bytes} (h : uint64 input = .value w rest) :
    ∃ bytes : Bytes, bytes.length = 8 ∧ input = bytes ++ rest ∧ w = UInt64.ofNat bytes.toNat := by
  obtain ⟨v, mid, hword, hpure⟩ := bind_eq_value.1 h
  obtain ⟨bytes, hlength, hinput, rfl⟩ := word_eq_value hword
  cases hpure
  exact ⟨bytes, hlength, hinput, rfl⟩

end Decoder

end PacketTrace
