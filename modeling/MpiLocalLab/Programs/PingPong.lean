import MpiLocalLab.Programs.Process

namespace MpiLocalLab.Programs.PingPong

open Msearch (intMin intMax longMin longMax)

def memset (buffer : Buffer UInt8) (byte : UInt8) (count : ℤ) : Proc (Buffer UInt8) :=
  if count ≤ buffer.length then .ok
    (List.replicate count.toNat (some byte) ++ buffer.drop count.toNat)
  else .error (.outside (count - 1))

/-- `MPI_Send` of `count` bytes and the `MPI_Recv` of `count'` bytes that waits for them. -/
def transfer (count count' : ℤ) (sent received : Buffer UInt8) : Proc (Buffer UInt8) := do
  let message ← outgoing count sent
  deliver message count' received

/-- The loops of rank 0 and of rank 1, with `left` round trips left. Each waits for the message
of the other, so they go in step. -/
def roundTrips (payload : ℤ) : ℕ → Buffer UInt8 → Buffer UInt8 → Proc (Buffer UInt8)
  | 0, buffer0, _ => return buffer0
  | left + 1, buffer0, buffer1 => do
    let ping ← toInt payload
    let buffer1 ← transfer ping ping buffer0 buffer1
    let pong ← toInt payload
    let buffer0 ← transfer pong pong buffer1 buffer0
    roundTrips payload left buffer0 buffer1

/-- A rank in front of the barrier: its buffer with the known pattern. -/
def prepare (mallocs : Mallocs) (payload : ℤ) (rank : ℕ) : Proc (Buffer UInt8) := do
  let buffer ← malloc UInt8 (mallocs rank 0) 1 payload
  memset buffer 0xA5 payload

/-- The loop that looks for another byte, from `b` on with `left` bytes left. -/
def findCorrupted (buffer : Buffer UInt8) : ℕ → ℕ → Proc Bool
  | 0, _ => return false
  | left + 1, b => do
    let byte ← load buffer b
    if byte ≠ 0xA5 then return true else findCorrupted buffer left (b + 1)

def printed (iterations payload : ℤ) (corrupted : Bool) : List String :=
  [s!"ping-pong {iterations} round trips of {payload} bytes",
    "payload intact: " ++ if corrupted then "no" else "yes"]

/-- All ranks, up to the barrier one after another: they do not meet before. The ranks above 1
only wait. -/
def run (mallocs : Mallocs) (worldSize : ℕ) (iterations payload : ℤ) : Proc Output :=
  if worldSize < 2 then .error .rejected
  else do
    let buffers ← (List.range worldSize).mapM (prepare mallocs payload)
    let buffer ← roundTrips payload iterations.toNat (buffers[0]?.getD []) (buffers[1]?.getD [])
    let corrupted ← findCorrupted buffer payload.toNat 0
    return ⟨printed iterations payload corrupted, if corrupted then 1 else 0⟩

def main (mallocs : Mallocs) (worldSize : ℕ) (arg₁ arg₂ : Option (List UInt8)) : Proc Output :=
  run mallocs worldSize (parsePositive arg₁ 1000) (parsePositive arg₂ 4096)

def pattern (payload : ℕ) : Buffer UInt8 := Buffer.wrote (List.replicate payload 0xA5) payload

theorem pattern_eq (payload : ℕ) : pattern payload = List.replicate payload (some 0xA5) := by
  rw [pattern, Buffer.wrote_all List.length_replicate, List.map_replicate]

theorem transfer_pattern (payload : ℕ) :
    transfer payload payload (pattern payload) (pattern payload) = .ok (pattern payload) := by
  have hcount : (0 : ℤ) ≤ payload ∧
      (payload : ℤ) ≤ ((List.replicate payload (some (0xA5 : UInt8))).length : ℤ) := by
    rw [List.length_replicate]
    omega
  rw [transfer, pattern_eq, outgoing, if_pos hcount, Int.toNat_natCast,
    List.take_replicate, Nat.min_self]
  refine bind_eq_ok.mpr ⟨_, rfl, ?_⟩
  rw [deliver, if_pos (by rw [List.length_replicate]; omega), List.length_replicate,
    List.drop_replicate, Nat.sub_self, List.replicate_zero, List.append_nil]

theorem roundTrips_eq_ok {payload : ℕ} (hmax : (payload : ℤ) ≤ intMax) (left : ℕ) :
    roundTrips payload left (pattern payload) (pattern payload) = .ok (pattern payload) := by
  induction left with
  | zero => rfl
  | succ left ih =>
    have hmin : intMin ≤ 0 := by decide
    have hcount : toInt (payload : ℤ) = .ok (payload : ℤ) := toInt_eq_ok (by omega) hmax
    rw [roundTrips]
    refine bind_eq_ok.mpr ⟨_, hcount, ?_⟩
    refine bind_eq_ok.mpr ⟨_, transfer_pattern payload, ?_⟩
    refine bind_eq_ok.mpr ⟨_, hcount, ?_⟩
    exact bind_eq_ok.mpr ⟨_, transfer_pattern payload, ih⟩

theorem findCorrupted_eq_ok {payload : ℕ} {left b : ℕ} (hrange : b + left ≤ payload) :
    findCorrupted (pattern payload) left b = .ok false := by
  induction left generalizing b with
  | zero => rfl
  | succ left ih =>
    have hbyte : (List.replicate payload (0xA5 : UInt8))[b]? = some 0xA5 := by
      rw [List.getElem?_replicate, if_pos (by omega)]
    rw [findCorrupted]
    refine bind_eq_ok.mpr ⟨0xA5, load_eq_ok rfl hbyte, ?_⟩
    rw [if_neg (not_not.mpr rfl)]
    exact ih (by omega)

theorem prepare_ensures (mallocs : Mallocs) {payload : ℕ} (hmax : (payload : ℤ) ≤ longMax)
    (rank : ℕ) :
    Ensures (prepare mallocs payload rank) (· = pattern payload) (Refused mallocs) := by
  have hbytes : (payload : ℤ) * 1 < 2 ^ 64 := by
    unfold longMax at hmax
    omega
  have hroom : (payload : ℤ) ≤ ((Buffer.wrote ([] : List UInt8) payload).length : ℤ) := by
    rw [Buffer.length_wrote (Nat.zero_le payload)]
  apply (malloc_ensures (by decide) hbytes).bind
  rintro _ rfl
  rw [memset, if_pos hroom, Int.toNat_natCast, pattern_eq, Buffer.wrote_nil, Buffer.blank,
    List.drop_replicate, Nat.sub_self, List.replicate_zero, List.append_nil]
  exact rfl

/-- The payload comes back as it was. -/
theorem run_ensures (mallocs : Mallocs) {worldSize : ℕ} (hranks : 2 ≤ worldSize) (iterations : ℤ)
    {payload : ℕ} (hmax : (payload : ℤ) ≤ intMax) :
    Ensures (run mallocs worldSize iterations payload) (· = ⟨printed iterations payload false, 0⟩)
      (Refused mallocs) := by
  have hlong : intMax ≤ longMax := by decide
  have hbuffer : ∀ rank < 2, ((List.range worldSize).map fun _ => pattern payload)[rank]?.getD [] =
      pattern payload := by
    intro rank hrank
    rw [List.getElem?_map, List.getElem?_range (by omega)]
    rfl
  rw [run, if_neg (by omega)]
  apply (Ensures.mapM fun rank _ => prepare_ensures mallocs (by omega) rank).bind
  rintro _ rfl
  rw [hbuffer 0 (by decide), hbuffer 1 (by decide)]
  apply Ensures.bind_ok (roundTrips_eq_ok hmax iterations.toNat)
  rw [Int.toNat_natCast]
  exact Ensures.bind_ok (findCorrupted_eq_ok (by omega)) rfl

end MpiLocalLab.Programs.PingPong
