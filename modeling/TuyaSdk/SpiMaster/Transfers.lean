import TuyaSdk.SpiMaster.Defs

/-!
# What the transfers of a call must be

`Tiles` says that chunks cover a buffer in order. `SpiOk` is what a caller may expect of the
driver in every state: the chunks tile the buffers, a call that returned 0 has moved everything and
left no completion behind, and the status is busy until everything was moved.
-/

namespace TuyaSdk.SpiMaster

open TuyaSdk.Lib

/-- The two directions of a transfer. -/
inductive Side where
  | tx
  | rx
  deriving DecidableEq

def Side.other : Side → Side
  | .tx => .rx
  | .rx => .tx

def Message.buf (m : Message) : Side → UInt32
  | .tx => m.sendBuf
  | .rx => m.recvBuf

def Message.len (m : Message) : Side → UInt32
  | .tx => m.sendLen
  | .rx => m.recvLen

def State.engine (s : State) : Side → Engine
  | .tx => s.tx
  | .rx => s.rx

theorem Side.eq_or_other (d e : Side) : e = d ∨ e = d.other := by
  cases d <;> cases e <;> simp [Side.other]

/-- A property of both directions. -/
theorem Side.both {P : Side → Prop} (d : Side) (h : P d) (ho : P d.other) : ∀ e, P e := by
  intro e
  rcases d.eq_or_other e with rfl | rfl
  · exact h
  · exact ho

/-- The chunks lie one behind the other from `start` on, none is empty, and together they have
`n` bytes. -/
def Tiles (start : UInt32) : List Chunk → Nat → Prop
  | [], n => n = 0
  | c :: cs, n =>
    c.addr = start ∧ 0 < c.len.toNat ∧ c.len.toNat ≤ n ∧ Tiles (start + c.len) cs (n - c.len.toNat)

instance Tiles.decidable : (start : UInt32) → (cs : List Chunk) → (n : Nat) →
    Decidable (Tiles start cs n)
  | _, [], n => inferInstanceAs (Decidable (n = 0))
  | start, c :: cs, n =>
    have := Tiles.decidable (start + c.len) cs (n - c.len.toNat)
    inferInstanceAs (Decidable (_ ∧ _ ∧ _ ∧ _))

theorem Tiles.nil (start : UInt32) : Tiles start [] 0 := rfl

/-- A chunk is put behind the last one. -/
theorem Tiles.append {start : UInt32} {cs : List Chunk} {m : Nat} {c : Chunk}
    (h : Tiles start cs m) (haddr : c.addr = start + UInt32.ofNat m) (hpos : 0 < c.len.toNat) :
    Tiles start (cs ++ [c]) (m + c.len.toNat) := by
  induction cs generalizing start m with
  | nil =>
    have hm : m = 0 := h
    subst hm
    refine ⟨by simpa using haddr, hpos, by omega, ?_⟩
    show 0 + c.len.toNat - c.len.toNat = 0
    omega
  | cons b cs ih =>
    obtain ⟨hb, hb0, hbm, hrest⟩ := h
    have haddr' : c.addr = start + b.len + UInt32.ofNat (m - b.len.toNat) := by
      have hsplit : UInt32.ofNat m = b.len + UInt32.ofNat (m - b.len.toNat) := by
        calc UInt32.ofNat m
            = UInt32.ofNat (b.len.toNat + (m - b.len.toNat)) := by rw [Nat.add_sub_cancel' hbm]
          _ = b.len + UInt32.ofNat (m - b.len.toNat) := by
            rw [UInt32.ofNat_add, UInt32.ofNat_toNat]
      rw [haddr, hsplit, UInt32.add_assoc]
    have hlast := ih hrest haddr'
    refine ⟨hb, hb0, by omega, ?_⟩
    have hsum : m - b.len.toNat + c.len.toNat = m + c.len.toNat - b.len.toNat := by omega
    rw [← hsum]
    exact hlast

/-- A chunk is programmed when the one before has finished, with its length in the registers, and
has at most 4095 bytes unless it is sent with one DMA transfer. -/
structure Chunk.Ok (flag : Bool) (c : Chunk) : Prop where
  fresh : c.fresh = true
  dmaLen : c.dmaLen = c.len
  transLen : flag = true ∧ c.transLen = 0 ∨ c.transLen = c.len ∧ c.len.toNat ≤ maxLenOnce

namespace State

/-- All that the call has to move in the direction was programmed and has finished. -/
def Moved (s : State) (d : Side) : Prop :=
  Tiles (s.job.buf d) (s.engine d).chunks (s.job.len d).toNat ∧ (s.engine d).Quiet

/-- What the calls have moved, and what they leave behind when they return. -/
structure TransfersOk (s : State) : Prop where
  tiles : ∀ d, ∃ n ≤ (s.job.len d).toNat, Tiles (s.job.buf d) (s.engine d).chunks n
  chunks : ∀ d, ∀ c ∈ (s.engine d).chunks, c.Ok s.spciFlag
  complete : s.ret = some 0 → ∀ d, s.Moved d
  nothingLeft : s.ret ≠ none → (∀ d, (s.engine d).Quiet) ∧ s.finishSem = false

/-- The driver is busy while a call runs, until everything was moved. -/
def StatusOk (s : State) : Prop :=
  s.ret = none → ¬(∀ d, s.Moved d) → s.bkSpiGetStatus = true

/-- What a caller may expect in every state. -/
structure SpiOk (s : State) : Prop where
  transfers : s.TransfersOk
  status : s.StatusOk

end State

/-! ## The condition on the calls -/

/-- What the call moves, it moves in one direction, at most `max` bytes, with one interrupt for each
chunk; a send with one DMA transfer moves what the length register of the DMA takes. -/
def Call.OneSource (flag : Bool) (max : Nat) : Call → Prop
  | .send none | .recv none | .xfer none => True
  | .send (some m) =>
    m.sendBuf = 0 ∨ m.sendLen = 0 ∨ m.sendLen.toNat ≤ if flag then 2 ^ 16 else max
  | .recv (some m) => m.recvBuf = 0 ∨ m.recvLen.toNat ≤ max
  | .xfer (some m) =>
    if m.recvBuf ≠ 0 ∧ m.sendBuf ≠ 0 then m.recvLen ≠ m.sendLen ∨ m.recvLen = 0
    else if m.recvBuf ≠ 0 then m.recvLen.toNat ≤ max
    else m.sendBuf = 0 ∨ m.sendLen = 0 ∨ flag = false ∧ m.sendLen.toNat ≤ max

instance (flag : Bool) (max : Nat) : DecidablePred (Call.OneSource flag max) := fun call => by
  cases call <;> rename_i m <;> cases m <;> unfold Call.OneSource <;> infer_instance

theorem Call.OneSource.mono {flag : Bool} {max max' : Nat} {c : Call} (h : c.OneSource flag max)
    (hle : max ≤ max') : c.OneSource flag max' := by
  cases c with
  | send m =>
    cases m with
    | none => trivial
    | some m =>
      rcases h with h | h | h
      · exact .inl h
      · exact .inr (.inl h)
      · refine .inr (.inr ?_)
        cases flag
        · exact Nat.le_trans h hle
        · exact h
  | recv m =>
    cases m with
    | none => trivial
    | some m => exact h.imp_right fun hlen => Nat.le_trans hlen hle
  | xfer m =>
    cases m with
    | none => trivial
    | some m =>
      unfold Call.OneSource at h ⊢
      dsimp only at h ⊢
      split
      · rename_i hboth
        rw [if_pos hboth] at h
        exact h
      · rename_i hboth
        rw [if_neg hboth] at h
        split
        · rename_i hr
          rw [if_pos hr] at h
          exact Nat.le_trans h hle
        · rename_i hr
          rw [if_neg hr] at h
          exact h.imp_right fun h => h.imp_right fun h => ⟨h.1, Nat.le_trans h.2 hle⟩

/-- Every call that is made moves at most `max` bytes, in one direction. -/
def OneSourceCalls (max : Nat) (s : State) : Input → Prop
  | .call c => s.pc = .idle → c.OneSource s.spciFlag max
  | _ => True

instance (max : Nat) (s : State) : DecidablePred (OneSourceCalls max s) := fun input => by
  cases input <;> unfold OneSourceCalls <;> infer_instance

theorem OneSourceCalls.mono {max max' : Nat} {s : State} {input : Input}
    (h : OneSourceCalls max s input) (hle : max ≤ max') : OneSourceCalls max' s input := by
  cases input with
  | call c => exact fun hpc => (h hpc).mono hle
  | _ => trivial

/-- The greatest `int` -/
def maxInt : Nat := 2 ^ 31 - 1

end TuyaSdk.SpiMaster
