import TuyaSdk.TklOta.Defs

/-!
# What the calls do to the heap and the flash

Each call is a sequence of operations on the heap and the flash. `Effect ok x y` says that
operations lead from `x` to `y` each of which `ok` allows on the device it finds. What a call
may do is said once, as the `ok` of its effect; the safety results follow from that by
`Effect.invariant`.
-/

namespace TuyaSdk.TklOta
open TuyaSdk.Lib TuyaSdk.Flash

/-- The flash device and the events so far. -/
abbrev Io := FlashDev × List OtaEvent

/-- An operation on the heap or the flash. -/
inductive OtaOp where
  | malloc (block : OtaBlock)
  | free (block : OtaBlock)
  | eraseSector (addr : Nat)
  | write (fails : Option Nat) (addr : Nat) (src : Nat → Byte) (size : Nat)
  | accepted (binLen : Nat)
  | restore (fails : Option Nat) (addr : Nat) (src : Nat → Byte) (size : Nat)
  | reset

def OtaOp.apply (x : Io) : OtaOp → Io
  | .malloc b => (x.1, x.2 ++ [.malloc b])
  | .free b => (x.1, x.2 ++ [.free b])
  | .eraseSector a =>
    (flashEraseSector x.1 a, x.2 ++ [.eraseSector a (flashEraseSector x.1 a).cells])
  | .write fails a src n =>
    (OtaState.writeDev x.1 fails a src n,
      x.2 ++ [.write a n (OtaState.writeDev x.1 fails a src n).cells])
  | .accepted n => (x.1, x.2 ++ [.accepted n])
  | .restore fails a src n =>
    (OtaState.writeDev x.1 fails a src n,
      x.2 ++ [.restore a n (OtaState.writeDev x.1 fails a src n).cells])
  | .reset => (x.1, x.2 ++ [.reset])

/-- Operations allowed by `ok` lead from `x` to `y`. -/
inductive Effect (ok : FlashDev → OtaOp → Prop) (x : Io) : Io → Prop
  | refl : Effect ok x x
  | tail {y : Io} (op : OtaOp) : Effect ok x y → ok y.1 op → Effect ok x (op.apply y)

namespace Effect

variable {ok ok' : FlashDev → OtaOp → Prop} {x y z : Io}

/-- A relation that every allowed operation keeps is kept by the whole effect. -/
theorem invariant {J : Io → Prop} (hop : ∀ y op, ok y.1 op → J y → J (op.apply y))
    (h : Effect ok x y) (hx : J x) : J y := by
  induction h with
  | refl => exact hx
  | tail op _ hok ih => exact hop _ op hok ih

theorem trans (h₁ : Effect ok x y) (h₂ : Effect ok y z) : Effect ok x z := by
  induction h₂ with
  | refl => exact h₁
  | tail op _ hok ih => exact ih.tail op hok

theorem mono (himp : ∀ dev op, ok dev op → ok' dev op) (h : Effect ok x y) : Effect ok' x y := by
  induction h with
  | refl => exact .refl
  | tail op _ hok ih => exact ih.tail op (himp _ op hok)

end Effect

namespace OtaState

def io (s : OtaState) : Io := (s.dev, s.trace)

variable {ok : FlashDev → OtaOp → Prop} {x : Io} {s : OtaState}

theorem effect_malloc {b : OtaBlock} (h : Effect ok x s.io) (hok : ok s.dev (.malloc b)) :
    Effect ok x (s.record (.malloc b)).io := h.tail (.malloc b) hok

theorem effect_free {b : OtaBlock} (h : Effect ok x s.io) (hok : ok s.dev (.free b)) :
    Effect ok x (s.record (.free b)).io := h.tail (.free b) hok

theorem effect_accepted {n : Nat} (h : Effect ok x s.io) (hok : ok s.dev (.accepted n)) :
    Effect ok x (s.record (.accepted n)).io := h.tail (.accepted n) hok

theorem effect_reset (h : Effect ok x s.io) (hok : ok s.dev .reset) :
    Effect ok x (s.record .reset).io := h.tail .reset hok

theorem effect_write {fails : Option Nat} {addr size : Nat} {src : Nat → Byte}
    (h : Effect ok x s.io) (hok : ok s.dev (.write fails addr src size)) :
    Effect ok x (s.tklFlashWrite fails addr src size).io := h.tail (.write fails addr src size) hok

theorem effect_restore {fails : Option Nat} {addr size : Nat} {src : Nat → Byte}
    (h : Effect ok x s.io) (hok : ok s.dev (.restore fails addr src size)) :
    Effect ok x (s.restore fails addr src size).io := h.tail (.restore fails addr src size) hok

theorem effect_freeBuf {buf : Bool} (h : Effect ok x s.io) (hok : ok s.dev (.free .buf)) :
    Effect ok x (s.freeBuf buf).io := by
  unfold freeBuf
  split
  · exact effect_free h hok
  · exact h

theorem effect_erase {addr size : Nat} (h : Effect ok x s.io)
    (hok : ∀ dev, ∀ a ∈ tklEraseSectors addr size, ok dev (.eraseSector a)) :
    Effect ok x (s.tklFlashErase addr size).io := by
  unfold tklFlashErase
  generalize tklEraseSectors addr size = sectors at hok
  induction sectors generalizing s with
  | nil => exact h
  | cons a sectors ih =>
    refine ih ?_ fun dev b hb => hok dev b (List.mem_cons_of_mem _ hb)
    exact h.tail (.eraseSector a) (hok _ a List.mem_cons_self)

theorem effect_release (h : Effect ok x s.io) (hok : ∀ dev b, ok dev (.free b)) :
    Effect ok x s.release.io := by
  have hfree : Effect ok x ((s.record (.free .tempbuf)).record (.free .ugProc)).io :=
    effect_free (effect_free h (hok _ _)) (hok _ _)
  unfold release
  simp only
  split
  · exact hfree
  · exact effect_free (s := { (s.record (.free .tempbuf)).record (.free .ugProc) with
      ugProc := none }) hfree (hok _ _)

/-! ## What the operations leave alone -/

@[simp] theorem record_ugProc {e : OtaEvent} : (s.record e).ugProc = s.ugProc := rfl

@[simp] theorem record_firstBlock {e : OtaEvent} : (s.record e).firstBlock = s.firstBlock := rfl

@[simp] theorem record_fristBlockDatabuf {e : OtaEvent} :
    (s.record e).fristBlockDatabuf = s.fristBlockDatabuf := rfl

@[simp] theorem record_dev {e : OtaEvent} : (s.record e).dev = s.dev := rfl

/-- Erasing changes the device and the trace only. -/
theorem tklFlashErase_eq (addr size : Nat) : ∃ t, s.tklFlashErase addr size =
    { s with dev := Flash.tklFlashErase s.dev addr size, trace := t } := by
  unfold tklFlashErase Flash.tklFlashErase
  generalize tklEraseSectors addr size = sectors
  induction sectors generalizing s with
  | nil => exact ⟨s.trace, rfl⟩
  | cons a sectors ih =>
    obtain ⟨t, ht⟩ := ih (s := s.eraseSector a)
    exact ⟨t, ht⟩

@[simp] theorem tklFlashErase_ugProc {addr size : Nat} :
    (s.tklFlashErase addr size).ugProc = s.ugProc := by
  obtain ⟨t, ht⟩ := s.tklFlashErase_eq addr size
  rw [ht]

@[simp] theorem tklFlashErase_firstBlock {addr size : Nat} :
    (s.tklFlashErase addr size).firstBlock = s.firstBlock := by
  obtain ⟨t, ht⟩ := s.tklFlashErase_eq addr size
  rw [ht]

@[simp] theorem tklFlashErase_fristBlockDatabuf {addr size : Nat} :
    (s.tklFlashErase addr size).fristBlockDatabuf = s.fristBlockDatabuf := by
  obtain ⟨t, ht⟩ := s.tklFlashErase_eq addr size
  rw [ht]

@[simp] theorem tklFlashErase_dev {addr size : Nat} :
    (s.tklFlashErase addr size).dev = Flash.tklFlashErase s.dev addr size := by
  obtain ⟨t, ht⟩ := s.tklFlashErase_eq addr size
  rw [ht]

@[simp] theorem freeBuf_ugProc {buf : Bool} : (s.freeBuf buf).ugProc = s.ugProc := by
  unfold freeBuf
  split <;> rfl

@[simp] theorem freeBuf_firstBlock {buf : Bool} : (s.freeBuf buf).firstBlock = s.firstBlock := by
  unfold freeBuf
  split <;> rfl

@[simp] theorem freeBuf_fristBlockDatabuf {buf : Bool} :
    (s.freeBuf buf).fristBlockDatabuf = s.fristBlockDatabuf := by
  unfold freeBuf
  split <;> rfl

@[simp] theorem freeBuf_dev {buf : Bool} : (s.freeBuf buf).dev = s.dev := by
  unfold freeBuf
  split <;> rfl

@[simp] theorem release_ugProc : s.release.ugProc = none := by
  unfold release
  simp only
  split <;> rfl

@[simp] theorem release_dev : s.release.dev = s.dev := by
  unfold release
  simp only
  split <;> rfl

end OtaState

end TuyaSdk.TklOta
