import TuyaSdk.Lib.Bytes

/-!
# NOR flash cells

Erasing sets cells to `0xff`; programming can only clear bits, so it ANDs the new bytes
into the cells. A stretch of erased cells therefore reads back what was programmed.
-/

namespace TuyaSdk.Lib.Nor

/-- An erased cell. -/
abbrev blank : Byte := 0xff

/-- ANDing the bytes `d 0, …, d (n - 1)` into the cells from `a` on. -/
def program (m : Mem) (a n : Nat) (d : Nat → Byte) : Mem := fun x =>
  if a ≤ x ∧ x < a + n then m x &&& d (x - a) else m x

/-- Erasing the `n` cells from `a` on. -/
def erase (m : Mem) (a n : Nat) : Mem := fun x => if a ≤ x ∧ x < a + n then blank else m x

/-- The `n` cells from `a` on are erased. -/
def Erased (m : Mem) (a n : Nat) : Prop := ∀ x, a ≤ x → x < a + n → m x = blank

variable {m : Mem} {a n x : Nat} {d : Nat → Byte}

@[simp] theorem and_blank (b : Byte) : b &&& blank = b := by
  show b &&& 255#8 = b
  exact BitVec.and_allOnes

@[simp] theorem blank_and (b : Byte) : blank &&& b = b := by
  rw [BitVec.and_comm, and_blank]

theorem program_inside (h₁ : a ≤ x) (h₂ : x < a + n) : program m a n d x = m x &&& d (x - a) :=
  if_pos ⟨h₁, h₂⟩

theorem program_outside (h : x < a ∨ a + n ≤ x) : program m a n d x = m x := if_neg (by omega)

theorem erase_inside (h₁ : a ≤ x) (h₂ : x < a + n) : erase m a n x = blank := if_pos ⟨h₁, h₂⟩

theorem erase_outside (h : x < a ∨ a + n ≤ x) : erase m a n x = m x := if_neg (by omega)

theorem erased_erase : Erased (erase m a n) a n := fun _ h₁ h₂ => erase_inside h₁ h₂

theorem Erased.mono {b k : Nat} (h : Erased m a n) (hlo : a ≤ b) (hhi : b + k ≤ a + n) :
    Erased m b k := fun x h₁ h₂ => h x (by omega) (by omega)

@[simp] theorem program_zero : program m a 0 d = m := by
  funext x
  exact program_outside (by omega)

/-- Programming two adjacent stretches one after the other. -/
theorem program_add (n k : Nat) :
    program (program m a n d) (a + n) k (fun i => d (n + i)) = program m a (n + k) d := by
  funext x
  by_cases h₁ : a ≤ x ∧ x < a + n
  · rw [program_outside (by omega), program_inside h₁.1 h₁.2,
      program_inside h₁.1 (by omega)]
  · by_cases h₂ : a + n ≤ x ∧ x < a + n + k
    · rw [program_inside h₂.1 h₂.2, program_outside (by omega),
        program_inside (by omega) (by omega)]
      congr 2
      omega
    · rw [program_outside (by omega), program_outside (by omega), program_outside (by omega)]

@[simp] theorem erase_zero : erase m a 0 = m := by
  funext x
  exact erase_outside (by omega)

/-- Erasing two adjacent stretches one after the other. -/
theorem erase_add (n k : Nat) : erase (erase m a n) (a + n) k = erase m a (n + k) := by
  funext x
  by_cases h₁ : a ≤ x ∧ x < a + n
  · rw [erase_outside (by omega), erase_inside h₁.1 h₁.2, erase_inside h₁.1 (by omega)]
  · by_cases h₂ : a + n ≤ x ∧ x < a + n + k
    · rw [erase_inside h₂.1 h₂.2, erase_inside (by omega) (by omega)]
    · rw [erase_outside (by omega), erase_outside (by omega), erase_outside (by omega)]

/-- An erased stretch reads back what was programmed. -/
theorem program_erased (h : Erased m a n) (h₁ : a ≤ x) (h₂ : x < a + n) :
    program m a n d x = d (x - a) := by
  rw [program_inside h₁ h₂, h x h₁ h₂, blank_and]

end TuyaSdk.Lib.Nor
