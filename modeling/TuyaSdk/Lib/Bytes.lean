import Mathlib

/-!
# 32-bit words and byte memory

Machine words are naturals below `2 ^ 32`; `u32` is the reduction a 32-bit register makes.
A memory is a function from addresses to bytes; words lie in it least significant byte
first. The two families of lemmas are what a read sees of a write (`_same`, `_apply`), and
what it does not (`_congr`, for memories that agree on the bytes read).
-/

namespace TuyaSdk.Lib

/-- One byte. -/
abbrev Byte := BitVec 8

/-- A byte-addressed memory. -/
abbrev Mem := Nat → Byte

/-! ## Word arithmetic -/

/-- Truncation to 32 bits. -/
def u32 (n : Nat) : Nat := n % 2 ^ 32

/-- `a - b` on 32-bit words. -/
def sub32 (a b : Nat) : Nat := u32 (a + (2 ^ 32 - b))

theorem u32_lt (n : Nat) : u32 n < 2 ^ 32 := Nat.mod_lt _ (by decide)

theorem u32_of_lt {n : Nat} (h : n < 2 ^ 32) : u32 n = n := Nat.mod_eq_of_lt h

theorem sub32_of_le {a b : Nat} (hba : b ≤ a) (ha : a < 2 ^ 32) : sub32 a b = a - b := by
  unfold sub32 u32
  omega

theorem sub32_of_lt {a b : Nat} (hab : a < b) (hb : b < 2 ^ 32) :
    sub32 a b = 2 ^ 32 - (b - a) := by
  unfold sub32 u32
  omega

/-! ## Words in memory -/

/-- The word at `a`. -/
def read32 (m : Mem) (a : Nat) : Nat :=
  (m a).toNat + 2 ^ 8 * (m (a + 1)).toNat + 2 ^ 16 * (m (a + 2)).toNat +
    2 ^ 24 * (m (a + 3)).toNat

/-- Storing the byte `b` at `a`. -/
def write8 (m : Mem) (a : Nat) (b : Byte) : Mem := fun x => if x = a then b else m x

/-- Storing the word `v` at `a`. -/
def write32 (m : Mem) (a v : Nat) : Mem := fun x =>
  if x = a then BitVec.ofNat 8 v
  else if x = a + 1 then BitVec.ofNat 8 (v / 2 ^ 8)
  else if x = a + 2 then BitVec.ofNat 8 (v / 2 ^ 16)
  else if x = a + 3 then BitVec.ofNat 8 (v / 2 ^ 24)
  else m x

/-- `memcpy(dst, src, n)` between regions that do not overlap. -/
def memcpy (m : Mem) (dst src n : Nat) : Mem := fun x =>
  if dst ≤ x ∧ x < dst + n then m (src + (x - dst)) else m x

/-- The `n` bytes from `a`. -/
def readBytes (m : Mem) (a n : Nat) : List Byte := (List.range n).map fun i => m (a + i)

/-- The memory with the bytes `bs` stored from `a` on. -/
def writeBytes (m : Mem) (a : Nat) (bs : List Byte) : Mem := fun x =>
  if a ≤ x ∧ x < a + bs.length then bs.getD (x - a) 0 else m x

/-- The bytes of the word `v`. -/
def wordBytes (v : Nat) : List Byte :=
  [BitVec.ofNat 8 v, BitVec.ofNat 8 (v / 2 ^ 8), BitVec.ofNat 8 (v / 2 ^ 16),
    BitVec.ofNat 8 (v / 2 ^ 24)]

/-- The bytes `bs` lie in memory from `a` on. -/
def BytesAt (m : Mem) (a : Nat) (bs : List Byte) : Prop := readBytes m a bs.length = bs

/-- The memory with the bytes `bs` stored from its start. -/
def storeBytes (m : Mem) (bs : List Byte) : Mem := fun x => bs.getD x (m x)

theorem read32_lt (m : Mem) (a : Nat) : read32 m a < 2 ^ 32 := by
  unfold read32
  have h0 := (m a).isLt
  have h1 := (m (a + 1)).isLt
  have h2 := (m (a + 2)).isLt
  have h3 := (m (a + 3)).isLt
  omega

theorem read32_congr {m m' : Mem} {a : Nat} (h : Set.EqOn m' m (Set.Ico a (a + 4))) :
    read32 m' a = read32 m a := by
  unfold read32
  rw [h ⟨by omega, by omega⟩, h (x := a + 1) ⟨by omega, by omega⟩,
    h (x := a + 2) ⟨by omega, by omega⟩, h (x := a + 3) ⟨by omega, by omega⟩]

@[simp] theorem read32_write32_same (m : Mem) (a v : Nat) : read32 (write32 m a v) a = u32 v := by
  simp only [read32, write32, u32]
  simp
  omega

theorem write8_same (m : Mem) (a : Nat) (b : Byte) : write8 m a b a = b := by simp [write8]

theorem write8_apply {m : Mem} {a x : Nat} {b : Byte} (h : x ≠ a) : write8 m a b x = m x := by
  simp [write8, h]

theorem write32_apply {m : Mem} {a v x : Nat} (h : x < a ∨ a + 4 ≤ x) :
    write32 m a v x = m x := by
  unfold write32
  rw [if_neg (by omega), if_neg (by omega), if_neg (by omega), if_neg (by omega)]

theorem read32_write32 {m : Mem} {a v x : Nat} (h : a + 4 ≤ x ∨ x + 4 ≤ a) :
    read32 (write32 m a v) x = read32 m x := by
  apply read32_congr
  rintro y ⟨hy1, hy2⟩
  exact write32_apply (by omega)

theorem memcpy_apply {m : Mem} {dst src n x : Nat} (h : x < dst ∨ dst + n ≤ x) :
    memcpy m dst src n x = m x := if_neg (by omega)

theorem memcpy_copied {m : Mem} {dst src n k : Nat} (h : k < n) :
    memcpy m dst src n (dst + k) = m (src + k) := by
  unfold memcpy
  rw [if_pos (by omega), Nat.add_sub_cancel_left]

@[simp] theorem length_readBytes (m : Mem) (a n : Nat) : (readBytes m a n).length = n := by
  simp [readBytes]

theorem getElem_readBytes {m : Mem} {a n i : Nat} (h : i < (readBytes m a n).length) :
    (readBytes m a n)[i] = m (a + i) := by
  simp [readBytes]

theorem readBytes_congr {m m' : Mem} {a n : Nat} (h : Set.EqOn m' m (Set.Ico a (a + n))) :
    readBytes m' a n = readBytes m a n := by
  unfold readBytes
  apply List.map_congr_left
  intro i hi
  exact h ⟨by omega, by have := List.mem_range.mp hi; omega⟩

theorem readBytes_add (m : Mem) (a j k : Nat) :
    readBytes m a (j + k) = readBytes m a j ++ readBytes m (a + j) k := by
  simp only [readBytes, List.range_add, List.map_append, List.map_map, Function.comp_def,
    Nat.add_assoc]

theorem readBytes_succ (m : Mem) (a n : Nat) :
    readBytes m a (n + 1) = m a :: readBytes m (a + 1) n := by
  rw [Nat.add_comm n 1, readBytes_add]
  rfl

theorem readBytes_concat (m : Mem) (a n : Nat) :
    readBytes m a (n + 1) = readBytes m a n ++ [m (a + n)] := readBytes_add m a n 1

/-! ## Bytes in memory -/

theorem bytesAt_nil (m : Mem) (a : Nat) : BytesAt m a [] := rfl

theorem bytesAt_cons {m : Mem} {a : Nat} {b : Byte} {bs : List Byte} :
    BytesAt m a (b :: bs) ↔ m a = b ∧ BytesAt m (a + 1) bs := by
  rw [BytesAt, List.length_cons, readBytes_succ, List.cons.injEq, BytesAt]

theorem bytesAt_append {m : Mem} {a : Nat} {bs cs : List Byte} :
    BytesAt m a (bs ++ cs) ↔ BytesAt m a bs ∧ BytesAt m (a + bs.length) cs := by
  rw [BytesAt, List.length_append, readBytes_add, BytesAt, BytesAt]
  constructor
  · intro h
    exact List.append_inj h (length_readBytes m a bs.length)
  · intro ⟨h, h'⟩
    rw [h, h']

theorem BytesAt.congr {m m' : Mem} {a : Nat} {bs : List Byte} (h : BytesAt m a bs)
    (heq : Set.EqOn m' m (Set.Ico a (a + bs.length))) : BytesAt m' a bs :=
  (readBytes_congr heq).trans h

theorem bytesAt_readBytes (m : Mem) (a n : Nat) : BytesAt m a (readBytes m a n) := by
  rw [BytesAt, length_readBytes]

theorem length_wordBytes (v : Nat) : (wordBytes v).length = 4 := rfl

theorem BytesAt.read32 {m : Mem} {a v : Nat} (h : BytesAt m a (wordBytes v)) (hv : v < 2 ^ 32) :
    Lib.read32 m a = v := by
  simp only [wordBytes, bytesAt_cons] at h
  obtain ⟨h0, h1, h2, h3, _⟩ := h
  rw [Lib.read32, h0, h1, h2, h3]
  simp only [BitVec.toNat_ofNat]
  omega

theorem bytesAt_write32 (m : Mem) (a v : Nat) : BytesAt (write32 m a v) a (wordBytes v) := by
  simp only [wordBytes, bytesAt_cons, write32]
  refine ⟨if_pos trivial, ?_, ?_, ?_, bytesAt_nil _ _⟩
  · rw [if_neg (by omega), if_pos trivial]
  · rw [if_neg (by omega), if_neg (by omega), if_pos trivial]
  · rw [if_neg (by omega), if_neg (by omega), if_neg (by omega), if_pos trivial]

theorem BytesAt.write32 {m : Mem} {a b v : Nat} {bs : List Byte} (h : BytesAt m b bs)
    (hd : b + bs.length ≤ a ∨ a + 4 ≤ b) : BytesAt (Lib.write32 m a v) b bs :=
  h.congr fun x ⟨h1, h2⟩ => write32_apply (by omega)

theorem writeBytes_apply {m : Mem} {a x : Nat} {bs : List Byte}
    (h : x < a ∨ a + bs.length ≤ x) : writeBytes m a bs x = m x := if_neg (by omega)

theorem bytesAt_writeBytes (m : Mem) (a : Nat) (bs : List Byte) :
    BytesAt (writeBytes m a bs) a bs := by
  apply List.ext_getElem (length_readBytes _ _ _)
  intro i h _
  rw [getElem_readBytes h, writeBytes]
  rw [length_readBytes] at h
  rw [if_pos (by omega), Nat.add_sub_cancel_left, List.getD_eq_getElem _ _ h]

theorem storeBytes_nil (m : Mem) : storeBytes m [] = m := rfl

theorem storeBytes_of_lt {m : Mem} {bs : List Byte} {x : Nat} (h : x < bs.length) :
    storeBytes m bs x = bs[x] := List.getD_eq_getElem _ _ h

theorem bytesAt_storeBytes (m : Mem) (bs : List Byte) : BytesAt (storeBytes m bs) 0 bs := by
  apply List.ext_getElem (length_readBytes _ _ _)
  intro i h hi
  rw [getElem_readBytes h, Nat.zero_add, storeBytes_of_lt hi]

theorem storeBytes_of_le {m : Mem} {bs : List Byte} {x : Nat} (h : bs.length ≤ x) :
    storeBytes m bs x = m x := List.getD_eq_default _ _ h

/-! ## A buffer that bytes of another memory were copied to -/

theorem storeBytes_readBytes {buf m : Mem} {a n i : Nat} (h : i < n) :
    storeBytes buf (readBytes m a n) i = m (a + i) := by
  have hlt : i < (readBytes m a n).length := by rwa [length_readBytes]
  rw [storeBytes_of_lt hlt, getElem_readBytes]

theorem read32_storeBytes {buf m : Mem} {a n i : Nat} (h : i + 4 ≤ n) :
    read32 (storeBytes buf (readBytes m a n)) i = read32 m (a + i) := by
  rw [read32, read32, storeBytes_readBytes (by omega), storeBytes_readBytes (by omega),
    storeBytes_readBytes (by omega), storeBytes_readBytes (by omega)]
  rfl

theorem readBytes_storeBytes {buf m : Mem} {a n i k : Nat} (h : i + k ≤ n) :
    readBytes (storeBytes buf (readBytes m a n)) i k = readBytes m (a + i) k := by
  unfold readBytes
  apply List.map_congr_left
  intro j hj
  have hj := List.mem_range.mp hj
  have hget : storeBytes buf (readBytes m a n) (i + j) = m (a + (i + j)) :=
    storeBytes_readBytes (by omega)
  rw [readBytes] at hget
  rw [hget, Nat.add_assoc]

end TuyaSdk.Lib
