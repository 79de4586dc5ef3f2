import TuyaSdk.DmaRing.Writing

/-!
# The channel stores, the processor reads

The mirror of the other direction: the channel is behind the bytes it has stored, its pause
address four cells short of a ring behind the bytes returned. `rp` is the position behind the
bytes returned, but may rest at the capacity. A read returns as many of the stored bytes as it
found when it looked at the channel, and those the channel stores meanwhile are not among their
cells.
-/

namespace TuyaSdk.DmaRing
open TuyaSdk.Lib

variable {a n R : Nat} {out : List Byte} {w w' : World} {rb : RbDma}

/-! ## The channel -/

/-- The channel at the loop from `a` of `n` bytes stays four cells short of the first `R` bytes
stored, and the others lie behind them. -/
structure Stores (a n R : Nat) (w : World) : Prop where
  loopStart : w.gdma.loopStart = a
  loopEnd : w.gdma.loopEnd = a + n
  addr : w.gdma.addr = a + w.moved.length % n
  pause : w.gdma.pauseAddr = a + (R + (n - 4)) % n
  behind : R ≤ w.moved.length
  cells : ∀ k (h : k < w.moved.length), R ≤ k → w.mem (a + k % n) = w.moved[k]
  room : w.moved.length + 4 ≤ R + n

/-- The channel stops four cells before the first byte that is not returned. -/
theorem Stores.stops_iff (h : Stores a n R w) (hb : BufferOk a n) :
    w.gdma.addr = w.gdma.pauseAddr ↔ w.moved.length + 4 = R + n := by
  have hpos := hb.pos
  have hbehind := h.behind
  have hroom := h.room
  rw [h.addr, h.pause, Nat.add_left_cancel_iff]
  constructor
  · intro heq
    have := counter_inj (by omega) (by omega) heq
    omega
  · intro heq
    rw [show w.moved.length = R + (n - 4) by omega]

theorem Stores.moveIn (h : Stores a n R w) (hb : BufferOk a n) :
    Stores a n R w.moveIn ∧ w.moved <+: w.moveIn.moved := by
  have hpos := hb.pos
  unfold World.moveIn
  split_ifs with hstop
  · exact ⟨h, List.prefix_refl _⟩
  · have hne := mt (h.stops_iff hb).mpr hstop
    have hbehind := h.behind
    have hroom := h.room
    refine ⟨⟨h.loopStart, h.loopEnd, ?_, h.pause, ?_, ?_, ?_⟩, List.prefix_append _ _⟩
    · simp only [Gdma.next, List.length_append, List.length_singleton, h.loopStart, h.loopEnd,
        h.addr, counter_succ (show 0 < n by omega)]
      split_ifs <;> omega
    · rw [List.length_append]
      omega
    · intro k hk hle
      show write8 w.mem w.gdma.addr (w.supply w.moved.length) (a + k % n) =
        (w.moved ++ [w.supply w.moved.length])[k]
      rw [h.addr]
      simp only [List.length_append, List.length_singleton] at hk
      rcases Nat.lt_succ_iff_lt_or_eq.mp hk with hlt | rfl
      · rw [List.getElem_append_left hlt]
        refine (write8_apply fun heq => ?_).trans (h.cells k hlt hle)
        have := counter_inj (Nat.le_of_lt hlt) (by omega) (Nat.add_left_cancel heq)
        omega
      · rw [List.getElem_concat_length rfl]
        exact write8_same _ _ _
    · simp only [List.length_append, List.length_singleton]
      omega

theorem Stores.tick (h : Stores a n R w) (hb : BufferOk a n) :
    Stores a n R (w.tick World.moveIn) ∧ w.moved <+: (w.tick World.moveIn).moved := by
  have hmoves : ∀ m, Stores a n R (World.moveIn^[m] w) ∧
      w.moved <+: (World.moveIn^[m] w).moved := by
    intro m
    induction m with
    | zero => exact ⟨h, List.prefix_refl _⟩
    | succ m ih =>
      rw [Function.iterate_succ_apply']
      obtain ⟨hs, hl⟩ := ih
      obtain ⟨hs', hl'⟩ := hs.moveIn hb
      exact ⟨hs', hl.trans hl'⟩
  obtain ⟨hs, hl⟩ := hmoves (w.moves w.moment)
  exact ⟨⟨hs.loopStart, hs.loopEnd, hs.addr, hs.pause, hs.behind, hs.cells, hs.room⟩, hl⟩

/-! ## A read -/

/-- The bytes behind `out` are copied, up to the end of the buffer at most. -/
theorem Stores.copyOut (h : Stores a n R w) (hb : BufferOk a n) (hout : out <+: w.moved)
    (hR : R ≤ out.length) (k : Nat) {p : Nat} (hpos : k ≠ 0 → out.length % n = p)
    (hend : p + k ≤ n) (hk : out.length + k ≤ w.moved.length) :
    Stores a n R (copyOut w (a + p) k).2 ∧
      out ++ (DmaRing.copyOut w (a + p) k).1 <+: (DmaRing.copyOut w (a + p) k).2.moved ∧
      w.moved.length ≤ (DmaRing.copyOut w (a + p) k).2.moved.length ∧
      (DmaRing.copyOut w (a + p) k).1.length = k := by
  induction k generalizing w out p with
  | zero =>
    simp only [DmaRing.copyOut, List.append_nil]
    exact ⟨h, hout, Nat.le_refl _, rfl⟩
  | succ k ih =>
    have hn : 0 < n := by
      have := hb.pos
      omega
    obtain ⟨hs, hl⟩ := h.tick hb
    have hle := hl.length_le
    have hlt : out.length < (w.tick World.moveIn).moved.length := by omega
    have hcell := hs.cells out.length hlt hR
    rw [hpos (Nat.succ_ne_zero k)] at hcell
    have hout' := prefix_concat_getElem (hout.trans hl) hlt
    rw [← hcell] at hout'
    obtain ⟨hs', hout'', hle', hlen⟩ := ih (w := w.tick World.moveIn) (p := p + 1) hs hout'
      (by rw [List.length_append]; omega)
      (fun hne => by
        rw [List.length_append, List.length_singleton, counter_succ hn,
          hpos (Nat.succ_ne_zero k), if_neg (by omega)])
      (by omega) (by rw [List.length_append, List.length_singleton]; omega)
    rw [List.append_assoc] at hout''
    simp only [DmaRing.copyOut]
    rw [← Nat.add_assoc] at hs' hout'' hle' hlen
    exact ⟨hs', hout'', Nat.le_trans hle hle', by rw [List.length_cons, hlen]⟩

/-- The bytes returned leave their cells to the channel when the pause address is set. -/
theorem Stores.release (h : Stores a n R w) {R' : Nat} (hle : R ≤ R')
    (hR' : R' ≤ w.moved.length) : Stores a n R' (w.setPauseAddr (a + (R' + (n - 4)) % n)) where
  loopStart := h.loopStart
  loopEnd := h.loopEnd
  addr := h.addr
  pause := rfl
  behind := hR'
  cells := fun k hk hle' => h.cells k hk (Nat.le_trans hle hle')
  room := by
    have hroom := h.room
    show w.moved.length + 4 ≤ R' + n
    omega

/-! ## The state between calls -/

/-- Between two calls: `rp` is the position behind the bytes returned, or the capacity for the
start of the buffer. -/
structure ReadInv (a n : Nat) (ret : List Byte) (rb : RbDma) (w : World) : Prop where
  address : rb.address = a
  capacity : rb.capacity = n
  rp_le : rb.rp ≤ n
  rp_mod : rb.rp % n = ret.length % n
  stores : Stores a n ret.length w
  returned : ret <+: w.moved

variable {ret : List Byte}

/-- The position of the channel in the buffer. -/
theorem Stores.sample (h : Stores a n R w) (hb : BufferOk a n) :
    sub32 w.gdma.addr a = w.moved.length % n := by
  have hfits := hb.fits
  have hlt := Nat.mod_lt w.moved.length (show 0 < n by have := hb.pos; omega)
  rw [h.addr, sub32_of_le (by omega) (by omega)]
  omega

theorem ReadInv.sampleWp (h : ReadInv a n ret rb w) (hb : BufferOk a n) :
    sampleWp rb w = ({ rb with wp := (w.tick World.moveIn).moved.length % n },
      w.tick World.moveIn) ∧
    ReadInv a n ret { rb with wp := (w.tick World.moveIn).moved.length % n }
      (w.tick World.moveIn) ∧ w.moved <+: (w.tick World.moveIn).moved := by
  obtain ⟨hs, hl⟩ := h.stores.tick hb
  refine ⟨?_, ⟨h.address, h.capacity, h.rp_le, h.rp_mod, hs, h.returned.trans hl⟩, hl⟩
  simp only [DmaRing.sampleWp, h.address, hs.sample hb]

/-- The two resting places of `rp`. -/
theorem ReadInv.rp_cases (h : ReadInv a n ret rb w) :
    rb.rp = ret.length % n ∨ rb.rp = n ∧ ret.length % n = 0 := by
  rcases Nat.lt_or_eq_of_le h.rp_le with hlt | heq
  · exact Or.inl (by rw [← h.rp_mod, Nat.mod_eq_of_lt hlt])
  · exact Or.inr ⟨heq, by rw [← h.rp_mod, heq, Nat.mod_self]⟩

/-- The bytes to be read, from the pointers. -/
theorem ReadInv.distance (h : ReadInv a n ret rb w) (hb : BufferOk a n) :
    w.moved.length - ret.length =
      if w.moved.length % n ≥ rb.rp then w.moved.length % n - rb.rp
      else n - rb.rp + w.moved.length % n := by
  have hpos := hb.pos
  have hroom := h.stores.room
  have hdist := counter_distance (show 0 < n by omega) h.stores.behind (by omega)
  have hW := Nat.mod_lt w.moved.length (show 0 < n by omega)
  rcases h.rp_cases with heq | ⟨heq, hzero⟩
  · rw [heq]
    exact hdist
  · rw [hzero, if_pos (Nat.zero_le _)] at hdist
    rw [heq, if_neg (by omega)]
    omega

/-- The fill size that the calls compute. -/
theorem ReadInv.fillOf (h : ReadInv a n ret rb w) (hb : BufferOk a n)
    (hwp : rb.wp = w.moved.length % n) : fillOf rb = w.moved.length - ret.length := by
  have hfits := hb.fits
  have hdist := h.distance hb
  have hrp := h.rp_le
  have hW := Nat.mod_lt w.moved.length (show 0 < n by have := hb.pos; omega)
  unfold DmaRing.fillOf
  rw [hwp, h.capacity]
  split_ifs at hdist ⊢
  · rw [sub32_of_le (by omega) (by omega)]
    omega
  · rw [sub32_of_le (by omega) (by omega), u32_of_lt (by omega)]
    omega

/-- The free size that the calls compute. -/
theorem ReadInv.freeOf (h : ReadInv a n ret rb w) (hb : BufferOk a n)
    (hwp : rb.wp = w.moved.length % n) :
    freeOf rb + (w.moved.length - ret.length) = n - 4 := by
  have hpos := hb.pos
  have hfits := hb.fits
  have hdist := h.distance hb
  have hrp := h.rp_le
  have hroom := h.stores.room
  have hbehind := h.stores.behind
  have hW := Nat.mod_lt w.moved.length (show 0 < n by omega)
  have hgap : (if rb.wp ≥ rb.rp then u32 (sub32 n rb.wp + rb.rp) else sub32 rb.rp rb.wp) =
      n - (w.moved.length - ret.length) := by
    rw [hwp]
    split_ifs at hdist ⊢
    · rw [sub32_of_le (by omega) (by omega), u32_of_lt (by omega)]
      omega
    · rw [sub32_of_le (by omega) (by omega)]
      omega
  unfold DmaRing.freeOf
  rw [h.capacity, hgap]
  show (if n - (w.moved.length - ret.length) > 4 then
    sub32 (n - (w.moved.length - ret.length)) 4 else 0) + _ = _
  split_ifs
  · rw [sub32_of_le (by omega) (by omega)]
    omega
  · omega

/-- The address four cells short of `rp`. -/
theorem pauseOf_eq (hb : BufferOk a n) {rp : Nat} (hrp : rp ≤ n) (hmod : rp % n = R % n) :
    (if rp ≥ RWP_SAFE_INTERVAL then sub32 (u32 (a + rp)) RWP_SAFE_INTERVAL
      else sub32 (u32 (a + n + rp)) RWP_SAFE_INTERVAL) = a + (R + (n - 4)) % n := by
  have hpos := hb.pos
  have hfits := hb.fits
  have hn : 0 < n := by omega
  unfold RWP_SAFE_INTERVAL
  rw [counter_add hn rfl (show n - 4 ≤ n by omega), ← hmod]
  rcases Nat.lt_or_eq_of_le hrp with hlt | rfl
  · rw [Nat.mod_eq_of_lt hlt]
    split_ifs
    · omega
    · rw [u32_of_lt (by omega), sub32_of_le (by omega) (by omega)]
      omega
    · unfold sub32 u32
      omega
    · omega
  · rw [Nat.mod_self, if_pos (by omega), if_pos (by omega), u32_of_lt hfits,
      sub32_of_le (by omega) (by omega)]
    omega

/-- What a read of `required` bytes does, if the channel had stored `stored` bytes when it was
looked at. -/
structure Reads (a n : Nat) (ret : List Byte) (required stored : Nat)
    (r : (Nat × List Byte) × RbDma × World) : Prop where
  count : r.1.1 = min required (stored - ret.length)
  length : r.1.2.length = r.1.1
  inv : ReadInv a n (ret ++ r.1.2) r.2.1 r.2.2

/-- The end of a read: the bytes copied are returned, and the channel may store in their cells. -/
theorem finishRead_spec (hb : BufferOk a n) (wp rp : Nat) {bytes : List Byte}
    {k required stored : Nat} (hs : Stores a n ret.length w) (hret : ret ++ bytes <+: w.moved)
    (hlen : bytes.length = k)
    (hrp : rp ≤ n) (hmod : rp % n = (ret.length + k) % n)
    (hk : k = min required (stored - ret.length)) :
    Reads a n ret required stored (finishRead ⟨a, n, wp, rp⟩ w bytes k) := by
  obtain ⟨hs', hl⟩ := hs.tick hb
  have hret' := hret.trans hl
  have hbytes : (ret ++ bytes).length = ret.length + k := by rw [List.length_append, hlen]
  have hle := hret'.length_le
  rw [hbytes] at hle
  have hrelease := hs'.release (show ret.length ≤ ret.length + k by omega) hle
  rw [← pauseOf_eq hb hrp hmod] at hrelease
  refine ⟨hk, hlen, rfl, rfl, hrp, ?_, ?_, hret'⟩
  · show rp % n = (ret ++ bytes).length % n
    rw [hbytes]
    exact hmod
  · show Stores a n (ret ++ bytes).length _
    rw [hbytes]
    exact hrelease

/-- A read of bytes that do not wrap. -/
theorem Stores.reads (h : Stores a n ret.length w) (hb : BufferOk a n) (hret : ret <+: w.moved)
    (wp : Nat) {rp k required : Nat} (hrp : rp + k ≤ n) (hmod : rp % n = ret.length % n)
    (hk : k = min required (w.moved.length - ret.length)) :
    Reads a n ret required w.moved.length (finishRead ⟨a, n, wp, u32 (rp + k)⟩
      (DmaRing.copyOut w (u32 (a + rp)) k).2 (DmaRing.copyOut w (u32 (a + rp)) k).1 k) := by
  have hfits := hb.fits
  have hbehind := h.behind
  have hn : 0 < n := by
    have := hb.pos
    omega
  rw [u32_of_lt (show rp + k < 2 ^ 32 by omega), u32_of_lt (show a + rp < 2 ^ 32 by omega)]
  obtain ⟨hs, hout, -, hlen⟩ := h.copyOut hb hret (Nat.le_refl _) k
    (fun hne => by rw [← hmod, Nat.mod_eq_of_lt (by omega)]) hrp (by omega)
  exact finishRead_spec hb wp (rp + k) hs hout hlen hrp (Nat.add_mod_eq_add_mod_right k hmod) hk

/-- A read of bytes that wrap: up to the end of the buffer, and from its start. -/
theorem Stores.readsWrapped (h : Stores a n ret.length w) (hb : BufferOk a n)
    (hret : ret <+: w.moved) (wp : Nat) {rp j required : Nat} (hrp : rp ≤ n) (hj : j ≤ n)
    (hmod : rp % n = ret.length % n)
    (hk : n - rp + j = min required (w.moved.length - ret.length)) :
    Reads a n ret required w.moved.length (finishRead ⟨a, n, wp, j⟩
      (DmaRing.copyOut (DmaRing.copyOut w (u32 (a + rp)) (n - rp)).2 a j).2
      ((DmaRing.copyOut w (u32 (a + rp)) (n - rp)).1 ++
        (DmaRing.copyOut (DmaRing.copyOut w (u32 (a + rp)) (n - rp)).2 a j).1) (n - rp + j)) := by
  have hfits := hb.fits
  have hbehind := h.behind
  have hn : 0 < n := by
    have := hb.pos
    omega
  rw [u32_of_lt (show a + rp < 2 ^ 32 by omega)]
  obtain ⟨hs, hout, hle, hlen⟩ := h.copyOut hb hret (Nat.le_refl _) (n - rp)
    (fun hne => by rw [← hmod, Nat.mod_eq_of_lt (by omega)]) (by omega) (by omega)
  have hend : (ret.length + (n - rp)) % n = 0 := by
    rw [← Nat.add_mod_eq_add_mod_right (n - rp) hmod, Nat.add_sub_cancel' hrp, Nat.mod_self]
  have hlength : (ret ++ (DmaRing.copyOut w (a + rp) (n - rp)).1).length =
      ret.length + (n - rp) := by
    rw [List.length_append, hlen]
  obtain ⟨hs', hout', -, hlen'⟩ := hs.copyOut hb hout (by omega) j
    (fun _ => by rw [hlength, hend]) (by omega) (by omega)
  rw [Nat.add_zero, List.append_assoc] at hout'
  refine finishRead_spec hb wp j hs' hout' (by rw [List.length_append, hlen]; exact congrArg _ hlen')
    hj ?_ hk
  rw [← Nat.add_assoc, Nat.add_mod, hend, Nat.zero_add, Nat.mod_mod]

/-- A read of some bytes. -/
theorem rbReadDmaWrite_spec (hb : BufferOk a n) (h : ReadInv a n ret rb w) {size count : Nat}
    (hsize : size * count < 2 ^ 32) (hpos : size * count ≠ 0) :
    Reads a n ret (size * count) (w.tick World.moveIn).moved.length
      (rbReadDmaWrite rb w size count) := by
  have hfits := hb.fits
  obtain ⟨-, hinv, -⟩ := h.sampleWp hb
  have hs := hinv.stores
  have hret := hinv.returned
  have hmod := hinv.rp_mod
  have hrp := hinv.rp_le
  have hdist := hinv.distance hb
  have hW := Nat.mod_lt (w.tick World.moveIn).moved.length
    (show 0 < n by have := hb.pos; omega)
  obtain ⟨address, capacity, wp, rp⟩ := rb
  obtain ⟨ha, hc, -⟩ := h
  simp only at ha hc hmod hrp hdist
  subst ha hc
  unfold rbReadDmaWrite
  simp only [u32_of_lt hsize, if_neg hpos, hs.sample hb]
  generalize w.tick World.moveIn = w₁ at hs hret hdist hW ⊢
  by_cases hge : w₁.moved.length % capacity ≥ rp
  · rw [if_pos hge] at hdist
    have hremain : sub32 (w₁.moved.length % capacity) rp = w₁.moved.length % capacity - rp :=
      sub32_of_le hge (by omega)
    rw [if_pos hge, hremain]
    exact hs.reads hb hret _ (by split_ifs <;> omega) hmod (by split_ifs <;> omega)
  · rw [if_neg hge] at hdist
    have hremain : sub32 capacity rp = capacity - rp := sub32_of_le hrp (by omega)
    rw [if_neg hge, hremain]
    split_ifs with hwrap hall
    · have hrest : sub32 (size * count) (capacity - rp) = size * count - (capacity - rp) :=
        sub32_of_le (by omega) (by omega)
      have hcount : u32 (capacity - rp + w₁.moved.length % capacity) =
          capacity - rp + w₁.moved.length % capacity := u32_of_lt (by omega)
      rw [hrest] at hall
      rw [hcount]
      exact hs.readsWrapped hb hret _ hrp (by omega) hmod (by omega)
    · have hrest : sub32 (size * count) (capacity - rp) = size * count - (capacity - rp) :=
        sub32_of_le (by omega) (by omega)
      rw [hrest] at hall ⊢
      have hread := hs.readsWrapped hb hret (w₁.moved.length % capacity) hrp
        (show size * count - (capacity - rp) ≤ capacity by omega) hmod
        (show _ = min (size * count) _ by omega)
      rw [Nat.add_sub_cancel' (by omega)] at hread
      exact hread
    · exact hs.reads hb hret _ (by omega) hmod (by omega)

/-! ## Runs -/

/-- The buffer, the world, and the bytes that reads returned. -/
structure WrState where
  rb : RbDma
  w : World
  returned : List Byte

/-- A call, or a while in which only the channel moves. -/
inductive WrCall where
  | read (size count : Nat)
  | fill
  | free
  | idle

/-- A call is made. -/
def wrStep : Machine WrState WrCall Nat := fun s c =>
  match c with
  | .read size count =>
    let r := rbReadDmaWrite s.rb s.w size count
    some (⟨r.2.1, r.2.2, s.returned ++ r.1.2⟩, r.1.1)
  | .fill =>
    let r := rbGetFillSizeDmaWrite s.rb s.w
    some (⟨r.2.1, r.2.2, s.returned⟩, r.1)
  | .free =>
    let r := rbGetFreeSizeDmaWrite s.rb s.w
    some (⟨r.2.1, r.2.2, s.returned⟩, r.1)
  | .idle => some (⟨s.rb, s.w.tick World.moveIn, s.returned⟩, 0)

/-- The channel is configured and the buffer initialised. -/
def wrStart (w : World) (buf bufLen : Nat) : WrState :=
  let r := rbInitDmaWrite (audioConfigDma w buf bufLen) buf bufLen
  ⟨r.1, r.2, []⟩

/-- The number of bytes of a read does not overflow. -/
def WrCallOk (_ : WrState) : WrCall → Prop
  | .read size count => size * count + 4 < 2 ^ 32
  | _ => True

instance (s : WrState) (c : WrCall) : Decidable (WrCallOk s c) := by
  cases c <;> unfold WrCallOk <;> infer_instance

/-- What holds at the end of every call: the bytes returned are the first of those stored; the
others still lie in the buffer, four bytes short of a whole one at most; a read returns the bytes
it counts, as many as the fill size if they are asked for; and the fill size and the free size
are together the capacity but for the safe interval, or less when the channel moves between. -/
structure WrSound (s : WrState) : Prop where
  returned : s.returned <+: s.w.moved
  unread : ∀ k (h : k < s.w.moved.length), s.returned.length ≤ k →
    s.w.mem (s.rb.address + k % s.rb.capacity) = s.w.moved[k]
  room : s.w.moved.length + RWP_SAFE_INTERVAL ≤ s.returned.length + s.rb.capacity
  reads : ∀ size count, size * count < 2 ^ 32 →
    (rbReadDmaWrite s.rb s.w size count).1.1 =
        min (size * count) (rbGetFillSizeDmaWrite s.rb s.w).1 ∧
      (rbReadDmaWrite s.rb s.w size count).1.2.length = (rbReadDmaWrite s.rb s.w size count).1.1
  fill_add_free : (rbGetFillSizeDmaWrite s.rb s.w).1 + (rbGetFreeSizeDmaWrite s.rb s.w).1 =
    s.rb.capacity - RWP_SAFE_INTERVAL
  fill_then_free : (rbGetFillSizeDmaWrite s.rb s.w).1 + (rbGetFreeSizeDmaWrite
      (rbGetFillSizeDmaWrite s.rb s.w).2.1 (rbGetFillSizeDmaWrite s.rb s.w).2.2).1 ≤
    s.rb.capacity - RWP_SAFE_INTERVAL

/-- A read of nothing changes nothing. -/
theorem rbReadDmaWrite_zero {size count : Nat} (h : size * count = 0) :
    rbReadDmaWrite rb w size count = ((0, []), rb, w) := by
  unfold rbReadDmaWrite
  rw [h]
  rfl

theorem ReadInv.sound (hb : BufferOk a n) (h : ReadInv a n ret rb w) : WrSound ⟨rb, w, ret⟩ := by
  obtain ⟨hsample, hinv, hl⟩ := h.sampleWp hb
  obtain ⟨hsample', hinv', hl'⟩ := hinv.sampleWp hb
  have hfill := hinv.fillOf hb rfl
  have hfree := hinv.freeOf hb rfl
  have hfree' : DmaRing.freeOf { rb with
      wp := ((w.tick World.moveIn).tick World.moveIn).moved.length % n } +
      (((w.tick World.moveIn).tick World.moveIn).moved.length - ret.length) = n - 4 :=
    hinv'.freeOf hb rfl
  have hcapacity := h.capacity
  have hle := hl'.length_le
  refine ⟨h.returned, ?_, ?_, ?_, ?_, ?_⟩
  · rw [h.address, h.capacity]
    exact h.stores.cells
  · rw [h.capacity]
    exact h.stores.room
  · intro size count hsize
    have hvalue : (rbGetFillSizeDmaWrite rb w).1 =
        (w.tick World.moveIn).moved.length - ret.length := by
      unfold rbGetFillSizeDmaWrite
      simp only [hsample, hfill]
    show (rbReadDmaWrite rb w size count).1.1 = min _ (rbGetFillSizeDmaWrite rb w).1 ∧ _
    rw [hvalue]
    by_cases hz : size * count = 0
    · rw [rbReadDmaWrite_zero hz, hz, Nat.zero_min]
      exact ⟨rfl, rfl⟩
    · have hread := rbReadDmaWrite_spec hb h hsize hz
      exact ⟨hread.count, hread.length⟩
  · unfold rbGetFillSizeDmaWrite rbGetFreeSizeDmaWrite
    simp only [hsample, hfill]
    rw [Nat.add_comm, hfree, hcapacity]
  · unfold rbGetFillSizeDmaWrite rbGetFreeSizeDmaWrite
    simp only [hsample, hsample', hfill]
    refine Nat.le_trans ?_ (Nat.sub_le_sub_right (Nat.le_of_eq hcapacity.symm) 4)
    omega

/-- A call keeps the invariant. -/
theorem wrStep_spec (hb : BufferOk a n) {s s' : WrState} {c : WrCall} {o : Nat}
    (h : ReadInv a n s.returned s.rb s.w) (hok : WrCallOk s c) (hs : wrStep s c = some (s', o)) :
    ReadInv a n s'.returned s'.rb s'.w := by
  obtain ⟨hsample, hinv, -⟩ := h.sampleWp hb
  cases c with
  | read size count =>
    cases hs
    by_cases hz : size * count = 0
    · simp only [rbReadDmaWrite_zero hz, List.append_nil]
      exact h
    · have hsize : size * count + 4 < 2 ^ 32 := hok
      exact (rbReadDmaWrite_spec hb h (by omega) hz).inv
  | fill =>
    cases hs
    unfold rbGetFillSizeDmaWrite
    simp only [hsample]
    exact hinv
  | free =>
    cases hs
    unfold rbGetFreeSizeDmaWrite
    simp only [hsample]
    exact hinv
  | idle =>
    cases hs
    exact ⟨h.address, h.capacity, h.rp_le, h.rp_mod, hinv.stores, hinv.returned⟩

/-- The buffer is empty after its initialisation, and the channel runs up to four cells before
its end. -/
theorem readInv_start (hb : BufferOk a n) (w : World) :
    ReadInv a n (wrStart w a n).returned (wrStart w a n).rb (wrStart w a n).w := by
  have hfits := hb.fits
  have hpos := hb.pos
  have hn : 0 < n := by omega
  -- the channel is paused until the pause address is set
  have hpaused : ∀ m, World.moveIn^[m] (audioConfigDma w a n) = audioConfigDma w a n := by
    intro m
    have hstay : (audioConfigDma w a n).moveIn = audioConfigDma w a n := if_pos rfl
    exact Function.iterate_fixed hstay m
  have hpause : sub32 (u32 (a + n)) RWP_SAFE_INTERVAL = a + (0 + (n - 4)) % n := by
    unfold RWP_SAFE_INTERVAL
    rw [u32_of_lt hfits, sub32_of_le (by omega) (by omega), Nat.mod_eq_of_lt (by omega)]
    omega
  have hstores : Stores a n 0 (wrStart w a n).w := by
    unfold wrStart rbInitDmaWrite World.tick
    rw [hpaused]
    refine ⟨rfl, u32_of_lt hfits, ?_, hpause, Nat.le_refl _,
      fun k hk => absurd hk (Nat.not_lt_zero k), ?_⟩
    · show a = a + 0 % n
      rw [Nat.zero_mod, Nat.add_zero]
    · show 0 + 4 ≤ 0 + n
      omega
  exact ⟨rfl, rfl, Nat.zero_le n, rfl, hstores, List.nil_prefix⟩

/-! ## Both directions -/

/-- In every run of calls after the initialisation both rings are sound, and the channel that
consumes takes nothing that was not accepted before the call. -/
theorem dma_rings_sound (hb : BufferOk a n) (w : World) :
    (∀ calls, Machine.Legal rdStep RdCallOk (rdStart w a n) calls →
      ∀ k s os, Machine.run rdStep (rdStart w a n) (calls.take k) = some (s, os) →
        RdSound s ∧ ∀ c s' o, calls[k]? = some c → rdStep s c = some (s', o) →
          s'.w.moved <+: s.accepted) ∧
    ∀ calls, Machine.Legal wrStep WrCallOk (wrStart w a n) calls →
      ∀ k s os, Machine.run wrStep (wrStart w a n) (calls.take k) = some (s, os) → WrSound s := by
  constructor
  · intro calls hl k s os hr
    have hinv : WriteInv a n s.accepted s.rb s.w :=
      Machine.always_of_legal (I := fun s => WriteInv a n s.accepted s.rb s.w)
        (fun s c s' o h hok hs => (rdStep_spec hb h hok hs).1) (writeInv_start hb w) hl k hr
    refine ⟨hinv.sound hb, fun c s' o hc hs => ?_⟩
    have hsplit : calls = calls.take k ++ c :: calls.drop (k + 1) := by
      obtain ⟨hk, rfl⟩ := List.getElem?_eq_some_iff.mp hc
      rw [List.getElem_cons_drop, List.take_append_drop]
    rw [hsplit] at hl
    exact (rdStep_spec hb hinv (hl.append hr).1 hs).2
  · intro calls hl k s os hr
    have hinv : ReadInv a n s.returned s.rb s.w :=
      Machine.always_of_legal (I := fun s => ReadInv a n s.returned s.rb s.w)
        (fun s c s' o h hok hs => wrStep_spec hb h hok hs) (readInv_start hb w) hl k hr
    exact hinv.sound hb

/-- A channel that moves a byte before each access. -/
def eagerWorld : World :=
  ⟨fun _ => 0, ⟨0, 0, 0, 0⟩, [], fun i => BitVec.ofNat 8 i, fun _ => 1, 0⟩

/-- Eight bytes at `0x1000`: a write of three and one of five, and reads of four and of nine. -/
theorem dma_rings_sound_eight :
    (∀ s os, Machine.run rdStep (rdStart eagerWorld 0x1000 8)
        [.write [1, 2, 3] 1 3, .idle, .free, .write [4, 5, 6, 7, 8] 5 1, .fill] = some (s, os) →
      RdSound s) ∧
    ∀ s os, Machine.run wrStep (wrStart eagerWorld 0x1000 8)
        [.idle, .idle, .read 2 2, .fill, .read 3 3] = some (s, os) → WrSound s := by
  have hb : BufferOk 0x1000 8 := ⟨by decide, by decide⟩
  have hrd : Machine.Legal rdStep RdCallOk (rdStart eagerWorld 0x1000 8)
      [.write [1, 2, 3] 1 3, .idle, .free, .write [4, 5, 6, 7, 8] 5 1, .fill] := by decide
  have hwr : Machine.Legal wrStep WrCallOk (wrStart eagerWorld 0x1000 8)
      [.idle, .idle, .read 2 2, .fill, .read 3 3] := by decide
  exact ⟨fun s os hr => ((dma_rings_sound hb eagerWorld).1 _ hrd 5 s os hr).1,
    fun s os hr => (dma_rings_sound hb eagerWorld).2 _ hwr 5 s os hr⟩

end TuyaSdk.DmaRing
