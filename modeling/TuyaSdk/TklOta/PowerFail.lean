import TuyaSdk.TklOta.Steps

/-!
# A power cut during an upgrade

From the acceptance of a header until `tkl_ota_end_notify` writes the first sector back, the
first 512 bytes of the upgrade partition stay erased, so that no power cut leaves an image
that starts with a valid first block. `armed` follows that window along the events, and
`PowerSafe` says that every flash operation inside it leaves the block erased.
-/

namespace TuyaSdk.TklOta
open TuyaSdk.Lib TuyaSdk.Flash

/-- Whether the window is open after an event. -/
def armedBy (armed : Bool) : OtaEvent → Bool
  | .accepted binLen => armed || decide (1 ≤ binLen)
  | .restore _ _ _ => false
  | .malloc _ | .free _ | .eraseSector _ _ | .write _ _ _ | .reset => armed

/-- The window is open after the events. -/
def armed (t : List OtaEvent) : Bool := t.foldl armedBy false

/-- The flash after a flash operation. -/
def OtaEvent.after : OtaEvent → Option Mem
  | .eraseSector _ m | .write _ _ m | .restore _ _ m => some m
  | .malloc _ | .free _ | .accepted _ | .reset => none

/-- The first block of the upgrade partition is erased. -/
def FirstBlank (m : Mem) : Prop := Nor.Erased m ugStartAddr 512

/-- Every flash operation made while the window is open leaves the first block erased. -/
def PowerSafe (t : List OtaEvent) : Prop :=
  ∀ pre e post, t = pre ++ e :: post → armed (pre ++ [e]) = true → ∀ m, e.after = some m →
    FirstBlank m

theorem armed_append (t : List OtaEvent) (e : OtaEvent) : armed (t ++ [e]) = armedBy (armed t) e := by
  simp [armed]

theorem powerSafe_nil : PowerSafe [] := by
  intro pre e post h
  simp at h

theorem PowerSafe.append {t : List OtaEvent} {e : OtaEvent} (h : PowerSafe t)
    (he : armed (t ++ [e]) = true → ∀ m, e.after = some m → FirstBlank m) :
    PowerSafe (t ++ [e]) := by
  intro pre e' post hsplit harm m hm
  rcases List.eq_nil_or_concat post with rfl | ⟨post', last, rfl⟩
  · obtain ⟨rfl, hlast⟩ := List.append_inj' hsplit rfl
    cases hlast
    exact he harm m hm
  · rw [List.concat_eq_append, ← List.cons_append, ← List.append_assoc] at hsplit
    obtain ⟨rfl, _⟩ := List.append_inj' hsplit rfl
    exact h pre e' post' rfl harm m hm

/-! ## What the operations do to the first block -/

theorem writeDev_cases (dev : FlashDev) (fails : Option Nat) (src : Nat → Byte) {addr size : Nat}
    (h : addr + size ≤ 2 ^ 32) (hs : size < 2 ^ 32) : ∃ n ≤ size,
      OtaState.writeDev dev fails addr src size = dev ∨
        OtaState.writeDev dev fails addr src size = programmed dev src addr n := by
  cases fails with
  | none => exact ⟨size, Nat.le_refl _, flashWrite_cases dev src h hs⟩
  | some k =>
    have hle : min k size ≤ size := Nat.min_le_right _ _
    exact ⟨min k size, hle, @flashWrite_cases dev src (min k size) addr (by omega) (by omega)⟩

theorem writeDev_size (dev : FlashDev) (fails : Option Nat) (src : Nat → Byte) {addr size : Nat}
    (h : addr + size ≤ 2 ^ 32) (hs : size < 2 ^ 32) :
    (OtaState.writeDev dev fails addr src size).size = dev.size := by
  obtain ⟨n, _, heq | heq⟩ := writeDev_cases dev fails src h hs
  · rw [heq]
  · rw [heq]
    rfl

/-- A write of blank bytes, or to another place, keeps the first block erased. -/
theorem writeDev_firstBlank {dev : FlashDev} {fails : Option Nat} {src : Nat → Byte}
    {addr size : Nat} (h : addr + size ≤ 2 ^ 32) (hs : size < 2 ^ 32)
    (hplace : (src = fun _ => Nor.blank) ∨ addr + size ≤ ugStartAddr ∨ ugStartAddr + 512 ≤ addr)
    (hblank : FirstBlank dev.cells) :
    FirstBlank (OtaState.writeDev dev fails addr src size).cells := by
  obtain ⟨n, hn, heq | heq⟩ := writeDev_cases dev fails src h hs
  · rw [heq]
    exact hblank
  · rw [heq]
    intro x hlo hhi
    refine Eq.trans ?_ (hblank x hlo hhi)
    by_cases hin : addr ≤ x ∧ x < addr + n
    · rcases hplace with hsrc | hout
      · refine (Nor.program_inside hin.1 hin.2).trans ?_
        rw [hsrc, Nor.and_blank]
      · omega
    · exact Nor.program_outside (by omega)

/-- An erase for a header leaves the first block erased. -/
theorem erase_firstBlank {dev : FlashDev} {n : Nat} (hdev : ugStartAddr + otaMaxBinSize ≤ dev.size)
    (hn : n < otaMaxBinSize) (hpos : 1 ≤ n) :
    FirstBlank (Flash.tklFlashErase dev ugStartAddr n).cells := by
  have hstart : ugStartAddr = 1220608 := rfl
  have hmax : otaMaxBinSize = 679936 := rfl
  rw [hstart, hmax] at hdev
  rw [hmax] at hn
  rw [tklFlashErase_eq (by decide) (by rw [hstart]; omega) (by rw [hstart]; omega)
    (by rw [hstart]; omega)]
  exact Nor.erased_erase.mono (Nat.le_refl _) (by omega)

/-! ## Steps and runs -/

/-- The counter of received bytes stays below `2 ^ 31`: so it does when no flash write fails,
and otherwise as long as the packs cut short do not add up to that. -/
def CounterFits (s : OtaState) (c : OtaCall) : Prop :=
  c.WritesSucceed ∨ s.recvd + c.packLen < 2 ^ 31

/-- What holds of the flash and the events. -/
structure Guarded (y : Io) : Prop where
  size : ugStartAddr + otaMaxBinSize ≤ y.1.size
  safe : PowerSafe y.2
  blank : armed y.2 = true → FirstBlank y.1.cells

/-- An event that is no flash operation and does not open the window. -/
theorem Guarded.quiet {y : Io} {e : OtaEvent} (h : Guarded y) (hafter : e.after = none)
    (harm : armedBy (armed y.2) e = armed y.2) : Guarded (y.1, y.2 ++ [e]) := by
  refine ⟨h.size, h.safe.append fun _ m hm => ?_, fun hopen => ?_⟩
  · rw [hafter] at hm
    cases hm
  · rw [armed_append, harm] at hopen
    exact h.blank hopen

/-- A flash operation that keeps the window as it is and the first block erased. -/
theorem Guarded.flash {y : Io} {dev : FlashDev} {e : OtaEvent} (h : Guarded y)
    (hsize : dev.size = y.1.size) (hafter : e.after = some dev.cells)
    (harm : armedBy (armed y.2) e = armed y.2)
    (hblank : FirstBlank y.1.cells → FirstBlank dev.cells) : Guarded (dev, y.2 ++ [e]) := by
  have hkeep : armed (y.2 ++ [e]) = true → FirstBlank dev.cells := by
    intro hopen
    rw [armed_append, harm] at hopen
    exact hblank (h.blank hopen)
  refine ⟨?_, h.safe.append fun hopen m hm => ?_, hkeep⟩
  · rw [hsize]
    exact h.size
  · cases hafter.symm.trans hm
    exact hkeep hopen

theorem guarded_write {y : Io} {p : UgProc} {fails : Option Nat} {addr size len : Nat}
    {src : Nat → Byte} (h : Guarded y) (hop : ImgOp p len y.1 (.write fails addr src size))
    (hbound : p.recvDataCnt + len < 2 ^ 32) :
    Guarded ((OtaOp.write fails addr src size).apply y) := by
  obtain ⟨r, haddr, hmod, hle, hsrc, hend⟩ := hop
  have hsize : size ≤ 512 := by omega
  have hr : r + size ≤ p.recvDataCnt + len := by omega
  have hfit : addr + size ≤ 2 ^ 32 := by
    rw [haddr]
    unfold u32 ugStartAddr
    omega
  refine h.flash (writeDev_size _ _ _ hfit (by omega)) rfl rfl ?_
  refine writeDev_firstBlank hfit (by omega) ?_
  by_cases h0 : r = 0
  · exact Or.inl (hsrc h0)
  · refine Or.inr ?_
    rw [haddr]
    unfold u32 ugStartAddr
    omega

/-- Every operation of a call keeps the first block guarded. -/
theorem guarded_op {s : OtaState} {c : OtaCall} {y : Io} {op : OtaOp} (hinv : OtaInv s)
    (hbound : s.recvd + c.packLen < 2 ^ 32) (hop : CallOp s c y.1 op) (h : Guarded y) :
    Guarded (op.apply y) := by
  have herase : ∀ a, Guarded ((OtaOp.eraseSector a).apply y) := fun a =>
    h.flash (flashEraseSector_size _ _) rfl rfl fun hb x hlo hhi =>
      flashEraseSector_blank (hb x hlo hhi)
  cases c with
  | startNotify env n =>
    cases hop
    exact h.quiet rfl rfl
  | dataProcess env pack =>
    obtain ⟨p, hs, ⟨hstat, hop⟩ | ⟨hstat, hop⟩⟩ := hop
    · cases op with
      | eraseSector a => exact herase a
      | accepted n =>
        obtain ⟨hn, dev₀, hdev₀⟩ := hop
        refine ⟨h.size, h.safe.append fun _ m hm => (nomatch hm), fun hopen => ?_⟩
        show FirstBlank y.1.cells
        by_cases hpos : 1 ≤ n
        · rw [hdev₀]
          refine erase_firstBlank ?_ hn hpos
          have hsize := h.size
          rw [hdev₀, tklFlashErase_size] at hsize
          exact hsize
        · have hopen : armed (y.2 ++ [.accepted n]) = true := hopen
          rw [armed_append, armedBy, decide_eq_false hpos, Bool.or_false] at hopen
          exact h.blank hopen
      | malloc b => exact hop.elim
      | free b => exact hop.elim
      | write fails a src n => exact hop.elim
      | restore fails a src n => exact hop.elim
      | reset => exact hop.elim
    · cases op with
      | malloc b => exact h.quiet rfl rfl
      | free b => exact h.quiet rfl rfl
      | write fails a src n =>
        refine guarded_write h hop ?_
        rw [← OtaState.recvd_img hs hstat]
        exact hbound
      | eraseSector a => exact hop.elim
      | accepted n => exact hop.elim
      | restore fails a src n => exact hop.elim
      | reset => exact hop.elim
  | endNotify env reset =>
    cases op with
    | malloc b => exact h.quiet rfl rfl
    | free b => exact h.quiet rfl rfl
    | reset => exact h.quiet rfl rfl
    | eraseSector a => exact herase a
    | restore fails a src n =>
      obtain ⟨p, hp, ha, hn⟩ := hop
      have hstart : p.startAddr ≤ 0x12A000 := (hinv.ok p hp.1).startAddr_le
      -- the window closes with this write, whatever it leaves
      have hclosed : armed (y.2 ++ [OtaEvent.restore a n
          (OtaState.writeDev y.1 fails a src n).cells]) = false := armed_append _ _
      refine ⟨?_, h.safe.append fun hopen => ?_, fun hopen => ?_⟩
      · show ugStartAddr + otaMaxBinSize ≤ (OtaState.writeDev y.1 fails a src n).size
        rw [writeDev_size _ _ _ (by omega) (by omega)]
        exact h.size
      · rw [hclosed] at hopen
        cases hopen
      · have hopen : armed (y.2 ++ [OtaEvent.restore a n
          (OtaState.writeDev y.1 fails a src n).cells]) = true := hopen
        rw [hclosed] at hopen
        cases hopen
    | write fails a src n => exact hop.elim
    | accepted n => exact hop.elim

theorem guarded_step {s : OtaState} {c : OtaCall} (hinv : OtaInv s) (hcnt : s.recvd < 2 ^ 31)
    (hok : CounterFits s c) (h : Guarded s.io) :
    ∃ s' o, step s c = some (s', o) ∧ OtaInv s' ∧ s'.recvd < 2 ^ 31 ∧ Guarded s'.io := by
  have hlen : c.packLen < 2 ^ 31 := by
    cases c with
    | startNotify env n => exact Nat.two_pow_pos 31
    | dataProcess env pack => exact pack.length_lt
    | endNotify env reset => exact Nat.two_pow_pos 31
  have hbound : s.recvd + c.packLen < 2 ^ 32 := by omega
  obtain ⟨s', o, hs', hstep⟩ := step_spec c hinv hbound
  refine ⟨s', o, hs', hstep.inv, ?_, ?_⟩
  · have hle := hstep.recvd
    rcases hok with hw | hfits
    · have hmax : otaMaxBinSize < 2 ^ 31 := by decide
      rcases hstep.progress hw with heq | hlt
      · omega
      · omega
    · omega
  · exact hstep.effect.invariant (fun y op => guarded_op hinv hbound) h

/-- In every run of the calls, with packs of any contents and lengths, allocations that fail
and restarts in between, the first block of the upgrade partition is erased after every flash
operation between the acceptance of a header and the write of `tkl_ota_end_notify`. -/
theorem powerSafe_run (dev : FlashDev) (calls : List OtaCall)
    (hdev : ugStartAddr + otaMaxBinSize ≤ dev.size)
    (h : Machine.Legal step CounterFits (.boot dev) calls) :
    ∃ s os, Machine.run step (.boot dev) calls = some (s, os) ∧ PowerSafe s.trace ∧
      (armed s.trace = true → FirstBlank s.dev.cells) := by
  have hrun : ∃ s os, Machine.run step (.boot dev) calls = some (s, os) ∧
      OtaInv s ∧ s.recvd < 2 ^ 31 ∧ Guarded s.io := by
    refine Machine.run_total (I := fun s _ => OtaInv s ∧ s.recvd < 2 ^ 31 ∧ Guarded s.io) ?_
      ⟨otaInv_boot dev, Nat.two_pow_pos 31, hdev, powerSafe_nil, fun hopen => nomatch hopen⟩ h
    intro s _ c ⟨hinv, hcnt, hg⟩ hok
    exact guarded_step hinv hcnt hok hg
  obtain ⟨s, os, hs, _, _, hg⟩ := hrun
  exact ⟨s, os, hs, hg.safe, hg.blank⟩

/-- A header for one byte is accepted, and the upgrade broken off by a second start. -/
theorem powerSafe_run_restart : ∃ s os, Machine.run step (.boot blankFlash)
      [.startNotify calm 1, .dataProcess calm ⟨tinyHdr, by decide⟩, .startNotify calm 1] =
        some (s, os) ∧
      PowerSafe s.trace ∧ (armed s.trace = true → FirstBlank s.dev.cells) :=
  powerSafe_run blankFlash _ (by decide)
    ⟨Or.inl fun _ => rfl, fun _ _ _ => ⟨Or.inl fun _ => rfl, fun _ _ _ =>
      ⟨Or.inl fun _ => rfl, fun _ _ _ => trivial⟩⟩⟩

end TuyaSdk.TklOta
