import TuyaSdk.FlashStores.Defs

/-!
# The stores are separate

An operation changes its own sectors only (`Stores.step`): the net parameters and the fast-connect
information their common one, the calibration values the one before, an upgrade nothing from there
on as long as its packs fit. Hence a run in which only one of the two at `0x1D1000` has operations
keeps the stores apart (`stores_separate`).
-/

namespace TuyaSdk.FlashStores
open TuyaSdk.Lib TuyaSdk.Flash TuyaSdk.TklOta

/-! ## The upgrade -/

/-- The device has the cells of `dev` from the calibration values on. -/
structure KeepsUpper (dev : FlashDev) (dev' : FlashDev) : Prop where
  size : dev'.size = dev.size
  cells : ∀ x, ManualCal.startAddr ≤ x → dev'.cells x = dev.cells x

theorem KeepsUpper.refl (dev : FlashDev) : KeepsUpper dev dev := ⟨rfl, fun _ _ => rfl⟩

theorem KeepsUpper.trans {dev dev' dev'' : FlashDev} (h : KeepsUpper dev dev')
    (h' : KeepsUpper dev' dev'') : KeepsUpper dev dev'' :=
  ⟨h'.size.trans h.size, fun x hx => (h'.cells x hx).trans (h.cells x hx)⟩

theorem keepsUpper_eraseSector (dev : FlashDev) {a : Nat} (h : a + 4096 ≤ ManualCal.startAddr) :
    KeepsUpper dev (flashEraseSector dev a) :=
  ⟨flashEraseSector_size dev a, fun _ hx => flashEraseSector_outside (Nat.le_trans h hx)⟩

theorem keepsUpper_writeDev (dev : FlashDev) (fails : Option Nat) (src : Nat → Byte) {a n : Nat}
    (h : a + n ≤ ManualCal.startAddr) : KeepsUpper dev (OtaState.writeDev dev fails a src n) := by
  have hs : ManualCal.startAddr = 0x1D0000 := rfl
  obtain ⟨m, hm, hle⟩ :
      ∃ m, OtaState.writeDev dev fails a src n = flashWrite dev src m a ∧ m ≤ n := by
    cases fails with
    | none => exact ⟨n, rfl, Nat.le_refl _⟩
    | some k => exact ⟨min k n, rfl, Nat.min_le_right _ _⟩
  rw [hm]
  exact ⟨flashWrite_size dev src (by omega) (by omega),
    fun x hx => flashWrite_outside dev src (by omega) (by omega) (.inr (by omega))⟩

/-- A sector that an upgrade erases for the image, or to put its first one back. -/
theorem eraseSectors_le {p : UgProc} (hp : p.Ok) {a : Nat}
    (h : a ∈ tklEraseSectors p.startAddr 4096) : a + 4096 ≤ ManualCal.startAddr := by
  have hs : ManualCal.startAddr = 0x1D0000 := rfl
  have hug : ugStartAddr = 0x12A000 := rfl
  have hsector : p.startAddr % 4096 = 0 := by
    by_cases hstat : p.stat = .recvHeader
    · rw [(hp.header hstat).2.1]
    · rw [(hp.accepted hstat).1]
      rfl
  have hle := hp.startAddr_le
  obtain ⟨-, hhi⟩ := mem_tklEraseSectors hsector (by omega) (by omega) h
  omega

theorem inPartition_le {a n : Nat} (h : InPartition a n) : a + n ≤ ManualCal.startAddr := h.2

/-- One operation of a call whose pack fits. -/
theorem keepsUpper_op {s : OtaState} {c : OtaCall} {dev : FlashDev} {t : List OtaEvent} {op : OtaOp}
    (hinv : OtaInv s) (hfits : PackFits s (.tklOta c)) (hop : CallOp s c dev op) :
    KeepsUpper dev (op.apply (dev, t)).1 := by
  have hs : ManualCal.startAddr = 0x1D0000 := rfl
  have hug : ugStartAddr = 0x12A000 := rfl
  have hmax : otaMaxBinSize = 679936 := rfl
  cases c with
  | startNotify env n =>
    cases hop
    exact .refl dev
  | dataProcess env pack =>
    obtain ⟨p, hp, ⟨-, hop⟩ | ⟨hstat, hop⟩⟩ := hop
    · cases op with
      | eraseSector a =>
        obtain ⟨n, hn, ha⟩ := hop
        exact keepsUpper_eraseSector dev
          (inPartition_le (mem_tklEraseSectors_inPartition (Nat.le_of_lt hn) ha))
      | write fails a src n => exact hop.elim
      | restore fails a src n => exact hop.elim
      | _ => exact .refl dev
    · cases op with
      | write fails a src n =>
        obtain ⟨r, ha, hmod, hle, -, hplace⟩ := hop
        have hroom := hfits p hp hstat
        have hbin := (hinv.ok p hp).binLen_lt
        have hend : r + n ≤ otaMaxBinSize := by omega
        refine keepsUpper_writeDev dev fails src ?_
        rw [ha, u32_of_lt (by omega)]
        omega
      | eraseSector a => exact hop.elim
      | restore fails a src n => exact hop.elim
      | _ => exact .refl dev
  | endNotify env reset =>
    cases op with
    | eraseSector a =>
      obtain ⟨p, hp, ha⟩ := hop
      exact keepsUpper_eraseSector dev (eraseSectors_le (hinv.ok p hp.1) ha)
    | restore fails a src n =>
      obtain ⟨p, hp, ha, hn⟩ := hop
      have hle := (hinv.ok p hp.1).startAddr_le
      exact keepsUpper_writeDev dev fails src (by omega)
    | write fails a src n => exact hop.elim
    | _ => exact .refl dev

/-- A call whose pack fits leaves the cells from the calibration values on. -/
theorem tklOta_keepsUpper {s : OtaState} {c : OtaCall} (hinv : OtaInv s)
    (hfits : PackFits s (.tklOta c)) :
    ∃ s' o, TklOta.step s c = some (s', o) ∧ OtaInv s' ∧ KeepsUpper s.dev s'.dev := by
  have hlen : s.recvd + c.packLen < 2 ^ 32 := by
    cases c with
    | dataProcess env pack =>
      have hok : Confining s (.dataProcess env pack) := hfits
      exact hok.packLen_lt hinv
    | _ => exact hinv.recvd_lt
  obtain ⟨s', o, hs', hstep⟩ := step_spec c hinv hlen
  refine ⟨s', o, hs', hstep.inv, ?_⟩
  exact hstep.effect.invariant (J := fun y => KeepsUpper s.dev y.1)
    (fun y op hop hy => hy.trans (keepsUpper_op hinv hfits hop)) (.refl _)

/-! ## One operation -/

/-- The device has the stores that `net` and `fast` say are used. -/
structure Holds (net fast : Prop) (dev : FlashDev) (h : Held) : Prop where
  size : 0x1D2000 ≤ dev.size
  netParam : net → NetParam.Stored dev h.table
  fastConnect : fast → rlReadBssidInfo dev = h.info
  calibration : ∃ gs, ManualCal.Stored dev gs ∧ ManualCal.contentsOf gs = h.contents

variable {net fast : Prop} {dev dev' : FlashDev} {h : Held}

/-- The sector at `0x1D1000` is written. -/
theorem Holds.of_upper (hh : Holds net fast dev h)
    (hsame : SameOutside BSSID_INFO_ADDR (BSSID_INFO_ADDR + 4096) dev dev') {h' : Held}
    (hcontents : h'.contents = h.contents) (hnet : net → NetParam.Stored dev' h'.table)
    (hfast : fast → rlReadBssidInfo dev' = h'.info) : Holds net fast dev' h' := by
  obtain ⟨gs, hgs, hc⟩ := hh.calibration
  refine ⟨hsame.size ▸ hh.size, hnet, hfast, gs, hgs.congr hsame.size fun x _ hx => ?_,
    hc.trans hcontents.symm⟩
  exact hsame.cells x (.inl (Nat.lt_of_lt_of_le hx (by decide)))

/-- The sector at `0x1D1000` is left as it is. -/
theorem Holds.of_lower (hh : Holds net fast dev h) (hsize : dev'.size = dev.size)
    (hcells : ∀ x, BSSID_INFO_ADDR ≤ x → dev'.cells x = dev.cells x) {h' : Held}
    (htable : h'.table = h.table) (hinfo : h'.info = h.info)
    (hcal : ∃ gs, ManualCal.Stored dev' gs ∧ ManualCal.contentsOf gs = h'.contents) :
    Holds net fast dev' h' := by
  refine ⟨hsize ▸ hh.size, fun hn => ?_, fun hf => ?_, hcal⟩
  · rw [htable]
    exact (hh.netParam hn).congr hsize fun x hx _ => hcells x hx
  · rw [hinfo, rlRead_congr fun x hx _ => hcells x hx]
    exact hh.fastConnect hf

/-- The cells that operations of a store may change. -/
def Store.Reaches : Store → Nat → Prop
  | .netParam, x | .fastConnect, x => BSSID_INFO_ADDR ≤ x ∧ x < BSSID_INFO_ADDR + 4096
  | .calibration, x => ManualCal.startAddr ≤ x ∧ x < ManualCal.startAddr + 4096
  | .ota, x => x < ManualCal.startAddr

theorem outside_of_not {a n x : Nat} (h : ¬ (a ≤ x ∧ x < a + n)) : x < a ∨ a + n ≤ x := by
  omega

/-- An operation of a store that is used, with the other at `0x1D1000` unused. -/
theorem Holds.step {s : OtaState} {op : StoreOp} (hh : Holds net fast s.dev h) (hinv : OtaInv s)
    (hfits : PackFits s op) (hnet : op.store = .netParam → net ∧ ¬ fast)
    (hfast : op.store = .fastConnect → ¬ net) :
    ∃ s' o, step s op = some (s', o) ∧ OtaInv s' ∧ Holds net fast s'.dev (h.apply op) ∧
      ∀ x, ¬ op.store.Reaches x → s'.dev.cells x = s.dev.cells x := by
  have hinv' : ∀ dev', OtaInv { s with dev := dev' } := fun _ => ⟨hinv.ok, hinv.first⟩
  cases op with
  | saveInfoItem sv =>
    obtain ⟨hn, hf⟩ := hnet rfl
    have hstored := hh.netParam hn
    obtain ⟨dev', hsave, hstored'⟩ :=
      NetParam.saveInfoItem_spec hstored sv.item sv.ptr0 sv.ptr1 sv.ptr2
    have hsame := NetParam.saveInfoItem_sameOutside hstored sv.item sv.ptr0 sv.ptr1 sv.ptr2 hsave
    refine ⟨{ s with dev := dev' }, (), ?_, hinv' dev',
      hh.of_upper hsame rfl (fun _ => hstored') fun hf' => absurd hf' hf, fun x hx => ?_⟩
    · rw [FlashStores.step, hsave]
      rfl
    · exact hsame.cells x (outside_of_not hx)
  | rlWriteBssidInfo l =>
    have hsame := rlWrite_sameOutside hh.size l
    have hread := rlRead_write hh.size l
    have happly : h.apply (.rlWriteBssidInfo l) = { h with info := l.bssidInfo } := rfl
    rw [happly]
    refine ⟨{ s with dev := rlWriteBssidInfo s.dev l }, (), rfl, hinv' _, ?_, fun x hx => ?_⟩
    · dsimp only
      refine hh.of_upper hsame rfl (fun hn => absurd hn (hfast rfl)) fun _ => ?_
      dsimp only
      exact hread
    · dsimp only
      exact hsame.cells x (outside_of_not hx)
  | rlClearBssidInfo =>
    have hsame := rlClear_sameOutside hh.size
    have hread := rlRead_clear hh.size
    have happly : h.apply .rlClearBssidInfo = { h with info := erasedBssidInfo } := rfl
    rw [happly]
    refine ⟨{ s with dev := rlClearBssidInfo s.dev }, (), rfl, hinv' _, ?_, fun x hx => ?_⟩
    · dsimp only
      refine hh.of_upper hsame rfl (fun hn => absurd hn (hfast rfl)) fun _ => ?_
      dsimp only
      exact hread
    · dsimp only
      exact hsame.cells x (outside_of_not hx)
  | manualCal op =>
    obtain ⟨gs, hgs, hc⟩ := hh.calibration
    obtain ⟨r, dev', gs', hrun, hsaved, hc', -⟩ := hgs.steps op
    have hsame := hsaved.sameOutside
    refine ⟨{ s with dev := dev' }, (), ?_, hinv' dev',
      hh.of_lower hsame.size (fun x hx => hsame.cells x (.inr hx)) rfl rfl
        ⟨gs', hsaved.stored, ?_⟩, fun x hx => ?_⟩
    · rw [FlashStores.step, hrun]
      rfl
    · rw [hc', hc]
      rfl
    · exact hsame.cells x (outside_of_not hx)
  | tklOta c =>
    obtain ⟨s', o, hs', hota, hkeep⟩ := tklOta_keepsUpper hinv hfits
    obtain ⟨gs, hgs, hc⟩ := hh.calibration
    refine ⟨s', (), ?_, hota, ?_, fun x hx => hkeep.cells x (Nat.le_of_not_lt hx)⟩
    · rw [FlashStores.step, hs']
      rfl
    · exact hh.of_lower hkeep.size (fun x hx => hkeep.cells x (Nat.le_trans (by decide) hx)) rfl rfl
        ⟨gs, hgs.congr hkeep.size fun x hx _ => hkeep.cells x hx, hc⟩

/-! ## Runs -/

theorem Holds.run {s : OtaState} {ops : List StoreOp} (hh : Holds net fast s.dev h)
    (hinv : OtaInv s) (hfits : Machine.Legal FlashStores.step PackFits s ops)
    (hnet : ∀ op ∈ ops, op.store = .netParam → net ∧ ¬ fast)
    (hfast : ∀ op ∈ ops, op.store = .fastConnect → ¬ net) :
    ∃ s' os, Machine.run FlashStores.step s ops = some (s', os) ∧ OtaInv s' ∧
      Holds net fast s'.dev (ops.foldl Held.apply h) := by
  induction ops generalizing s h with
  | nil => exact ⟨s, [], rfl, hinv, hh⟩
  | cons op ops ih =>
    obtain ⟨s₁, o, hstep, hinv₁, hh₁, -⟩ := hh.step hinv hfits.1 (hnet op List.mem_cons_self)
      (hfast op List.mem_cons_self)
    obtain ⟨s', os, hrun, hinv', hh'⟩ := ih hh₁ hinv₁ (hfits.2 s₁ o hstep)
      (fun op hop => hnet op (List.mem_cons_of_mem _ hop))
      fun op hop => hfast op (List.mem_cons_of_mem _ hop)
    exact ⟨s', o :: os, Machine.run_cons.mpr ⟨s₁, o, os, hstep, hrun, rfl⟩, hinv', hh'⟩

theorem Holds.returns {ops : List StoreOp}
    (hh : Holds (Used ops .netParam) (Used ops .fastConnect) dev h) : Returns ops dev h := by
  obtain ⟨gs, hgs, hc⟩ := hh.calibration
  refine ⟨fun hn item => NetParam.getInfoItem_spec (hh.netParam hn) item, hh.fastConnect, ?_, ?_⟩
  · intro k es t v hes hv
    rw [← hc, ManualCal.contentsOf, Assoc.get_mapVal, Option.map_eq_some_iff] at hes
    obtain ⟨g, hg, rfl⟩ := hes
    exact ManualCal.elemValue_eq hgs hg hv
  · intro k hnone
    rw [← hc, ManualCal.contentsOf, Assoc.get_mapVal, Option.map_eq_none_iff] at hnone
    exact ManualCal.manualCalSearchTxpwrTab_none hgs (Assoc.get_eq_none.mp hnone)

theorem not_reaches {st st' : Store} (hne : st ≠ st')
    (hone : ¬ (st = .netParam ∧ st' = .fastConnect ∨ st = .fastConnect ∧ st' = .netParam)) {x : Nat}
    (hlo : st.start ≤ x) (hhi : x < st.start + st.length) : ¬ st'.Reaches x := by
  have hbssid : BSSID_INFO_ADDR = 0x1D1000 := rfl
  have hnet : NetParam.startAddr = 0x1D1000 := rfl
  have hcal : ManualCal.startAddr = 0x1D0000 := rfl
  have hug : ugStartAddr = 0x12A000 := rfl
  have hmax : otaMaxBinSize = 679936 := rfl
  cases st
  all_goals
    cases st'
    all_goals simp only [Store.start, Store.length] at hlo hhi
    all_goals simp only [Store.Reaches]
  all_goals first
    | exact absurd rfl hne
    | exact absurd (.inl ⟨rfl, rfl⟩) hone
    | exact absurd (.inr ⟨rfl, rfl⟩) hone
    | omega

/-- In a run with operations of one store at `0x1D1000`, and packs that fit, every read returns what
its own store was left with, and every operation leaves the other stores. -/
theorem stores_separate (dev : FlashDev) (hsize : 0x1D2000 ≤ dev.size)
    (herased : Nor.Erased dev.cells ManualCal.startAddr 0x2000) (ops : List StoreOp)
    (hone : OneAtBssidInfo ops) (hfits : Machine.Legal step PackFits (.boot dev) ops) :
    Separate dev ops := by
  have hcal : Nor.Erased dev.cells ManualCal.startAddr ManualCal.BK_FLASH_SECTOR_SIZE :=
    herased.mono (Nat.le_refl _) (by decide)
  have hupper : Nor.Erased dev.cells NetParam.startAddr 0x1000 := herased.mono (by decide) (by decide)
  have hinfo : Nor.Erased dev.cells BSSID_INFO_ADDR 4096 := herased.mono (by decide) (by decide)
  have hread := rlRead_erased hinfo
  have hinit : Holds (Used ops .netParam) (Used ops .fastConnect) dev
      ⟨[], erasedBssidInfo, []⟩ := by
    refine ⟨hsize, fun _ => NetParam.erased_stored hsize hupper, fun _ => ?_,
      [], ManualCal.erased_stored hsize hcal, rfl⟩
    dsimp only
    exact hread
  have hboot : Holds (Used ops .netParam) (Used ops .fastConnect) (OtaState.boot dev).dev
      ⟨[], erasedBssidInfo, []⟩ := hinit
  have hnot : ¬ (Used ops .netParam ∧ Used ops .fastConnect) := by
    rintro ⟨⟨op, hop, hst⟩, ⟨op', hop', hst'⟩⟩
    rcases hone with hnone | hnone
    · exact hnone op hop hst
    · exact hnone op' hop' hst'
  have hnet : ∀ op ∈ ops, op.store = .netParam → Used ops .netParam ∧ ¬ Used ops .fastConnect :=
    fun op hop hst => ⟨⟨op, hop, hst⟩, fun hf => hnot ⟨⟨op, hop, hst⟩, hf⟩⟩
  have hfast : ∀ op ∈ ops, op.store = .fastConnect → ¬ Used ops .netParam :=
    fun op hop hst hn => hnot ⟨hn, op, hop, hst⟩
  intro pre post hops
  rw [hops] at hfits
  obtain ⟨s, os, hrun, hinv, hh⟩ := hboot.run (otaInv_boot dev) hfits.prefix
    (fun op hop => hnet op (hops ▸ List.mem_append_left _ hop))
    fun op hop => hfast op (hops ▸ List.mem_append_left _ hop)
  refine ⟨s, os, hrun, hh.returns, ?_⟩
  rintro op post' rfl
  have hmem : op ∈ ops := hops ▸ List.mem_append_right _ List.mem_cons_self
  obtain ⟨s', o, hstep, -, -, hkeep⟩ := hh.step hinv (hfits.append hrun).1 (hnet op hmem)
    (hfast op hmem)
  refine ⟨s', o, hstep, fun st hst hused x hlo hhi => hkeep x (not_reaches hst ?_ hlo hhi)⟩
  rintro (⟨rfl, hst'⟩ | ⟨rfl, hst'⟩)
  · exact hfast op hmem hst' hused
  · exact (hnet op hmem hst').2 hused

/-- Saving the DHCP mode. -/
def dhcpSave : NetParam.Save := ⟨.dhcpModeItem, fun _ => 1, fun _ => 0, fun _ => 0⟩

/-- Net parameters, calibration values and the start of an upgrade in turn. -/
theorem separate_without_fastConnect : Separate ManualCal.erasedFlash
    [.saveInfoItem dhcpSave, .manualCal (.saveChipinfo ManualCal.zeroHeap (ManualCal.sameGlobals 1)),
      .tklOta (.startNotify calm 1), .saveInfoItem dhcpSave] :=
  stores_separate ManualCal.erasedFlash (by decide) (fun _ _ _ => rfl) _ (.inr (by decide))
    ⟨trivial, fun _ _ _ => ⟨trivial, fun _ _ _ => ⟨trivial, fun _ _ _ => ⟨trivial, fun _ _ _ =>
      trivial⟩⟩⟩⟩

/-- Clearing the fast-connect information erases the net parameters. -/
theorem clear_erases_netParam : ¬ ∀ (dev : FlashDev) (ops : List StoreOp), 0x1D2000 ≤ dev.size →
    Nor.Erased dev.cells ManualCal.startAddr 0x2000 →
    Machine.Legal step PackFits (.boot dev) ops → Separate dev ops := by
  intro h
  have hsep := h ManualCal.erasedFlash [.saveInfoItem dhcpSave, .rlClearBssidInfo] (by decide)
    (fun _ _ _ => rfl) ⟨trivial, fun _ _ _ => ⟨trivial, fun _ _ _ => trivial⟩⟩
  obtain ⟨s, os, hrun, hreturns, -⟩ := hsep _ [] (List.append_nil _).symm
  obtain ⟨s₁, o, os₁, hsave, hrest, -⟩ := Machine.run_cons.mp hrun
  obtain ⟨s₂, o', os₂, hclear, hnil, -⟩ := Machine.run_cons.mp hrest
  cases hnil
  -- after the save there is a table, and the clearing erases it
  have hinit : Holds True False (OtaState.boot ManualCal.erasedFlash).dev .erased :=
    ⟨by decide, fun _ => NetParam.erased_stored (by decide) fun _ _ _ => rfl, False.elim,
      [], ManualCal.erased_stored (by decide) fun _ _ _ => rfl, rfl⟩
  have hfits : PackFits (.boot ManualCal.erasedFlash) (.saveInfoItem dhcpSave) := trivial
  obtain ⟨s₁', o₁, hsave', -, hh, -⟩ := hinit.step (otaInv_boot _) hfits
    (fun _ => ⟨trivial, not_false⟩) fun hst => nomatch hst
  rw [hsave] at hsave'
  cases hsave'
  have hsize := hh.size
  have hdev : s.dev = rlClearBssidInfo s₁.dev := by
    cases hclear
    rfl
  have hgone : NetParam.Stored s.dev [] := by
    rw [hdev, rlClear_eq hsize]
    exact NetParam.erased_stored hsize Nor.erased_erase
  have hgot := hreturns.netParam ⟨_, List.mem_cons_self, rfl⟩ .dhcpModeItem
  rw [NetParam.getInfoItem_spec hgone] at hgot
  exact absurd hgot (by decide)

end TuyaSdk.FlashStores
