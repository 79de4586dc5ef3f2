import TuyaSdk.Airkiss.Defs

/-!
# Channel selection (`airkiss_main.c`)

A timer walks `g_chans.chan` over channels 1 to 13, received frames are counted in the entry of the
current channel, and the channels with traffic are inserted at the front of the same array, ordered
by their data frames. A second pass walks these. `g_macs` keeps the transmitters of the beacons seen,
50 of them; nothing stops the 51st.

`none` is an access outside an array.
-/

namespace TuyaSdk.Airkiss
open TuyaSdk.Lib

abbrev maxChannels : Nat := 14
abbrev maxMac : Nat := 50
abbrev airkissSwitchTimer : Nat := 50
abbrev minSelChanTimer : Nat := 1000
abbrev maxSelChanTimer : Nat := 5000
abbrev minValidDatacntInchan : Nat := 4
abbrev minValidBcncntInchan : Nat := 1

def macFctrlTypesubtypeMask : UInt16 := 0x00FC
def macFctrlBeacon : UInt16 := 0x0080
def macFctrlProbersp : UInt16 := 0x0050

/-- `chan_param_t` -/
structure ChanParam where
  bcnCnt : Nat
  dataCnt : Nat
  channel : Nat
  deriving DecidableEq

/-- `mac_param_t`, less two fields that nothing uses. -/
structure MacParam where
  macCrc : UInt8
  channel : Nat
  deriving DecidableEq

/-- `airkiss_mode` -/
inductive AirkissMode
  | scanAllChan
  | scanSelectedChan
  deriving DecidableEq

/-- `airkiss_channel_t` -/
structure AirkissChannel where
  chan : Vector ChanParam maxChannels
  curChanIdx : Nat
  allChanNums : Nat
  selectedChanNums : Nat
  mode : AirkissMode

/-- `airkiss_mac_t` -/
structure AirkissMac where
  mac : Vector MacParam maxMac
  macCnt : Nat

/-- `g_chans` and `g_macs`. -/
structure Scanner where
  chans : AirkissChannel
  macs : AirkissMac

/-- A received frame; `dsChannel` is the channel of the element that `mac_ie_find` finds, or 0. -/
structure Packet where
  hdr : MacHdr
  size : Nat
  dsChannel : UInt8

/-- The frame is a beacon or a probe response. -/
def Packet.isBcn (f : Packet) : Bool :=
  f.hdr.fctl &&& macFctrlTypesubtypeMask = macFctrlBeacon ∨
    f.hdr.fctl &&& macFctrlTypesubtypeMask = macFctrlProbersp

/-- The frame is a data frame. -/
def Packet.isData (f : Packet) : Bool := f.hdr.fctl &&& macFctrlTypeMask = macFctrlDataT

/-! ## Frames -/

/-- The loop over `g_macs.mac` from entry `i` on, with `n` to go: where it ends. -/
def findMac (mac : Vector MacParam maxMac) (macCrc : UInt8) : Nat → Nat → Option Nat
  | 0, i => some i
  | n + 1, i => do
    let m ← Checked.read mac i
    if macCrc = m.macCrc then return i else findMac mac macCrc n (i + 1)

/-- `airkiss_count_usefull_packet` -/
def airkissCountUsefullPacket (s : Scanner) (f : Packet) : Option Scanner :=
  let macCrc := calcrcBytes f.hdr.addr2.toList
  let channel := f.dsChannel.toNat
  if f.size = 0 then some s
  else if f.isBcn = true then do
    let chan ← Checked.modify s.chans.chan s.chans.curChanIdx fun c =>
      { c with bcnCnt := (c.bcnCnt + 1) % 256 }
    let i ← findMac s.macs.mac macCrc s.macs.macCnt 0
    if i = s.macs.macCnt then
      let mac ← Checked.modify s.macs.mac i fun m =>
        { m with macCrc := macCrc, channel := if channel = 0 then m.channel else channel }
      return ⟨{ s.chans with chan := chan }, ⟨mac, (s.macs.macCnt + 1) % 256⟩⟩
    else
      let mac ← Checked.modify s.macs.mac i fun m =>
        { m with channel := if channel = 0 then m.channel else channel }
      return ⟨{ s.chans with chan := chan }, { s.macs with mac := mac }⟩
  else if f.isData = true then do
    let chan ← Checked.modify s.chans.chan s.chans.curChanIdx fun c =>
      { c with dataCnt := (c.dataCnt + 1) % 256 }
    return { s with chans := { s.chans with chan := chan } }
  else some s

/-! ## The timer -/

/-- `airkiss_set_scan_all_channel` -/
def airkissSetScanAllChannel : Scanner where
  chans :=
    { chan := Vector.ofFn fun i => ⟨0, 0, if i.val < maxChannels - 1 then i.val + 1 else 0⟩
      curChanIdx := 0
      allChanNums := maxChannels - 1
      selectedChanNums := 0
      mode := .scanAllChan }
  macs := ⟨Vector.replicate _ ⟨0, 0⟩, 0⟩

/-- `airkiss_calc_time_for_selected_channel` -/
def airkissCalcTimeForSelectedChannel (validCnt : Nat) : Nat :=
  let timerCnt := validCnt / minValidDatacntInchan * minSelChanTimer
  if timerCnt < minSelChanTimer then minSelChanTimer
  else if maxSelChanTimer < timerCnt then maxSelChanTimer
  else timerCnt

/-- The loop of `airkiss_add_channel` from entry `i` on, with `n` to go: where it ends. -/
def findSlot (chan : Vector ChanParam maxChannels) (dataCnt : Nat) : Nat → Nat → Option Nat
  | 0, i => some i
  | n + 1, i => do
    let c ← Checked.read chan i
    if c.dataCnt < dataCnt then return i else findSlot chan dataCnt n (i + 1)

/-- `airkiss_add_channel` -/
def airkissAddChannel (g : AirkissChannel) (channel bcnCnt dataCnt : Nat) :
    Option AirkissChannel :=
  if dataCnt < minValidDatacntInchan then some g
  else if bcnCnt < minValidBcncntInchan then some g
  else do
    let i ← findSlot g.chan dataCnt g.selectedChanNums 0
    let set (c : ChanParam) : ChanParam := { c with channel := channel, dataCnt := dataCnt }
    if i < g.selectedChanNums then
      let cur ← Checked.read g.chan i
      if cur.channel % 256 = channel then
        let chan ← Checked.modify g.chan i set
        return { g with chan := chan }
      else
        let chan ← Checked.copy g.chan (i + 1) g.chan i (g.selectedChanNums - i)
        let chan ← Checked.modify chan i set
        return { g with chan := chan, selectedChanNums := g.selectedChanNums + 1 }
    else
      let chan ← Checked.modify g.chan i set
      return { g with chan := chan, selectedChanNums := g.selectedChanNums + 1 }

/-- The end of `airkiss_switch_channel_callback`: the channel that is set, and the new period. -/
def startScan (s : Scanner) (timerCnt : Nat) : Option (Scanner × Nat × Nat) := do
  let cur ← Checked.read s.chans.chan s.chans.curChanIdx
  return (s, cur.channel, timerCnt)

/-- `airkiss_switch_channel_callback` -/
def airkissSwitchChannelCallback (s : Scanner) : Option (Scanner × Nat × Nat) := do
  let cur ← Checked.read s.chans.chan s.chans.curChanIdx
  match s.chans.mode with
  | .scanAllChan =>
    let g ← airkissAddChannel s.chans (cur.channel % 256) cur.bcnCnt cur.dataCnt
    if g.allChanNums ≤ g.curChanIdx + 1 then
      if g.selectedChanNums = 0 then startScan airkissSetScanAllChannel airkissSwitchTimer
      else
        let first ← Checked.read g.chan 0
        startScan { s with chans := { g with curChanIdx := 0, mode := .scanSelectedChan } }
          (airkissCalcTimeForSelectedChannel first.dataCnt)
    else startScan { s with chans := { g with curChanIdx := g.curChanIdx + 1 } } airkissSwitchTimer
  | .scanSelectedChan =>
    let next ← Checked.read s.chans.chan (s.chans.curChanIdx + 1)
    if s.chans.selectedChanNums ≤ s.chans.curChanIdx + 1 then
      startScan airkissSetScanAllChannel airkissSwitchTimer
    else
      startScan { s with chans := { s.chans with curChanIdx := s.chans.curChanIdx + 1 } }
        (airkissCalcTimeForSelectedChannel next.dataCnt)

/-! ## The survey -/

/-- A finished scan of a channel, with the frames received. -/
structure Scan where
  channel : Nat
  bcn : Nat
  data : Nat
  deriving DecidableEq

/-- The channel has enough traffic. -/
def Scan.Valid (sc : Scan) : Bool :=
  minValidDatacntInchan ≤ sc.data ∧ minValidBcncntInchan ≤ sc.bcn

/-- The scanner with the scans of the pass over all channels, the frames of the current one, and the
scans of a pass that the last event ended. -/
structure Survey where
  scanner : Scanner
  finished : List Scan
  bcn : Nat
  data : Nat
  ended : Option (List Scan)

/-- After `airkiss_set_scan_all_channel`. -/
def Survey.initial : Survey := ⟨airkissSetScanAllChannel, [], 0, 0, none⟩

/-- What happens to the scanner. -/
inductive ScanEvent where
  | timer
  | frame (f : Packet)

/-- The scan of the current channel, at its end. -/
def Survey.current (v : Survey) : Scan :=
  ⟨(v.scanner.chans.chan[v.scanner.chans.curChanIdx]?).elim 0 (·.channel), v.bcn, v.data⟩

/-- The survey after the timer. -/
def Survey.afterTimer (v : Survey) (s : Scanner) : Survey :=
  match v.scanner.chans.mode with
  | .scanAllChan =>
    let finished := v.finished ++ [v.current]
    if finished.length = maxChannels - 1 then ⟨s, [], 0, 0, some finished⟩
    else ⟨s, finished, 0, 0, none⟩
  | .scanSelectedChan => ⟨s, [], 0, 0, none⟩

/-- The survey after a frame. -/
def Survey.afterFrame (v : Survey) (s : Scanner) (f : Packet) : Survey :=
  match v.scanner.chans.mode with
  | .scanAllChan =>
    if f.size = 0 then ⟨s, v.finished, v.bcn, v.data, none⟩
    else if f.isBcn = true then ⟨s, v.finished, v.bcn + 1, v.data, none⟩
    else if f.isData = true then ⟨s, v.finished, v.bcn, v.data + 1, none⟩
    else ⟨s, v.finished, v.bcn, v.data, none⟩
  | .scanSelectedChan => ⟨s, [], 0, 0, none⟩

/-- One event. -/
def survey : Machine Survey ScanEvent Unit := fun v e =>
  match e with
  | .timer => (airkissSwitchChannelCallback v.scanner).map fun r => (v.afterTimer r.1, ())
  | .frame f => (airkissCountUsefullPacket v.scanner f).map fun s => (v.afterFrame s f, ())

/-- Channel and data frames of an entry. -/
def ChanParam.key (c : ChanParam) : Nat × Nat := (c.channel, c.dataCnt)

/-- `chan[0..selected_chan_nums)` -/
def AirkissChannel.selected (g : AirkissChannel) : List (Nat × Nat) :=
  (g.chan.toList.take g.selectedChanNums).map ChanParam.key

/-- In a pass over all channels the scans are those of channels 1, 2, … in turn and the entries to
come keep their channels; a pass that ended has scanned every channel once and, if no counter of its
scans went over 255, selected those with enough traffic, each once, by falling data frames. -/
structure Survey.Good (v : Survey) : Prop where
  inTurn : v.scanner.chans.mode = .scanAllChan →
    v.finished.map Scan.channel = List.range' 1 v.scanner.chans.curChanIdx
  pending : v.scanner.chans.mode = .scanAllChan → ∀ i, v.scanner.chans.curChanIdx < i →
    i < maxChannels - 1 → (v.scanner.chans.chan[i]?).map ChanParam.channel = some (i + 1)
  scannedOnce : ∀ scans, v.ended = some scans →
    scans.map Scan.channel = List.range' 1 (maxChannels - 1)
  selected : ∀ scans, v.ended = some scans → (∀ sc ∈ scans, sc.bcn < 256 ∧ sc.data < 256) →
    v.scanner.chans.selected.Perm ((scans.filter Scan.Valid).map fun sc => (sc.channel, sc.data))
  once : ∀ scans, v.ended = some scans → (v.scanner.chans.selected.map Prod.fst).Nodup
  falling : ∀ scans, v.ended = some scans →
    v.scanner.chans.selected.Pairwise fun a b => b.2 ≤ a.2

/-- The transmitter is in the table. -/
def AirkissMac.Known (g : AirkissMac) (macCrc : UInt8) : Prop :=
  ∃ m ∈ g.mac.toList.take g.macCnt, m.macCrc = macCrc

/-- A beacon of a new transmitter finds room in the table. -/
def MacFits (v : Survey) : ScanEvent → Prop
  | .timer => True
  | .frame f => f.size ≠ 0 → f.isBcn = true → v.scanner.macs.macCnt < maxMac ∨
    v.scanner.macs.Known (calcrcBytes f.hdr.addr2.toList)

/-! ## The insertion -/

/-- The first smaller entry of a falling list is where a new one belongs. -/
theorem falling_insert {l : List (Nat × Nat)} {x : Nat × Nat} {i : Nat}
    (h : l.Pairwise fun a b => b.2 ≤ a.2) (hbefore : ∀ a ∈ l.take i, x.2 ≤ a.2)
    (hat : ∀ b, l[i]? = some b → b.2 ≤ x.2) :
    (l.take i ++ x :: l.drop i).Pairwise fun a b => b.2 ≤ a.2 := by
  have hsplit := List.take_append_drop i l
  rw [← hsplit, List.pairwise_append] at h
  obtain ⟨htake, hdrop, hcross⟩ := h
  have hafter : ∀ b ∈ l.drop i, b.2 ≤ x.2 := by
    intro b hb
    cases hd : l.drop i with
    | nil => rw [hd] at hb; cases hb
    | cons c cs =>
      have hc : l[i]? = some c := by
        rw [← List.head?_drop, hd, List.head?_cons]
      rw [hd] at hb hdrop
      rcases List.mem_cons.mp hb with rfl | hb
      · exact hat b hc
      · exact le_trans ((List.pairwise_cons.mp hdrop).1 b hb) (hat c hc)
  rw [List.pairwise_append, List.pairwise_cons]
  refine ⟨htake, ⟨hafter, hdrop⟩, fun a ha b hb => ?_⟩
  rcases List.mem_cons.mp hb with rfl | hb
  · exact hbefore a ha
  · exact hcross a ha b hb

theorem selected_getElem? (g : AirkissChannel) (j : Nat) :
    g.selected[j]? =
      if j < g.selectedChanNums then (Checked.read g.chan j).map ChanParam.key else none := by
  rw [AirkissChannel.selected, List.getElem?_map, List.getElem?_take]
  split
  · rw [Checked.read, Vector.getElem?_toList]
  · rfl

theorem findSlot_spec (chan : Vector ChanParam maxChannels) (dataCnt : Nat) {n i : Nat}
    (h : i + n ≤ maxChannels) :
    ∃ k, findSlot chan dataCnt n i = some k ∧ i ≤ k ∧ k ≤ i + n ∧
      (∀ j c, i ≤ j → j < k → Checked.read chan j = some c → dataCnt ≤ c.dataCnt) ∧
      (k < i + n → ∃ c, Checked.read chan k = some c ∧ c.dataCnt < dataCnt) := by
  induction n generalizing i with
  | zero =>
    exact ⟨i, rfl, le_refl i, le_refl i, fun j c hij hji => absurd hji (by omega),
      fun hlt => absurd hlt (by omega)⟩
  | succ n ih =>
    have hi : i < maxChannels := by omega
    have hread : Checked.read chan i = some chan[i] := Checked.read_eq hi
    rw [findSlot, hread]
    simp only [Option.bind_eq_bind, Option.bind_some]
    by_cases hlt : chan[i].dataCnt < dataCnt
    · rw [if_pos hlt]
      exact ⟨i, rfl, le_refl i, by omega, fun j c hij hji => absurd hji (by omega),
        fun _ => ⟨chan[i], hread, hlt⟩⟩
    · rw [if_neg hlt]
      obtain ⟨k, hk, hik, hkn, hbefore, hat⟩ := ih (i := i + 1) (by omega)
      refine ⟨k, hk, by omega, by omega, fun j c hij hjk hj => ?_, fun hlt => hat (by omega)⟩
      by_cases hji : j = i
      · subst hji
        rw [hread, Option.some.injEq] at hj
        rw [← hj]
        omega
      · exact hbefore j c (by omega) hjk hj

theorem selected_length {g : AirkissChannel} (h : g.selectedChanNums ≤ maxChannels) :
    g.selected.length = g.selectedChanNums := by
  rw [AirkissChannel.selected, List.length_map, List.length_take, Vector.length_toList]
  exact Nat.min_eq_left h

/-- An entry put in at `k`, with the later ones moved up. -/
theorem selected_insert {g g' : AirkissChannel} {k : Nat} {x : Nat × Nat}
    (hsel : g.selectedChanNums ≤ maxChannels) (hk : k ≤ g.selectedChanNums)
    (hsel' : g'.selectedChanNums = g.selectedChanNums + 1)
    (hread : ∀ j, j ≤ g.selectedChanNums →
      (Checked.read g'.chan j).map ChanParam.key =
        if j < k then (Checked.read g.chan j).map ChanParam.key
        else if j = k then some x
        else (Checked.read g.chan (j - 1)).map ChanParam.key) :
    g'.selected = g.selected.take k ++ x :: g.selected.drop k := by
  have hlen := selected_length hsel
  have htake : (g.selected.take k).length = k := by
    rw [List.length_take, hlen, Nat.min_eq_left hk]
  apply List.ext_getElem?
  intro j
  rw [selected_getElem?, hsel', List.getElem?_append, htake]
  by_cases hj : j < g.selectedChanNums + 1
  · rw [if_pos hj, hread j (by omega)]
    rcases lt_trichotomy j k with hjk | rfl | hjk
    · rw [if_pos hjk, if_pos hjk, List.getElem?_take_of_lt hjk, selected_getElem?,
        if_pos (by omega)]
    · rw [if_neg (lt_irrefl j), if_neg (lt_irrefl j), if_pos rfl, Nat.sub_self]
      rfl
    · rw [if_neg (by omega), if_neg (by omega), if_neg (by omega),
        show j - k = (j - k - 1) + 1 by omega, List.getElem?_cons_succ, List.getElem?_drop,
        show k + (j - k - 1) = j - 1 by omega, selected_getElem?, if_pos (by omega)]
  · rw [if_neg hj, if_neg (by omega), eq_comm, List.getElem?_eq_none_iff, List.length_cons,
      List.length_drop, hlen]
    omega

/-- What `airkiss_add_channel` does with a channel that is not selected yet. -/
theorem airkissAddChannel_spec {g : AirkissChannel} {channel : Nat} (bcnCnt dataCnt : Nat)
    (hsel : g.selectedChanNums < maxChannels)
    (hnew : ∀ a ∈ g.selected, a.1 % 256 ≠ channel) :
    ∃ g', airkissAddChannel g channel bcnCnt dataCnt = some g' ∧
      g'.curChanIdx = g.curChanIdx ∧ g'.allChanNums = g.allChanNums ∧ g'.mode = g.mode ∧
      g'.selectedChanNums ≤ g.selectedChanNums + 1 ∧
      (∀ j, g.selectedChanNums < j → Checked.read g'.chan j = Checked.read g.chan j) ∧
      g'.selected.Perm
        (if minValidDatacntInchan ≤ dataCnt ∧ minValidBcncntInchan ≤ bcnCnt then
          (channel, dataCnt) :: g.selected else g.selected) ∧
      ((g.selected.Pairwise fun a b => b.2 ≤ a.2) →
        g'.selected.Pairwise fun a b => b.2 ≤ a.2) := by
  rw [airkissAddChannel]
  by_cases hd : dataCnt < minValidDatacntInchan
  · rw [if_pos hd, if_neg fun h => absurd h.1 (not_le.mpr hd)]
    exact ⟨g, rfl, rfl, rfl, rfl, by omega, fun _ _ => rfl, .refl _, id⟩
  rw [if_neg hd]
  by_cases hb : bcnCnt < minValidBcncntInchan
  · rw [if_pos hb, if_neg fun h => absurd h.2 (not_le.mpr hb)]
    exact ⟨g, rfl, rfl, rfl, rfl, by omega, fun _ _ => rfl, .refl _, id⟩
  rw [if_neg hb, if_pos ⟨not_lt.mp hd, not_lt.mp hb⟩]
  obtain ⟨k, hslot, -, hk, hbefore, hat⟩ :=
    findSlot_spec g.chan dataCnt (n := g.selectedChanNums) (i := 0) (by omega)
  rw [Nat.zero_add] at hk hat
  simp only [hslot, Option.bind_eq_bind, Option.bind_some]
  have hkey : ∀ j a, (g.selected)[j]? = some a →
      ∃ c, Checked.read g.chan j = some c ∧ c.key = a ∧ j < g.selectedChanNums := by
    intro j a hj
    rw [selected_getElem?] at hj
    split at hj
    · next hlt =>
      obtain ⟨c, hc, rfl⟩ := Option.map_eq_some_iff.mp hj
      exact ⟨c, hc, rfl, hlt⟩
    · cases hj
  -- the entry ends up at `k` in both branches, and the list is the same
  have hlist : ∀ g' : AirkissChannel,
      g'.selected = g.selected.take k ++ (channel, dataCnt) :: g.selected.drop k →
      g'.selected.Perm ((channel, dataCnt) :: g.selected) ∧
        ((g.selected.Pairwise fun a b => b.2 ≤ a.2) →
          g'.selected.Pairwise fun a b => b.2 ≤ a.2) := by
    intro g' hg'
    refine ⟨?_, fun hfall => ?_⟩
    · rw [hg']
      refine List.perm_middle.trans ?_
      rw [List.take_append_drop]
    · rw [hg']
      refine falling_insert hfall (fun a ha => ?_) fun b hb => ?_
      · obtain ⟨j, hj, hja⟩ := List.mem_take_iff_getElem.mp ha
        obtain ⟨c, hc, rfl, -⟩ := hkey j a (by rw [← hja]; exact List.getElem?_eq_getElem _)
        exact hbefore j c (by omega) (by omega) hc
      · obtain ⟨c, hc, rfl, hlt⟩ := hkey k b hb
        obtain ⟨c', hc', hless⟩ := hat hlt
        rw [hc, Option.some.injEq] at hc'
        rw [← hc'] at hless
        exact hless.le
  by_cases hlt : k < g.selectedChanNums
  · obtain ⟨c, hc, -⟩ := hat hlt
    have hne : ¬c.channel % 256 = channel := by
      refine hnew c.key ?_
      refine List.mem_of_getElem? (i := k) ?_
      rw [selected_getElem?, if_pos hlt, hc]
      rfl
    obtain ⟨zs, hcopy, hread⟩ :=
      @Checked.copy_read _ _ _ g.chan (k + 1) g.chan k (g.selectedChanNums - k) (by omega) (by omega)
    obtain ⟨zs', hmod⟩ := Checked.modify_some zs
      (fun c => { c with channel := channel, dataCnt := dataCnt }) (hlt.trans hsel)
    have hread' := Checked.read_modify hmod
    have hsel' : { g with chan := zs', selectedChanNums := g.selectedChanNums + 1 }.selected =
        g.selected.take k ++ (channel, dataCnt) :: g.selected.drop k := by
      refine selected_insert hsel.le hk rfl fun j hj => ?_
      change (Checked.read zs' j).map ChanParam.key = _
      rw [hread' j]
      rcases lt_trichotomy j k with hjk | rfl | hjk
      · rw [if_neg (by omega), if_pos hjk, hread, if_neg (by omega)]
      · have hzs : Checked.read zs j = some c := by rw [hread, if_neg (by omega), hc]
        rw [if_pos rfl, if_neg (lt_irrefl j), if_pos rfl, hzs]
        rfl
      · rw [if_neg (by omega), if_neg (by omega), if_neg (by omega), hread, if_pos (by omega),
          show k + (j - (k + 1)) = j - 1 by omega]
    refine ⟨{ g with chan := zs', selectedChanNums := g.selectedChanNums + 1 }, ?_, rfl, rfl, rfl,
      le_refl _, fun j hj => ?_, hlist _ hsel'⟩
    · rw [if_pos hlt, hc, Option.bind_some, if_neg hne, hcopy, Option.bind_some, hmod]
      rfl
    · change Checked.read zs' j = _
      rw [hread' j, if_neg (by omega), hread, if_neg (by omega)]
  · obtain rfl : k = g.selectedChanNums := by omega
    obtain ⟨zs', hmod⟩ := Checked.modify_some g.chan
      (fun c => { c with channel := channel, dataCnt := dataCnt }) hsel
    have hread' := Checked.read_modify hmod
    have hsel' : { g with chan := zs', selectedChanNums := g.selectedChanNums + 1 }.selected =
        g.selected.take g.selectedChanNums ++
          (channel, dataCnt) :: g.selected.drop g.selectedChanNums := by
      refine selected_insert hsel.le (le_refl _) rfl fun j hj => ?_
      change (Checked.read zs' j).map ChanParam.key = _
      rw [hread' j]
      rcases lt_or_eq_of_le hj with hjk | rfl
      · rw [if_neg (by omega), if_pos hjk]
      · rw [if_pos rfl, if_neg (lt_irrefl _), if_pos rfl, Checked.read_eq hsel]
        rfl
    refine ⟨{ g with chan := zs', selectedChanNums := g.selectedChanNums + 1 }, ?_, rfl, rfl, rfl,
      le_refl _, fun j hj => ?_, hlist _ hsel'⟩
    · rw [if_neg hlt, hmod]
      rfl
    · change Checked.read zs' j = _
      rw [hread' j, if_neg (by omega)]

/-! ## The frames -/

theorem findMac_spec (mac : Vector MacParam maxMac) (macCrc : UInt8) {n i : Nat}
    (h : i + n ≤ maxMac) :
    ∃ k, findMac mac macCrc n i = some k ∧ k ≤ i + n ∧
      (k = i + n ↔ ∀ j m, i ≤ j → j < i + n → Checked.read mac j = some m → m.macCrc ≠ macCrc) := by
  induction n generalizing i with
  | zero =>
    exact ⟨i, rfl, le_refl i, iff_of_true rfl fun j m hij hji => absurd hji (by omega)⟩
  | succ n ih =>
    have hi : i < maxMac := by omega
    have hread : Checked.read mac i = some mac[i] := Checked.read_eq hi
    rw [findMac, hread]
    simp only [Option.bind_eq_bind, Option.bind_some]
    by_cases heq : macCrc = mac[i].macCrc
    · rw [if_pos heq]
      refine ⟨i, rfl, by omega, iff_of_false (by omega) fun hall => ?_⟩
      exact hall i mac[i] (le_refl i) (by omega) hread heq.symm
    · rw [if_neg heq]
      obtain ⟨k, hk, hkn, hiff⟩ := ih (i := i + 1) (by omega)
      refine ⟨k, hk, by omega, ?_⟩
      rw [show i + (n + 1) = i + 1 + n by omega, hiff]
      refine ⟨fun hall j m hij hjn hj => ?_, fun hall j m hij hjn hj =>
        hall j m (by omega) hjn hj⟩
      by_cases hji : j = i
      · subst hji
        rw [hread, Option.some.injEq] at hj
        rw [← hj]
        exact Ne.symm heq
      · exact hall j m (by omega) hjn hj

theorem findMac_known {g : AirkissMac} (h : g.macCnt ≤ maxMac) (macCrc : UInt8) :
    ∃ k, findMac g.mac macCrc g.macCnt 0 = some k ∧ k ≤ g.macCnt ∧
      (k = g.macCnt ↔ ¬g.Known macCrc) := by
  obtain ⟨k, hk, hle, hiff⟩ := findMac_spec g.mac macCrc (n := g.macCnt) (i := 0) (by omega)
  rw [Nat.zero_add] at hle hiff
  refine ⟨k, hk, hle, hiff.trans ⟨?_, fun hno j m _ hj hm heq => hno ?_⟩⟩
  · rintro hall ⟨m, hm, heq⟩
    obtain ⟨j, hj, rfl⟩ := List.mem_take_iff_getElem.mp hm
    rw [Vector.length_toList] at hj
    refine hall j _ (Nat.zero_le j) (by omega) ?_ heq
    rw [Checked.read_eq (by omega)]
    simp
  · refine ⟨m, List.mem_take_iff_getElem.mpr ⟨j, ?_, ?_⟩, heq⟩
    · rw [Vector.length_toList]
      omega
    · rw [Checked.read_eq (by omega), Option.some.injEq] at hm
      simpa using hm

/-- What a frame adds to the counters of the current channel. -/
def counted (f : Packet) (c : ChanParam) : ChanParam :=
  if f.size = 0 then c
  else if f.isBcn = true then { c with bcnCnt := (c.bcnCnt + 1) % 256 }
  else if f.isData = true then { c with dataCnt := (c.dataCnt + 1) % 256 }
  else c

/-- A frame is counted in the entry of the current channel, if its transmitter fits. -/
theorem airkissCountUsefullPacket_spec {s : Scanner} {f : Packet}
    (hcur : s.chans.curChanIdx < maxChannels) (hmac : s.macs.macCnt ≤ maxMac)
    (hfits : f.size ≠ 0 → f.isBcn = true → s.macs.macCnt < maxMac ∨
      s.macs.Known (calcrcBytes f.hdr.addr2.toList)) :
    ∃ s', airkissCountUsefullPacket s f = some s' ∧ s'.macs.macCnt ≤ maxMac ∧
      ∃ chan, s'.chans = { s.chans with chan := chan } ∧
        ∀ j, Checked.read chan j =
          if j = s.chans.curChanIdx then (Checked.read s.chans.chan j).map (counted f)
          else Checked.read s.chans.chan j := by
  have hmod : ∀ g : ChanParam → ChanParam, ∃ chan,
      Checked.modify s.chans.chan s.chans.curChanIdx g = some chan ∧
        ∀ j, Checked.read chan j =
          if j = s.chans.curChanIdx then (Checked.read s.chans.chan j).map g
          else Checked.read s.chans.chan j := by
    intro g
    obtain ⟨chan, hchan⟩ := Checked.modify_some s.chans.chan g hcur
    exact ⟨chan, hchan, Checked.read_modify hchan⟩
  have hid : ∀ j, Checked.read s.chans.chan j =
      if j = s.chans.curChanIdx then (Checked.read s.chans.chan j).map id
      else Checked.read s.chans.chan j := by
    intro j
    rw [Option.map_id, id, ite_self]
  rw [airkissCountUsefullPacket]
  by_cases hsize : f.size = 0
  · have hc : counted f = id := funext fun c => if_pos hsize
    rw [hc, if_pos hsize]
    exact ⟨s, rfl, hmac, s.chans.chan, rfl, hid⟩
  rw [if_neg hsize]
  by_cases hbcn : f.isBcn = true
  · have hc : counted f = fun c => { c with bcnCnt := (c.bcnCnt + 1) % 256 } :=
      funext fun c => by rw [counted, if_neg hsize, if_pos hbcn]
    obtain ⟨chan, hchan, hread⟩ := hmod (counted f)
    obtain ⟨k, hk, hle, hnew⟩ := findMac_known hmac (calcrcBytes f.hdr.addr2.toList)
    rw [hc] at hchan
    rw [if_pos hbcn, hchan]
    simp only [Option.bind_eq_bind, Option.bind_some, hk]
    have hlt : k < maxMac := by
      rcases hfits hsize hbcn with h | h
      · omega
      · have := mt hnew.mp (not_not.mpr h)
        omega
    by_cases hend : k = s.macs.macCnt
    · obtain ⟨mac, hset⟩ := Checked.modify_some s.macs.mac (fun m => { m with
        macCrc := calcrcBytes f.hdr.addr2.toList
        channel := if f.dsChannel.toNat = 0 then m.channel else f.dsChannel.toNat }) hlt
      rw [if_pos hend, hset, Option.bind_some]
      refine ⟨_, rfl, ?_, chan, rfl, hread⟩
      change (s.macs.macCnt + 1) % 256 ≤ maxMac
      omega
    · obtain ⟨mac, hset⟩ := Checked.modify_some s.macs.mac (fun m => { m with
        channel := if f.dsChannel.toNat = 0 then m.channel else f.dsChannel.toNat }) hlt
      rw [if_neg hend, hset, Option.bind_some]
      exact ⟨_, rfl, hmac, chan, rfl, hread⟩
  rw [if_neg hbcn]
  by_cases hdata : f.isData = true
  · have hc : counted f = fun c => { c with dataCnt := (c.dataCnt + 1) % 256 } :=
      funext fun c => by rw [counted, if_neg hsize, if_neg hbcn, if_pos hdata]
    obtain ⟨chan, hchan, hread⟩ := hmod (counted f)
    rw [hc] at hchan
    rw [if_pos hdata, hchan]
    exact ⟨_, rfl, hmac, chan, rfl, hread⟩
  · have hc : counted f = id :=
      funext fun c => by rw [counted, if_neg hsize, if_neg hbcn, if_neg hdata, id]
    rw [hc, if_neg hdata]
    exact ⟨s, rfl, hmac, s.chans.chan, rfl, hid⟩

/-- A beacon of a new transmitter is recorded behind a full table. -/
theorem airkissCountUsefullPacket_full {s : Scanner} {f : Packet} (hmac : s.macs.macCnt ≤ maxMac)
    (hsize : f.size ≠ 0) (hbcn : f.isBcn = true)
    (hno : ¬(s.macs.macCnt < maxMac ∨ s.macs.Known (calcrcBytes f.hdr.addr2.toList))) :
    airkissCountUsefullPacket s f = none := by
  obtain ⟨k, hk, -, hnew⟩ := findMac_known hmac (calcrcBytes f.hdr.addr2.toList)
  rw [not_or] at hno
  have hend : k = s.macs.macCnt := hnew.mpr hno.2
  have hout : ∀ g, Checked.modify s.macs.mac k g = none := by
    intro g
    rw [← Option.not_isSome_iff_eq_none, Checked.modify_isSome]
    omega
  rw [airkissCountUsefullPacket, if_neg hsize, if_pos hbcn]
  simp only [hk, if_pos hend, hout, Option.bind_eq_bind, Option.bind_some, Option.bind_none]
  exact Option.bind_eq_none_iff.mpr fun _ _ => rfl

/-! ## The pass -/

/-- The scans that are selected, by the counters of 8 bits. -/
def selection (scans : List Scan) : List (Nat × Nat) :=
  (scans.filter fun sc => minValidDatacntInchan ≤ sc.data % 256 ∧
    minValidBcncntInchan ≤ sc.bcn % 256).map fun sc => (sc.channel, sc.data % 256)

/-- In a pass over all channels the scans so far are selected, and the entries from the current one
on are those of the channels to come. -/
structure Scanning (v : Survey) : Prop where
  cur : v.scanner.chans.curChanIdx < maxChannels - 1
  room : v.scanner.chans.selectedChanNums ≤ v.scanner.chans.curChanIdx
  inTurn : v.finished.map Scan.channel = List.range' 1 v.scanner.chans.curChanIdx
  here : Checked.read v.scanner.chans.chan v.scanner.chans.curChanIdx =
    some ⟨v.bcn % 256, v.data % 256, v.scanner.chans.curChanIdx + 1⟩
  pending : ∀ i, v.scanner.chans.curChanIdx < i → i < maxChannels - 1 →
    Checked.read v.scanner.chans.chan i = some ⟨0, 0, i + 1⟩
  selected : v.scanner.chans.selected.Perm (selection v.finished)
  falling : v.scanner.chans.selected.Pairwise fun a b => b.2 ≤ a.2

/-- The selection of a pass over all channels. -/
structure Selected (g : AirkissChannel) (scans : List Scan) : Prop where
  inTurn : scans.map Scan.channel = List.range' 1 (maxChannels - 1)
  selected : g.selected.Perm (selection scans)
  falling : g.selected.Pairwise fun a b => b.2 ≤ a.2

/-- The invariant of the survey. -/
structure Survey.Inv (v : Survey) : Prop where
  all : v.scanner.chans.allChanNums = maxChannels - 1
  macs : v.scanner.macs.macCnt ≤ maxMac
  scanning : v.scanner.chans.mode = .scanAllChan → Scanning v
  selecting : v.scanner.chans.mode = .scanSelectedChan →
    v.scanner.chans.curChanIdx < v.scanner.chans.selectedChanNums ∧
      v.scanner.chans.selectedChanNums ≤ maxChannels - 1
  ended : ∀ scans, v.ended = some scans → Selected v.scanner.chans scans

theorem selection_append (scans : List Scan) (sc : Scan) :
    (selection (scans ++ [sc])).Perm
      (if minValidDatacntInchan ≤ sc.data % 256 ∧ minValidBcncntInchan ≤ sc.bcn % 256 then
        (sc.channel, sc.data % 256) :: selection scans else selection scans) := by
  rw [selection, List.filter_append, List.map_append, ← selection]
  split
  · next h =>
    rw [List.filter_cons_of_pos (by simpa using h)]
    exact List.perm_append_singleton _ _
  · next h =>
    rw [List.filter_cons_of_neg (by simpa using h)]
    simp

/-- Selected channels have been scanned. -/
theorem channel_of_selection {scans : List Scan} {a : Nat × Nat} (h : a ∈ selection scans) :
    a.1 ∈ scans.map Scan.channel := by
  obtain ⟨sc, hsc, rfl⟩ := List.mem_map.mp h
  exact List.mem_map.mpr ⟨sc, (List.mem_filter.mp hsc).1, rfl⟩

theorem selection_nodup {scans : List Scan} (h : (scans.map Scan.channel).Nodup) :
    ((selection scans).map Prod.fst).Nodup := by
  have hmap : (selection scans).map Prod.fst =
      (scans.filter fun sc => minValidDatacntInchan ≤ sc.data % 256 ∧
        minValidBcncntInchan ≤ sc.bcn % 256).map Scan.channel := by
    rw [selection, List.map_map]
    rfl
  rw [hmap]
  exact h.sublist (List.filter_sublist.map _)

/-- Without a counter over 255 the selection is that of the frames. -/
theorem selection_eq {scans : List Scan} (h : ∀ sc ∈ scans, sc.bcn < 256 ∧ sc.data < 256) :
    selection scans = (scans.filter Scan.Valid).map fun sc => (sc.channel, sc.data) := by
  have hfilter : (scans.filter fun sc => minValidDatacntInchan ≤ sc.data % 256 ∧
      minValidBcncntInchan ≤ sc.bcn % 256) = scans.filter Scan.Valid := by
    refine List.filter_congr fun sc hsc => ?_
    rw [Nat.mod_eq_of_lt (h sc hsc).1, Nat.mod_eq_of_lt (h sc hsc).2, Scan.Valid]
  rw [selection, hfilter]
  refine List.map_congr_left fun sc hsc => ?_
  rw [Nat.mod_eq_of_lt (h sc (List.mem_filter.mp hsc).1).2]

theorem Survey.Inv.good {v : Survey} (h : v.Inv) : v.Good where
  inTurn hmode := (h.scanning hmode).inTurn
  pending hmode i hlt hi := by
    have hread := (h.scanning hmode).pending i hlt hi
    rw [Checked.read] at hread
    rw [hread]
    rfl
  scannedOnce scans hend := (h.ended scans hend).inTurn
  selected scans hend hsmall := selection_eq hsmall ▸ (h.ended scans hend).selected
  once scans hend := by
    have hsel := h.ended scans hend
    rw [(hsel.selected.map Prod.fst).nodup_iff]
    refine selection_nodup ?_
    rw [hsel.inTurn]
    exact List.nodup_range'
  falling scans hend := (h.ended scans hend).falling

theorem selected_congr {g g' : AirkissChannel} (hn : g'.selectedChanNums = g.selectedChanNums)
    (hread : ∀ j, j < g.selectedChanNums →
      (Checked.read g'.chan j).map ChanParam.key = (Checked.read g.chan j).map ChanParam.key) :
    g'.selected = g.selected := by
  apply List.ext_getElem?
  intro j
  rw [selected_getElem?, selected_getElem?, hn]
  split
  · next hj => exact hread j hj
  · rfl

/-- A pass over all channels begins with nothing selected. -/
theorem initial_inv (ended : Option (List Scan))
    (hend : ∀ scans, ended = some scans →
      scans.map Scan.channel = List.range' 1 (maxChannels - 1) ∧ selection scans = []) :
    Survey.Inv ⟨airkissSetScanAllChannel, [], 0, 0, ended⟩ where
  all := rfl
  macs := Nat.zero_le _
  scanning _ :=
    { cur := show 0 < maxChannels - 1 by decide
      room := le_refl 0
      inTurn := rfl
      here := rfl
      pending := by
        intro i _ hi
        change Checked.read (Vector.ofFn _) i = _
        rw [Checked.read_eq (by omega), Vector.getElem_ofFn, if_pos hi]
      selected := .refl _
      falling := .nil }
  selecting hmode := by cases hmode
  ended scans hscans :=
    { inTurn := (hend scans hscans).1
      selected := by
        rw [(hend scans hscans).2]
        exact .refl _
      falling := .nil }

/-- The counters of the current scan, as a frame leaves them. -/
theorem afterFrame_counts {v : Survey} (s : Scanner) (f : Packet)
    (hmode : v.scanner.chans.mode = .scanAllChan) (channel : Nat) :
    (v.afterFrame s f).scanner = s ∧ (v.afterFrame s f).finished = v.finished ∧
      (v.afterFrame s f).ended = none ∧
      counted f ⟨v.bcn % 256, v.data % 256, channel⟩ =
        ⟨(v.afterFrame s f).bcn % 256, (v.afterFrame s f).data % 256, channel⟩ := by
  simp only [Survey.afterFrame, hmode, counted]
  split_ifs <;> simp

theorem frame_inv {v : Survey} (h : v.Inv) {f : Packet} (hfits : MacFits v (.frame f)) :
    ∃ v' o, survey v (.frame f) = some (v', o) ∧ v'.Inv := by
  have hcur : v.scanner.chans.curChanIdx < maxChannels := by
    cases hmode : v.scanner.chans.mode with
    | scanAllChan =>
      have := (h.scanning hmode).cur
      omega
    | scanSelectedChan =>
      have := h.selecting hmode
      omega
  obtain ⟨s', hs', hmacs, chan, hchans, hread⟩ := airkissCountUsefullPacket_spec hcur h.macs hfits
  refine ⟨v.afterFrame s' f, (), by rw [survey, hs']; rfl, ?_⟩
  cases hmode : v.scanner.chans.mode with
  | scanAllChan =>
    have hsc := h.scanning hmode
    obtain ⟨hs, hfin, hend, hcount⟩ :=
      afterFrame_counts (v := v) s' f hmode (v.scanner.chans.curChanIdx + 1)
    have hsel : s'.chans.selected = v.scanner.chans.selected := by
      rw [hchans]
      refine selected_congr rfl fun j hj => ?_
      have hroom := hsc.room
      change (Checked.read chan j).map _ = _
      rw [hread, if_neg (by omega)]
    refine ⟨?_, ?_, fun _ => ⟨?_, ?_, ?_, ?_, ?_, ?_, ?_⟩, ?_, ?_⟩
    · rw [hs, hchans]
      exact h.all
    · rwa [hs]
    · rw [hs, hchans]
      exact hsc.cur
    · rw [hs, hchans]
      exact hsc.room
    · rw [hfin, hs, hchans]
      exact hsc.inTurn
    · rw [hs, hchans]
      change Checked.read chan v.scanner.chans.curChanIdx = _
      rw [hread, if_pos rfl, hsc.here, Option.map_some, hcount]
    · intro i hlt hi
      rw [hs, hchans] at hlt ⊢
      change v.scanner.chans.curChanIdx < i at hlt
      change Checked.read chan i = _
      rw [hread, if_neg (by omega)]
      exact hsc.pending i hlt hi
    · rw [hs, hsel, hfin]
      exact hsc.selected
    · rw [hs, hsel]
      exact hsc.falling
    · intro hsel'
      rw [hs, hchans] at hsel'
      change v.scanner.chans.mode = _ at hsel'
      rw [hmode] at hsel'
      cases hsel'
    · intro scans hscans
      rw [hend] at hscans
      cases hscans
  | scanSelectedChan =>
    have hafter : v.afterFrame s' f = ⟨s', [], 0, 0, none⟩ := by
      simp only [Survey.afterFrame, hmode]
    rw [hafter]
    refine ⟨?_, hmacs, fun hall => ?_, fun _ => ?_, fun scans hscans => by cases hscans⟩
    · rw [hchans]
      exact h.all
    · change s'.chans.mode = _ at hall
      rw [hchans] at hall
      change v.scanner.chans.mode = _ at hall
      rw [hmode] at hall
      cases hall
    · rw [hchans]
      exact h.selecting hmode

theorem startScan_some {s : Scanner} (h : s.chans.curChanIdx < maxChannels) (timerCnt : Nat) :
    ∃ channel, startScan s timerCnt = some (s, channel, timerCnt) := by
  rw [startScan, Checked.read_eq h]
  exact ⟨_, rfl⟩

/-- The end of the scan of a channel in a pass over all of them. -/
theorem scanAll_inv {v : Survey} (h : v.Inv) (hmode : v.scanner.chans.mode = .scanAllChan) :
    ∃ v' o, survey v .timer = some (v', o) ∧ v'.Inv := by
  have hsc := h.scanning hmode
  have hcur : v.scanner.chans.curChanIdx < 13 := hsc.cur
  have hroom := hsc.room
  have hlen : v.finished.length = v.scanner.chans.curChanIdx := by
    have := congrArg List.length hsc.inTurn
    simpa using this
  have hchannel : (v.scanner.chans.curChanIdx + 1) % 256 = v.scanner.chans.curChanIdx + 1 :=
    Nat.mod_eq_of_lt (by omega)
  have hnew : ∀ a ∈ v.scanner.chans.selected, a.1 % 256 ≠ v.scanner.chans.curChanIdx + 1 := by
    intro a ha
    have hmem := channel_of_selection (hsc.selected.mem_iff.mp ha)
    rw [hsc.inTurn, List.mem_range'_1] at hmem
    omega
  obtain ⟨g, hg, hgcur, hgall, hgmode, hgroom, hgkept, hgsel, hgfall⟩ :=
    airkissAddChannel_spec (v.bcn % 256) (v.data % 256) (show _ < 14 by omega) hnew
  have hcurrent : v.current = ⟨v.scanner.chans.curChanIdx + 1, v.bcn, v.data⟩ := by
    have hhere := hsc.here
    rw [Checked.read] at hhere
    rw [Survey.current, hhere]
    rfl
  have hturn : (v.finished ++ [v.current]).map Scan.channel =
      List.range' 1 (v.scanner.chans.curChanIdx + 1) := by
    rw [List.map_append, hsc.inTurn, hcurrent, List.range'_concat]
    simp [Nat.add_comm]
  have hsel : g.selected.Perm (selection (v.finished ++ [v.current])) := by
    refine hgsel.trans (.trans ?_ (selection_append _ _).symm)
    rw [hcurrent]
    split
    · exact hsc.selected.cons _
    · exact hsc.selected
  have hfall := hgfall hsc.falling
  have hstep : survey v .timer = (airkissSwitchChannelCallback v.scanner).map fun r =>
      (v.afterTimer r.1, ()) := rfl
  have hread := hsc.here
  rw [hstep, airkissSwitchChannelCallback, hread]
  simp only [Option.bind_eq_bind, Option.bind_some, hmode, hchannel, hg]
  rw [h.all] at hgall
  by_cases hlast : maxChannels - 1 ≤ v.scanner.chans.curChanIdx + 1
  · have hfin : (v.finished ++ [v.current]).length = maxChannels - 1 := by
      rw [List.length_append, hlen]
      change v.scanner.chans.curChanIdx + 1 = 13
      change 13 ≤ v.scanner.chans.curChanIdx + 1 at hlast
      omega
    have hall : v.scanner.chans.curChanIdx + 1 = maxChannels - 1 := by
      rw [← hfin, List.length_append, hlen, List.length_singleton]
    have hafter : ∀ s, v.afterTimer s = ⟨s, [], 0, 0, some (v.finished ++ [v.current])⟩ := by
      intro s
      simp only [Survey.afterTimer, hmode, if_pos hfin]
    rw [hall] at hturn
    rw [if_pos (by rwa [hgall, hgcur])]
    by_cases hnone : g.selectedChanNums = 0
    · -- the pass starts again
      obtain ⟨channel, hstart⟩ := startScan_some (s := airkissSetScanAllChannel)
        (show 0 < 14 by decide) airkissSwitchTimer
      have hempty : selection (v.finished ++ [v.current]) = [] := by
        have hg0 : g.selected = [] := by
          rw [AirkissChannel.selected, hnone, List.take_zero, List.map_nil]
        rw [hg0] at hsel
        exact hsel.symm.eq_nil
      rw [if_pos hnone, hstart]
      refine ⟨v.afterTimer airkissSetScanAllChannel, (), rfl, ?_⟩
      rw [hafter]
      refine initial_inv _ fun scans hscans => ?_
      rw [Option.some.injEq] at hscans
      subst hscans
      exact ⟨hturn, hempty⟩
    · -- the selected channels are next
      obtain ⟨channel, hstart⟩ := startScan_some
        (s := ⟨{ g with curChanIdx := 0, mode := .scanSelectedChan }, v.scanner.macs⟩)
        (show 0 < 14 by decide) (airkissCalcTimeForSelectedChannel (g.chan[0]).dataCnt)
      rw [if_neg hnone, Checked.read_eq (show 0 < 14 by decide), Option.bind_some, hstart]
      refine ⟨v.afterTimer _, (), rfl, ?_⟩
      rw [hafter]
      refine ⟨hgall, h.macs, fun hm => (by cases hm), fun _ => ⟨Nat.pos_of_ne_zero hnone, ?_⟩,
        fun scans hscans => ?_⟩
      · change g.selectedChanNums ≤ 13
        omega
      · rw [Option.some.injEq] at hscans
        subst hscans
        exact ⟨hturn, hsel, hfall⟩
  · have hmore : v.scanner.chans.curChanIdx + 1 < 13 := not_le.mp hlast
    have hfin : ¬(v.finished ++ [v.current]).length = maxChannels - 1 := by
      rw [List.length_append, hlen]
      exact hmore.ne
    obtain ⟨channel, hstart⟩ := startScan_some
      (s := ⟨{ g with curChanIdx := g.curChanIdx + 1 }, v.scanner.macs⟩)
      (show g.curChanIdx + 1 < 14 by omega) airkissSwitchTimer
    rw [if_neg (by rwa [hgall, hgcur]), hstart]
    refine ⟨v.afterTimer _, (), rfl, ?_⟩
    have hafter : ∀ s, v.afterTimer s = ⟨s, v.finished ++ [v.current], 0, 0, none⟩ := by
      intro s
      simp only [Survey.afterTimer, hmode, if_neg hfin]
    rw [hafter, hgcur]
    refine ⟨hgall, h.macs, fun _ => ⟨hmore, ?_, hturn, ?_, fun i hlt hi => ?_, hsel, hfall⟩,
      fun hm => ?_, fun scans hscans => by cases hscans⟩
    · change g.selectedChanNums ≤ v.scanner.chans.curChanIdx + 1
      omega
    · change Checked.read g.chan (v.scanner.chans.curChanIdx + 1) = _
      rw [hgkept _ (by omega), hsc.pending _ (Nat.lt_succ_self _) hmore]
      rfl
    · change v.scanner.chans.curChanIdx + 1 < i at hlt
      change Checked.read g.chan i = _
      rw [hgkept i (by omega), hsc.pending i (by omega) hi]
    · change g.mode = _ at hm
      rw [hgmode, hmode] at hm
      cases hm

/-- The end of the scan of a selected channel. -/
theorem scanSelected_inv {v : Survey} (h : v.Inv)
    (hmode : v.scanner.chans.mode = .scanSelectedChan) :
    ∃ v' o, survey v .timer = some (v', o) ∧ v'.Inv := by
  obtain ⟨hcur, hroom⟩ := h.selecting hmode
  change v.scanner.chans.selectedChanNums ≤ 13 at hroom
  have hafter : ∀ s, v.afterTimer s = ⟨s, [], 0, 0, none⟩ := by
    intro s
    simp only [Survey.afterTimer, hmode]
  have hstep : survey v .timer = (airkissSwitchChannelCallback v.scanner).map fun r =>
      (v.afterTimer r.1, ()) := rfl
  rw [hstep, airkissSwitchChannelCallback,
    Checked.read_eq (show v.scanner.chans.curChanIdx < 14 by omega)]
  simp only [Option.bind_eq_bind, Option.bind_some, hmode]
  obtain ⟨next, hnext⟩ : ∃ c, Checked.read v.scanner.chans.chan (v.scanner.chans.curChanIdx + 1) =
      some c := ⟨_, Checked.read_eq (show v.scanner.chans.curChanIdx + 1 < 14 by omega)⟩
  rw [hnext, Option.bind_some]
  by_cases hend : v.scanner.chans.selectedChanNums ≤ v.scanner.chans.curChanIdx + 1
  · obtain ⟨channel, hstart⟩ := startScan_some (s := airkissSetScanAllChannel)
      (show 0 < 14 by decide) airkissSwitchTimer
    rw [if_pos hend, hstart]
    refine ⟨v.afterTimer _, (), rfl, ?_⟩
    rw [hafter]
    exact initial_inv none fun scans hscans => by cases hscans
  · obtain ⟨channel, hstart⟩ := startScan_some
      (s := ⟨{ v.scanner.chans with
        curChanIdx := v.scanner.chans.curChanIdx + 1
        mode := .scanSelectedChan }, v.scanner.macs⟩)
      (show v.scanner.chans.curChanIdx + 1 < 14 by omega)
      (airkissCalcTimeForSelectedChannel next.dataCnt)
    rw [if_neg hend, hstart]
    refine ⟨v.afterTimer _, (), rfl, ?_⟩
    rw [hafter]
    refine ⟨h.all, h.macs, fun hm => ?_, fun _ => ⟨not_le.mp hend, hroom⟩,
      fun scans hscans => by cases hscans⟩
    cases hm

/-- What an event of which every transmitter fits does to the invariant. -/
theorem survey_inv {v : Survey} (h : v.Inv) {e : ScanEvent} (hfits : MacFits v e) :
    ∃ v' o, survey v e = some (v', o) ∧ v'.Inv := by
  cases e with
  | frame f => exact frame_inv h hfits
  | timer =>
    cases hmode : v.scanner.chans.mode with
    | scanAllChan => exact scanAll_inv h hmode
    | scanSelectedChan => exact scanSelected_inv h hmode

/-- A transmitter that does not fit is written behind the table. -/
theorem survey_full {v : Survey} (h : v.Inv) {e : ScanEvent} (hfits : ¬MacFits v e) :
    survey v e = none := by
  cases e with
  | timer => exact absurd trivial hfits
  | frame f =>
    simp only [MacFits, Classical.not_imp] at hfits
    obtain ⟨hsize, hbcn, hno⟩ := hfits
    rw [survey, airkissCountUsefullPacket_full h.macs hsize hbcn hno]
    rfl

/-- The channels are selected as they should be, and no access is outside of its array, exactly in
the runs in which every transmitter of a beacon fits into the table. -/
theorem survey_iff (events : List ScanEvent) :
    ((Machine.run survey .initial events).isSome ∧
      ∀ n v os, Machine.run survey .initial (events.take n) = some (v, os) → v.Good) ↔
    Machine.Legal survey MacFits .initial events := by
  refine Machine.returns_iff_legal (I := Survey.Inv) (fun v h => h.good)
    (fun v e h hfits => survey_inv h hfits) (fun v e h hfits v' o hstep => ?_)
    (initial_inv none fun scans hscans => by cases hscans)
  rw [survey_full h hfits] at hstep
  cases hstep

/-- A beacon of the transmitter with an address. -/
def beaconOf (addr : UInt8) : ScanEvent :=
  .frame ⟨⟨macFctrlBeacon, #v[addr, 0, 0, 0, 0, 0], Vector.replicate _ 0, 0⟩, 64, 0⟩

/-- Beacons of 51 transmitters within one scan. -/
theorem survey_crowded : ¬ ∀ events : List ScanEvent,
    (Machine.run survey .initial events).isSome ∧
      ∀ n v os, Machine.run survey .initial (events.take n) = some (v, os) → v.Good := by
  intro h
  have hsome := (h ((List.range 51).map fun k => beaconOf (UInt8.ofNat k))).1
  revert hsome
  decide +kernel

end TuyaSdk.Airkiss
