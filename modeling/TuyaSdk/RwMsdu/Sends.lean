import TuyaSdk.RwMsdu.Owners

/-!
# What the senders do with their blocks

For each function, the descriptor that its frame goes to, in terms of the state it is called in, and
the blocks that are left behind: each of them starts with the invariant and ends with it.
-/

namespace TuyaSdk.RwMsdu

open Lib

/-- A free descriptor for a queue. -/
def Mac.txdesc (mac : Mac) (w : World) (queue : Nat) : Option Nat :=
  (mac.txdescPrepare queue).filter fun d => !(w.desc d).used

/-- The descriptor of a raw frame; there is `room` for its node, or not. -/
def rawDesc (mac : Mac) (room : Bool) (w : World) : Option Nat :=
  if room then mac.txdesc w acVi else none

/-- The queue that a data frame gets to. -/
def dataQueue (mac : Mac) (room : Bool) (vifIdx : BitVec 8) : Option Nat :=
  if room then (mac.queueIdx vifIdx).map Prod.snd else none

def dataDesc (mac : Mac) (room : Bool) (w : World) (vifIdx : BitVec 8) : Option Nat :=
  (dataQueue mac room vifIdx).bind (mac.txdesc w)

/-- The next message of the queue leads to a frame: a raw one does, a beacon needs `room` and a
name. -/
def framed (bcnRoom : Bool) (w : World) : Bool :=
  match w.ioQueue with
  | [] => false
  | .txRaw _ _ :: _ => true
  | .txBcn p :: _ =>
    match w.heap.block p with
    | some (.bcnParam _ ssid) => bcnRoom && ssidStrlen ssid ≠ 0
    | _ => false

/-- The descriptor of the next message's frame. -/
def coreDesc (mac : Mac) (room bcnRoom : Bool) (w : World) : Option Nat :=
  if framed bcnRoom w then rawDesc mac room w else none

section

variable {w : World} {held : List Nat} {p d : Nat}

theorem Mac.txdesc_eq_some {mac : Mac} {queue : Nat} :
    mac.txdesc w queue = some d ↔ mac.txdescPrepare queue = some d ∧ (w.desc d).used = false := by
  rw [Mac.txdesc, Option.filter_eq_some_iff, Bool.not_eq_true']

/-! ## Data frames -/

/-- The callback of a data frame. -/
def signals (sync : BitVec 32) (args : Nat) : Option Ran :=
  if sync ≠ 0 then some (.signal (some args)) else none

theorem txExit_moves (h : Inv w (p :: held)) :
    ∃ w', txExit w p = some (rwFailure, w') ∧ Moves w w' held none := by
  obtain ⟨heap, hfree, hmoves⟩ := h.free
  refine ⟨_, ?_, hmoves⟩
  rw [txExit, rwmNodeFree, World.osFree_eq hfree]
  rfl

theorem dataFrame_msduNode (host : HostDesc) (d : Nat) (flag : BitVec 16) (tid : BitVec 8)
    (len : BitVec 32) (info : TxInfo) :
    (host.dataFrame p d flag tid len info).msduNode = some p := by
  unfold HostDesc.dataFrame
  split
  · rfl
  · rfl

/-- Its callback is given the descriptor itself. -/
theorem dataFrame_own {host : HostDesc} {flag : BitVec 16} {tid : BitVec 8} {len : BitVec 32}
    {info : TxInfo} (hcb : (host.dataFrame p d flag tid len info).callback =
      some .ieee80211DataTxCb) : (host.dataFrame p d flag tid len info).param = .txdesc d := by
  unfold HostDesc.dataFrame at hcb ⊢
  split at hcb
  next hsync => rw [if_pos hsync]
  next => cases hcb

theorem push_dataFrame_runs {host : HostDesc} {flag : BitVec 16} {tid : BitVec 8}
    {len : BitVec 32} {info : TxInfo} (hb : w.heap.block p = some (.node len (some info))) :
    runCallback (w.push d (host.dataFrame p d flag tid len info)) d =
      some (signals info.sync info.args) := by
  have hself : ((w.push d (host.dataFrame p d flag tid len info)).desc d).host =
      host.dataFrame p d flag tid len info := by rw [World.push_desc]
  have hb' : (w.push d (host.dataFrame p d flag tid len info)).heap.block p =
      some (.node len (some info)) := hb
  generalize w.push d (host.dataFrame p d flag tid len info) = w' at hself hb' ⊢
  by_cases hsync : info.sync ≠ 0
  · have hcb : (host.dataFrame p d flag tid len info).callback = some .ieee80211DataTxCb := by
      rw [HostDesc.dataFrame, if_pos hsync]
    rw [signals, if_pos hsync]
    refine runCallback_signal ?_ ?_ ?_ hb'
    · rw [hself, hcb]
    · rw [hself, dataFrame_own hcb]
    · rw [hself, dataFrame_msduNode]
  · have hcb : (host.dataFrame p d flag tid len info).callback = none := by
      rw [HostDesc.dataFrame, if_neg hsync]
    rw [signals, if_neg hsync]
    rw [runCallback_none_iff, hself, hcb]

theorem rwmTransferNode_moves (h : Inv w (p :: held)) (mac : Mac) (flag : BitVec 16)
    {len : BitVec 32} {info : TxInfo} (hb : w.heap.block p = some (.node len (some info)))
    (hprep : ∀ q ∈ (mac.queueIdx info.vifIdx).map Prod.snd, mac.txdescPrepare q ≠ none) :
    let target := ((mac.queueIdx info.vifIdx).map Prod.snd).bind (mac.txdesc w)
    ∃ w', rwmTransferNode mac w p flag = some (rwFailure, w') ∧ Moves w w' held target ∧
      ∀ d ∈ target, runCallback w' d = some (signals info.sync info.args) := by
  intro target
  obtain ⟨w₁, hexit, hmoves₁⟩ := txExit_moves h
  have hrefused : target = none → rwmTransferNode mac w p flag = txExit w p →
      ∃ w', rwmTransferNode mac w p flag = some (rwFailure, w') ∧ Moves w w' held target ∧
        ∀ d ∈ target, runCallback w' d = some (signals info.sync info.args) := by
    intro htarget heq
    rw [htarget]
    exact ⟨w₁, heq.trans hexit, hmoves₁, fun d hd => absurd hd (Option.not_mem_none d)⟩
  cases hq : mac.queueIdx info.vifIdx with
  | none =>
    refine hrefused (by simp only [target, hq]; rfl) ?_
    simp only [rwmTransferNode, hb, hq]
  | some r =>
    obtain ⟨tid, queue⟩ := r
    obtain ⟨d, hd⟩ := Option.ne_none_iff_exists'.mp (hprep queue (by rw [hq]; rfl))
    have htarget : target = mac.txdesc w queue := by simp only [target, hq]; rfl
    cases hused : (w.desc d).used with
    | true =>
      refine hrefused ?_ ?_
      · rw [htarget, Mac.txdesc, hd, Option.filter_some, hused]
        rfl
      · simp only [rwmTransferNode, hb, hq, hd, hused, if_true]
    | false =>
      have hsome : target = some d := htarget.trans (Mac.txdesc_eq_some.mpr ⟨hd, hused⟩)
      rw [hsome]
      refine ⟨w.push d ((w.desc d).host.dataFrame p d flag tid len info), ?_,
        h.push hb hused (dataFrame_msduNode ..) dataFrame_own, fun c hc => ?_⟩
      · simp only [rwmTransferNode, hb, hq, hd, hused, Bool.false_eq_true, if_false]
      · obtain rfl := Option.mem_some_iff.mp hc
        exact push_dataFrame_runs hb

theorem rwmTransfer_moves (h : Inv w held) (mac : Mac) (room : Bool) (vifIdx : BitVec 8)
    (dest : BitVec 48) (len sync : BitVec 32) (args : Nat)
    (hprep : ∀ q ∈ dataQueue mac room vifIdx, mac.txdescPrepare q ≠ none) :
    ∃ w', rwmTransfer mac room w vifIdx dest len sync args = some (rwFailure, w') ∧
      Moves w w' held (dataDesc mac room w vifIdx) ∧
      ∀ d ∈ dataDesc mac room w vifIdx, runCallback w' d = some (signals sync args) := by
  cases room with
  | false => exact ⟨w, rfl, h.refl, fun d hd => absurd hd (Option.not_mem_none d)⟩
  | true =>
    have hm := h.malloc (.node len none)
    obtain ⟨heap, hstore, hs, hb⟩ := hm.inv.store
      (.node len (some ⟨vifIdx, mac.rwmMgmtTxGetStaidx vifIdx dest, sync, args⟩))
    obtain ⟨w', hrun, hmoves, hcb⟩ := rwmTransferNode_moves hs.inv mac 0 hb hprep
    refine ⟨w', ?_, (hm.trans hs).trans hmoves, hcb⟩
    simp only [rwmTransfer, rwmTxNodeAlloc, World.osMalloc, if_true, hstore]
    exact hrun

/-- A data frame that gets to its queue when there is no descriptor follows a NULL pointer. -/
theorem rwmTransfer_null (w : World) {mac : Mac} {room : Bool} {vifIdx : BitVec 8} {q : Nat}
    (hq : dataQueue mac room vifIdx = some q) (hprep : mac.txdescPrepare q = none)
    (dest : BitVec 48) (len sync : BitVec 32) (args : Nat) :
    rwmTransfer mac room w vifIdx dest len sync args = none := by
  cases room with
  | false => cases hq
  | true =>
    obtain ⟨r, hr, rfl⟩ := Option.map_eq_some_iff.mp hq
    obtain ⟨heap, hstore⟩ := Option.isSome_iff_exists.mp
      (Heap.store_isSome.mpr (Heap.live_malloc.mpr (Or.inl rfl)) :
        ((w.heap.malloc (.node len none)).store w.heap.next (.node len
          (some ⟨vifIdx, mac.rwmMgmtTxGetStaidx vifIdx dest, sync, args⟩))).isSome)
    have hb := (Heap.block_store hstore (q := w.heap.next)).trans (if_pos rfl)
    simp only [rwmTransfer, rwmTxNodeAlloc, World.osMalloc, if_true, World.store, hstore,
      Option.map_some, Option.bind_eq_bind, Option.bind_some, rwmTransferNode, hb, hr, hprep]

/-! ## Raw frames -/

theorem pushRaw_moves (h : Inv w held) (mac : Mac) (room : Bool) (len : BitVec 32)
    (fields : HostDesc → HostDesc) (hnode : ∀ host, (fields host).msduNode = host.msduNode)
    (hown : ∀ host d, (host.callback = some .ieee80211DataTxCb → host.param = .txdesc d) →
      (fields host).callback = some .ieee80211DataTxCb → (fields host).param = .txdesc d) :
    ∃ w', pushRaw mac room w len fields = some ((rawDesc mac room w).isSome, w') ∧
      Moves w w' held (rawDesc mac room w) ∧
      ∀ d ∈ rawDesc mac room w, ∃ host, host.callback = (w.desc d).host.callback ∧
        (w'.desc d).host = fields host := by
  cases room with
  | false => exact ⟨w, rfl, h.refl, fun d hd => absurd hd (Option.not_mem_none d)⟩
  | true =>
    have hm := h.malloc (.node len none)
    obtain ⟨heap, hfree, hfreed⟩ := hm.inv.free
    have hraw : rawDesc mac true w = mac.txdesc w acVi := rfl
    cases hprep : mac.txdescPrepare acVi with
    | none =>
      rw [hraw, Mac.txdesc, hprep]
      refine ⟨_, ?_, hm.trans hfreed, fun d hd => absurd hd (Option.not_mem_none d)⟩
      simp only [pushRaw, rwmTxNodeAlloc, World.osMalloc, if_true, hprep, rwmNodeFree,
        World.osFree_eq hfree]
      rfl
    | some d =>
      cases hused : (w.desc d).used with
      | true =>
        have hnone : mac.txdesc w acVi = none := by
          rw [Mac.txdesc, hprep, Option.filter_some, hused]
          rfl
        rw [hraw, hnone]
        refine ⟨_, ?_, hm.trans hfreed, fun d hd => absurd hd (Option.not_mem_none d)⟩
        simp only [pushRaw, rwmTxNodeAlloc, World.osMalloc, if_true, hprep, hused, rwmNodeFree,
          World.osFree_eq hfree]
        rfl
      | false =>
        rw [hraw, Mac.txdesc_eq_some.mpr ⟨hprep, hused⟩]
        have hpush := hm.inv.push (Heap.block_malloc_same) hused
          (hnode ((w.desc d).host.rawFrame w.heap.next len)) (hown _ d (h.own d))
        refine ⟨_, ?_, hm.trans hpush, fun c hc => ?_⟩
        · simp only [pushRaw, rwmTxNodeAlloc, World.osMalloc, if_true, hprep, hused,
            Bool.false_eq_true, if_false]
          rfl
        · obtain rfl := Option.mem_some_iff.mp hc
          exact ⟨(w.desc d).host.rawFrame w.heap.next len, rfl, by rw [World.push_desc]⟩

theorem rwmRawFrameWithCb_moves (h : Inv w held) (mac : Mac) (room : Bool) (len : BitVec 32)
    (cb : Option Nat) (param : Nat) :
    ∃ w', rwmRawFrameWithCb mac room w len cb param =
        some (if (rawDesc mac room w).isSome then len else 0, w') ∧
      Moves w w' held (rawDesc mac room w) ∧ ∀ d ∈ rawDesc mac room w,
        runCallback w' d = some (cb.map fun cb => .call cb (.user param)) := by
  obtain ⟨w', hrun, hmoves, hhost⟩ := pushRaw_moves h mac room len
    (fun host => { host with callback := cb.map .user, param := .user param })
    (fun _ => rfl) fun _ _ _ hcb => by cases cb <;> cases hcb
  refine ⟨w', ?_, hmoves, fun d hd => ?_⟩
  · rw [rwmRawFrameWithCb, hrun]
    rfl
  · obtain ⟨host, -, heq⟩ := hhost d hd
    unfold runCallback
    rw [heq]
    cases cb with
    | none => rfl
    | some cb => rfl

/-- The descriptor has the callback that it had before. -/
theorem txRawData_moves (h : Inv w (p :: held)) (mac : Mac) (room : Bool) (len : BitVec 16) :
    ∃ w', txRawData mac room w p len = some w' ∧ Moves w w' held (rawDesc mac room w) ∧
      ∀ d ∈ rawDesc mac room w, (w'.desc d).host.callback = (w.desc d).host.callback := by
  obtain ⟨w₁, hrun, hmoves, hhost⟩ :=
    pushRaw_moves h mac room (len.signExtend 32) id (fun _ => rfl) fun _ _ hown => hown
  obtain ⟨heap, hfree, hfreed⟩ := hmoves.inv.free
  refine ⟨_, ?_, hmoves.then hfreed, fun d hd => ?_⟩
  · rw [txRawData, hrun]
    exact World.osFree_eq hfree
  · obtain ⟨host, hcb, heq⟩ := hhost d hd
    exact (congrArg HostDesc.callback heq).trans hcb

theorem txRawBeacon_moves (h : Inv w held) (mac : Mac) (room bcnRoom : Bool) (ssidLen : Nat) :
    let target := if (bcnRoom && ssidLen ≠ 0) = true then rawDesc mac room w else none
    ∃ w', txRawBeacon mac room bcnRoom w ssidLen = some w' ∧ Moves w w' held target ∧
      ∀ d ∈ target, (w'.desc d).host.callback = (w.desc d).host.callback := by
  intro target
  by_cases hlen : ssidLen = 0
  · have htarget : target = none := if_neg (by simp [hlen])
    rw [htarget, txRawBeacon, if_pos hlen]
    exact ⟨w, rfl, h.refl, fun d hd => absurd hd (Option.not_mem_none d)⟩
  · cases bcnRoom with
    | false =>
      have htarget : target = none := if_neg (by simp)
      rw [htarget, txRawBeacon, if_neg hlen]
      exact ⟨w, rfl, h.refl, fun d hd => absurd hd (Option.not_mem_none d)⟩
    | true =>
      have htarget : target = rawDesc mac room w := if_pos (by simp [hlen])
      have hm := h.malloc (.packet ((bcnLen ssidLen).setWidth 32))
      obtain ⟨w', hrun, hmoves, hcb⟩ := txRawData_moves hm.inv mac room (bcnLen ssidLen)
      rw [htarget, txRawBeacon, if_neg hlen]
      exact ⟨w', hrun, hm.trans hmoves, hcb⟩

theorem coreThread_moves (h : Inv w held) (mac : Mac) (room bcnRoom : Bool) :
    ∃ w', coreThread mac room bcnRoom w = some w' ∧
      Moves w w' held (coreDesc mac room bcnRoom w) ∧
      ∀ d ∈ coreDesc mac room bcnRoom w,
        (w'.desc d).host.callback = (w.desc d).host.callback := by
  unfold coreThread coreDesc framed
  cases hq : w.ioQueue with
  | nil => exact ⟨w, rfl, h.refl, fun d hd => absurd hd (Option.not_mem_none d)⟩
  | cons msg msgs =>
    have hpop := h.pop hq
    cases msg with
    | txRaw pkt len =>
      obtain ⟨w', hrun, hmoves, hcb⟩ := txRawData_moves hpop.inv mac room len
      exact ⟨w', hrun, hpop.trans hmoves, hcb⟩
    | txBcn p =>
      obtain ⟨channel, ssid, hb⟩ := h.bcn p (by rw [hq]; exact List.mem_cons_self)
      obtain ⟨w₁, hrun, hmoves, hcb⟩ :=
        txRawBeacon_moves hpop.inv mac room bcnRoom (ssidStrlen ssid)
      obtain ⟨heap, hfree, hfreed⟩ := hmoves.inv.free
      simp only [hb]
      refine ⟨_, ?_, hpop.trans (hmoves.then hfreed), hcb⟩
      rw [bmsgTxBeaconHandler]
      simp only [hb, hrun]
      exact World.osFree_eq hfree

/-! ## Messages -/

theorem pushToQueue_moves (msg : Msg) (h : Inv w (msg.block :: held)) (ret : BitVec 32)
    (hbcn : ∀ p, msg = .txBcn p → ∃ channel ssid, w.heap.block p = some (.bcnParam channel ssid)) :
    ∃ w', w.pushToQueue ret msg = some w' ∧ Moves w w' held none := by
  unfold World.pushToQueue
  split
  · exact ⟨_, rfl, h.enqueue hbcn⟩
  · obtain ⟨heap, hfree, hfreed⟩ := h.free
    exact ⟨_, World.osFree_eq hfree, hfreed⟩

theorem bkWlanSend80211RawFrame_moves (h : Inv w held) (room : Bool) (ret len : BitVec 32) :
    ∃ r w', bkWlanSend80211RawFrame room ret w len = some (r, w') ∧ Moves w w' held none := by
  cases room with
  | false => exact ⟨-1, w, rfl, h.refl⟩
  | true =>
    have hm := h.malloc (.packet len)
    obtain ⟨w', hrun, hmoves⟩ := pushToQueue_moves (.txRaw w.heap.next (len.setWidth 16)) hm.inv
      ret fun p hp => nomatch hp
    refine ⟨ret, w', ?_, hm.trans hmoves⟩
    simp only [bkWlanSend80211RawFrame, World.osMalloc, if_true, hrun]
    rfl

theorem bkWlanSend80211BeaconFrame_moves (h : Inv w held) {room : Bool} (ret : BitVec 32)
    (channel : BitVec 8) (ssid : Nat → BitVec 8) {ssidLen : BitVec 8}
    (hlen : room = true → ssidLen.toNat < ssidSize) :
    ∃ r w', bkWlanSend80211BeaconFrame room ret w channel ssid ssidLen = some (r, w') ∧
      Moves w w' held none := by
  cases room with
  | false => exact ⟨-1, w, rfl, h.refl⟩
  | true =>
    have hm := h.malloc (.bcnParam 0 [])
    obtain ⟨heap, hstore, hs, hb⟩ := hm.inv.store
      (.bcnParam channel ((List.range ssidLen.toNat).map ssid))
    obtain ⟨w', hrun, hmoves⟩ := pushToQueue_moves (.txBcn w.heap.next) hs.inv ret
      fun p hp => ⟨_, _, Msg.txBcn.inj hp ▸ hb⟩
    refine ⟨ret, w', ?_, (hm.trans hs).trans hmoves⟩
    simp only [bkWlanSend80211BeaconFrame, World.osMalloc, if_true,
      if_neg (Nat.not_le.mpr (hlen rfl)), hstore, Option.bind_eq_bind, Option.bind_some, hrun]
    rfl

/-- A name that does not fit leaves a block that nobody owns. -/
theorem bkWlanSend80211BeaconFrame_lost (h : Inv w held) (ret : BitVec 32) (channel : BitVec 8)
    (ssid : Nat → BitVec 8) {ssidLen : BitVec 8} (hlen : ssidSize ≤ ssidLen.toNat) {w' : World}
    {r : BitVec 32}
    (hrun : bkWlanSend80211BeaconFrame true ret w channel ssid ssidLen = some (r, w')) :
    ¬w'.heap.Owned (held ++ w'.owners) := by
  simp only [bkWlanSend80211BeaconFrame, World.osMalloc, if_true, if_pos hlen] at hrun
  cases hrun
  exact h.owned.malloc_lost _

end

end TuyaSdk.RwMsdu
