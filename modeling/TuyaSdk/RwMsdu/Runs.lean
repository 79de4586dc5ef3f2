import TuyaSdk.RwMsdu.Sends

/-!
# Every frame, from its sender to its confirm

The calls, the core thread and the MAC take turns in any order. A step is right when every block
still has one owner and no other is left, the confirm of each pushed frame is going to run what its
sender asked for, and a sender is told whether its frame was pushed.
-/

namespace TuyaSdk.RwMsdu

open Lib

/-! ## Runs -/

/-- A call of a sender, a turn of the core thread, or a step of the MAC: it confirms a descriptor
that was pushed, or makes one free that is not pushed (any other step of the MAC is nothing). -/
inductive Input where
  | rwmTransfer (mac : Mac) (room : Bool) (vifIdx : BitVec 8) (dest : BitVec 48)
      (len sync : BitVec 32) (args : Nat)
  | rwmRawFrameWithCb (mac : Mac) (room : Bool) (len : BitVec 32) (cb : Option Nat) (param : Nat)
  | sendRawFrame (room : Bool) (ret len : BitVec 32)
  | sendBeaconFrame (room : Bool) (ret : BitVec 32) (channel : BitVec 8) (ssid : Nat → BitVec 8)
      (ssidLen : BitVec 8)
  | coreThread (mac : Mac) (room bcnRoom : Bool)
  | txConfirm (d : Nat)
  | release (d : Nat)

/-- What a step returns, and the callback that it runs. -/
structure Out where
  ret : Option (BitVec 32)
  ran : Option Ran

namespace Input

def call : Input → World → Option (Out × World)
  | .rwmTransfer mac room vifIdx dest len sync args, w =>
    (RwMsdu.rwmTransfer mac room w vifIdx dest len sync args).map fun r => (⟨some r.1, none⟩, r.2)
  | .rwmRawFrameWithCb mac room len cb param, w =>
    (RwMsdu.rwmRawFrameWithCb mac room w len cb param).map fun r => (⟨some r.1, none⟩, r.2)
  | .sendRawFrame room ret len, w =>
    (bkWlanSend80211RawFrame room ret w len).map fun r => (⟨some r.1, none⟩, r.2)
  | .sendBeaconFrame room ret channel ssid ssidLen, w =>
    (bkWlanSend80211BeaconFrame room ret w channel ssid ssidLen).map fun r =>
      (⟨some r.1, none⟩, r.2)
  | .coreThread mac room bcnRoom, w =>
    (RwMsdu.coreThread mac room bcnRoom w).map fun w => (⟨none, none⟩, w)
  | .txConfirm d, w =>
    if d ∈ w.pushed then
      (rwmTxConfirm w d).map fun r => (⟨none, r.1⟩, { r.2 with pushed := r.2.pushed.erase d })
    else some (⟨none, none⟩, w)
  | .release d, w =>
    if d ∈ w.pushed then some (⟨none, none⟩, w)
    else
      some (⟨none, none⟩,
        { w with desc := Function.update w.desc d { w.desc d with used := false } })

/-- What the sender of a frame wants to be run when it is confirmed. -/
def asks : Input → Option Ran
  | .rwmTransfer _ _ _ _ _ sync args => signals sync args
  | .rwmRawFrameWithCb _ _ _ cb param => cb.map fun cb => .call cb (.user param)
  | _ => none

/-- The value that tells a sender that its frame was pushed. -/
def success : Input → Option (BitVec 32)
  | .rwmTransfer _ _ _ _ _ _ _ => some rwSuccess
  | .rwmRawFrameWithCb _ _ len _ _ => some len
  | _ => none

end Input

/-- The state, with what the sender of the last frame of each descriptor asked for. -/
structure Sys where
  world : World
  asked : Nat → Option Ran

def frames : Machine Sys Input Out := fun s i =>
  (i.call s.world).map fun r =>
    (⟨r.2, fun d => if d ∈ r.2.pushed.drop s.world.pushed.length then i.asks else s.asked d⟩, r.1)

/-- Nothing has been sent. -/
def boot : Sys where
  world := ⟨Heap.empty, fun _ => ⟨false, ⟨0, 0, 0, 0, 0, none, .user 0, none⟩⟩, [], []⟩
  asked := fun _ => none

/-- The callback that a step has to run. -/
def Input.confirmed (s : Sys) : Input → Option Ran
  | .txConfirm d => if d ∈ s.world.pushed then s.asked d else none
  | _ => none

structure Right (s : Sys) (i : Input) (s' : Sys) (o : Out) : Prop where
  /-- The allocated blocks are those that a pushed descriptor or a message refers to. -/
  owned : s'.world.heap.Owned s'.world.owners
  /-- The confirm of a pushed frame is going to run what its sender asked for. -/
  asked : ∀ d ∈ s'.world.pushed, runCallback s'.world d = some (s'.asked d)
  ret : ∀ v ∈ i.success, o.ret = some v ↔ ∃ d, s'.world.pushed = s.world.pushed ++ [d]
  ran : o.ran = i.confirmed s

/-- The steps that the code is right for: a data frame that gets to its queue is refused there by a
used descriptor, a raw frame with a callback is not empty or is pushed, the name of a beacon fits,
and the frames of the core thread go to descriptors without a callback from before. -/
def Good (s : Sys) : Input → Prop
  | .rwmTransfer mac room vifIdx _ _ _ _ => ∀ q ∈ dataQueue mac room vifIdx,
      ∃ d, mac.txdescPrepare q = some d ∧ (s.world.desc d).used = true
  | .rwmRawFrameWithCb mac room len _ _ => len = 0 → (rawDesc mac room s.world).isSome
  | .sendBeaconFrame room _ _ _ ssidLen => room = true → ssidLen.toNat < ssidSize
  | .coreThread mac room bcnRoom => ∀ d ∈ coreDesc mac room bcnRoom s.world,
      (s.world.desc d).host.callback = none
  | _ => True

/-! ## One step -/

namespace Input

/-- The steps that return and lose no block. -/
def Safe : Input → Prop
  | .rwmTransfer mac room vifIdx _ _ _ _ => ∀ q ∈ dataQueue mac room vifIdx,
      mac.txdescPrepare q ≠ none
  | .sendBeaconFrame room _ _ _ ssidLen => room = true → ssidLen.toNat < ssidSize
  | _ => True

/-- The descriptor that a frame is pushed with. -/
def target (w : World) : Input → Option Nat
  | .rwmTransfer mac room vifIdx _ _ _ _ => dataDesc mac room w vifIdx
  | .rwmRawFrameWithCb mac room _ _ _ => rawDesc mac room w
  | .coreThread mac room bcnRoom => coreDesc mac room bcnRoom w
  | _ => none

def after (w : World) : Input → List Nat
  | .txConfirm d => w.pushed.erase d
  | i => w.pushed ++ (i.target w).toList

def returns (w : World) : Input → Option (BitVec 32)
  | .rwmTransfer _ _ _ _ _ _ _ => some rwFailure
  | .rwmRawFrameWithCb mac room len _ _ => some (if (rawDesc mac room w).isSome then len else 0)
  | _ => none

def runs (w : World) : Input → Option (Option Ran)
  | .txConfirm d => if d ∈ w.pushed then runCallback w d else some none
  | _ => some none

/-- The frames of the core thread go to descriptors without a callback. -/
def Clean (w : World) (d : Nat) : Input → Prop
  | .coreThread _ _ _ => (w.desc d).host.callback = none
  | _ => True

end Input

structure Done (i : Input) (w w' : World) (o : Out) : Prop where
  inv : Inv w' []
  pushed : w'.pushed = i.after w
  keeps : ∀ c ∈ w'.pushed, c ∈ w.pushed → runCallback w' c = runCallback w c
  asks : ∀ d ∈ i.target w, runCallback w' d = some i.asks ↔ i.Clean w d
  ret : ∀ v ∈ i.returns w, o.ret = some v
  ran : i.runs w = some o.ran

section

variable {w w' : World} {i : Input} {o : Out} {d : Nat} {s s' : Sys}

theorem confirm_done (h : Inv w []) (hd : d ∈ w.pushed) :
    ∃ o w', (Input.txConfirm d).call w = some (o, w') ∧ Done (.txConfirm d) w w' o := by
  obtain ⟨p, len, info, hp, hb⟩ := h.node d hd
  obtain ⟨ran, hran⟩ := Option.isSome_iff_exists.mp (h.callback_isSome hd)
  have hun := h.unpush hd hp
  obtain ⟨heap, hfree, hfreed⟩ := hun.free
  have hset := hfreed.inv.setDesc (d := d) (h.nodup.not_mem_erase)
    (t := { w.desc d with host := { (w.desc d).host with msduNode := none } }) (h.own d)
  have hmoves := hfreed.trans hset
  refine ⟨⟨none, ran⟩, _, ?_, ⟨hset.inv, ?_, fun c hc _ => hmoves.keeps c hc,
    fun c hc => absurd hc (Option.not_mem_none c),
    fun v hv => absurd hv (Option.not_mem_none v), ?_⟩⟩
  · rw [Input.call, if_pos hd]
    simp only [rwmTxConfirm, hp, hran, Option.bind_eq_bind, Option.bind_some,
      World.osFree_eq (w := w) hfree]
    rfl
  · rfl
  · rw [Input.runs, if_pos hd]
    exact hran

theorem Moves.done (h : Moves w w' [] (i.target w))
    (hpushed : i.after w = w.pushed ++ (i.target w).toList)
    (hasks : ∀ d ∈ i.target w, runCallback w' d = some i.asks ↔ i.Clean w d)
    (hret : ∀ v ∈ i.returns w, o.ret = some v) (hran : i.runs w = some o.ran) : Done i w w' o :=
  ⟨h.inv, h.pushed.trans hpushed.symm, fun c _ hc => h.keeps c hc, hasks, hret, hran⟩

theorem call_done (h : Inv w []) (hsafe : i.Safe) :
    ∃ o w', i.call w = some (o, w') ∧ Done i w w' o := by
  cases i with
  | rwmTransfer mac room vifIdx dest len sync args =>
    obtain ⟨w', hrun, hmoves, hcb⟩ := rwmTransfer_moves h mac room vifIdx dest len sync args hsafe
    refine ⟨⟨some rwFailure, none⟩, w', ?_, hmoves.done rfl
      (fun d hd => iff_of_true (hcb d hd) trivial) (fun v hv => hv) rfl⟩
    exact Option.map_eq_some_iff.mpr ⟨_, hrun, rfl⟩
  | rwmRawFrameWithCb mac room len cb param =>
    obtain ⟨w', hrun, hmoves, hcb⟩ := rwmRawFrameWithCb_moves h mac room len cb param
    refine ⟨⟨some _, none⟩, w', ?_, hmoves.done rfl
      (fun d hd => iff_of_true (hcb d hd) trivial) (fun v hv => hv) rfl⟩
    exact Option.map_eq_some_iff.mpr ⟨_, hrun, rfl⟩
  | sendRawFrame room ret len =>
    obtain ⟨r, w', hrun, hmoves⟩ := bkWlanSend80211RawFrame_moves h room ret len
    refine ⟨⟨some r, none⟩, w', ?_, hmoves.done rfl (fun d hd => absurd hd (Option.not_mem_none d))
      (fun v hv => absurd hv (Option.not_mem_none v)) rfl⟩
    exact Option.map_eq_some_iff.mpr ⟨_, hrun, rfl⟩
  | sendBeaconFrame room ret channel ssid ssidLen =>
    obtain ⟨r, w', hrun, hmoves⟩ := bkWlanSend80211BeaconFrame_moves h ret channel ssid hsafe
    refine ⟨⟨some r, none⟩, w', ?_, hmoves.done rfl (fun d hd => absurd hd (Option.not_mem_none d))
      (fun v hv => absurd hv (Option.not_mem_none v)) rfl⟩
    exact Option.map_eq_some_iff.mpr ⟨_, hrun, rfl⟩
  | coreThread mac room bcnRoom =>
    obtain ⟨w', hrun, hmoves, hcb⟩ := coreThread_moves h mac room bcnRoom
    refine ⟨⟨none, none⟩, w', ?_, hmoves.done rfl (fun d hd => ?_)
      (fun v hv => absurd hv (Option.not_mem_none v)) rfl⟩
    · exact Option.map_eq_some_iff.mpr ⟨_, hrun, rfl⟩
    · show runCallback w' d = some none ↔ (w.desc d).host.callback = none
      rw [runCallback_none_iff, hcb d hd]
  | txConfirm d =>
    by_cases hd : d ∈ w.pushed
    · exact confirm_done h hd
    · refine ⟨⟨none, none⟩, w, if_neg hd, ⟨h, (List.erase_of_not_mem hd).symm, fun _ _ _ => rfl,
        fun c hc => absurd hc (Option.not_mem_none c),
        fun v hv => absurd hv (Option.not_mem_none v), if_neg hd⟩⟩
  | release d =>
    by_cases hd : d ∈ w.pushed
    · exact ⟨⟨none, none⟩, w, if_pos hd, h.refl.done rfl
        (fun d hd => absurd hd (Option.not_mem_none d))
        (fun v hv => absurd hv (Option.not_mem_none v)) rfl⟩
    · exact ⟨⟨none, none⟩, _, if_neg hd, (h.setDesc hd (t := { w.desc d with used := false })
        (h.own d)).done rfl
        (fun d hd => absurd hd (Option.not_mem_none d))
        (fun v hv => absurd hv (Option.not_mem_none v)) rfl⟩

/-- A step that is not safe does not return, or leaves a block without an owner. -/
theorem safe_of_owned (h : Inv w []) (hcall : i.call w = some (o, w'))
    (howned : w'.heap.Owned w'.owners) : i.Safe := by
  cases i with
  | rwmTransfer mac room vifIdx dest len sync args =>
    intro q hq hprep
    rw [Input.call, rwmTransfer_null w hq hprep] at hcall
    cases hcall
  | sendBeaconFrame room ret channel ssid ssidLen =>
    rintro rfl
    by_contra hlen
    obtain ⟨r, hrun, heq⟩ := Option.map_eq_some_iff.mp hcall
    cases heq
    exact bkWlanSend80211BeaconFrame_lost h ret channel ssid (Nat.le_of_not_lt hlen) hrun howned
  | _ => trivial

theorem Good.safe (h : Good s i) : i.Safe := by
  cases i with
  | rwmTransfer mac room vifIdx dest len sync args =>
    intro q hq
    obtain ⟨d, hd, -⟩ := h q hq
    exact hd ▸ Option.some_ne_none d
  | sendBeaconFrame room ret channel ssid ssidLen => exact h
  | _ => trivial

/-- The new descriptors of the pushed ones. -/
theorem Done.new (h : Done i w w' o) : w'.pushed.drop w.pushed.length = (i.target w).toList := by
  rw [h.pushed]
  cases i with
  | txConfirm d => exact List.drop_eq_nil_of_le (List.length_erase_le ..)
  | _ => exact List.drop_left ..

theorem Done.mem (h : Done i w w' o) (hd : d ∈ w'.pushed) : d ∈ w.pushed ∨ d ∈ i.target w := by
  rw [h.pushed] at hd
  cases i with
  | txConfirm d' => exact Or.inl (List.mem_of_mem_erase hd)
  | _ => exact (List.mem_append.mp hd).imp_right Option.mem_toList.mp

/-- The frame of a sender that has a return value is pushed when there is a descriptor for it. -/
theorem Done.sends_iff (h : Done i w w' o) {v : BitVec 32} (hv : v ∈ i.success) :
    (∃ d, w'.pushed = w.pushed ++ [d]) ↔ (i.target w).isSome := by
  have hafter : i.after w = w.pushed ++ (i.target w).toList := by
    cases i with
    | txConfirm d => cases hv
    | _ => rfl
  rw [h.pushed, hafter]
  cases i.target w with
  | none => simp
  | some d => simp

/-- The invariant of a run. -/
structure Sound (s : Sys) : Prop where
  inv : Inv s.world []
  asked : ∀ d ∈ s.world.pushed, runCallback s.world d = some (s.asked d)

theorem frames_eq (hcall : i.call s.world = some (o, w')) (h : Done i s.world w' o) :
    frames s i = some (⟨w', fun d => if d ∈ i.target s.world then i.asks else s.asked d⟩, o) := by
  rw [frames, hcall, Option.map_some]
  simp only [h.new, Option.mem_toList, Option.mem_def]

theorem Good.clean (h : Good s i) (hd : d ∈ i.target s.world) : i.Clean s.world d := by
  cases i with
  | coreThread mac room bcnRoom => exact h d hd
  | _ => trivial

/-- A data frame is not pushed, as it is told. -/
theorem Good.ret (h : Good s i) (hdone : Done i s.world w' o) {v : BitVec 32} (hv : v ∈ i.success) :
    o.ret = some v ↔ (i.target s.world).isSome := by
  cases i with
  | rwmTransfer mac room vifIdx dest len sync args =>
    obtain rfl := Option.mem_some_iff.mp hv
    rw [hdone.ret rwFailure rfl]
    refine iff_of_false (by decide) ?_
    rw [Bool.not_eq_true, Option.isSome_eq_false_iff, Option.isNone_iff_eq_none]
    refine Option.bind_eq_none_iff.mpr fun q hq => ?_
    obtain ⟨d, hd, hused⟩ := h q hq
    rw [Mac.txdesc, hd, Option.filter_some, hused]
    rfl
  | rwmRawFrameWithCb mac room len cb param =>
    obtain rfl := Option.mem_some_iff.mp hv
    rw [hdone.ret _ rfl]
    show _ ↔ (rawDesc mac room s.world).isSome
    cases hraw : rawDesc mac room s.world with
    | some d => simp
    | none =>
      refine iff_of_false (fun heq => ?_) (by simp)
      have h0 : len = 0 := by simpa using heq.symm
      have := h h0
      rw [hraw] at this
      cases this
  | _ => cases hv

theorem good_step (hs : Sound s) (h : Good s i) :
    ∃ s' o, frames s i = some (s', o) ∧ Right s i s' o ∧ Sound s' := by
  obtain ⟨o, w', hcall, hdone⟩ := call_done hs.inv h.safe
  have hasked : ∀ d ∈ w'.pushed,
      runCallback w' d = some (if d ∈ i.target s.world then i.asks else s.asked d) := by
    intro d hd
    split
    next ht => exact (hdone.asks d ht).mpr (h.clean ht)
    next ht =>
      have hold := (hdone.mem hd).resolve_right ht
      exact (hdone.keeps d hd hold).trans (hs.asked d hold)
  refine ⟨_, o, frames_eq hcall hdone, ⟨hdone.inv.owned, hasked, fun v hv => ?_, ?_⟩,
    ⟨hdone.inv, hasked⟩⟩
  · exact (h.ret hdone hv).trans (hdone.sends_iff hv).symm
  · have hran := hdone.ran
    cases i with
    | txConfirm d =>
      rw [Input.runs] at hran
      rw [Input.confirmed]
      split at hran
      next hd => rw [if_pos hd]; exact Option.some.inj (hran.symm.trans (hs.asked d hd))
      next hd => rw [if_neg hd]; exact (Option.some.inj hran).symm
    | _ => exact (Option.some.inj hran).symm

theorem good_of_right (hs : Sound s) (hstep : frames s i = some (s', o)) (hr : Right s i s' o) :
    Good s i := by
  obtain ⟨r, hcall, heq⟩ := Option.map_eq_some_iff.mp hstep
  cases heq
  have hsafe := safe_of_owned hs.inv hcall hr.owned
  obtain ⟨o, w', hcall', hdone⟩ := call_done hs.inv hsafe
  rw [hcall] at hcall'
  cases hcall'
  cases i with
  | rwmTransfer mac room vifIdx dest len sync args =>
    intro q hq
    obtain ⟨d, hd⟩ := Option.ne_none_iff_exists'.mp (hsafe q hq)
    refine ⟨d, hd, ?_⟩
    by_contra hused
    have htarget : dataDesc mac room s.world vifIdx = some d := by
      rw [dataDesc, Option.mem_def.mp hq]
      exact Mac.txdesc_eq_some.mpr ⟨hd, Bool.not_eq_true _ ▸ hused⟩
    have hret := (hr.ret rwSuccess rfl).mpr
      ((hdone.sends_iff (v := rwSuccess) rfl).mpr (Option.isSome_iff_exists.mpr ⟨d, htarget⟩))
    rw [hdone.ret rwFailure rfl] at hret
    exact absurd hret (by decide)
  | rwmRawFrameWithCb mac room len cb param =>
    rintro rfl
    by_contra hnone
    have hret : o.ret = some 0 := by
      rw [hdone.ret _ rfl, if_neg hnone]
    exact hnone ((hdone.sends_iff (v := 0) rfl).mp ((hr.ret 0 rfl).mp hret))
  | sendBeaconFrame room ret channel ssid ssidLen => exact hsafe
  | coreThread mac room bcnRoom =>
    intro d hd
    refine (hdone.asks d hd).mp ?_
    have hmem : d ∈ w'.pushed := by
      rw [hdone.pushed]
      exact List.mem_append_right _ (Option.mem_toList.mpr hd)
    have hnew : d ∈ w'.pushed.drop s.world.pushed.length := by
      rw [hdone.new]
      exact Option.mem_toList.mpr hd
    exact (hr.asked d hmem).trans (congrArg some (if_pos hnew))
  | _ => trivial

/-! ## All runs -/

theorem sound_boot : Sound boot where
  inv := ⟨Heap.owned_empty, List.nodup_nil, fun _ hd => absurd hd List.not_mem_nil,
    fun _ hd => absurd hd List.not_mem_nil, fun _ hp => absurd hp List.not_mem_nil,
    fun _ hcb => nomatch hcb⟩
  asked := fun _ hd => absurd hd List.not_mem_nil

/-- Every block has one owner in all of a run exactly when each data frame that gets to its queue
finds a descriptor, used or free, and each name fits: whatever the callbacks do. -/
theorem owned_iff (is : List Input) :
    Machine.Steps frames (fun _ _ s' _ => s'.world.heap.Owned s'.world.owners) boot is ↔
      Machine.Legal frames (fun _ i => i.Safe) boot is := by
  refine Machine.all_steps_iff_legal (I := fun s => Inv s.world []) (fun s i hs hsafe => ?_)
    (fun s i s' o hs hstep howned => ?_) sound_boot.inv
  · obtain ⟨o, w', hcall, hdone⟩ := call_done hs hsafe
    exact ⟨_, o, frames_eq hcall hdone, hdone.inv.owned, hdone.inv⟩
  · obtain ⟨r, hcall, heq⟩ := Option.map_eq_some_iff.mp hstep
    cases heq
    exact safe_of_owned hs hcall howned

/-- All steps of a run are right exactly when they are good ones. -/
theorem frames_iff (is : List Input) :
    Machine.Steps frames Right boot is ↔ Machine.Legal frames Good boot is :=
  Machine.all_steps_iff_legal (fun _ _ hs h => good_step hs h)
    (fun _ _ _ _ hs hstep hr => good_of_right hs hstep hr) sound_boot

/-- A name of 33 bytes is refused with its block allocated. -/
theorem not_frames : ¬∀ is, Machine.Steps frames Right boot is := by
  intro h
  obtain ⟨s', o, hstep, hr, -⟩ := h [.sendBeaconFrame true 0 1 (fun _ => 0x41) 33]
  cases hstep
  exact Heap.owned_empty.malloc_lost _ hr.owned

end

end TuyaSdk.RwMsdu
