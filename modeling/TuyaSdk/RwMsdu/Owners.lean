import TuyaSdk.RwMsdu.Defs

/-!
# The owners of the blocks

A block belongs to the function that runs, to a message of the queue, or to a descriptor that the
MAC has not confirmed. `Inv w held` says so of all allocated blocks, with those in `held` for the
function that runs; each operation moves a block from one owner to another (`Moves`), and the
functions are put together from them.
-/

namespace TuyaSdk.RwMsdu

open Lib

/-- The nodes that the pushed descriptors refer to, and the blocks in the queue. -/
def World.owners (w : World) : List Nat :=
  w.pushed.filterMap (fun d => (w.desc d).host.msduNode) ++ w.ioQueue.map Msg.block

structure Inv (w : World) (held : List Nat) : Prop where
  owned : w.heap.Owned (held ++ w.owners)
  nodup : w.pushed.Nodup
  used : ∀ d ∈ w.pushed, (w.desc d).used = true
  node : ∀ d ∈ w.pushed, ∃ p len info,
    (w.desc d).host.msduNode = some p ∧ w.heap.block p = some (.node len info)
  bcn : ∀ p, .txBcn p ∈ w.ioQueue → ∃ channel ssid, w.heap.block p = some (.bcnParam channel ssid)
  own : ∀ d, (w.desc d).host.callback = some .ieee80211DataTxCb → (w.desc d).host.param = .txdesc d

/-- From `w` to `w'` a frame goes to the descriptor `target`, if there is one, and what the
callbacks of the other pushed descriptors do stays; the blocks `held` are left to the function. -/
structure Moves (w w' : World) (held : List Nat) (target : Option Nat) : Prop where
  inv : Inv w' held
  pushed : w'.pushed = w.pushed ++ target.toList
  keeps : ∀ c ∈ w.pushed, runCallback w' c = runCallback w c

section

variable {w w₁ w' : World} {held held₁ : List Nat} {p d : Nat} {b : Block} {host : HostDesc}
  {target : Option Nat}

theorem World.push_desc (w : World) (d : Nat) (host : HostDesc) :
    (w.push d host).desc d = ⟨true, host⟩ := Function.update_self ..

theorem Moves.trans (h₁ : Moves w w₁ held₁ none) (h₂ : Moves w₁ w' held target) :
    Moves w w' held target where
  inv := h₂.inv
  pushed := by rw [h₂.pushed, h₁.pushed, Option.toList_none, List.append_nil]
  keeps := by
    intro c hc
    have hc₁ : c ∈ w₁.pushed := by
      rw [h₁.pushed]
      exact List.mem_append_left _ hc
    exact (h₂.keeps c hc₁).trans (h₁.keeps c hc)

theorem Moves.then (h₁ : Moves w w₁ held₁ target) (h₂ : Moves w₁ w' held none) :
    Moves w w' held target where
  inv := h₂.inv
  pushed := by rw [h₂.pushed, h₁.pushed, Option.toList_none, List.append_nil]
  keeps := by
    intro c hc
    have hc₁ : c ∈ w₁.pushed := by
      rw [h₁.pushed]
      exact List.mem_append_left _ hc
    exact (h₂.keeps c hc₁).trans (h₁.keeps c hc)

theorem Inv.refl (h : Inv w held) : Moves w w held none :=
  ⟨h, (List.append_nil _).symm, fun _ _ => rfl⟩

/-- A callback depends on its own descriptor and on the node of it. -/
theorem runCallback_congr
    (hown : (w.desc d).host.callback = some .ieee80211DataTxCb → (w.desc d).host.param = .txdesc d)
    (hdesc : w'.desc d = w.desc d)
    (hblock : ∀ p, (w.desc d).host.msduNode = some p → w'.heap.block p = w.heap.block p) :
    runCallback w' d = runCallback w d := by
  unfold runCallback
  rw [hdesc]
  cases hcb : (w.desc d).host.callback with
  | none => rfl
  | some cb =>
    cases cb with
    | user cb => rfl
    | ieee80211DataTxCb =>
      simp only [hown hcb]
      unfold ieee80211DataTxCb
      rw [hdesc]
      cases hnode : (w.desc d).host.msduNode with
      | none => rfl
      | some p => simp only [hblock p hnode]

theorem runCallback_none_iff :
    runCallback w d = some none ↔ (w.desc d).host.callback = none := by
  unfold runCallback
  cases (w.desc d).host.callback with
  | none => exact iff_of_true rfl rfl
  | some cb =>
    refine iff_of_false (fun h => ?_) (Option.some_ne_none _)
    cases cb with
    | user cb => cases h
    | ieee80211DataTxCb =>
      cases hparam : (w.desc d).host.param with
      | user param =>
        rw [hparam] at h
        cases h
      | txdesc d' =>
        simp only [hparam, Option.map_eq_some_iff] at h
        obtain ⟨ran, -, hran⟩ := h
        cases hran

theorem runCallback_signal {len : BitVec 32} {info : Option TxInfo}
    (hcb : (w.desc d).host.callback = some .ieee80211DataTxCb)
    (hparam : (w.desc d).host.param = .txdesc d) (hnode : (w.desc d).host.msduNode = some p)
    (hb : w.heap.block p = some (.node len info)) :
    runCallback w d = some (some (.signal (info.map TxInfo.args))) := by
  simp only [runCallback, hcb, hparam, ieee80211DataTxCb, hnode, hb]
  rfl

/-- The callback of a pushed descriptor finds what it needs. -/
theorem Inv.callback_isSome (h : Inv w held) (hd : d ∈ w.pushed) : (runCallback w d).isSome := by
  obtain ⟨p, len, info, hp, hb⟩ := h.node d hd
  cases hcb : (w.desc d).host.callback with
  | none => rw [runCallback_none_iff.mpr hcb]; rfl
  | some cb =>
    cases cb with
    | user cb => rw [runCallback, hcb]; rfl
    | ieee80211DataTxCb => rw [runCallback_signal hcb (h.own d hcb) hp hb]; rfl

/-! ## A block changes its owner -/

/-- The owned blocks keep what is in them. -/
theorem Inv.of_blocks (h : Inv w held) {heap : Heap Block} (howned : heap.Owned (held₁ ++ w.owners))
    (hblock : ∀ q ∈ w.owners, heap.block q = w.heap.block q) :
    Moves w { w with heap := heap } held₁ none := by
  have hnode : ∀ d ∈ w.pushed, ∀ p, (w.desc d).host.msduNode = some p →
      heap.block p = w.heap.block p := fun d hd p hp =>
    hblock p (List.mem_append_left _ (List.mem_filterMap.mpr ⟨d, hd, hp⟩))
  refine ⟨⟨howned, h.nodup, h.used, fun d hd => ?_, fun p hp => ?_, h.own⟩,
    (List.append_nil _).symm, fun c hc => runCallback_congr (h.own c) rfl (hnode c hc)⟩
  · obtain ⟨p, len, info, hp, hb⟩ := h.node d hd
    exact ⟨p, len, info, hp, (hnode d hd p hp).trans hb⟩
  · obtain ⟨channel, ssid, hb⟩ := h.bcn p hp
    refine ⟨channel, ssid, (hblock p ?_).trans hb⟩
    exact List.mem_append_right _ (List.mem_map.mpr ⟨_, hp, rfl⟩)

theorem Inv.malloc (h : Inv w held) (b : Block) :
    Moves w { w with heap := w.heap.malloc b } (w.heap.next :: held) none :=
  h.of_blocks (h.owned.malloc b) fun _ hq =>
    Heap.block_malloc_live ((h.owned.live _).mpr (List.mem_append_right _ hq))

theorem Inv.ne_held (h : Inv w (p :: held)) {q : Nat} (hq : q ∈ w.owners) : q ≠ p := by
  rintro rfl
  exact (List.nodup_cons.mp h.owned.nodup).1 (List.mem_append_right _ hq)

theorem World.osFree_eq {heap : Heap Block} (hfree : w.heap.free p = some heap) :
    w.osFree p = some { w with heap := heap } := by
  rw [World.osFree, hfree]
  rfl

theorem Inv.free (h : Inv w (p :: held)) : ∃ heap, w.heap.free p = some heap ∧
    Moves w { w with heap := heap } held none := by
  obtain ⟨heap, hfree, howned, hblock⟩ := h.owned.free
  exact ⟨heap, hfree, h.of_blocks howned fun q hq => hblock q (h.ne_held hq)⟩

theorem Inv.store (h : Inv w (p :: held)) (b : Block) :
    ∃ heap, w.store p b = some { w with heap := heap } ∧
      Moves w { w with heap := heap } (p :: held) none ∧ heap.block p = some b := by
  obtain ⟨heap, hstore, howned, hb, hblock⟩ := h.owned.store List.mem_cons_self b
  refine ⟨heap, ?_, h.of_blocks howned fun q hq => hblock q (h.ne_held hq), hb⟩
  rw [World.store, hstore]
  rfl

theorem perm_front (l₁ l₂ l₃ : List Nat) (p : Nat) :
    (l₁ ++ (l₂ ++ p :: l₃)).Perm (p :: (l₁ ++ (l₂ ++ l₃))) := by
  rw [← List.append_assoc, ← List.append_assoc]
  exact List.perm_middle

/-- A node goes to a descriptor. -/
theorem Inv.push (h : Inv w (p :: held)) {len : BitVec 32} {info : Option TxInfo}
    (hb : w.heap.block p = some (.node len info)) (hd : (w.desc d).used = false)
    (hnode : host.msduNode = some p)
    (hown : host.callback = some .ieee80211DataTxCb → host.param = .txdesc d) :
    Moves w (w.push d host) held (some d) := by
  have hne : ∀ c ∈ w.pushed, c ≠ d := by
    rintro c hc rfl
    rw [h.used c hc] at hd
    exact Bool.noConfusion hd
  have hold : ∀ c ∈ w.pushed, (w.push d host).desc c = w.desc c := fun c hc =>
    Function.update_of_ne (hne c hc) ..
  have hnew := w.push_desc d host
  have hmem : ∀ c ∈ w.pushed ++ [d], c ∈ w.pushed ∨ c = d := fun c hc =>
    (List.mem_append.mp hc).imp_right List.mem_singleton.mp
  have howners : (p :: (held ++ w.owners)).Perm (held ++ (w.push d host).owners) := by
    have hnodes : (w.push d host).owners =
        w.pushed.filterMap (fun c => (w.desc c).host.msduNode) ++ p :: w.ioQueue.map Msg.block := by
      have hcongr := List.filterMap_congr fun c hc =>
        congrArg (fun t : Txdesc => t.host.msduNode) (hold c hc)
      have hlast : [d].filterMap (fun c => ((w.push d host).desc c).host.msduNode) = [p] := by
        simp only [List.filterMap_cons, hnew, hnode, List.filterMap_nil]
      show (w.pushed ++ [d]).filterMap _ ++ _ = _
      rw [List.filterMap_append, hcongr, hlast, List.append_assoc]
      rfl
    rw [hnodes]
    exact (perm_front held _ _ p).symm
  refine ⟨⟨h.owned.perm howners, ?_, fun c hc => ?_, fun c hc => ?_, h.bcn, fun c hc => ?_⟩, rfl,
    fun c hc => runCallback_congr (h.own c) (hold c hc) fun _ _ => rfl⟩
  · exact List.nodup_append.mpr ⟨h.nodup, List.nodup_singleton d, fun a ha c hc =>
      List.mem_singleton.mp hc ▸ hne a ha⟩
  · rcases hmem c hc with hc | rfl
    · rw [hold c hc]
      exact h.used c hc
    · rw [hnew]
  · rcases hmem c hc with hc | rfl
    · rw [hold c hc]
      exact h.node c hc
    · rw [hnew]
      exact ⟨p, len, info, hnode, hb⟩
  · by_cases hcd : c = d
    · subst hcd
      rw [hnew] at hc ⊢
      exact hown hc
    · have hsame : (w.push d host).desc c = w.desc c := Function.update_of_ne hcd ..
      rw [hsame] at hc ⊢
      exact h.own c hc

/-- The core thread takes over the block of a message. -/
theorem Inv.pop (h : Inv w held) {msg : Msg} {msgs : List Msg} (hq : w.ioQueue = msg :: msgs) :
    Moves w { w with ioQueue := msgs } (msg.block :: held) none := by
  refine ⟨⟨h.owned.perm ?_, h.nodup, h.used, h.node, fun p hp => h.bcn p ?_, h.own⟩,
    (List.append_nil _).symm, fun _ _ => rfl⟩
  · unfold World.owners
    rw [hq, List.map_cons]
    exact perm_front held _ _ msg.block
  · rw [hq]
    exact List.mem_cons_of_mem _ hp

/-- A block goes with a message. -/
theorem Inv.enqueue {msg : Msg} (h : Inv w (msg.block :: held))
    (hbcn : ∀ p, msg = .txBcn p → ∃ channel ssid, w.heap.block p = some (.bcnParam channel ssid)) :
    Moves w { w with ioQueue := w.ioQueue ++ [msg] } held none := by
  refine ⟨⟨h.owned.perm ?_, h.nodup, h.used, h.node, fun p hp => ?_, h.own⟩,
    (List.append_nil _).symm, fun _ _ => rfl⟩
  · have hfront := perm_front held w.owners [] msg.block
    have howners : ({ w with ioQueue := w.ioQueue ++ [msg] } : World).owners =
        w.owners ++ [msg.block] := by
      unfold World.owners
      rw [List.map_append, List.map_singleton, List.append_assoc]
    rw [List.append_nil] at hfront
    rw [howners]
    exact hfront.symm
  · rcases List.mem_append.mp hp with hp | hp
    · exact h.bcn p hp
    · exact hbcn p (List.mem_singleton.mp hp).symm

/-- The MAC gives a descriptor back with its node. -/
theorem Inv.unpush (h : Inv w held) (hd : d ∈ w.pushed) (hp : (w.desc d).host.msduNode = some p) :
    Inv { w with pushed := w.pushed.erase d } (p :: held) := by
  refine ⟨h.owned.perm ?_, h.nodup.erase d, fun c hc => h.used c (List.mem_of_mem_erase hc),
    fun c hc => h.node c (List.mem_of_mem_erase hc), h.bcn, h.own⟩
  have hnodes := (List.perm_cons_erase hd).filterMap fun c => (w.desc c).host.msduNode
  rw [List.filterMap_cons, hp] at hnodes
  exact ((hnodes.append_right _).append_left held).trans List.perm_middle

/-- A descriptor that is not pushed changes. -/
theorem Inv.setDesc (h : Inv w held) (hd : d ∉ w.pushed) {t : Txdesc}
    (hown : t.host.callback = some .ieee80211DataTxCb → t.host.param = .txdesc d) :
    Moves w { w with desc := Function.update w.desc d t } held none := by
  have hold : ∀ c ∈ w.pushed, Function.update w.desc d t c = w.desc c := fun c hc =>
    Function.update_of_ne (ne_of_mem_of_not_mem hc hd) ..
  have howners : ({ w with desc := Function.update w.desc d t } : World).owners = w.owners :=
    congrArg (· ++ _) (List.filterMap_congr fun c hc =>
      congrArg (fun t : Txdesc => t.host.msduNode) (hold c hc))
  refine ⟨⟨?_, h.nodup, fun c hc => ?_, fun c hc => ?_, h.bcn, fun c hc => ?_⟩,
    (List.append_nil _).symm, fun c hc => runCallback_congr (h.own c) (hold c hc) fun _ _ => rfl⟩
  · rw [howners]
    exact h.owned
  · show (Function.update w.desc d t c).used = true
    rw [hold c hc]
    exact h.used c hc
  · show ∃ p len info, (Function.update w.desc d t c).host.msduNode = _ ∧ _
    rw [hold c hc]
    exact h.node c hc
  · change (Function.update w.desc d t c).host.callback = _ at hc
    show (Function.update w.desc d t c).host.param = _
    by_cases hcd : c = d
    · subst hcd
      rw [Function.update_self] at hc ⊢
      exact hown hc
    · rw [Function.update_of_ne hcd] at hc ⊢
      exact h.own c hc

end

end TuyaSdk.RwMsdu
