import TuyaSdk.I2c1.Transfer

/-!
# Runs of calls, bytes and time-outs

A call may give up at any moment. As long as its transfer has no byte on the bus after it has
returned, and no call begins before the transfer is over, each step keeps the invariant: the
transfer of a running call is at a stage or over, and without an error it is complete.
-/

namespace TuyaSdk.I2c1
open TuyaSdk.Lib

variable {c : Call} {s s' : State} {e : Event} {o : Option Nat} {os : List (Option Nat)}

/-! ## What the calls promise -/

/-- What a step promises: the bus has carried a part of the sequence of a running call; a call
that returns 0 has had the whole of it; and only bytes of the buffer of a running call are
touched, and changed only by a read. -/
structure Sound (s s' : State) (o : Option Nat) : Prop where
  carried : ∀ c, s'.task.running = some c → Partial (c.trace (c.data s'.dev.mem)) s'.log
  complete : o = some 0 → ∃ c, s.task.running = some c ∧ s.log = c.trace (c.data s.dev.mem)
  inside : (s'.dev.touched = s.dev.touched ∧ s'.dev.mem = s.dev.mem) ∨
    ∃ c, s.task.running = some c ∧ Inside c s.dev s'.dev

/-- The calls are proper. -/
def Event.Proper : Event → Prop
  | .enter c => c.Ok
  | _ => True

/-- The byte on the bus is the slave address of a repeated start. -/
def State.Again (s : State) : Prop :=
  s.dev.msg.txMode = false ∧ s.dev.config.sta = true ∧ s.dev.msg.addrFlag &&& 0x10 ≠ 0

/-- A call reads a clear done flag and starts a free bus; a byte passes while its call runs; the
slave address of a repeated start is acknowledged. -/
def Undisturbed (s : State) : Event → Prop
  | .enter _ => s.dev.msg.transDone = false
  | .begin => s.busy = false
  | .byte ack _ => s.task.running.isSome = true ∧ (s.Again → ack = true)
  | _ => True

instance (c : Call) : Decidable c.Ok :=
  decidable_of_iff (0 < c.count ∧ c.count < 2 ^ 16 ∧ c.salveId < 0x80 ∧
    (c.addrWidth = ADDR_WIDTH_8 ∨ c.addrWidth = ADDR_WIDTH_16))
    ⟨fun ⟨h1, h2, h3, h4⟩ => ⟨h1, h2, h3, h4⟩, fun ⟨h1, h2, h3, h4⟩ => ⟨h1, h2, h3, h4⟩⟩

instance (e : Event) : Decidable e.Proper := by
  cases e <;> unfold Event.Proper <;> infer_instance

instance (s : State) : Decidable s.Again := by
  unfold State.Again
  infer_instance

instance (s : State) (e : Event) : Decidable (Undisturbed s e) := by
  cases e <;> unfold Undisturbed <;> infer_instance

/-! ## The invariant -/

/-- The transfer of a call that is behind its wait loop has ended, or the call has given up. -/
def Left (c : Call) (s : State) : Prop :=
  c.Ok ∧ ((∃ st, Going c s st) ∧ s.dev.msg.errorNo ≠ 0 ∨ Over c s)

/-- The transfer of the call that runs. -/
def Inv (s : State) : Prop :=
  match s.task with
  | .idle => True
  | .entered c => c.Ok
  | .waiting c => c.Ok ∧ ((∃ st, Going c s st) ∨ Over c s ∧ s.dev.msg.transDone = true)
  | .leaving c => Left c s
  | .returning c => Left c s

/-- What the bus has carried at a stage. -/
theorem Going.carried {st : Stage} (h : Going c s st) :
    Partial (c.trace (c.data s.dev.mem)) s.log := by
  refine Or.inl ?_
  cases hst : st.sends with
  | true =>
    refine List.IsPrefix.trans ?_ (h.sending hst)
    split_ifs
    · rw [List.append_assoc]
      exact List.prefix_append _ _
    · exact List.prefix_append _ _
  | false =>
    cases st with
    | read k =>
      obtain ⟨htx, hk, hlog⟩ := h.passed
      have hsplit : k + (c.count - k) = c.count := Nat.add_sub_cancel' (Nat.le_of_lt hk)
      have hne : readBytes s.dev.mem (c.userBuf + k) (c.count - k) ≠ [] := by
        intro hnil
        have hlen := congrArg List.length hnil
        rw [length_readBytes, List.length_nil] at hlen
        omega
      unfold Call.data
      rw [hlog, Call.trace_read htx, ← hsplit, readBytes_add, List.append_assoc]
      exact (List.prefix_append_right_inj _).mpr
        ((prefix_receivedItems _ hne).trans (List.prefix_append _ _))
    | _ => cases hst

/-- The slave address of the repeated start is on the bus at its stage only. -/
theorem Going.again_of {st : Stage} (h : Going c s st) (hst : st = .again) : s.Again := by
  subst hst
  obtain ⟨htx, -⟩ := h.passed
  refine ⟨h.txMode.trans htx, h.sta, ?_⟩
  rw [show s.dev.msg.addrFlag = 0x1B from h.flag]
  decide

/-- The start of a transfer. -/
theorem going_start (hok : c.Ok) (s : State) :
    Going c { s with dev := start s.dev c, busy := true, log := [], task := .waiting c } .slave :=
  ⟨rfl, rfl, rfl, rfl, rfl, rfl, Nat.mod_eq_of_lt hok.fits, rfl, Nat.zero_le _, rfl, rfl, rfl,
    rfl, rfl⟩

/-- A byte of a running call. -/
theorem inv_byte (h : Inv s) {ack : Bool} {b : Byte} (hbusy : s.busy = true)
    (hu : Undisturbed s (.byte ack b)) : Inv (s.byte ack b) ∧ Sound s (s.byte ack b) none := by
  obtain ⟨hrun, hagain⟩ := hu
  have hfinish : ∀ c, s.task.running = some c → After c s (s.byte ack b) →
      Sound s (s.byte ack b) none := by
    intro c hc ha
    refine ⟨fun c' hc' => ?_, fun h0 => (nomatch h0), Or.inr ⟨c, hc, ha.inside⟩⟩
    rw [ha.task, hc] at hc'
    cases hc'
    rcases ha.goes with ⟨st, hg⟩ | ⟨hover, -⟩
    · exact hg.carried
    · exact hover.carried
  have hleft : ∀ c, s.task.running = some c → Left c s →
      Left c (s.byte ack b) ∧ Sound s (s.byte ack b) none := by
    intro c hc ⟨hok, hgoes⟩
    rcases hgoes with ⟨⟨st, hg⟩, herr⟩ | hover
    · have ha := hg.byte hok ack b fun heq => hagain (hg.again_of heq)
      refine ⟨⟨hok, ?_⟩, hfinish c hc ha⟩
      rcases ha.goes with hg' | ⟨hover, -⟩
      · exact Or.inl ⟨hg', ha.errorNo herr⟩
      · exact Or.inr hover
    · rw [hover.busy] at hbusy
      cases hbusy
  have htask : (s.byte ack b).task = s.task := by
    simp only [State.byte]
    split_ifs <;> rfl
  unfold Inv at h ⊢
  rw [htask]
  cases ht : s.task with
  | idle =>
    rw [ht] at hrun
    cases hrun
  | entered c =>
    rw [ht] at hrun
    cases hrun
  | waiting c =>
    rw [ht] at h
    obtain ⟨hok, ⟨st, hg⟩ | ⟨hover, -⟩⟩ := h
    · have ha := hg.byte hok ack b fun heq => hagain (hg.again_of heq)
      exact ⟨⟨hok, ha.goes⟩, hfinish c (by rw [ht]; rfl) ha⟩
    · rw [hover.busy] at hbusy
      cases hbusy
  | leaving c =>
    rw [ht] at h
    exact hleft c (by rw [ht]; rfl) h
  | returning c =>
    rw [ht] at h
    exact hleft c (by rw [ht]; rfl) h

/-- A step of the caller that leaves the bus and the memory alone. -/
theorem Sound.of_same (hlog : s'.log = s.log) (ht : s'.dev.touched = s.dev.touched)
    (hm : s'.dev.mem = s.dev.mem)
    (hc : ∀ c, s'.task.running = some c → Partial (c.trace (c.data s.dev.mem)) s.log)
    (ho : o = some 0 → ∃ c, s.task.running = some c ∧ s.log = c.trace (c.data s.dev.mem)) :
    Sound s s' o := by
  refine ⟨fun c hrun => ?_, ho, Or.inl ⟨ht, hm⟩⟩
  rw [hlog, hm]
  exact hc c hrun

theorem Left.carried (h : Left c s) : Partial (c.trace (c.data s.dev.mem)) s.log := by
  obtain ⟨-, ⟨⟨st, hg⟩, -⟩ | hover⟩ := h
  · exact hg.carried
  · exact hover.carried

/-- The wait loop reads the done flag. -/
theorem inv_poll (hok : c.Ok) (h : (∃ st, Going c s st) ∨ Over c s ∧ s.dev.msg.transDone = true)
    {timeOver : Bool} (ht : s.task = .waiting c) (hs : step s (.poll timeOver) = some (s', o)) :
    Inv s' ∧ Sound s s' o := by
  have hcarried : Partial (c.trace (c.data s.dev.mem)) s.log := by
    rcases h with ⟨st, hg⟩ | ⟨hover, -⟩
    · exact hg.carried
    · exact hover.carried
  have hkeep : ∀ c', some c = some c' → Partial (c'.trace (c'.data s.dev.mem)) s.log := by
    intro c' hc
    cases hc
    exact hcarried
  simp only [step, ht] at hs
  split_ifs at hs with hdone hover
  · cases hs
    have hleft : Over c s := by
      rcases h with ⟨st, hg⟩ | ⟨hover, -⟩
      · rw [hg.transDone] at hdone
        cases hdone
      · exact hover
    exact ⟨⟨hok, Or.inr ⟨hleft.busy, hleft.carried, hleft.complete⟩⟩,
      .of_same rfl rfl rfl hkeep fun h0 => nomatch h0⟩
  · cases hs
    obtain ⟨st, hg⟩ := h.resolve_right fun hover => hdone hover.2
    refine ⟨⟨hok, Or.inl ⟨⟨st, hg.busy, hg.transDone, hg.regAddr, hg.salveId, hg.addrWidth,
      hg.txMode, hg.remainNum, hg.pData, hg.moved_le, hg.flag, hg.sta, hg.sends, hg.passed⟩,
      Nat.one_ne_zero⟩⟩, .of_same rfl rfl rfl hkeep fun h0 => nomatch h0⟩
  · cases hs
    refine ⟨?_, .of_same rfl rfl rfl (by rw [ht]; exact hkeep) fun h0 => nomatch h0⟩
    unfold Inv
    rw [ht]
    exact ⟨hok, h⟩

/-- A step of an undisturbed run. -/
theorem inv_step (h : Inv s) (hp : e.Proper) (hu : Undisturbed s e)
    (hs : step s e = some (s', o)) : Inv s' ∧ Sound s s' o := by
  cases e with
  | byte ack b =>
    simp only [step] at hs
    split_ifs at hs with hbusy
    cases hs
    exact inv_byte h hbusy hu
  | enter c =>
    cases ht : s.task with
    | idle =>
      have hclear : s.dev.msg.transDone = false := hu
      simp only [step, ht, hclear] at hs
      cases hs
      exact ⟨hp, .of_same rfl rfl rfl (fun c' hc => nomatch hc) fun h0 => nomatch h0⟩
    | _ => simp only [step, ht, reduceCtorEq] at hs
  | begin =>
    cases ht : s.task with
    | entered c =>
      unfold Inv at h
      rw [ht] at h
      simp only [step, ht] at hs
      cases hs
      refine ⟨⟨h, Or.inl ⟨.slave, going_start h s⟩⟩, fun c' hc => ?_, (fun h0 => nomatch h0), ?_⟩
      · exact Or.inl List.nil_prefix
      · exact Or.inl ⟨rfl, rfl⟩
    | _ => simp only [step, ht, reduceCtorEq] at hs
  | poll timeOver =>
    cases ht : s.task with
    | waiting c =>
      unfold Inv at h
      rw [ht] at h
      exact inv_poll h.1 h.2 ht hs
    | _ => simp only [step, ht, reduceCtorEq] at hs
  | clear =>
    cases ht : s.task with
    | leaving c =>
      unfold Inv at h
      rw [ht] at h
      simp only [step, ht] at hs
      cases hs
      have hcarried := h.carried
      obtain ⟨hok, hgoes⟩ := h
      refine ⟨⟨hok, ?_⟩, .of_same rfl rfl rfl (fun c' hc => ?_) fun h0 => nomatch h0⟩
      · rcases hgoes with ⟨⟨st, hg⟩, herr⟩ | hover
        · exact Or.inl ⟨⟨st, hg.busy, rfl, hg.regAddr, hg.salveId, hg.addrWidth, hg.txMode,
            hg.remainNum, hg.pData, hg.moved_le, hg.flag, hg.sta, hg.sends, hg.passed⟩, herr⟩
        · exact Or.inr ⟨hover.busy, hover.carried, hover.complete⟩
      · cases hc
        exact hcarried
    | _ => simp only [step, ht, reduceCtorEq] at hs
  | ret =>
    cases ht : s.task with
    | returning c =>
      unfold Inv at h
      rw [ht] at h
      simp only [step, ht] at hs
      cases hs
      refine ⟨trivial, .of_same rfl rfl rfl (fun c' hc => nomatch hc) fun h0 => ?_⟩
      have herr : s.dev.msg.errorNo = 0 := Option.some.inj h0
      obtain ⟨-, ⟨-, hne⟩ | hover⟩ := h
      · exact absurd herr hne
      · exact ⟨c, by rw [ht]; rfl, hover.complete herr⟩
    | _ => simp only [step, ht, reduceCtorEq] at hs

/-- Every step of an undisturbed run keeps what the calls promise. -/
theorem i2c1_sound (mem : Mem) {es : List Event}
    (hl : Machine.Legal step (fun s e => e.Proper ∧ Undisturbed s e) (i2c1Init mem) es) (n : Nat)
    (hr : Machine.run step (i2c1Init mem) (es.take n) = some (s, os)) (he : es[n]? = some e)
    (hs : step s e = some (s', o)) : Sound s s' o := by
  have hinv : Inv s := Machine.always_of_legal (fun s e s' o h hok hs =>
    (inv_step h hok.1 hok.2 hs).1) (show Inv (i2c1Init mem) from trivial) hl n hr
  obtain ⟨hn, rfl⟩ := List.getElem?_eq_some_iff.mp he
  rw [← List.take_append_drop n es, ← List.getElem_cons_drop hn] at hl
  obtain ⟨hp, hu⟩ := (hl.append hr).1
  exact (inv_step hinv hp hu hs).2

/-- A read of two bytes at register `0x10` of slave `0x50`. -/
def readTwo : Call := ⟨false, 0x1000, 2, ADDR_WIDTH_8, 0x50, 0x10⟩

/-- The read up to the end of its wait loop, with the slave's answer to the slave address of the
repeated start, and the bytes that follow. -/
def readTwoEvents (again : Bool) (bytes : List Byte) : List Event :=
  [Event.enter readTwo, Event.begin, Event.byte true 0, Event.byte true 0, Event.byte again 0] ++
    bytes.map (Event.byte true) ++ [Event.poll false, Event.clear, Event.ret]

/-- The read that succeeds: its return, as the last of its ten events. -/
theorem i2c1_sound_readTwo :
    ∃ s os s' o, Machine.run step (i2c1Init fun _ => 0)
        ((readTwoEvents true [0x12, 0x34]).take 9) = some (s, os) ∧
      step s .ret = some (s', o) ∧ Sound s s' o := by
  have hsome : ((Machine.run step (i2c1Init fun _ => 0)
      ((readTwoEvents true [0x12, 0x34]).take 9)).bind fun r => step r.1 .ret).isSome = true := rfl
  obtain ⟨⟨s', o⟩, hboth⟩ := Option.isSome_iff_exists.mp hsome
  obtain ⟨⟨s, os⟩, hr, hs⟩ := Option.bind_eq_some_iff.mp hboth
  exact ⟨s, os, s', o, hr, hs, i2c1_sound (fun _ => 0) (by decide) 9 hr rfl hs⟩

/-- A read whose slave does not acknowledge the slave address of the repeated start returns 0. -/
theorem not_forall_sound :
    ¬∀ mem es, Machine.Legal step (fun _ e => e.Proper) (i2c1Init mem) es →
      ∀ n s os e s' o, Machine.run step (i2c1Init mem) (es.take n) = some (s, os) →
        es[n]? = some e → step s e = some (s', o) → Sound s s' o := by
  intro h
  have hsome : (Machine.run step (i2c1Init fun _ => 0) ((readTwoEvents false []).take 7)).isSome =
      true := rfl
  obtain ⟨⟨s, os⟩, hr⟩ := Option.isSome_iff_exists.mp hsome
  have htask : s.task = .returning readTwo :=
    (Option.some.inj (congrArg (Option.map fun r => r.1.task) hr)).symm
  have hlog : s.log.length = 6 :=
    (Option.some.inj (congrArg (Option.map fun r => r.1.log.length) hr)).symm
  have herr : s.dev.msg.errorNo = 0 :=
    (Option.some.inj (congrArg (Option.map fun r => r.1.dev.msg.errorNo) hr)).symm
  have hs : step s .ret = some ({ s with task := .idle }, some 0) := by
    simp only [step, htask, herr]
  obtain ⟨c, hc, htrace⟩ :=
    (h (fun _ => 0) (readTwoEvents false []) (by decide) 7 s os .ret _ _ hr rfl hs).complete rfl
  rw [htask] at hc
  cases hc
  have hlen := congrArg List.length htrace
  rw [hlog, Call.trace_read rfl] at hlen
  simp [Call.again, Call.head, Call.addrBytes, Call.data, sentItems, receivedItems, readTwo,
    ADDR_WIDTH_8, ADDR_WIDTH_16, readBytes] at hlen

end TuyaSdk.I2c1
