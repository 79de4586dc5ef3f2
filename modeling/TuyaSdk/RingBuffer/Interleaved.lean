import TuyaSdk.RingBuffer.Fifo

/-!
# One writer and one reader, interleaved

The two sides share the buffer, each makes its calls one after another, and between any two
actions of one side the other may act. In a run in which the reader does not copy from the
start of the cells while the writer is behind its `wp`, everything `rb_read` returns is what
was written, in order.
-/

namespace TuyaSdk.RingBuffer

open Lib

/-- The buffer and the calls under way, with the concatenation of the buffers for which
`rb_write` has returned a length and of the bytes that `rb_read` has returned. -/
structure Sides where
  rb : RbSt
  writer : Option (WriteArgs × Prog Place RbSt Nat)
  reader : Option (Prog Place RbSt (Nat × List Byte))
  written : List Byte
  returned : List Byte

/-- A call, or the next action of a call; it has no effect when the side is not ready. -/
inductive Event where
  | write (a : WriteArgs)
  | read (size count : Nat)
  | writer
  | reader

/-- A writer at the end of its program returns. -/
def Sides.writerReturns (s : Sides) : Sides :=
  match s.writer with
  | some (a, .ret r) =>
    { s with writer := none, written := if r = 0 then s.written else s.written ++ a.buffer }
  | _ => s

/-- A reader at the end of its program returns. -/
def Sides.readerReturns (s : Sides) : Sides :=
  match s.reader with
  | some (.ret r) => { s with reader := none, returned := s.returned ++ r.2 }
  | _ => s

/-- One event. -/
def interleave : Machine Sides Event Unit := fun s e =>
  match e with
  | .write a =>
    match s.writer with
    | none =>
      some (Sides.writerReturns { s with writer := some (a, rbWrite a.buffer a.size a.count) }, ())
    | some _ => some (s, ())
  | .read size count =>
    match s.reader with
    | none => some (Sides.readerReturns { s with reader := some (rbRead size count) }, ())
    | some _ => some (s, ())
  | .writer =>
    match s.writer with
    | none => some (s, ())
    | some (a, p) => (p.step s.rb).map fun r =>
        (Sides.writerReturns { s with rb := r.2, writer := some (a, r.1) }, ())
  | .reader =>
    match s.reader with
    | none => some (s, ())
    | some p => (p.step s.rb).map fun r =>
        (Sides.readerReturns { s with rb := r.2, reader := some r.1 }, ())

/-- Both sides before their first call. -/
def start (addr : Mem) (n : Nat) : Sides := ⟨rbInit addr n, none, none, [], []⟩

/-- The buffer of the call under way. -/
def Sides.current (s : Sides) : List Byte :=
  match s.writer with
  | some (a, _) => a.buffer
  | none => []

/-- The bytes returned are the next ones written, and the bytes of the buffers written that
are not returned are in their cells. -/
def InOrder (s : Sides) : Prop :=
  s.returned <+: s.written ++ s.current ∧
    ∀ i, s.returned.length + i < s.written.length →
      s.written[s.returned.length + i]? = some (s.rb.address (slot s.rb.capacity s.rb.rp i))

/-- The reader does not copy from the start of the cells between the writer's store of `wp`
and its copy of the bytes behind the wrap; and a write is of a size that does not overflow. -/
def Allowed (s : Sides) : Event → Prop
  | .write a => a.size * a.count + 4 < 2 ^ 32
  | .reader => ¬ (s.reader.bind Prog.label = some .fromStart ∧
      (s.writer.bind fun w => w.2.label) = some .behindWp)
  | _ => True

instance : ∀ (s : Sides) (e : Event), Decidable (Allowed s e)
  | _, .write a => inferInstanceAs (Decidable (a.size * a.count + 4 < 2 ^ 32))
  | _, .read _ _ => inferInstanceAs (Decidable True)
  | _, .writer => inferInstanceAs (Decidable True)
  | _, .reader => inferInstanceAs (Decidable (¬ _))

/-! ## The invariant -/

/-- The end of a write that was called after `written`. -/
def WriteEnds (n : Nat) (written : List Byte) (a : WriteArgs) (r : Nat) (y : World) : Prop :=
  Settled n y ∧ y.2.written = if r = 0 then written else written ++ a.buffer

/-- The end of a read that was called when `taken` bytes were returned. -/
def ReadEnds (taken : Nat) (r : Nat × List Byte) (y : World) : Prop :=
  r.2 = (y.2.written.drop taken).take r.2.length ∧ y.2.taken = taken + r.2.length

/-- The writer is between two calls, or keeps its contract. -/
def WriterAt (n : Nat) (s : Sides) (g : Ghost) : Prop :=
  match s.writer with
  | none => Settled n (s.rb, g) ∧ g.written = s.written
  | some (a, p) => p.label ≠ none ∧ g.written <+: s.written ++ a.buffer ∧
      p.Meets (writerContract n (s.written ++ a.buffer)) (WriteEnds n s.written a) (s.rb, g)

/-- The reader is between two calls, or keeps its contract. -/
def ReaderAt (n : Nat) (s : Sides) (g : Ghost) : Prop :=
  match s.reader with
  | none => g.taken = s.returned.length
  | some p => p.label ≠ none ∧
      p.Meets (readerContract n s.returned.length) (ReadEnds s.returned.length) (s.rb, g)

/-- The invariant of the runs. -/
structure Tracks (n : Nat) (s : Sides) (g : Ghost) : Prop where
  stored : Stored n (s.rb, g)
  returned : s.returned <+: g.written
  written : s.written <+: g.written
  done : s.written.length ≤ g.copied
  writer : WriterAt n s g
  reader : ReaderAt n s g

variable {n : Nat} {s : Sides} {g g' : Ghost} {rb : RbSt}

theorem tracks_start (addr : Mem) (n : Nat) : Tracks n (start addr n) ⟨[], 0, 0, 0⟩ where
  stored := stored_init addr n
  returned := List.prefix_rfl
  written := List.prefix_rfl
  done := Nat.le_refl _
  writer := ⟨settled_init addr n, rfl⟩
  reader := rfl

/-- Nothing is taken by the call under way. -/
theorem Tracks.taken (h : Tracks n s g) : g.taken = s.returned.length := by
  have hr := h.reader
  unfold ReaderAt at hr
  split at hr
  · exact hr
  · obtain ⟨hlabel, hmeets⟩ := hr
    obtain ⟨l, hl⟩ := Option.ne_none_iff_exists'.mp hlabel
    exact hmeets.here h.stored hl

theorem Tracks.inOrder (h : Tracks n s g) : InOrder s := by
  constructor
  · refine h.returned.trans ?_
    have hw := h.writer
    unfold WriterAt at hw
    unfold Sides.current
    split at hw
    · rename_i hwr
      rw [hwr, List.append_nil, hw.2]
    · rename_i a p hwr
      rw [hwr]
      exact hw.2.1
  · intro i hi
    obtain ⟨t, ht⟩ := h.written
    have hcell := h.stored.cells i (by
      change g.taken + i < g.copied
      rw [h.taken]
      exact Nat.lt_of_lt_of_le hi h.done)
    change g.written[g.taken + i]? = some (s.rb.address (slot n s.rb.rp i)) at hcell
    rwa [h.taken, ← ht, List.getElem?_append_left hi, ← h.stored.capacity] at hcell

/-! ## Steps -/

theorem ReaderAt.env (h : ReaderAt n s g) (hm : WriterMoves (s.rb, g) (rb, g'))
    {s' : Sides} (hrb : s'.rb = rb) (hr : s'.reader = s.reader) (hret : s'.returned = s.returned) :
    ReaderAt n s' g' := by
  unfold ReaderAt at h ⊢
  rw [hr, hret, hrb]
  split at h
  · exact hm.taken.trans h
  · exact ⟨h.1, h.2.env hm⟩

theorem WriterAt.env (h : WriterAt n s g) (hm : ReaderMoves (s.rb, g) (rb, g'))
    {s' : Sides} (hrb : s'.rb = rb) (hw : s'.writer = s.writer) (hwr : s'.written = s.written) :
    WriterAt n s' g' := by
  unfold WriterAt at h ⊢
  rw [hw, hwr, hrb]
  split at h
  · exact ⟨h.1.env hm, hm.written.trans h.2⟩
  · refine ⟨h.1, ?_, h.2.2.env hm⟩
    rw [show g'.written = g.written from hm.written]
    exact h.2.1

/-- The writer at a program that keeps its contract, returning if this is at its end. -/
theorem Tracks.writerReturns {a : WriteArgs} {p : Prog Place RbSt Nat}
    (hst : Stored n (rb, g)) (hret : s.returned <+: g.written) (hwr : s.written <+: g.written)
    (hdone : s.written.length ≤ g.copied) (htarget : g.written <+: s.written ++ a.buffer)
    (hmeets : p.Meets (writerContract n (s.written ++ a.buffer)) (WriteEnds n s.written a) (rb, g))
    (hreader : ReaderAt n { s with rb := rb, writer := some (a, p) } g) :
    Tracks n (Sides.writerReturns { s with rb := rb, writer := some (a, p) }) g := by
  cases p with
  | act l ok f k => exact ⟨hst, hret, hwr, hdone, ⟨nofun, htarget, hmeets⟩, hreader⟩
  | ret r =>
    obtain ⟨hset, hw⟩ := hmeets.result ⟨hst, htarget⟩
    refine ⟨hst, hret, ?_, ?_, ⟨hset, hw⟩, hreader⟩
    · exact hw ▸ List.prefix_rfl
    · exact Nat.le_of_eq ((congrArg _ hw.symm).trans hset.copied.symm)

/-- The reader at a program that keeps its contract, returning if this is at its end. -/
theorem Tracks.readerReturns {p : Prog Place RbSt (Nat × List Byte)}
    (hst : Stored n (rb, g)) (hret : s.returned <+: g.written) (hwr : s.written <+: g.written)
    (hdone : s.written.length ≤ g.copied)
    (hmeets : p.Meets (readerContract n s.returned.length) (ReadEnds s.returned.length) (rb, g))
    (hwriter : WriterAt n { s with rb := rb, reader := some p } g) :
    Tracks n (Sides.readerReturns { s with rb := rb, reader := some p }) g := by
  cases p with
  | act l ok f k => exact ⟨hst, hret, hwr, hdone, hwriter, ⟨nofun, hmeets⟩⟩
  | ret r =>
    obtain ⟨hbytes, htaken⟩ := hmeets.result hst
    have hend : g.taken = (s.returned ++ r.2).length := by
      rw [List.length_append]
      exact htaken
    refine ⟨hst, ?_, hwr, hdone, hwriter, hend⟩
    change s.returned ++ r.2 <+: g.written
    obtain ⟨t, ht⟩ := hret
    rw [hbytes, ← ht]
    rw [List.drop_left]
    exact (List.prefix_append_right_inj _).mpr (List.take_prefix _ _)

theorem Tracks.step (hn : n < 2 ^ 32) (h : Tracks n s g) {e : Event} (he : Allowed s e) :
    ∃ s' g', interleave s e = some (s', ()) ∧ Tracks n s' g' := by
  cases e with
  | write a =>
    cases hwr : s.writer with
    | some w => exact ⟨s, g, by simp only [interleave, hwr], h⟩
    | none =>
      have hw := h.writer
      rw [WriterAt, hwr] at hw
      obtain ⟨hset, hwritten⟩ := hw
      refine ⟨_, g, by simp only [interleave, hwr]; rfl, ?_⟩
      have htarget : g.written <+: s.written ++ a.buffer := hwritten ▸ List.prefix_append _ _
      apply Tracks.writerReturns h.stored h.returned h.written h.done htarget
      · have hmeets : (rbWrite a.buffer a.size a.count).Meets
            (writerContract n (s.written ++ a.buffer)) (Wrote n (s.rb, g) a.buffer) (s.rb, g) := by
          apply rbWrite_meets hn a.length_eq he hset
          rw [hwritten]
        apply hmeets.mono
        intro r y ⟨hsety, hres⟩
        refine ⟨hsety, ?_⟩
        rcases hres with ⟨hr, hpos, hy⟩ | ⟨hr, hm, _⟩
        · rw [if_neg (Nat.ne_of_gt hpos), hy, ← hwritten]
        · rw [if_pos hr, ← hwritten]
          exact hm.written
      · exact h.reader
  | read size count =>
    cases hrd : s.reader with
    | some p => exact ⟨s, g, by simp only [interleave, hrd], h⟩
    | none =>
      refine ⟨_, g, by simp only [interleave, hrd]; rfl, ?_⟩
      apply Tracks.readerReturns h.stored h.returned h.written h.done
      · have hmeets := rbRead_meets (x := (s.rb, g)) hn size count
        rw [← h.taken]
        apply hmeets.mono
        intro r y ⟨hlen, htaken, hbytes, _⟩
        rw [hlen] at hbytes htaken
        exact ⟨hbytes.symm, htaken⟩
      · exact h.writer
  | writer =>
    cases hwr : s.writer with
    | none => exact ⟨s, g, by simp only [interleave, hwr], h⟩
    | some w =>
      obtain ⟨a, p⟩ := w
      have hw := h.writer
      rw [WriterAt, hwr] at hw
      obtain ⟨hlabel, htarget, hmeets⟩ := hw
      obtain ⟨l, hl⟩ := Option.ne_none_iff_exists'.mp hlabel
      obtain ⟨p', rb', g', hstep, hguar, ⟨hst', htarget'⟩, hmeets'⟩ :=
        hmeets.step ⟨h.stored, htarget⟩ hl trivial
      have hm : WriterMoves (s.rb, g) (rb', g') := hguar
      refine ⟨_, g', by simp only [interleave, hwr, hstep]; rfl, ?_⟩
      apply Tracks.writerReturns hst' (h.returned.trans hm.written) (h.written.trans hm.written)
        (Nat.le_trans h.done hm.copied) htarget' hmeets'
      exact h.reader.env hm rfl rfl rfl
  | reader =>
    cases hrd : s.reader with
    | none => exact ⟨s, g, by simp only [interleave, hrd], h⟩
    | some p =>
      have hr := h.reader
      rw [ReaderAt, hrd] at hr
      obtain ⟨hlabel, hmeets⟩ := hr
      obtain ⟨l, hl⟩ := Option.ne_none_iff_exists'.mp hlabel
      -- at the copy from the start, the writer is not behind
      have hmay : l = .fromStart → g.copied = g.written.length := by
        intro hstart
        have hw := h.writer
        unfold WriterAt at hw
        split at hw
        · exact hw.1.copied
        · rename_i a q hwr
          obtain ⟨hq, htarget, hmeetsq⟩ := hw
          obtain ⟨l', hl'⟩ := Option.ne_none_iff_exists'.mp hq
          apply hmeetsq.here ⟨h.stored, htarget⟩ hl'
          intro hbehind
          apply he
          rw [hrd, hwr]
          exact ⟨hstart ▸ hl, hbehind ▸ hl'⟩
      obtain ⟨p', rb', g', hstep, hguar, hst', hmeets'⟩ := hmeets.step h.stored hl hmay
      have hm : ReaderMoves (s.rb, g) (rb', g') := hguar
      have hwritten : g'.written = g.written := hm.written
      have hcopied : g'.copied = g.copied := hm.copied
      refine ⟨_, g', by simp only [interleave, hrd, hstep]; rfl, ?_⟩
      apply Tracks.readerReturns hst' (hwritten ▸ h.returned) (hwritten ▸ h.written)
        (hcopied ▸ h.done) hmeets'
      exact h.writer.env hm rfl rfl rfl

/-- However the two sides are interleaved within the condition, the bytes returned are the
bytes written, in order. -/
theorem interleaved_in_order (addr : Mem) (hn : n < 2 ^ 32) (es : List Event)
    (hl : Machine.Legal interleave Allowed (start addr n) es) :
    ∃ s outs, Machine.run interleave (start addr n) es = some (s, outs) ∧ InOrder s := by
  obtain ⟨s, outs, hrun, g, h⟩ := Machine.run_total (I := fun s _ => ∃ g, Tracks n s g)
    (fun s _ e h he => by
      obtain ⟨g, h⟩ := h
      obtain ⟨s', g', hstep, h'⟩ := h.step hn he
      exact ⟨s', (), hstep, g', h'⟩)
    ⟨_, tracks_start addr n⟩ hl
  exact ⟨s, outs, hrun, h.inOrder⟩

/-- A write of six bytes, its read, and a write of six more that wraps; a read is made when
the second write has stored `wp`. -/
def overtaking : List Event :=
  [Event.write ⟨[1, 2, 3, 4, 5, 6], 6, 1, rfl⟩] ++ List.replicate 8 Event.writer ++
    [Event.read 6 1] ++ List.replicate 6 Event.reader ++
    [Event.write ⟨[7, 8, 9, 10, 11, 12], 6, 1, rfl⟩] ++ List.replicate 7 Event.writer ++
    [Event.read 6 1] ++ List.replicate 5 Event.reader

/-- The same, with the reader's last copy after the writer's. -/
theorem overtaking_in_order : ∃ s outs,
    Machine.run interleave (start (fun _ => 0) 10)
      (overtaking ++ [.writer, .writer, .reader, .writer, .reader]) = some (s, outs) ∧ InOrder s :=
  interleaved_in_order _ (by decide) _ (Machine.legal_of_check (by decide +kernel))

/-- A reader that copies from the start before the writer has done so returns bytes of the
first write in the place of the last two of the second. -/
theorem overtaking_returns_old_bytes :
    ¬ ∀ (addr : Mem) (n : Nat) (es : List Event) (s : Sides) (outs : List Unit), n < 2 ^ 32 →
      Machine.run interleave (start addr n) es = some (s, outs) → InOrder s := by
  intro h
  have hrun : (Machine.run interleave (start (fun _ => 0) 10)
      (overtaking ++ [.reader, .reader])).any
      (fun r => !decide (r.1.returned <+: r.1.written ++ r.1.current)) = true := by
    decide +kernel
  obtain ⟨⟨s, outs⟩, hr, hnot⟩ := (Option.any_eq_true _ _).mp hrun
  have hin := h _ _ _ s outs (by decide) hr
  rw [decide_eq_true hin.1] at hnot
  cases hnot

end TuyaSdk.RingBuffer
