import TuyaSdk.Lib.Assoc
import TuyaSdk.Lib.Bytes
import TuyaSdk.Lib.Loop

/-!
# Elements of type, length and value

Elements lie end to end, each behind a head of its type and its length, as 32-bit words. A
search goes from head to head. An area of elements may be the value of an element, so that areas
nest.
-/

namespace TuyaSdk.Lib.Tlv

variable {head : Nat → Nat × Nat} {es pre post : List (Nat × List Byte)} {e : Nat × List Byte}
  {t a endAddr n : Nat}

/-- The bytes of an element. -/
def elemBytes (e : Nat × List Byte) : List Byte := wordBytes e.1 ++ wordBytes e.2.length ++ e.2

/-- The bytes of elements. -/
def body (es : List (Nat × List Byte)) : List Byte := es.flatMap elemBytes

theorem length_elemBytes (e : Nat × List Byte) : (elemBytes e).length = 8 + e.2.length := by
  simp only [elemBytes, List.length_append, length_wordBytes]

theorem body_cons (e : Nat × List Byte) (es : List (Nat × List Byte)) :
    body (e :: es) = elemBytes e ++ body es := rfl

theorem body_append (es es' : List (Nat × List Byte)) : body (es ++ es') = body es ++ body es' :=
  List.flatMap_append

/-- One pass of a search from head to head. -/
def searchPass (head : Nat → Nat × Nat) (t endAddr : Nat) (addr : Nat) : Pass Nat Nat :=
  if addr < endAddr then
    if t = (head addr).1 then .exit addr else .again (u32 (u32 (addr + 8) + (head addr).2))
  else .exit addr

/-- The heads of elements from `a` on. -/
def Heads (head : Nat → Nat × Nat) : Nat → List (Nat × List Byte) → Prop
  | _, [] => True
  | a, e :: es => head a = (e.1, e.2.length) ∧ Heads head (a + (8 + e.2.length)) es

/-- Elements in memory have their heads there. -/
theorem heads_of_bytesAt {m : Mem} (hhead : ∀ x, a ≤ x → x + 8 ≤ a + (body es).length →
      head x = (read32 m x, read32 m (x + 4)))
    (hwords : ∀ e ∈ es, e.1 < 2 ^ 32 ∧ e.2.length < 2 ^ 32) (h : BytesAt m a (body es)) :
    Heads head a es := by
  induction es generalizing a with
  | nil => trivial
  | cons e es ih =>
    rw [body_cons] at h hhead
    obtain ⟨ht, hl⟩ := hwords e List.mem_cons_self
    have hlen := length_elemBytes e
    obtain ⟨hb, hrest⟩ := bytesAt_append.mp h
    rw [List.length_append, hlen] at hhead
    rw [hlen] at hrest
    obtain ⟨hwordsAt, -⟩ := bytesAt_append.mp hb
    obtain ⟨h0, h4⟩ := bytesAt_append.mp hwordsAt
    rw [length_wordBytes] at h4
    refine ⟨?_, ih (fun x hx hend => hhead x (by omega) (by omega))
      (fun e' he' => hwords e' (List.mem_cons_of_mem _ he')) hrest⟩
    rw [hhead a (Nat.le_refl a) (by omega), h0.read32 ht, h4.read32 hl]

theorem heads_append : Heads head a (pre ++ post) ↔
    Heads head a pre ∧ Heads head (a + (body pre).length) post := by
  induction pre generalizing a with
  | nil => exact ⟨fun h => ⟨trivial, h⟩, And.right⟩
  | cons e pre ih =>
    rw [List.cons_append, Heads, Heads, ih, body_cons, List.length_append, length_elemBytes,
      Nat.add_assoc, and_assoc]

/-- The search passes over elements of other types. -/
theorem run_skip (h : Heads head a pre) (ht : t ∉ Assoc.keys pre)
    (hend : a + (body pre).length ≤ endAddr) (hlt : endAddr < 2 ^ 32) (n : Nat) :
    Loop.run (searchPass head t endAddr) (n + pre.length) a =
      Loop.run (searchPass head t endAddr) n (a + (body pre).length) := by
  induction pre generalizing a with
  | nil => rfl
  | cons e pre ih =>
    rw [body_cons, List.length_append, length_elemBytes] at hend ⊢
    rw [Assoc.keys, List.map_cons, List.mem_cons, not_or] at ht
    have hnext : u32 (u32 (a + 8) + e.2.length) = a + (8 + e.2.length) := by
      rw [u32_of_lt (by omega : a + 8 < 2 ^ 32), u32_of_lt (by omega), Nat.add_assoc]
    have hpass : searchPass head t endAddr a = .again (a + (8 + e.2.length)) := by
      rw [searchPass, if_pos (by omega), h.1, if_neg ht.1, hnext]
    have hsucc : n + (e :: pre).length = n + pre.length + 1 := rfl
    rw [hsucc, Loop.run_again hpass, ih h.2 ht.2 (by omega), Nat.add_assoc a]

/-- The search stops at the first element of the type. -/
theorem run_found (h : Heads head a (pre ++ e :: post)) (hpre : e.1 ∉ Assoc.keys pre)
    (hend : a + (body (pre ++ e :: post)).length ≤ endAddr) (hlt : endAddr < 2 ^ 32)
    (hn : pre.length < n) :
    Loop.run (searchPass head e.1 endAddr) n a = some (a + (body pre).length) := by
  obtain ⟨hskip, hhere⟩ := heads_append.mp h
  rw [body_append, body_cons, List.length_append, List.length_append, length_elemBytes] at hend
  obtain ⟨k, rfl⟩ : ∃ k, n = k + 1 + pre.length := ⟨n - 1 - pre.length, by omega⟩
  have hpass : searchPass head e.1 endAddr (a + (body pre).length) =
      .exit (a + (body pre).length) := by
    rw [searchPass, if_pos (by omega), hhere.1, if_pos rfl]
  rw [run_skip hskip hpre (by omega) hlt, Loop.run_exit hpass]

/-- The search for a type that is not there comes to the end. -/
theorem run_missing (h : Heads head a es) (ht : t ∉ Assoc.keys es)
    (hend : a + (body es).length = endAddr) (hlt : endAddr < 2 ^ 32) (hn : es.length < n) :
    Loop.run (searchPass head t endAddr) n a = some endAddr := by
  obtain ⟨k, rfl⟩ : ∃ k, n = k + 1 + es.length := ⟨n - 1 - es.length, by omega⟩
  have hpass : searchPass head t endAddr endAddr = .exit endAddr := if_neg (Nat.lt_irrefl _)
  rw [run_skip h ht (Nat.le_of_eq hend) hlt, hend, Loop.run_exit hpass]

theorem length_le_body (es : List (Nat × List Byte)) : es.length ≤ (body es).length := by
  induction es with
  | nil => exact Nat.le_refl _
  | cons e es ih =>
    rw [body_cons, List.length_append, length_elemBytes, List.length_cons]
    omega

/-- The elements written one behind the other from `off` on. -/
def putElems (buf : Mem) (off : Nat) : List (Nat × List Byte) → Mem
  | [] => buf
  | e :: es => putElems (writeBytes buf off (elemBytes e)) (off + (8 + e.2.length)) es

theorem putElems_apply {buf : Mem} {off x : Nat}
    (h : x < off ∨ off + (body es).length ≤ x) : putElems buf off es x = buf x := by
  induction es generalizing buf off with
  | nil => rfl
  | cons e es ih =>
    rw [body_cons, List.length_append, length_elemBytes] at h
    rw [putElems, ih (by omega)]
    exact writeBytes_apply (by rw [length_elemBytes]; omega)

theorem bytesAt_putElems (buf : Mem) (off : Nat) (es : List (Nat × List Byte)) :
    BytesAt (putElems buf off es) off (body es) := by
  induction es generalizing buf off with
  | nil => exact bytesAt_nil _ _
  | cons e es ih =>
    rw [body_cons, putElems]
    refine bytesAt_append.mpr ⟨?_, ?_⟩
    · exact (bytesAt_writeBytes buf off (elemBytes e)).congr fun x ⟨_, hx⟩ =>
        putElems_apply (.inl (by rwa [length_elemBytes] at hx))
    · rw [length_elemBytes]
      exact ih _ _

end TuyaSdk.Lib.Tlv
