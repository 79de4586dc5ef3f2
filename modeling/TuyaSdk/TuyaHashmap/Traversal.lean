import TuyaSdk.TuyaHashmap.Refine

/-!
# Iteration over the entries of a key

The iterator of `tuya_hashmap_data_traversal` is the address of an element's `data` field, from
which the next call goes back to the element and on from its node. In an element the key comes
first, the datum four bytes behind it and the node behind that.
-/

namespace TuyaSdk.TuyaHashmap
open TuyaSdk.Lib TuyaSdk.TuyaHlist

/-! ## The calls -/

/-- `&(element->data)`, of the element with the node. -/
def dataField (node : Nat) : Nat := node - 4

/-- `&(HLIST_ENTRY(iter, HASHMAP_ELEMENT_T, data)->node)`. -/
def nodeOfData (iter : Nat) : Nat := iter + 4

/-- What an iterator points to. -/
def dataAt (m : Hashmap) (iter : Nat) : Nat := (m.element (nodeOfData iter)).data

/-- `__hash_find_next_element`: the walk of `__hash_find` from behind the node, for its key. -/
def hashFindNextElement (m : Hashmap) (curr : Nat) : Option Nat :=
  Loop.run (findPass m (m.element curr).key) (m.size.toNat + 1) (m.list.next curr)

/-- `tuya_hashmap_data_traversal`: the return code and `*arg_iterator`. -/
def tuyaHashmapDataTraversal (m : Hashmap) (key : CStr) (iter : Nat) : Option (Int × Nat) :=
  (if iter = 0 then hashFind m key else hashFindNextElement m (nodeOfData iter)).map fun element =>
    if element = 0 then (mapMissing, 0) else (mapOk, dataField element)

/-- `TUYA_HASHMAP_FOR_EACH_DATA` from an iterator on: the iterators that its body sees, and what
the last call returns and leaves in the iterator. -/
def forEachData (m : Hashmap) (key : CStr) : Nat → Nat → Option (List Nat × Int × Nat)
  | 0, _ => none
  | fuel + 1, iter =>
    match tuyaHashmapDataTraversal m key iter with
    | none => none
    | some (rc, iter) =>
      if rc = mapOk then (forEachData m key fuel iter).map fun r => (iter :: r.1, r.2)
      else some ([], rc, iter)

/-! ## Entries -/

/-- A client, and the entries that its calls have put and that are still allocated, with the
most recent first. -/
structure Book where
  client : Client
  entries : List (Nat × HashmapElement)

/-- The entries after a call that leaves the client at `c`. -/
def bookEntries (c : Client) (es : List (Nat × HashmapElement)) : Call → List (Nat × HashmapElement)
  | .put key data node => if node = 0 then es else (node, ⟨key, data⟩) :: es
  | _ => es.filter fun e => e.1 ∈ c.allocated

def bookStep : Machine Book Call Reply
  | b, k => (step b.client k).map fun r => (⟨r.1, bookEntries r.1 b.entries k⟩, r.2)

/-- An allocation fails, or gives memory that is not in use; the node lies eight bytes into it. -/
def Fresh (b : Book) : Call → Prop
  | .put _ _ node => node = 0 ∨ 8 < node ∧ node ∉ b.client.allocated
  | _ => True

instance (b : Book) : (k : Call) → Decidable (Fresh b k)
  | .put _ _ node => inferInstanceAs (Decidable (node = 0 ∨ 8 < node ∧ node ∉ b.client.allocated))
  | .get _ => inferInstanceAs (Decidable True)
  | .remove _ _ => inferInstanceAs (Decidable True)
  | .length => inferInstanceAs (Decidable True)

/-- The current entries of a key. -/
def entriesOf (es : List (Nat × HashmapElement)) (key : CStr) : List (Nat × HashmapElement) :=
  es.filter fun e => e.2.key = key

/-- The loop over a key ends with `MAP_MISSING` and the iterator `NULL`, after iterators that
are distinct and point to the data of the entries in order. -/
def Iterates (m : Hashmap) (key : CStr) (es : List (Nat × HashmapElement)) : Prop :=
  ∃ fuel iters, forEachData m key fuel 0 = some (iters, mapMissing, 0) ∧ iters.Nodup ∧
    iters = (entriesOf es key).map (fun e => dataField e.1) ∧
    iters.map (dataAt m) = (entriesOf es key).map fun e => e.2.data

/-- The entries are the elements of the map, each in memory that is allocated once. -/
structure Kept (b : Book) : Prop where
  rep : MapRep b.client.map (b.entries.map Prod.fst)
  element : ∀ e ∈ b.entries, b.client.map.element e.1 = e.2
  once : ∀ e ∈ b.entries, b.client.allocated.count e.1 = 1
  above : ∀ e ∈ b.entries, 8 < e.1

section

variable {m : Hashmap} {es : List Nat} {b b' : Book} {key : CStr} {k : Call} {r : Reply}

theorem nodeOfData_dataField {node : Nat} (h : 8 < node) : nodeOfData (dataField node) = node := by
  unfold nodeOfData dataField
  omega

theorem dataField_ne_zero {node : Nat} (h : 8 < node) : dataField node ≠ 0 := by
  unfold dataField
  omega

/-! ## The loop over a key -/

/-- What a call of the traversal gives for the element found, if any. -/
def found : Option Nat → Int × Nat
  | none => (mapMissing, 0)
  | some n => (mapOk, dataField n)

theorem found_getD {l : List Nat} (h0 : 0 ∉ l) {o : Option Nat} (ho : ∀ n, o = some n → n ∈ l) :
    (if o.getD 0 = 0 then (mapMissing, 0) else (mapOk, dataField (o.getD 0))) = found o := by
  cases o with
  | none => rfl
  | some n =>
    have hn : n ≠ 0 := by
      rintro rfl
      exact h0 (ho 0 rfl)
    exact if_neg hn

/-- The first call gives the first entry of the key. -/
theorem traversal_first {i : Nat} (h : MapRep m es) (hb : bucket m key = some i) :
    tuyaHashmapDataTraversal m key 0 =
      some (found ((inBucket m es i).find? fun n => (m.element n).key = key)) := by
  rw [tuyaHashmapDataTraversal, if_pos rfl, hashFind_spec h hb, Option.map_some,
    found_getD h.nonNull fun n hn => List.mem_of_find?_eq_some hn,
    find_inBucket es _ fun n hn => nodeHash_of_key hb (of_decide_eq_true hn)]

/-- A call with the iterator of an entry gives the next entry of the key in the bucket. -/
theorem traversal_next {i n : Nat} {xs ys : List Nat} (h : MapRep m es) (hi : i < m.heads)
    (hsplit : inBucket m es i = xs ++ n :: ys) (hkey : (m.element n).key = key) (hn : 8 < n) :
    tuyaHashmapDataTraversal m key (dataField n) =
      some (found (ys.find? fun n => (m.element n).key = key)) := by
  have hchain := (h.bucket i hi).chain
  rw [hsplit] at hchain
  obtain ⟨r, -, rfl, -, hys⟩ := segment_append.mp hchain
  have hlen := length_inBucket_le m es i
  rw [hsplit, List.length_append, List.length_cons] at hlen
  have hwalk : Loop.run (findPass m key) (m.size.toNat + 1) (m.list.next r) =
      some ((ys.find? fun k => (m.element k).key = key).getD 0) :=
    run_findPass hys (by rw [h.size]; omega)
  have h0 : 0 ∉ ys := by
    intro hmem
    have hin : 0 ∈ inBucket m es i := by
      rw [hsplit]
      exact List.mem_append_right _ (List.mem_cons_of_mem _ hmem)
    exact h.nonNull (mem_inBucket.mp hin).1
  rw [tuyaHashmapDataTraversal, if_neg (dataField_ne_zero hn), nodeOfData_dataField hn,
    hashFindNextElement, hkey, hwalk, Option.map_some,
    found_getD h0 fun n hn => List.mem_of_find?_eq_some hn]

/-- The loop goes through the entries of the key in the rest of the bucket. -/
theorem forEachData_rest {i : Nat} (h : MapRep m es) (hi : i < m.heads)
    (habove : ∀ n ∈ es, 8 < n) {xs l : List Nat} (hsplit : inBucket m es i = xs ++ l)
    {iter fuel : Nat}
    (hiter : tuyaHashmapDataTraversal m key iter =
      some (found (l.find? fun n => (m.element n).key = key)))
    (hfuel : l.length < fuel) :
    forEachData m key fuel iter =
      some ((l.filter fun n => (m.element n).key = key).map dataField, mapMissing, 0) := by
  induction l generalizing xs iter fuel with
  | nil =>
    cases fuel with
    | zero => exact absurd hfuel (Nat.not_lt_zero _)
    | succ fuel =>
      rw [forEachData, hiter]
      rfl
  | cons n l ih =>
    have hsplit' : inBucket m es i = xs ++ [n] ++ l := by
      rw [hsplit, List.append_assoc]
      rfl
    rw [List.length_cons] at hfuel
    by_cases hkey : (m.element n).key = key
    · have hmem : n ∈ inBucket m es i := by
        rw [hsplit]
        exact List.mem_append_right _ List.mem_cons_self
      have hnext := traversal_next h hi hsplit hkey (habove n (mem_inBucket.mp hmem).1)
      rw [List.find?_cons_of_pos (by simpa using hkey)] at hiter
      cases fuel with
      | zero => exact absurd hfuel (Nat.not_lt_zero _)
      | succ fuel =>
        have hrest := ih hsplit' hnext (Nat.lt_of_succ_lt_succ hfuel)
        rw [forEachData, hiter]
        simp only [found, if_true]
        rw [hrest, List.filter_cons_of_pos (by simpa using hkey)]
        rfl
    · rw [List.find?_cons_of_neg (by simpa using hkey)] at hiter
      rw [List.filter_cons_of_neg (by simpa using hkey)]
      exact ih hsplit' hiter (Nat.lt_of_succ_lt hfuel)

/-- The entries of a key, found in its bucket. -/
theorem filter_inBucket {i : Nat} (hb : bucket m key = some i) :
    (inBucket m es i).filter (fun n => (m.element n).key = key) =
      es.filter fun n => (m.element n).key = key := by
  unfold inBucket
  rw [List.filter_filter]
  refine List.filter_congr fun n _ => ?_
  by_cases hkey : (m.element n).key = key
  · simp [hkey, nodeHash_of_key hb hkey]
  · simp [hkey]

/-- The entries of a key are the elements with the key. -/
theorem Kept.entriesOf_fst (h : Kept b) :
    (b.entries.map Prod.fst).filter (fun n => (b.client.map.element n).key = key) =
      (entriesOf b.entries key).map Prod.fst := by
  rw [List.filter_map, entriesOf]
  congr 1
  exact List.filter_congr fun e he => by rw [Function.comp_apply, h.element e he]

theorem Kept.iterates (h : Kept b) {i : Nat} (hb : bucket b.client.map key = some i) :
    Iterates b.client.map key b.entries := by
  have hi := (bucket_eq_some hb).2
  have habove : ∀ n ∈ b.entries.map Prod.fst, 8 < n := by
    intro n hn
    obtain ⟨e, he, rfl⟩ := List.mem_map.mp hn
    exact h.above e he
  have hsplit : inBucket b.client.map (b.entries.map Prod.fst) i =
      [] ++ inBucket b.client.map (b.entries.map Prod.fst) i := rfl
  have hloop := forEachData_rest h.rep hi habove hsplit (traversal_first h.rep hb)
    (Nat.lt_succ_self _)
  rw [filter_inBucket hb, h.entriesOf_fst, List.map_map] at hloop
  have hsub : ((entriesOf b.entries key).map Prod.fst).Sublist (b.entries.map Prod.fst) :=
    List.filter_sublist.map _
  have hmem : ∀ e ∈ entriesOf b.entries key, e ∈ b.entries := fun e he =>
    (List.mem_filter.mp he).1
  refine ⟨_, _, hloop, ?_, rfl, ?_⟩
  · rw [← List.map_map]
    refine (h.rep.nodup.sublist hsub).map_on fun n hn n' hn' heq => ?_
    have hlt := habove n (hsub.subset hn)
    have hlt' := habove n' (hsub.subset hn')
    rw [← nodeOfData_dataField hlt, heq, nodeOfData_dataField hlt']
  · rw [List.map_map]
    refine List.map_congr_left fun e he => ?_
    show (b.client.map.element (nodeOfData (dataField e.1))).data = e.2.data
    rw [nodeOfData_dataField (h.above e (hmem e he)), h.element e (hmem e he)]

/-! ## Calls -/

/-- Taking the entry of a node out. -/
theorem filter_fst_ne {xs ys : List Nat} {n : Nat} {ps : List (Nat × HashmapElement)}
    (hps : ps.map Prod.fst = xs ++ n :: ys) (hnd : (ps.map Prod.fst).Nodup) :
    (ps.filter fun e => e.1 ≠ n).map Prod.fst = xs ++ ys := by
  have hfilter : (ps.filter fun e => e.1 ≠ n).map Prod.fst =
      (ps.map Prod.fst).filter fun k => k ≠ n := by
    rw [List.filter_map]
    rfl
  rw [hps] at hnd
  have hn := List.nodup_middle.mp hnd
  have hnot : n ∉ xs ++ ys := (List.nodup_cons.mp hn).1
  rw [hfilter, hps, List.filter_append, List.filter_cons_of_neg (by simp), ← List.filter_append,
    List.filter_eq_self]
  intro k hk
  refine decide_eq_true ?_
  rintro rfl
  exact hnot hk

/-- While every entry is allocated, no entry is dropped. -/
theorem Kept.filter_allocated (h : Kept b) :
    (b.entries.filter fun e => e.1 ∈ b.client.allocated) = b.entries := by
  refine List.filter_eq_self.mpr fun e he => decide_eq_true ?_
  exact List.count_pos_iff.mp (by rw [h.once e he]; exact Nat.one_pos)

theorem Kept.put (h : Kept b) {data node : Nat} (hf : Fresh b (.put key data node))
    (hs : bookStep b (.put key data node) = some (b', r)) : Kept b' := by
  rcases hf with rfl | ⟨habove, hnew⟩
  · have hstep : step b.client (.put key data 0) =
        some (⟨b.client.map, 0 :: b.client.allocated⟩, ⟨mapOmem, 0⟩) := rfl
    rw [bookStep, hstep] at hs
    cases hs
    refine ⟨h.rep, h.element, fun e he => ?_, h.above⟩
    have hne : e.1 ≠ 0 := Nat.ne_of_gt (Nat.zero_lt_of_lt (h.above e he))
    rw [List.count_cons_of_ne hne.symm]
    exact h.once e he
  · have hn0 : node ≠ 0 := Nat.ne_of_gt (Nat.zero_lt_of_lt habove)
    have hentry : node ∉ b.entries.map Prod.fst := by
      intro hmem
      obtain ⟨e, he, rfl⟩ := List.mem_map.mp hmem
      exact hnew (List.count_pos_iff.mp (by rw [h.once e he]; exact Nat.one_pos))
    cases hb : bucket b.client.map key with
    | none =>
      simp only [bookStep, step, tuyaHashmapPut, if_neg hn0, hb] at hs
      cases hs
    | some i =>
      obtain ⟨m', hrun, hrep, -⟩ := put_spec data h.rep hb hn0 hentry
      have helement : m'.element = Function.update b.client.map.element node ⟨key, data⟩ := by
        rw [tuyaHashmapPut, if_neg hn0, hb] at hrun
        cases hrun
        rfl
      simp only [bookStep, step, hrun, bookEntries, if_neg hn0] at hs
      cases hs
      refine ⟨hrep, fun e he => ?_, fun e he => ?_, fun e he => ?_⟩
      · show m'.element e.1 = e.2
        rw [helement]
        rcases List.mem_cons.mp he with rfl | he
        · exact Function.update_self ..
        · have hne : e.1 ≠ node := fun heq => hentry (heq ▸ List.mem_map_of_mem he)
          rw [Function.update_of_ne hne]
          exact h.element e he
      · show (node :: b.client.allocated).count e.1 = 1
        rcases List.mem_cons.mp he with rfl | he
        · rw [List.count_cons_self, List.count_eq_zero_of_not_mem hnew]
        · have hne : node ≠ e.1 := fun heq => hentry (heq ▸ List.mem_map_of_mem he)
          rw [List.count_cons_of_ne hne]
          exact h.once e he
      · rcases List.mem_cons.mp he with rfl | he
        · exact habove
        · exact h.above e he

theorem Kept.remove (h : Kept b) {data : Nat}
    (hs : bookStep b (.remove key data) = some (b', r)) : Kept b' := by
  cases hb : bucket b.client.map key with
  | none =>
    simp only [bookStep, step, tuyaHashmapRemove, hb] at hs
    cases hs
  | some i =>
    rcases remove_cases data h.rep hb with ⟨-, hrun⟩ | ⟨xs, n, ys, hes, hn, hrun⟩
    · simp only [bookStep, step, hrun, bookEntries] at hs
      cases hs
      have hcount : ∀ e ∈ b.entries, (b.client.allocated.erase 0).count e.1 = 1 := by
        intro e he
        have hne : e.1 ≠ 0 := Nat.ne_of_gt (Nat.zero_lt_of_lt (h.above e he))
        rw [List.count_erase_of_ne hne]
        exact h.once e he
      have hall : (b.entries.filter fun e => e.1 ∈ b.client.allocated.erase 0) = b.entries := by
        refine List.filter_eq_self.mpr fun e he => decide_eq_true ?_
        exact List.count_pos_iff.mp (by rw [hcount e he]; exact Nat.one_pos)
      dsimp only
      rw [hall]
      exact ⟨h.rep, h.element, hcount, h.above⟩
    · simp only [bookStep, step, hrun, bookEntries] at hs
      cases hs
      have hcount : ∀ e ∈ b.entries, e.1 ≠ n → (b.client.allocated.erase n).count e.1 = 1 := by
        intro e he hne
        rw [List.count_erase_of_ne hne]
        exact h.once e he
      have hfreed : (b.entries.filter fun e => e.1 ∈ b.client.allocated.erase n) =
          b.entries.filter fun e => e.1 ≠ n := by
        refine List.filter_congr fun e he => ?_
        by_cases hne : e.1 = n
        · have hzero : (b.client.allocated.erase n).count n = 0 := by
            rw [List.count_erase_self, ← hne, h.once e he]
          simpa [hne] using List.count_eq_zero.mp hzero
        · have hmem : e.1 ∈ b.client.allocated.erase n :=
            List.count_pos_iff.mp (by rw [hcount e he hne]; exact Nat.one_pos)
          simp [hne, hmem]
      have hsub : ∀ e ∈ b.entries.filter fun e => e.1 ≠ n, e ∈ b.entries ∧ e.1 ≠ n := by
        intro e he
        exact ⟨(List.mem_filter.mp he).1, of_decide_eq_true (List.mem_filter.mp he).2⟩
      have hlt : nodeHash b.client.map n < b.client.map.heads := by
        rw [hn]
        exact (bucket_eq_some hb).2
      have hrep := h.rep
      rw [hes] at hrep
      have hfst := filter_fst_ne hes h.rep.nodup
      dsimp only
      rw [hfreed]
      refine ⟨?_, fun e he => h.element e (hsub e he).1,
        fun e he => hcount e (hsub e he).1 (hsub e he).2, fun e he => h.above e (hsub e he).1⟩
      rw [hfst]
      exact unlink_spec hrep hlt

theorem Kept.step (h : Kept b) (hf : Fresh b k) (hs : bookStep b k = some (b', r)) : Kept b' := by
  cases k with
  | put key data node => exact h.put hf hs
  | remove key data => exact h.remove hs
  | get key =>
    cases hg : tuyaHashmapGet b.client.map key with
    | none =>
      simp only [bookStep, TuyaHashmap.step, hg] at hs
      cases hs
    | some rc =>
      simp only [bookStep, TuyaHashmap.step, hg, bookEntries] at hs
      cases hs
      dsimp only
      rw [h.filter_allocated]
      exact h
  | length =>
    simp only [bookStep, TuyaHashmap.step, bookEntries] at hs
    cases hs
    dsimp only
    rw [h.filter_allocated]
    exact h

theorem kept_new {tableSize : BitVec 32} (h : tuyaHashmapNew tableSize true true = some m) :
    Kept ⟨⟨m, []⟩, []⟩ := by
  have hnil : ∀ e : Nat × HashmapElement, e ∉ ([] : List (Nat × HashmapElement)) := fun e he =>
    List.not_mem_nil he
  simp only [tuyaHashmapNew, Bool.not_true, Bool.false_eq_true, if_false] at h
  split at h
  · cases h
  · cases h
    refine ⟨⟨fun i _ => ⟨rfl, trivial, List.nodup_nil⟩, List.nodup_nil, List.not_mem_nil, rfl⟩,
      fun e he => absurd he (hnil e), fun e he => absurd he (hnil e),
      fun e he => absurd he (hnil e)⟩

/-- A table of fewer than 2 ^ 30 buckets has a list head for each. -/
theorem heads_of_small {tableSize : BitVec 32} (h : tuyaHashmapNew tableSize true true = some m)
    (hsmall : tableSize.toNat < 2 ^ 30) : ∃ i, bucket m key = some i := by
  simp only [tuyaHashmapNew, Bool.not_true, Bool.false_eq_true, if_false] at h
  split at h
  · cases h
  · rename_i hne
    cases h
    have hpos : 0 < tableSize.toNat := by
      refine Nat.pos_of_ne_zero fun h0 => hne ?_
      exact BitVec.eq_of_toNat_eq h0
    have hheads : (tableSize * 4).toNat / 4 = tableSize.toNat := by
      rw [BitVec.toNat_mul, show (4 : BitVec 32).toNat = 4 from rfl, Nat.mod_eq_of_lt (by omega),
        Nat.mul_div_cancel _ (by decide)]
    have hhash : hashmapHashInt tableSize key < tableSize.toNat := by
      unfold hashmapHashInt
      rw [BitVec.toNat_umod]
      exact Nat.mod_lt _ hpos
    exact ⟨_, if_pos (by rw [hheads]; exact hhash)⟩

/-- After any calls, the loop over a key goes through its current entries exactly when the bucket
of the key lies in the array of list heads. -/
theorem iterates_iff {tableSize : BitVec 32} (hnew : tuyaHashmapNew tableSize true true = some m)
    {calls : List Call} (hl : Machine.Legal bookStep Fresh ⟨⟨m, []⟩, []⟩ calls)
    {replies : List Reply}
    (hr : Machine.run bookStep ⟨⟨m, []⟩, []⟩ calls = some (b, replies)) (key : CStr) :
    Iterates b.client.map key b.entries ↔
      hashmapHashInt b.client.map.tableSize key < b.client.map.heads := by
  have hstep : ∀ (b : Book) (_ : List Reply) (k : Call) (b' : Book) (r : Reply), Kept b →
      Fresh b k → bookStep b k = some (b', r) → Kept b' := fun b _ k b' r h hf hs => h.step hf hs
  have hkept : Kept b := @Machine.run_invariant Book Call Reply bookStep Fresh (fun b _ => Kept b)
    hstep _ b calls [] replies (kept_new hnew) hl hr
  constructor
  · rintro ⟨fuel, iters, hloop, -⟩
    by_contra hlt
    have hb : bucket b.client.map key = none := if_neg hlt
    cases fuel with
    | zero => cases hloop
    | succ fuel =>
      simp only [forEachData, tuyaHashmapDataTraversal, if_true, hashFind, hb] at hloop
      cases hloop
  · intro hlt
    exact hkept.iterates (if_pos hlt)

end

/-! ## Two keys in one bucket -/

/-- Entries of two keys in the only bucket, one of them taken out again. -/
def mixedCalls : List Call :=
  [.put keyA 1 16, .put keyB 2 32, .put keyA 3 48, .put keyA 4 64, .remove keyA 3]

theorem iterates_mixed : ∃ b replies,
    Machine.run bookStep ⟨⟨newMap 1, []⟩, []⟩ mixedCalls = some (b, replies) ∧
      Iterates b.client.map keyA b.entries := by
  have hhash : (Machine.run bookStep ⟨⟨newMap 1, []⟩, []⟩ mixedCalls).any (fun r =>
      hashmapHashInt r.1.client.map.tableSize keyA < r.1.client.map.heads) = true := by
    decide +kernel
  have hsome : (Machine.run bookStep ⟨⟨newMap 1, []⟩, []⟩ mixedCalls).isSome = true := by
    decide +kernel
  obtain ⟨⟨b, replies⟩, hr⟩ := Option.isSome_iff_exists.mp hsome
  rw [hr] at hhash
  refine ⟨b, replies, hr, ?_⟩
  exact (iterates_iff (show tuyaHashmapNew 1 true true = some (newMap 1) by rfl)
    (Machine.legal_of_check (by decide +kernel)) hr keyA).mpr (of_decide_eq_true hhash)

/-- A table of `2 ^ 30 + 1` buckets, whose array of list heads has one: the loop over a key reads
outside the array. -/
theorem not_iterates_wrapped :
    tuyaHashmapNew 0x40000001 true true = some (newMap 0x40000001) ∧
      ¬Iterates (newMap 0x40000001) keyA [] := by
  refine ⟨rfl, ?_⟩
  rintro ⟨fuel, iters, hloop, -⟩
  have hb : bucket (newMap 0x40000001) keyA = none := by decide +kernel
  cases fuel with
  | zero => cases hloop
  | succ fuel =>
    simp only [forEachData, tuyaHashmapDataTraversal, if_true, hashFind, hb] at hloop
    cases hloop

end TuyaSdk.TuyaHashmap
