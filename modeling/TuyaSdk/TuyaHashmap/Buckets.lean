import TuyaSdk.TuyaHashmap.Defs
import TuyaSdk.Lib.Stacks

/-!
# Buckets

A map represents stacks of data when its buckets are the parts, by hash, of one list of
elements, the most recent first (`MapRep`). `put` conses to that list, `get` finds in it,
and `remove` takes out of it the element that its walk of the bucket stops at.
-/

namespace TuyaSdk.TuyaHashmap
open TuyaSdk.Lib TuyaSdk.TuyaHlist

/-! ## Strings -/

theorem strcmpBytes_eq_zero {s t : List Byte} (hs : 0 ∉ s) (ht : 0 ∉ t) :
    strcmpBytes s t = 0 ↔ s = t := by
  induction s generalizing t with
  | nil =>
    cases t with
    | nil => simp [strcmpBytes]
    | cons b t =>
      have hb : b ≠ 0 := by
        rintro rfl
        simp at ht
      simpa [strcmpBytes, BitVec.toNat_eq] using hb
  | cons a s ih =>
    have ha : a ≠ 0 := by
      rintro rfl
      simp at hs
    cases t with
    | nil => simpa [strcmpBytes, BitVec.toNat_eq] using ha
    | cons b t =>
      have ih := ih (t := t) (by simp_all) (by simp_all)
      by_cases hab : a = b
      · simp [strcmpBytes, hab, ih]
      · have hne : (a.toNat : Int) - b.toNat ≠ 0 := by
          intro heq
          exact hab (BitVec.eq_of_toNat_eq (by omega))
        simp [strcmpBytes, hab, hne]

theorem sameKey_iff {key other : CStr} : sameKey key other = true ↔ other = key := by
  obtain ⟨s, hs⟩ := key
  obtain ⟨t, ht⟩ := other
  simp only [sameKey, strlen, strcmp, strcmpBytes_eq_zero hs ht, decide_eq_true_eq,
    CStr.mk.injEq]
  constructor
  · rintro ⟨-, rfl⟩
    rfl
  · rintro rfl
    exact ⟨rfl, rfl⟩

/-! ## Representation -/

/-- The hash of the element at a node. -/
def nodeHash (m : Hashmap) (n : Nat) : Nat := hashmapHashInt m.tableSize (m.element n).key

/-- The elements stored in a bucket. -/
def inBucket (m : Hashmap) (es : List Nat) (b : Nat) : List Nat :=
  es.filter fun n => nodeHash m n = b

/-- The buckets are the parts, by hash, of the elements `es`, the most recent first. -/
structure MapRep (m : Hashmap) (es : List Nat) : Prop where
  bucket : ∀ b < m.heads, HlistRep m.list b (inBucket m es b)
  nodup : es.Nodup
  nonNull : 0 ∉ es
  size : m.size = es.length

/-- The stacks that the elements represent. -/
def mapStacks (m : Hashmap) (es : List Nat) : Stacks CStr Nat :=
  Stacks.stacksOf (fun n => (m.element n).key) (fun n => (m.element n).data) es

section

variable {m : Hashmap} {es : List Nat} {key : CStr} {data : Nat}

theorem bucket_eq_some {b : Nat} (h : bucket m key = some b) :
    b = hashmapHashInt m.tableSize key ∧ b < m.heads := by
  simp only [bucket] at h
  split at h
  · simp only [Option.some.injEq] at h
    subst h
    exact ⟨rfl, by assumption⟩
  · simp at h

/-- An element that is only looked for in its bucket is found there. -/
theorem find_inBucket (es : List Nat) {b : Nat} (p : Nat → Bool)
    (hp : ∀ n, p n = true → nodeHash m n = b) :
    (inBucket m es b).find? p = es.find? p := by
  unfold inBucket
  rw [List.find?_filter]
  congr 1
  funext n
  by_cases h : p n = true
  · simp [h, hp n h]
  · simp [h]

theorem nodeHash_of_key {b n : Nat} (hb : bucket m key = some b) (hn : (m.element n).key = key) :
    nodeHash m n = b := by
  rw [nodeHash, hn]
  exact (bucket_eq_some hb).1.symm

theorem length_inBucket_le (m : Hashmap) (es : List Nat) (b : Nat) :
    (inBucket m es b).length ≤ es.length :=
  List.length_filter_le ..

/-! ## Walks of a bucket -/

theorem run_findPass {n p : Nat} {l : List Nat} (hc : Chain m.list.next p l) (hn : l.length < n) :
    Loop.run (findPass m key) n p =
      some ((l.find? fun k => (m.element k).key = key).getD 0) := by
  induction l generalizing p n with
  | nil =>
    obtain ⟨n, rfl⟩ : ∃ k, n = k + 1 := ⟨n - 1, by simp at hn; omega⟩
    have h0 : p = 0 := hc
    rw [Loop.run_exit (r := 0) (by simp [findPass, h0])]
    rfl
  | cons a l ih =>
    obtain ⟨rfl, h0, hc⟩ := hc
    obtain ⟨n, rfl⟩ : ∃ k, n = k + 1 := ⟨n - 1, by simp at hn; omega⟩
    by_cases hk : (m.element p).key = key
    · have hs : sameKey key (m.element p).key = true := sameKey_iff.mpr hk
      rw [Loop.run_exit (r := p) (by simp [findPass, h0, hs])]
      simp [hk]
    · have hs : sameKey key (m.element p).key = false := by
        rw [Bool.eq_false_iff]
        exact fun h => hk (sameKey_iff.mp h)
      have hpass : findPass m key p = .again (m.list.next p) := by simp [findPass, h0, hs]
      rw [Loop.run_again hpass, ih hc (by simpa using hn)]
      simp [hk]

/-- `__hash_find` finds the most recent element with the key. -/
theorem hashFind_spec {b : Nat} (h : MapRep m es) (hb : bucket m key = some b) :
    hashFind m key = some ((es.find? fun n => (m.element n).key = key).getD 0) := by
  have hr := h.bucket b (bucket_eq_some hb).2
  have hfind := find_inBucket es (fun n => decide ((m.element n).key = key))
    fun n hn => nodeHash_of_key hb (of_decide_eq_true hn)
  unfold hashFind
  simp only [hb]
  by_cases hempty : tuyaHlistEmpty m.list b = true
  · rw [if_pos hempty, ← hfind, hr.empty_iff.mp hempty]
    rfl
  · rw [if_neg hempty, run_findPass hr.chain, hfind]
    have := length_inBucket_le m es b
    rw [h.size]
    omega

/-- The element that `remove` looks for. -/
def Wanted (m : Hashmap) (key : CStr) (data n : Nat) : Prop :=
  (m.element n).key = key ∧ (data = 0 ∨ (m.element n).data = data)

instance (m : Hashmap) (key : CStr) (data n : Nat) : Decidable (Wanted m key data n) :=
  inferInstanceAs (Decidable (_ ∧ _))

/-- The walk of `remove` ends on the first element wanted, or else on the last element of
the bucket. -/
theorem run_removePass (key : CStr) (data tmp : Nat) {b n : Nat} {l : List Nat}
    (hr : HlistRep m.list b l) (hn : l.length < n) :
    Loop.run (removePass m key data) n (m.list.first b, tmp) =
      some ((l.find? fun k => Wanted m key data k).getD (l.getLast?.getD tmp)) := by
  obtain ⟨p, hp⟩ : ∃ p, p = m.list.first b := ⟨_, rfl⟩
  have hc : Chain m.list.next p l := by
    rw [hp]
    exact hr.chain
  rw [← hp]
  clear hp hr
  induction l generalizing p n tmp with
  | nil =>
    obtain ⟨n, rfl⟩ : ∃ k, n = k + 1 := ⟨n - 1, by simp at hn; omega⟩
    have h0 : p = 0 := hc
    rw [Loop.run_exit (r := tmp) (by simp [removePass, h0])]
    rfl
  | cons a l ih =>
    obtain ⟨rfl, h0, hc⟩ := hc
    obtain ⟨n, rfl⟩ : ∃ k, n = k + 1 := ⟨n - 1, by simp at hn; omega⟩
    have hwanted : (sameKey key (m.element p).key = true ∧
        (data = 0 ∨ (m.element p).data = data)) ↔ Wanted m key data p := by
      rw [sameKey_iff]
      rfl
    by_cases hk : Wanted m key data p
    · have hpass : removePass m key data (p, tmp) = .exit p := by
        simp only [removePass, if_neg h0, if_pos (hwanted.mpr hk)]
      rw [Loop.run_exit hpass]
      simp [hk]
    · have hpass : removePass m key data (p, tmp) = .again (m.list.next p, p) := by
        simp only [removePass, if_neg h0]
        rw [if_neg fun h => hk (hwanted.mp h)]
      rw [Loop.run_again hpass, ih _ (by simpa using hn) _ hc]
      simp [hk, List.getLast?_cons]

/-! ## Operations -/

theorem inBucket_congr {m' : Hashmap} (h : ∀ n ∈ es, nodeHash m' n = nodeHash m n) (b : Nat) :
    inBucket m' es b = inBucket m es b :=
  List.filter_congr fun n hn => by rw [h n hn]

theorem mem_inBucket {n b : Nat} : n ∈ inBucket m es b ↔ n ∈ es ∧ nodeHash m n = b := by
  simp [inBucket]

/-- `put` pushes the datum on the stack of its key. -/
theorem put_spec (data : Nat) (h : MapRep m es) {node b : Nat} (hb : bucket m key = some b)
    (h0 : node ≠ 0) (hnew : node ∉ es) :
    ∃ m', tuyaHashmapPut m key data node = some (m', mapOk) ∧ MapRep m' (node :: es) ∧
      mapStacks m' (node :: es) = (mapStacks m es).push key data := by
  obtain ⟨m', hm'⟩ : ∃ m', m' = { m with
    size := m.size + 1
    list := tuyaHlistAddHead m.list node b
    element := Function.update m.element node ⟨key, data⟩ } := ⟨_, rfl⟩
  have hrun : tuyaHashmapPut m key data node = some (m', mapOk) := by
    rw [tuyaHashmapPut, if_neg h0, hb, hm']
  have hnode : m'.element node = ⟨key, data⟩ := by
    rw [hm']
    exact Function.update_self ..
  have hold : ∀ n ∈ es, m'.element n = m.element n := by
    intro n hn
    have hne : n ≠ node := by
      rintro rfl
      exact hnew hn
    rw [hm']
    exact Function.update_of_ne hne ..
  have hheads : m'.heads = m.heads := by rw [hm']
  have htable : m'.tableSize = m.tableSize := by rw [hm']
  have hlist : m'.list = tuyaHlistAddHead m.list node b := by rw [hm']
  have hhash : ∀ n ∈ es, nodeHash m' n = nodeHash m n := fun n hn => by
    rw [nodeHash, nodeHash, htable, hold n hn]
  have hnodeHash : nodeHash m' node = b := by
    rw [nodeHash, htable, hnode]
    exact (bucket_eq_some hb).1.symm
  have hnotin : node ∉ inBucket m es b := fun hmem => hnew (mem_inBucket.mp hmem).1
  have hrb := h.bucket b (bucket_eq_some hb).2
  obtain ⟨hfirst, hnext, hpprev⟩ := addHead_fields hrb hnotin
  refine ⟨m', hrun, ⟨?_, ?_, ?_, ?_⟩, ?_⟩
  · intro b' hb'
    rw [hheads] at hb'
    by_cases hbb : b' = b
    · subst hbb
      have hbucket : inBucket m' (node :: es) b' = node :: inBucket m es b' := by
        rw [← inBucket_congr hhash b']
        exact List.filter_cons_of_pos (by simpa using hnodeHash)
      rw [hbucket, hlist]
      exact addHead_spec hrb hnotin h0
    · have hbucket : inBucket m' (node :: es) b' = inBucket m es b' := by
        rw [← inBucket_congr hhash b']
        refine List.filter_cons_of_neg ?_
        rw [hnodeHash]
        simpa using fun heq => hbb heq.symm
      rw [hbucket, hlist]
      have hother : ∀ n ∈ inBucket m es b', n ≠ node ∧ n ∉ inBucket m es b := by
        intro n hn
        obtain ⟨hn, hnb⟩ := mem_inBucket.mp hn
        refine ⟨?_, fun hmem => hbb ?_⟩
        · rintro rfl
          exact hnew hn
        · exact hnb.symm.trans (mem_inBucket.mp hmem).2
      refine (h.bucket b' hb').congr ?_ ?_ ?_
      · rw [hfirst, Function.update_of_ne hbb]
      · intro n hn
        rw [hnext, Function.update_of_ne (hother n hn).1]
      · exact fun n hn => hpprev n (hother n hn).1 (hother n hn).2
  · exact List.nodup_cons.mpr ⟨hnew, h.nodup⟩
  · intro hmem
    rcases List.mem_cons.mp hmem with heq | hmem
    · exact h0 heq.symm
    · exact h.nonNull hmem
  · rw [hm', List.length_cons, h.size]
    rfl
  · unfold mapStacks
    rw [Stacks.stacksOf_cons, hnode, Stacks.stacksOf_congr (fun n hn => by rw [hold n hn])
      fun n hn => by rw [hold n hn]]

/-- `get` reads the top of the key's stack. -/
theorem get_spec (h : MapRep m es) {b : Nat} (hb : bucket m key = some b) :
    tuyaHashmapGet m key = some (match mapStacks m es key with
      | [] => (mapMissing, 0)
      | d :: _ => (mapOk, d)) := by
  have htop : (mapStacks m es key).head? =
      (es.find? fun n => (m.element n).key = key).map fun n => (m.element n).data :=
    Stacks.top_stacksOf
  rw [tuyaHashmapGet, hashFind_spec h hb]
  cases hf : es.find? fun n => decide ((m.element n).key = key) with
  | none =>
    rw [hf] at htop
    rw [List.head?_eq_none_iff.mp htop]
    rfl
  | some n =>
    rw [hf] at htop
    obtain ⟨ds, hds⟩ := List.head?_eq_some_iff.mp htop
    have hn0 : n ≠ 0 := by
      rintro rfl
      exact h.nonNull (List.mem_of_find?_eq_some hf)
    rw [hds]
    simp [hn0]

/-- `remove` with the element that its walk has ended on. -/
def unlink (m : Hashmap) (n : Nat) : Hashmap :=
  { m with size := m.size - 1, list := internalTuyaHlistDel m.list n }

theorem remove_eq {b n : Nat} (h : MapRep m es) (hb : bucket m key = some b)
    (hne : inBucket m es b ≠ []) (hn0 : n ≠ 0)
    (hfind : ((inBucket m es b).find? fun k => Wanted m key data k).getD
      ((inBucket m es b).getLast?.getD 0) = n) :
    tuyaHashmapRemove m key data = some (unlink m n, mapOk, n) := by
  have hrb := h.bucket b (bucket_eq_some hb).2
  have hlen := length_inBucket_le m es b
  have hwalk := run_removePass key data 0 hrb (n := m.size.toNat + 1) (by rw [h.size]; omega)
  have hempty : tuyaHlistEmpty m.list b ≠ true := fun he => hne (hrb.empty_iff.mp he)
  rw [tuyaHashmapRemove, hb]
  simp only [if_neg hempty, hwalk, hfind, if_neg hn0]
  rfl

/-- An element of a bucket is taken out of the map. -/
theorem unlink_spec {xs ys : List Nat} {n : Nat} (h : MapRep m (xs ++ n :: ys))
    (hlt : nodeHash m n < m.heads) : MapRep (unlink m n) (xs ++ ys) := by
  obtain ⟨b, hnb⟩ : ∃ b, nodeHash m n = b := ⟨_, rfl⟩
  rw [hnb] at hlt
  have hrb := h.bucket b hlt
  have hsplit : inBucket m (xs ++ n :: ys) b = inBucket m xs b ++ n :: inBucket m ys b := by
    simp [inBucket, hnb]
  have hbucket : ∀ es b, inBucket (unlink m n) es b = inBucket m es b := fun es b =>
    inBucket_congr (fun k _ => rfl) b
  rw [hsplit] at hrb
  obtain ⟨hdel, hfirst, hnodes⟩ := del_spec hrb
  refine ⟨?_, ?_, ?_, ?_⟩
  · intro b' hb'
    rw [hbucket]
    by_cases hbb : b' = b
    · subst hbb
      have happend : inBucket m (xs ++ ys) b' = inBucket m xs b' ++ inBucket m ys b' :=
        List.filter_append ..
      rw [happend]
      exact hdel
    · have hsame : inBucket m (xs ++ ys) b' = inBucket m (xs ++ n :: ys) b' := by
        have hne : ¬nodeHash m n = b' := fun heq => hbb (heq.symm.trans hnb)
        simp [inBucket, hne]
      rw [hsame]
      have hother : ∀ k ∈ inBucket m (xs ++ n :: ys) b',
          k ∉ inBucket m xs b ++ n :: inBucket m ys b := by
        intro k hk hmem
        rw [← hsplit] at hmem
        exact hbb ((mem_inBucket.mp hk).2.symm.trans (mem_inBucket.mp hmem).2)
      exact (h.bucket b' hb').congr (hfirst b' hbb) (fun k hk => (hnodes k (hother k hk)).1)
        fun k hk => (hnodes k (hother k hk)).2
  · exact h.nodup.sublist (by simp)
  · intro hmem
    apply h.nonNull
    rcases List.mem_append.mp hmem with hmem | hmem <;> simp [hmem]
  · have hsize := h.size
    show m.size - 1 = _
    simp only [List.length_append, List.length_cons] at hsize ⊢
    omega

/-- `remove` takes the first element wanted out of the map. -/
theorem remove_spec {xs ys : List Nat} {n b : Nat} (h : MapRep m (xs ++ n :: ys))
    (hb : bucket m key = some b) (hn : Wanted m key data n)
    (hxs : ∀ k ∈ xs, ¬Wanted m key data k) :
    ∃ m', tuyaHashmapRemove m key data = some (m', mapOk, n) ∧ MapRep m' (xs ++ ys) ∧
      m'.element = m.element := by
  have hnb : nodeHash m n = b := nodeHash_of_key hb hn.1
  have hmem : n ∈ inBucket m (xs ++ n :: ys) b := mem_inBucket.mpr ⟨by simp, hnb⟩
  have hn0 : n ≠ 0 := by
    rintro rfl
    exact h.nonNull (by simp)
  have hfind : (inBucket m (xs ++ n :: ys) b).find? (fun k => Wanted m key data k) = some n := by
    rw [find_inBucket _ _ fun k hk => nodeHash_of_key hb (of_decide_eq_true hk).1,
      List.find?_eq_some_iff_append]
    exact ⟨by simpa using hn, xs, ys, rfl, by simpa using hxs⟩
  exact ⟨unlink m n, remove_eq h hb (List.ne_nil_of_mem hmem) hn0 (by rw [hfind]; rfl),
    unlink_spec h (hnb.symm ▸ (bucket_eq_some hb).2), rfl⟩

/-- `remove` finds the bucket of its key empty, or takes an element out of it. -/
theorem remove_cases (data : Nat) {b : Nat} (h : MapRep m es) (hb : bucket m key = some b) :
    (inBucket m es b = [] ∧ tuyaHashmapRemove m key data = some (m, mapMissing, 0)) ∨
      ∃ xs n ys, es = xs ++ n :: ys ∧ nodeHash m n = b ∧
        tuyaHashmapRemove m key data = some (unlink m n, mapOk, n) := by
  have hrb := h.bucket b (bucket_eq_some hb).2
  by_cases hnil : inBucket m es b = []
  · refine Or.inl ⟨hnil, ?_⟩
    have hempty := hrb.empty_iff.mpr hnil
    simp [tuyaHashmapRemove, hb, hempty]
  · obtain ⟨n, hn⟩ : ∃ n, ((inBucket m es b).find? fun k => Wanted m key data k).getD
        ((inBucket m es b).getLast?.getD 0) = n := ⟨_, rfl⟩
    have hmem : n ∈ inBucket m es b := by
      rw [← hn]
      cases hf : (inBucket m es b).find? fun k => Wanted m key data k with
      | some k => exact List.mem_of_find?_eq_some hf
      | none =>
        rw [List.getLast?_eq_some_getLast hnil]
        exact List.getLast_mem hnil
    obtain ⟨hes, hnb⟩ := mem_inBucket.mp hmem
    have hn0 : n ≠ 0 := by
      rintro rfl
      exact h.nonNull hes
    obtain ⟨xs, ys, heq⟩ := List.append_of_mem hes
    exact Or.inr ⟨xs, n, ys, heq, hnb, remove_eq h hb hnil hn0 hn⟩

end

end TuyaSdk.TuyaHashmap
