import TuyaSdk.TuyaHashmap.Buckets

/-!
# The hash map refines keyed stacks

The specification machine keeps a stack of data for every key. Every call on a map is
matched by it with the same reply, as long as `remove` is not given a key that is missing
from a bucket with other elements: there its walk ends on the last element of the bucket,
which it removes.
-/

namespace TuyaSdk.TuyaHashmap
open TuyaSdk.Lib TuyaSdk.TuyaHlist

/-! ## Calls -/

/-- A call on a map; `put` comes with the address of the node that the allocation returns. -/
inductive Call
  | put (key : CStr) (data node : Nat)
  | get (key : CStr)
  | remove (key : CStr) (data : Nat)
  | length

/-- The return value of a call, and what `get` stores in `*arg`. -/
structure Reply where
  rc : Int
  arg : Nat
  deriving DecidableEq, Repr

/-- A map with the nodes that are allocated. -/
structure Client where
  map : Hashmap
  allocated : List Nat

def step : Machine Client Call Reply
  | c, .put key data node =>
    (tuyaHashmapPut c.map key data node).map fun (m, rc) =>
      (⟨m, node :: c.allocated⟩, ⟨rc, 0⟩)
  | c, .get key => (tuyaHashmapGet c.map key).map fun (rc, arg) => (c, ⟨rc, arg⟩)
  | c, .remove key data =>
    (tuyaHashmapRemove c.map key data).map fun (m, rc, freed) =>
      (⟨m, c.allocated.erase freed⟩, ⟨rc, 0⟩)
  | c, .length => some (c, ⟨tuyaHashmapLength c.map, 0⟩)

/-- Allocation succeeds, with memory that is not in use. -/
def Allocates (c : Client) : Call → Prop
  | .put _ _ node => node ≠ 0 ∧ node ∉ c.allocated
  | _ => True

instance (c : Client) (k : Call) : Decidable (Allocates c k) := by
  cases k <;> unfold Allocates <;> infer_instance

/-- The nodes from `p` on, at most `fuel` of them. -/
def walk (m : Hashmap) : Nat → Nat → List Nat
  | 0, _ => []
  | fuel + 1, p => if p = 0 then [] else p :: walk m fuel (m.list.next p)

/-- The elements in a bucket. -/
def bucketNodes (m : Hashmap) (b : Nat) : List Nat := walk m m.size.toNat (m.list.first b)

/-- The key's bucket is one of the array of heads; and what `remove` is to take out is in
the bucket, unless the bucket is empty. -/
def Sound (m : Hashmap) : Call → Prop
  | .put key _ _ => hashmapHashInt m.tableSize key < m.heads
  | .get key => hashmapHashInt m.tableSize key < m.heads
  | .remove key data =>
    hashmapHashInt m.tableSize key < m.heads ∧
      (bucketNodes m (hashmapHashInt m.tableSize key) = [] ∨
        ∃ n ∈ bucketNodes m (hashmapHashInt m.tableSize key), Wanted m key data n)
  | .length => True

instance (m : Hashmap) (k : Call) : Decidable (Sound m k) := by
  cases k <;> unfold Sound <;> infer_instance

/-- The specification: `put` pushes on the stack of the key, `get` reads its top, `remove`
pops it or takes out the datum nearest to the top, and `length` counts all data. -/
noncomputable def specStep (s : Stacks CStr Nat) : Call → Stacks CStr Nat × Reply
  | .put key data _ => (s.push key data, ⟨mapOk, 0⟩)
  | .get key =>
    match s key with
    | [] => (s, ⟨mapMissing, 0⟩)
    | d :: _ => (s, ⟨mapOk, d⟩)
  | .remove key data =>
    if data = 0 then
      if s key = [] then (s, ⟨mapMissing, 0⟩) else (s.pop key, ⟨mapOk, 0⟩)
    else if data ∈ s key then (s.remove key data, ⟨mapOk, 0⟩)
    else (s, ⟨mapMissing, 0⟩)
  | .length => (s, ⟨s.count, 0⟩)

/-- The map represents the stacks, with elements that are allocated. -/
def Represents (c : Client) (s : Stacks CStr Nat) : Prop :=
  ∃ es, MapRep c.map es ∧ (∀ n ∈ es, n ∈ c.allocated) ∧ mapStacks c.map es = s

section

variable {m : Hashmap} {es : List Nat} {c : Client} {s : Stacks CStr Nat}

theorem walk_eq {fuel p : Nat} {l : List Nat} (hc : Chain m.list.next p l)
    (hn : l.length ≤ fuel) : walk m fuel p = l := by
  induction l generalizing fuel p with
  | nil =>
    have h0 : p = 0 := hc
    cases fuel <;> simp [walk, h0]
  | cons a l ih =>
    obtain ⟨rfl, h0, hc⟩ := hc
    cases fuel with
    | zero => simp at hn
    | succ fuel => simp [walk, h0, ih hc (by simpa using hn)]

theorem bucketNodes_eq (h : MapRep m es) {b : Nat} (hb : b < m.heads) :
    bucketNodes m b = inBucket m es b := by
  refine walk_eq (h.bucket b hb).chain ?_
  rw [h.size]
  exact length_inBucket_le m es b

/-- `remove` of what is not in an empty bucket, or of what is stored. -/
theorem remove_simulates (hR : Represents c s) {key : CStr} {data : Nat}
    (hk : Sound c.map (.remove key data)) :
    ∃ c', step c (.remove key data) = some (c', (specStep s (.remove key data)).2) ∧
      Represents c' (specStep s (.remove key data)).1 := by
  obtain ⟨es, h, halloc, rfl⟩ := hR
  obtain ⟨hlt, hfound⟩ := hk
  obtain ⟨b, hb⟩ : ∃ b, bucket c.map key = some b := ⟨_, if_pos hlt⟩
  rw [← (bucket_eq_some hb).1, bucketNodes_eq h (bucket_eq_some hb).2] at hfound
  rcases hfound with hnil | ⟨k, hk, hkw⟩
  · -- the bucket is empty, so nothing with the key is stored
    have hempty := ((h.bucket b (bucket_eq_some hb).2).empty_iff).mpr hnil
    have hstack : mapStacks c.map es key = [] := by
      refine Stacks.stacksOf_eq_nil.mpr fun n hn hkey => ?_
      have : n ∈ inBucket c.map es b := mem_inBucket.mpr ⟨hn, nodeHash_of_key hb hkey⟩
      rw [hnil] at this
      simp at this
    have hspec : specStep (mapStacks c.map es) (.remove key data) =
        (mapStacks c.map es, ⟨mapMissing, 0⟩) := by
      simp [specStep, hstack]
    rw [hspec]
    refine ⟨⟨c.map, c.allocated.erase 0⟩, ?_, es, h, ?_, rfl⟩
    · simp [step, tuyaHashmapRemove, hb, hempty]
    · intro n hn
      have hn0 : n ≠ 0 := by
        rintro rfl
        exact h.nonNull hn
      exact (List.mem_erase_of_ne hn0).mpr (halloc n hn)
  · obtain ⟨n, hn⟩ : ∃ n, es.find? (fun k => Wanted c.map key data k) = some n := by
      rw [← Option.isSome_iff_exists, List.find?_isSome]
      exact ⟨k, (mem_inBucket.mp hk).1, by simpa using hkw⟩
    obtain ⟨hnw, xs, ys, rfl, hxs⟩ := List.find?_eq_some_iff_append.mp hn
    have hnw : Wanted c.map key data n := by simpa using hnw
    have hxs : ∀ k ∈ xs, ¬Wanted c.map key data k := by simpa using hxs
    obtain ⟨m', hrun, hrep, helement⟩ := remove_spec h hb hnw hxs
    have hspec : specStep (mapStacks c.map (xs ++ n :: ys)) (.remove key data) =
        (mapStacks c.map (xs ++ ys), ⟨mapOk, 0⟩) := by
      have hmem : (c.map.element n).data ∈ mapStacks c.map (xs ++ n :: ys) key :=
        Stacks.mem_stacksOf.mpr ⟨n, by simp, hnw.1, rfl⟩
      by_cases hd : data = 0
      · subst hd
        have hpop : mapStacks c.map (xs ++ ys) = (mapStacks c.map (xs ++ n :: ys)).pop key := by
          rw [← hnw.1]
          exact Stacks.stacksOf_pop fun x hx hkey => hxs x hx ⟨hkey.trans hnw.1, Or.inl rfl⟩
        have hne := List.ne_nil_of_mem hmem
        simp only [specStep, if_true, if_neg hne, hpop]
      · have hdata := hnw.2.resolve_left hd
        have hremove : mapStacks c.map (xs ++ ys) =
            (mapStacks c.map (xs ++ n :: ys)).remove key data := by
          rw [← hnw.1, ← hdata]
          exact Stacks.stacksOf_remove fun x hx hkey hval =>
            hxs x hx ⟨hkey.trans hnw.1, Or.inr (hval.trans hdata)⟩
        rw [hdata] at hmem
        simp only [specStep, if_neg hd, if_pos hmem, hremove]
    rw [hspec]
    refine ⟨⟨m', c.allocated.erase n⟩, by simp [step, hrun], xs ++ ys, hrep, ?_, ?_⟩
    · intro k hk
      have hkn : k ≠ n := by
        rintro rfl
        have := h.nodup
        grind
      refine (List.mem_erase_of_ne hkn).mpr (halloc k ?_)
      rcases List.mem_append.mp hk with hk | hk <;> simp [hk]
    · unfold mapStacks
      rw [helement]

/-- Every sound call on a map that represents stacks is matched by the specification. -/
theorem step_simulates (hR : Represents c s) {k : Call} (ha : Allocates c k)
    (hk : Sound c.map k) :
    ∃ c', step c k = some (c', (specStep s k).2) ∧ Represents c' (specStep s k).1 := by
  cases k with
  | put key data node =>
    obtain ⟨es, h, halloc, rfl⟩ := hR
    obtain ⟨b, hb⟩ : ∃ b, bucket c.map key = some b := ⟨_, if_pos hk⟩
    obtain ⟨m', hrun, hrep, hstacks⟩ :=
      put_spec data h hb ha.1 fun hmem => ha.2 (halloc node hmem)
    refine ⟨⟨m', node :: c.allocated⟩, by simp [step, hrun, specStep], node :: es, hrep, ?_,
      hstacks⟩
    intro n hn
    rcases List.mem_cons.mp hn with rfl | hn
    · simp
    · exact List.mem_cons_of_mem _ (halloc n hn)
  | get key =>
    obtain ⟨es, h, halloc, rfl⟩ := hR
    obtain ⟨b, hb⟩ : ∃ b, bucket c.map key = some b := ⟨_, if_pos hk⟩
    have hget := get_spec h hb
    cases hs : mapStacks c.map es key with
    | nil =>
      rw [hs] at hget
      exact ⟨c, by simp [step, hget, specStep, hs], es, h, halloc, by simp [specStep, hs]⟩
    | cons d ds =>
      rw [hs] at hget
      exact ⟨c, by simp [step, hget, specStep, hs], es, h, halloc, by simp [specStep, hs]⟩
  | remove key data => exact remove_simulates hR hk
  | length =>
    obtain ⟨es, h, halloc, rfl⟩ := hR
    refine ⟨c, ?_, es, h, halloc, rfl⟩
    have hcount : (mapStacks c.map es).count = es.length := Stacks.count_stacksOf
    simp [step, tuyaHashmapLength, h.size, specStep, hcount]

/-- A new map represents empty stacks. -/
theorem represents_new {tableSize : BitVec 32} (h : tuyaHashmapNew tableSize true true = some m) :
    Represents ⟨m, []⟩ fun _ => [] := by
  simp only [tuyaHashmapNew, Bool.not_true, Bool.false_eq_true, if_false] at h
  split at h
  · simp at h
  · simp only [Option.some.injEq] at h
    subst h
    exact ⟨[], ⟨fun b _ => ⟨rfl, trivial, by simp [inBucket]⟩, by simp, by simp, rfl⟩, by simp,
      rfl⟩

/-- A new map gives the replies of the specification to every sequence of sound calls. -/
theorem hashmap_refines {tableSize : BitVec 32}
    (hnew : tuyaHashmapNew tableSize true true = some m) {calls : List Call}
    (hl : Machine.Legal step (fun c k => Allocates c k ∧ Sound c.map k) ⟨m, []⟩ calls) :
    ∃ c s replies, Machine.run step ⟨m, []⟩ calls = some (c, replies) ∧
      Machine.run (fun s k => some (specStep s k)) (fun _ => []) calls = some (s, replies) ∧
      Represents c s :=
  Machine.run_simulates (fun _ _ _ hR hk => step_simulates hR hk.1 hk.2) (represents_new hnew) hl

end

/-! ## Two small maps -/

def keyA : CStr := ⟨[0x61], by decide⟩

def keyB : CStr := ⟨[0x62], by decide⟩

/-- A map of `tableSize` buckets. -/
def newMap (tableSize : BitVec 32) : Hashmap :=
  ⟨0, tableSize, (tableSize * 4).toNat / 4, ⟨fun _ => 0, fun _ => 0, fun _ => .first 0⟩,
    fun _ => ⟨CStr.empty, 0⟩⟩

def soundCalls : List Call :=
  [.put keyA 1 16, .put keyB 2 32, .put keyA 3 48, .get keyA, .remove keyA 1, .remove keyB 0,
    .length]

theorem hashmap_refines_small : ∃ c s replies,
    Machine.run step ⟨newMap 2, []⟩ soundCalls = some (c, replies) ∧
      Machine.run (fun s k => some (specStep s k)) (fun _ => []) soundCalls = some (s, replies) ∧
      Represents c s :=
  hashmap_refines (show tuyaHashmapNew 2 true true = some (newMap 2) by rfl)
    (Machine.legal_of_check (by decide +kernel))

/-- `remove` of a key that is not stored, from the only bucket of a map with another key. -/
def missingRemoved : List Call := [.put keyA 1 16, .remove keyB 0]

/-- The other key's element is removed, and the call reports success. -/
theorem hashmap_diverges : ∃ c replies,
    tuyaHashmapNew 1 true true = some (newMap 1) ∧
      Machine.Legal step Allocates ⟨newMap 1, []⟩ missingRemoved ∧
      Machine.run step ⟨newMap 1, []⟩ missingRemoved = some (c, replies) ∧ c.map.size = 0 ∧
      ∀ s replies', Machine.run (fun s k => some (specStep s k)) (fun _ => []) missingRemoved =
        some (s, replies') → replies' ≠ replies := by
  have hlegal : Machine.legalCheck step Allocates ⟨newMap 1, []⟩ missingRemoved = true := by
    decide +kernel
  have hend : (Machine.run step ⟨newMap 1, []⟩ missingRemoved).any (fun r =>
      decide (r.1.map.size = 0 ∧ r.2 = [⟨mapOk, 0⟩, ⟨mapOk, 0⟩])) = true := by
    decide +kernel
  obtain ⟨⟨c, replies⟩, hrun, hfacts⟩ := (Option.any_eq_true _ _).mp hend
  obtain ⟨hsize, hreplies⟩ := of_decide_eq_true hfacts
  have hreplies : replies = [⟨mapOk, 0⟩, ⟨mapOk, 0⟩] := hreplies
  refine ⟨c, replies, rfl, Machine.legal_of_check hlegal, hrun, hsize, ?_⟩
  intro s replies' hspec heq
  have hmissing : replies' = [⟨mapOk, 0⟩, ⟨mapMissing, 0⟩] := by
    have hne : keyB ≠ keyA := by decide
    simp only [Machine.run, missingRemoved, specStep, Stacks.push, if_true,
      Function.update_of_ne hne, Option.map_some, Option.some.injEq, Prod.mk.injEq] at hspec
    exact hspec.2.symm
  rw [heq, hreplies] at hmissing
  exact absurd hmissing (by decide)

end TuyaSdk.TuyaHashmap
