import TuyaSdk.TuyaHashmap.Hlist
import TuyaSdk.Lib.Bytes
import TuyaSdk.Lib.Loop
import TuyaSdk.Lib.Machine

/-!
# The hash map

`tuya_hashmap.c` on a 32-bit target. A map is an array of hash lists whose nodes are
embedded in elements with a key and a datum; an element is known by the address of its
node. Keys are NUL-terminated strings that do not change while they are stored, so the
model keeps their bytes. Data are pointers, `0` for `NULL`.

An access outside the array of list heads has no result. The walk of a bucket is bounded
by the number of stored elements: `none` is a walk that goes round forever.
-/

namespace TuyaSdk.TuyaHashmap
open TuyaSdk.Lib TuyaSdk.TuyaHlist

abbrev mapMissing : Int := -2
abbrev mapOmem : Int := -1
abbrev mapOk : Int := 0

/-- The bytes of a NUL-terminated string. -/
structure CStr where
  bytes : List Byte
  noNul : 0 ∉ bytes
  deriving DecidableEq

/-- `""` -/
def CStr.empty : CStr := ⟨[], List.not_mem_nil⟩

/-- `HASHMAP_ELEMENT_T`, less the node. -/
structure HashmapElement where
  key : CStr
  data : Nat

/-- `HASHMAP_T` with its array of `heads` list heads and the elements in memory. -/
structure Hashmap where
  size : Int
  tableSize : BitVec 32
  heads : Nat
  list : HlistMem
  element : Nat → HashmapElement

/-! ## Strings and hashing -/

def strlen (s : CStr) : Nat := s.bytes.length

/-- `strcmp` on the bytes before the NUL. -/
def strcmpBytes : List Byte → List Byte → Int
  | [], [] => 0
  | [], b :: _ => -b.toNat
  | a :: _, [] => a.toNat
  | a :: as, b :: bs => if a = b then strcmpBytes as bs else a.toNat - b.toNat

def strcmp (s t : CStr) : Int := strcmpBytes s.bytes t.bytes

/-- The test for equal keys that every walk makes. -/
def sameKey (key other : CStr) : Bool := strlen key = strlen other ∧ strcmp key other = 0

def crc32Tab : List (BitVec 32) := [
  0x00000000, 0x77073096, 0xee0e612c, 0x990951ba, 0x076dc419, 0x706af48f, 0xe963a535, 0x9e6495a3,
  0x0edb8832, 0x79dcb8a4, 0xe0d5e91e, 0x97d2d988, 0x09b64c2b, 0x7eb17cbd, 0xe7b82d07, 0x90bf1d91,
  0x1db71064, 0x6ab020f2, 0xf3b97148, 0x84be41de, 0x1adad47d, 0x6ddde4eb, 0xf4d4b551, 0x83d385c7,
  0x136c9856, 0x646ba8c0, 0xfd62f97a, 0x8a65c9ec, 0x14015c4f, 0x63066cd9, 0xfa0f3d63, 0x8d080df5,
  0x3b6e20c8, 0x4c69105e, 0xd56041e4, 0xa2677172, 0x3c03e4d1, 0x4b04d447, 0xd20d85fd, 0xa50ab56b,
  0x35b5a8fa, 0x42b2986c, 0xdbbbc9d6, 0xacbcf940, 0x32d86ce3, 0x45df5c75, 0xdcd60dcf, 0xabd13d59,
  0x26d930ac, 0x51de003a, 0xc8d75180, 0xbfd06116, 0x21b4f4b5, 0x56b3c423, 0xcfba9599, 0xb8bda50f,
  0x2802b89e, 0x5f058808, 0xc60cd9b2, 0xb10be924, 0x2f6f7c87, 0x58684c11, 0xc1611dab, 0xb6662d3d,
  0x76dc4190, 0x01db7106, 0x98d220bc, 0xefd5102a, 0x71b18589, 0x06b6b51f, 0x9fbfe4a5, 0xe8b8d433,
  0x7807c9a2, 0x0f00f934, 0x9609a88e, 0xe10e9818, 0x7f6a0dbb, 0x086d3d2d, 0x91646c97, 0xe6635c01,
  0x6b6b51f4, 0x1c6c6162, 0x856530d8, 0xf262004e, 0x6c0695ed, 0x1b01a57b, 0x8208f4c1, 0xf50fc457,
  0x65b0d9c6, 0x12b7e950, 0x8bbeb8ea, 0xfcb9887c, 0x62dd1ddf, 0x15da2d49, 0x8cd37cf3, 0xfbd44c65,
  0x4db26158, 0x3ab551ce, 0xa3bc0074, 0xd4bb30e2, 0x4adfa541, 0x3dd895d7, 0xa4d1c46d, 0xd3d6f4fb,
  0x4369e96a, 0x346ed9fc, 0xad678846, 0xda60b8d0, 0x44042d73, 0x33031de5, 0xaa0a4c5f, 0xdd0d7cc9,
  0x5005713c, 0x270241aa, 0xbe0b1010, 0xc90c2086, 0x5768b525, 0x206f85b3, 0xb966d409, 0xce61e49f,
  0x5edef90e, 0x29d9c998, 0xb0d09822, 0xc7d7a8b4, 0x59b33d17, 0x2eb40d81, 0xb7bd5c3b, 0xc0ba6cad,
  0xedb88320, 0x9abfb3b6, 0x03b6e20c, 0x74b1d29a, 0xead54739, 0x9dd277af, 0x04db2615, 0x73dc1683,
  0xe3630b12, 0x94643b84, 0x0d6d6a3e, 0x7a6a5aa8, 0xe40ecf0b, 0x9309ff9d, 0x0a00ae27, 0x7d079eb1,
  0xf00f9344, 0x8708a3d2, 0x1e01f268, 0x6906c2fe, 0xf762575d, 0x806567cb, 0x196c3671, 0x6e6b06e7,
  0xfed41b76, 0x89d32be0, 0x10da7a5a, 0x67dd4acc, 0xf9b9df6f, 0x8ebeeff9, 0x17b7be43, 0x60b08ed5,
  0xd6d6a3e8, 0xa1d1937e, 0x38d8c2c4, 0x4fdff252, 0xd1bb67f1, 0xa6bc5767, 0x3fb506dd, 0x48b2364b,
  0xd80d2bda, 0xaf0a1b4c, 0x36034af6, 0x41047a60, 0xdf60efc3, 0xa867df55, 0x316e8eef, 0x4669be79,
  0xcb61b38c, 0xbc66831a, 0x256fd2a0, 0x5268e236, 0xcc0c7795, 0xbb0b4703, 0x220216b9, 0x5505262f,
  0xc5ba3bbe, 0xb2bd0b28, 0x2bb45a92, 0x5cb36a04, 0xc2d7ffa7, 0xb5d0cf31, 0x2cd99e8b, 0x5bdeae1d,
  0x9b64c2b0, 0xec63f226, 0x756aa39c, 0x026d930a, 0x9c0906a9, 0xeb0e363f, 0x72076785, 0x05005713,
  0x95bf4a82, 0xe2b87a14, 0x7bb12bae, 0x0cb61b38, 0x92d28e9b, 0xe5d5be0d, 0x7cdcefb7, 0x0bdbdf21,
  0x86d3d2d4, 0xf1d4e242, 0x68ddb3f8, 0x1fda836e, 0x81be16cd, 0xf6b9265b, 0x6fb077e1, 0x18b74777,
  0x88085ae6, 0xff0f6a70, 0x66063bca, 0x11010b5c, 0x8f659eff, 0xf862ae69, 0x616bffd3, 0x166ccf45,
  0xa00ae278, 0xd70dd2ee, 0x4e048354, 0x3903b3c2, 0xa7672661, 0xd06016f7, 0x4969474d, 0x3e6e77db,
  0xaed16a4a, 0xd9d65adc, 0x40df0b66, 0x37d83bf0, 0xa9bcae53, 0xdebb9ec5, 0x47b2cf7f, 0x30b5ffe9,
  0xbdbdf21c, 0xcabac28a, 0x53b39330, 0x24b4a3a6, 0xbad03605, 0xcdd70693, 0x54de5729, 0x23d967bf,
  0xb3667a2e, 0xc4614ab8, 0x5d681b02, 0x2a6f2b94, 0xb40bbe37, 0xc30c8ea1, 0x5a05df1b, 0x2d02ef8d]

/-- `__crc32_hashmap`. -/
def crc32Hashmap (s : List Byte) : BitVec 32 :=
  s.foldl (fun crc b => crc32Tab.getD ((crc ^^^ b.setWidth 32) &&& 0xff).toNat 0 ^^^ (crc >>> 8)) 0

/-- `__hashmap_hash_int`. -/
def hashmapHashInt (tableSize : BitVec 32) (keystring : CStr) : Nat :=
  let key := crc32Hashmap keystring.bytes
  let key := key + (key <<< 12)
  let key := key ^^^ (key >>> 22)
  let key := key + (key <<< 4)
  let key := key ^^^ (key >>> 9)
  let key := key + (key <<< 10)
  let key := key ^^^ (key >>> 2)
  let key := key + (key <<< 7)
  let key := key ^^^ (key >>> 12)
  -- the literal stands first: terms over an open key would unfold along it otherwise
  let key := 2654435761 * (key >>> 3)
  (key % tableSize).toNat

/-! ## Operations -/

/-- `tuya_hashmap_new`, with the outcome of its two allocations. The byte count of the
array of heads, four for each, is computed in 32 bits. -/
def tuyaHashmapNew (tableSize : BitVec 32) (mapOk listOk : Bool) : Option Hashmap :=
  if tableSize = 0 then none
  else if !mapOk then none
  else if !listOk then none
  else
    some {
      size := 0
      tableSize := tableSize
      heads := (tableSize * 4).toNat / 4
      list := ⟨fun _ => 0, fun _ => 0, fun _ => .first 0⟩
      element := fun _ => ⟨⟨[], by simp⟩, 0⟩ }

/-- The bucket of a key: none when it lies outside the array of heads. -/
def bucket (m : Hashmap) (key : CStr) : Option Nat :=
  let curr := hashmapHashInt m.tableSize key
  if curr < m.heads then some curr else none

/-- `tuya_hashmap_put`, with the address of the node that the allocation returned. -/
def tuyaHashmapPut (m : Hashmap) (key : CStr) (data : Nat) (node : Nat) :
    Option (Hashmap × Int) :=
  if node = 0 then some (m, mapOmem)
  else
    match bucket m key with
    | none => none
    | some curr =>
      some ({ m with
        size := m.size + 1
        list := tuyaHlistAddHead m.list node curr
        element := Function.update m.element node ⟨key, data⟩ }, mapOk)

/-- One pass of the walk in `__hash_find`. -/
def findPass (m : Hashmap) (key : CStr) (pos : Nat) : Pass Nat Nat :=
  if pos = 0 then .exit 0
  else if sameKey key (m.element pos).key then .exit pos
  else .again (m.list.next pos)

/-- `__hash_find`: the node of the element, `0` when there is none. -/
def hashFind (m : Hashmap) (key : CStr) : Option Nat :=
  match bucket m key with
  | none => none
  | some curr =>
    if tuyaHlistEmpty m.list curr then some 0
    else Loop.run (findPass m key) (m.size.toNat + 1) (m.list.first curr)

/-- `tuya_hashmap_get`, with what it stores in `*arg`. -/
def tuyaHashmapGet (m : Hashmap) (key : CStr) : Option (Int × Nat) :=
  (hashFind m key).map fun element =>
    if element = 0 then (mapMissing, 0) else (mapOk, (m.element element).data)

/-- One pass of the walk in `tuya_hashmap_remove`, with `pos` and `tmp_element`. When the
walk runs off the end, `tmp_element` is still the last element of the bucket. -/
def removePass (m : Hashmap) (key : CStr) (data : Nat) : Nat × Nat → Pass (Nat × Nat) Nat
  | (pos, tmp) =>
    if pos = 0 then .exit tmp
    else if sameKey key (m.element pos).key ∧ (data = 0 ∨ (m.element pos).data = data) then
      .exit pos
    else .again (m.list.next pos, pos)

/-- `tuya_hashmap_remove`: the map, the return code, and the element freed. -/
def tuyaHashmapRemove (m : Hashmap) (key : CStr) (data : Nat) : Option (Hashmap × Int × Nat) :=
  match bucket m key with
  | none => none
  | some curr =>
    if tuyaHlistEmpty m.list curr then some (m, mapMissing, 0)
    else
      match Loop.run (removePass m key data) (m.size.toNat + 1) (m.list.first curr, 0) with
      | none => none
      | some tmp =>
        if tmp = 0 then some (m, mapMissing, 0)
        else
          some ({ m with size := m.size - 1, list := internalTuyaHlistDel m.list tmp },
            mapOk, tmp)

/-- `tuya_hashmap_length`. -/
def tuyaHashmapLength (m : Hashmap) : Int := m.size

end TuyaSdk.TuyaHashmap
