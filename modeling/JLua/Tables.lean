import JLua.Lib.Chains
import JLua.Value
import Mathlib.Data.Nat.Size

/-!
# Tables

A table keeps some of the positive integer keys in an array and all other keys in a vector of
nodes. Every key has a main position in the vector, and the nodes that share one are chained. A
colliding node that is out of its main position makes place for a new key. When no node is free,
both parts get the sizes that fit their contents best.
-/

set_option autoImplicit false

namespace JLua.Strings

/-- The hash that `luaS_newlstr` computes. Of a long string only every `step`th byte counts. -/
def hash (str : List UInt8) : UInt32 :=
  let l := str.length
  let step := l / 2 ^ 5 + 1
  (List.range (l / step)).foldl
    (fun h i =>
      let l1 := l - i * step
      h ^^^ ((h <<< 5) + (h >>> 2) + (str.getD (l1 - 1) 0).toUInt32))
    (UInt32.ofNat l)

end JLua.Strings

namespace JLua.Tables

open BinaryFloat Chains

/-! ### Keys -/

/-- `lua_number2int`. Where the cast is undefined, the callers reject whatever it gives. -/
def number2int (n : Double) : Int := n.toInt (-2 ^ 31) (2 ^ 31 - 1)

def doubleBits : Double → Nat
  | .nan => 0x7FF8000000000000
  | .inf negative => (if negative then 2 ^ 63 else 0) + 0x7FF0000000000000
  | .zero negative => if negative then 2 ^ 63 else 0
  | .finite m e _ =>
    let l := m.natAbs.log2
    (if m < 0 then 2 ^ 63 else 0) +
      if -1022 ≤ e + l then (e + l + 1023).toNat * 2 ^ 52 + (m.natAbs * 2 ^ (52 - l) - 2 ^ 52)
      else m.natAbs * 2 ^ (e + 1074).toNat

/-- The index of a key that may live in the array part, -1 for every other key. -/
def arrayindex : Value → Int
  | .number n =>
    let k := number2int n
    if (Number.ofInt binary64 k).ieeeEq n then k else -1
  | _ => -1

/-- `IntPoint` of what identifies a value that is known by its address. -/
def intPoint : Value → Nat
  | .lightuserdata p => p % 2 ^ 32
  | .table a => a % 2 ^ 32
  | .function a => a % 2 ^ 32
  | .userdata a => a % 2 ^ 32
  | .thread a => a % 2 ^ 32
  | _ => 0

def iscollectable : Value → Bool
  | .string _ => true
  | .table _ => true
  | .function _ => true
  | .userdata _ => true
  | .thread _ => true
  | _ => false

/-- The key of a node. A dead key is only good for going on from it in a traversal. -/
inductive TKey where
  | live (key : Value)
  | dead (key : Value)
  deriving DecidableEq

namespace TKey

def value : TKey → Value
  | live key => key
  | dead key => key

def rawequalObj : TKey → Value → Bool
  | live k, key => k.rawEqual key
  | dead _, _ => false

def sameObject : TKey → Value → Bool
  | live _, _ => false
  | dead k, key => iscollectable key && k = key

end TKey

structure Node where
  val : Value
  key : TKey
  next : Option Nat

def emptyNode : Node := ⟨.nil, .live .nil, none⟩

/-- The parts of a table: indices stand for pointers into its array and its vector of nodes. The
vector of `isDummy` is the node that all tables share whose hash part is empty. -/
structure Table where
  array : Nat → Value
  sizearray : Nat
  node : Nat → Node
  lsizenode : Nat
  isDummy : Bool
  lastfree : Nat

inductive Slot where
  | array (i : Nat)
  | node (i : Nat)
  deriving DecidableEq

def MAXBITS : Nat := 26

def MAXASIZE : Nat := 2 ^ MAXBITS

def MAX_INT : Nat := 2 ^ 31 - 1 - 2

def log_2 : List Nat :=
  [0, 1] ++ List.replicate 2 2 ++ List.replicate 4 3 ++ List.replicate 8 4 ++
    List.replicate 16 5 ++ List.replicate 32 6 ++ List.replicate 64 7 ++ List.replicate 128 8

def log2Loop : Nat → Int → Nat → Int
  | 0, l, x => l + log_2.getD x 0
  | rounds + 1, l, x =>
    if 256 ≤ x then log2Loop rounds (l + 8) (x >>> 8) else l + log_2.getD x 0

/-- An unsigned integer has four bytes. -/
def luaOLog2 (x : Nat) : Int := log2Loop 3 (-1) x

def ceillog2 (x : Nat) : Nat := (luaOLog2 (x - 1) + 1).toNat

def lmod (s size : Nat) : Nat := s &&& (size - 1)

namespace Table

def sizenode (t : Table) : Nat := 2 ^ t.lsizenode

def hashpow2 (t : Table) (n : Nat) : Nat := lmod n t.sizenode

def hashmod (t : Table) (n : Nat) : Nat := n % ((t.sizenode - 1) ||| 1)

/-- The two halves of the bits are added up. Both zeros are the same key. -/
def hashnum (t : Table) (n : Double) : Nat :=
  if n.ieeeEq (.zero false) then 0
  else t.hashmod ((doubleBits n % 2 ^ 32 + doubleBits n / 2 ^ 32) % 2 ^ 32)

def mainposition (t : Table) : Value → Nat
  | .number n => t.hashnum n
  | .string s => t.hashpow2 (Strings.hash s).toNat
  | .boolean b => t.hashpow2 b.toNat
  | key => t.hashmod (intPoint key)

def next (t : Table) (i : Nat) : Option Nat := (t.node i).next

/-- The nodes from `n` on. There are no more than the vector has. -/
def chain (t : Table) (n : Nat) : List Nat := walk t.next t.sizenode n

/-! ### Searching -/

def search (t : Table) (key : Value) (mp : Nat) : Option Slot :=
  ((t.chain mp).find? fun n => (t.node n).key.rawequalObj key).map .node

/-- No slot stands for `luaO_nilobject`. -/
def luaHGetnum (t : Table) (key : Int) : Option Slot :=
  if 1 ≤ key ∧ key ≤ t.sizearray then some (.array (key - 1).toNat)
  else t.search (.number (.ofInt binary64 key)) (t.hashnum (.ofInt binary64 key))

def luaHGetstr (t : Table) (key : List UInt8) : Option Slot :=
  t.search (.string key) (t.hashpow2 (Strings.hash key).toNat)

def luaHGet (t : Table) : Value → Option Slot
  | .nil => none
  | .string s => t.luaHGetstr s
  | .number n =>
    let k := number2int n
    if (Number.ofInt binary64 k).ieeeEq n then t.luaHGetnum k
    else t.search (.number n) (t.mainposition (.number n))
  | key => t.search key (t.mainposition key)

def read (t : Table) : Slot → Value
  | .array i => t.array i
  | .node i => (t.node i).val

def write (t : Table) (v : Value) : Slot → Table
  | .array i => { t with array := Function.update t.array i v }
  | .node i => { t with node := Function.update t.node i { t.node i with val := v } }

def get (t : Table) (key : Value) : Value := (t.luaHGet key).elim .nil t.read

/-! ### New keys -/

def setNext (t : Table) (i : Nat) (n : Option Nat) : Table :=
  { t with node := Function.update t.node i { t.node i with next := n } }

def setKey (t : Table) (i : Nat) (key : Value) : Table :=
  { t with node := Function.update t.node i { t.node i with key := .live key } }

def setNode (t : Table) (i : Nat) (n : Node) : Table :=
  { t with node := Function.update t.node i n }

def freeBelow (t : Table) : Nat → Option Nat
  | 0 => none
  | i + 1 => if (t.node i).key = .live .nil then some i else t.freeBelow i

/-- `lastfree` moves down to the node that is found, or out of the vector. -/
def getfreepos (t : Table) : Option Nat × Table :=
  (t.freeBelow t.lastfree, { t with lastfree := (t.freeBelow t.lastfree).getD 0 })

def previous (t : Table) (othern mp : Nat) : Nat :=
  ((t.chain othern).find? fun i => t.next i = some mp).getD othern

/-- An operation on a key that may leave the table changed, and ends in a slot or an error. -/
abbrev Insertion := Table → Value → Except String (Table × Slot)

/-- A new key, in a table without that key; `grow` does so with a table that is full. -/
def newkey (grow : Insertion) : Insertion := fun t key =>
  let mp := t.mainposition key
  if (t.node mp).val ≠ .nil ∨ t.isDummy then
    match t.getfreepos with
    | (none, t) => grow t key
    | (some n, t) =>
      let othern := t.mainposition (t.node mp).key.value
      if othern ≠ mp then
        let t := t.setNext (t.previous othern mp) n
        let t := t.setNode n (t.node mp)
        let t := t.setNode mp { t.node mp with next := none, val := .nil }
        .ok (t.setKey mp key, .node mp)
      else
        let t := t.setNext n (t.next mp)
        let t := t.setNext mp n
        .ok (t.setKey n key, .node n)
  else .ok (t.setKey mp key, .node mp)

def setWith (grow : Insertion) : Insertion := fun t key =>
  match t.luaHGet key with
  | some s => .ok (t, s)
  | none =>
    if key = .nil then .error "table index is nil"
    else if key = .number .nan then .error "table index is NaN"
    else newkey grow t key

def setnumWith (grow : Insertion) (t : Table) (key : Int) : Except String (Table × Slot) :=
  match t.luaHGetnum key with
  | some s => .ok (t, s)
  | none => newkey grow t (.number (.ofInt binary64 key))

/-! ### Rehash -/

end Table

/-- `nums i` is the number of keys between `2 ^ (i - 1)` and `2 ^ i`. -/
abbrev Counts := Nat → Nat

namespace Table

def countint (key : Value) (nums : Counts) : Nat × Counts :=
  let k := arrayindex key
  if 0 < k ∧ k ≤ MAXASIZE then
    (1, Function.update nums (ceillog2 k.toNat) (nums (ceillog2 k.toNat) + 1))
  else (0, nums)

def numusearrayLoop (t : Table) : Nat → Nat → Nat → Nat → Counts → Nat × Counts
  | 0, _, _, ause, nums => (ause, nums)
  | slices + 1, lg, i, ause, nums =>
    let lim := min (2 ^ lg) t.sizearray
    if t.sizearray < 2 ^ lg ∧ lim < i then (ause, nums)
    else
      let lc := (List.range' i (lim + 1 - i)).countP fun i => t.array (i - 1) ≠ .nil
      t.numusearrayLoop slices (lg + 1) (max i (lim + 1)) (ause + lc)
        (Function.update nums lg (nums lg + lc))

def numusearray (t : Table) (nums : Counts) : Nat × Counts :=
  t.numusearrayLoop (MAXBITS + 1) 0 1 0 nums

/-- How many nodes have a value, how many of their keys count as integers, and the counts. -/
def numusehash (t : Table) (nums : Counts) : Nat × Nat × Counts :=
  (List.range t.sizenode).reverse.foldl
    (fun (total, ause, nums) i =>
      if (t.node i).val ≠ .nil then
        let (one, nums) := countint (t.node i).key.value nums
        (total + 1, ause + one, nums)
      else (total, ause, nums))
    (0, 0, nums)

end Table

/-- The loop of `computesizes`: the best size so far with the number of keys that go there. -/
def computesizesLoop (nums : Counts) (narray : Nat) : Nat → Nat → Nat → Nat × Nat → Nat × Nat
  | 0, _, _, best => best
  | rounds + 1, i, a, best =>
    if 2 ^ i / 2 < narray then
      let a' := a + nums i
      let best := if 0 < nums i ∧ 2 ^ i / 2 < a' then (2 ^ i, a') else best
      if a' = narray then best else computesizesLoop nums narray rounds (i + 1) a' best
    else best

def computesizes (nums : Counts) (narray : Nat) : Nat × Nat :=
  computesizesLoop nums narray (MAXBITS + 1) 0 0 (0, 0)

namespace Table

def setarrayvector (t : Table) (size : Nat) : Table :=
  { t with array := fun i => if i < t.sizearray then t.array i else .nil, sizearray := size }

def setnodevector (t : Table) (size : Nat) : Except String Table :=
  if size = 0 then
    .ok { t with node := fun _ => emptyNode, lsizenode := 0, isDummy := true, lastfree := 0 }
  else if MAXBITS < ceillog2 size then .error "table overflow"
  else
    .ok { t with
      node := fun _ => emptyNode, lsizenode := ceillog2 size, isDummy := false,
      lastfree := 2 ^ ceillog2 size }

def reinsert {K : Type} (place : Table → K → Except String (Table × Slot)) :
    List (K × Value) → Table → Except String Table
  | [], t => .ok t
  | (key, v) :: rest, t =>
    if v ≠ .nil then do
      let (t, s) ← place t key
      reinsert place rest (t.write v s)
    else reinsert place rest t

/-- What an array holds from `nasize` on, with its keys. -/
def vanishing (t : Table) (nasize : Nat) : List (Int × Value) :=
  (List.range' nasize (t.sizearray - nasize)).map fun (i : Nat) => ((i : Int) + 1, t.array i)

def nodes (t : Table) : List (Value × Value) :=
  (List.range t.sizenode).reverse.map fun i => ((t.node i).key.value, (t.node i).val)

def resize (grow : Insertion) (t : Table) (nasize nhsize : Nat) : Except String Table := do
  let grown := if t.sizearray < nasize then t.setarrayvector nasize else t
  let fresh ← grown.setnodevector nhsize
  -- the vanishing slice is empty unless the array shrinks
  let shrunk ← reinsert (setnumWith grow) (t.vanishing nasize) { fresh with sizearray := nasize }
  reinsert (setWith grow) t.nodes shrunk

def luaHResizearray (grow : Insertion) (t : Table) (nasize : Nat) : Except String Table :=
  t.resize grow nasize (if t.isDummy then 0 else t.sizenode)

def rehash (grow : Insertion) (t : Table) (ek : Value) : Except String Table :=
  let (nasize, nums) := t.numusearray fun _ => 0
  let (total, ause, nums) := t.numusehash nums
  let (one, nums) := countint ek nums
  let totaluse := nasize + total + 1
  let (n, na) := computesizes nums (nasize + ause + one)
  t.resize grow n (totaluse - na)

/-- `luaH_set` with rehashes that are nested so deep. -/
def setAt : Nat → Insertion
  | 0 => setWith fun _ _ => .error "too many rehashes"
  | depth + 1 => setWith fun t key => do
    let t ← t.rehash (setAt depth) key
    setAt depth t key

def grow : Insertion := fun t key => do
  let t ← t.rehash (setAt 0) key
  setAt 0 t key

/-- `luaH_set`. No table is rehashed while it is rehashed. -/
def luaHSet : Insertion := setAt 1

def luaHSetnum (t : Table) (key : Int) : Except String (Table × Slot) := setnumWith grow t key

def luaHNew (narray nhash : Nat) : Except String Table :=
  setnodevector
    (setarrayvector ⟨fun _ => .nil, 0, fun _ => emptyNode, 0, true, 0⟩ narray) nhash

/-- `removeentry`: only traversals still know the key. -/
def removeentry (n : Node) : Node :=
  if iscollectable n.key.value then { n with key := .dead n.key.value } else n

/-- What the traversal of a table by the collector does to entries without a value. -/
def removeEntries (t : Table) : Table :=
  { t with node := fun i => if (t.node i).val = .nil then removeentry (t.node i) else t.node i }

/-- An assignment: `luaH_set` and the value in the slot it returns. -/
def rawset (t : Table) (key v : Value) : Except String Table := do
  let (t, s) ← luaHSet t key
  return t.write v s

/-! ### Traversal -/

/-- The index of a key among all slots, those of the nodes after those of the array. -/
def findindex (t : Table) (key : Value) : Except String Int :=
  if key = .nil then .ok (-1)
  else if 0 < arrayindex key ∧ arrayindex key ≤ t.sizearray then .ok (arrayindex key - 1)
  else
    let found := (t.chain (t.mainposition key)).find? fun n =>
      (t.node n).key.rawequalObj key || (t.node n).key.sameObject key
    match found with
    | some n => .ok (n + t.sizearray)
    | none => .error "invalid key to 'next'"

def nextArray (t : Table) (i : Nat) : Option (Value × Value) :=
  (List.range' i (t.sizearray - i)).findSome? fun (i : Nat) =>
    if t.array i ≠ .nil then some (.number (.ofInt _ ((i : Int) + 1)), t.array i) else none

def nextNode (t : Table) (i : Nat) : Option (Value × Value) :=
  (List.range' i (t.sizenode - i)).findSome? fun i =>
    if (t.node i).val ≠ .nil then some ((t.node i).key.value, (t.node i).val) else none

def nextFrom (t : Table) (i : Nat) : Option (Value × Value) :=
  (t.nextArray i).or (t.nextNode (i - t.sizearray))

def luaHNext (t : Table) (key : Value) : Except String (Option (Value × Value)) :=
  (t.findindex key).map fun i => t.nextFrom (i + 1).toNat

/-! ### Borders -/

def getnum (t : Table) (i : Nat) : Value := (t.luaHGetnum i).elim .nil t.read

end Table

/-- The binary search for an index that is not empty before one that is. -/
def bisect (empty : Nat → Bool) : Nat → Nat → Nat → Nat
  | 0, i, _ => i
  | rounds + 1, i, j =>
    if 1 < j - i then
      let m := (i + j) / 2
      if empty m then bisect empty rounds i m else bisect empty rounds m j
    else i

namespace Table

def linearSearch (t : Table) : Nat → Nat → Nat
  | 0, i => i - 1
  | rounds + 1, i => if t.getnum i ≠ .nil then t.linearSearch rounds (i + 1) else i - 1

/-- The rounds of `unbound_search`: `j` doubles until it is the index of nothing. -/
def unboundLoop (t : Table) : Nat → Nat → Nat → Nat
  | 0, i, _ => i
  | rounds + 1, i, j =>
    if t.getnum j ≠ .nil then
      if MAX_INT < 2 * j then t.linearSearch (t.sizearray + t.sizenode + 1) 1
      else t.unboundLoop rounds j (2 * j)
    else bisect (fun m => t.getnum m = .nil) (j - i) i j

/-- An integer has no more than 32 bits to double. -/
def unboundSearch (t : Table) (j : Nat) : Nat := t.unboundLoop 32 j (j + 1)

def luaHGetn (t : Table) : Nat :=
  let j := t.sizearray
  if 0 < j ∧ t.array (j - 1) = .nil then bisect (fun m => t.array (m - 1) = .nil) j 0 j
  else if t.isDummy then j
  else t.unboundSearch j

end Table
end JLua.Tables
