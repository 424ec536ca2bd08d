import JLua.Lib.Outcomes
import JLua.UserdataHeap
import JLua.Stack

/-!
# The stack under the native helpers

What the C helpers of the library do to the frame they run in: its slots, the registry, and the
tables and userdata of the heap. A push finds a free slot as long as the top is below the limit of
the frame; the frame remembers whether one did not. The collector is left out.
-/

namespace JLua.NativeHelpers

open OutcomeRules
open UserdataHeap (CFunction)
set_option autoImplicit false

def JLUAJVMTAG : String := "__JVM"

def JLUAJVERSIONTAG : String := "__JVersion"

def JLUAOBJECTIND : String := "__IsJavaObject"

def JLUASTATEINDEX : String := "JLuaStateIndex"

def LUAINDEXMETAMETHODTAG : String := "__index"

def LUANEWINDEXMETAMETHODTAG : String := "__newindex"

def LUAGCMETAMETHODTAG : String := "__gc"

def LUACALLMETAMETHODTAG : String := "__call"

def LUA_REGISTRYINDEX : Int := -10000

/-- What stands in the block of a userdata. -/
inductive Block where
  | javaVM (jvm : Nat)
  | jint (version : Int)
  | jobject (obj : JavaObject)
  | other

structure Udata where
  block : Block
  metatable : Option Nat

structure Table where
  get : Value → Value
  metatable : Option Nat

/-- The current `CallInfo` of a state and the heap. `limit` is where the frame ends, and
`typeMetatable` has the metatables of the types whose values have none of their own. -/
@[ext] structure Frame where
  stack : Stack
  limit : Nat
  overflow : Bool
  registry : Value → Value
  tables : List Table
  userdata : List Udata
  closures : List CFunction
  typeMetatable : LuaType → Option Nat

namespace Frame

/-- `n` more slots are needed on top of the stack. -/
def reach (L : Frame) (n : Nat) : Frame :=
  { L with overflow := L.overflow || decide (L.limit < L.stack.length + n) }

def put (L : Frame) (v : Value) : Frame := { L with stack := L.stack ++ [v] }

/-- A push, with the check of `api_incr_top`. -/
def push (L : Frame) (v : Value) : Frame := (L.reach 1).put v

def valueAt (L : Frame) (idx : Int) : Value := (index2adr L.stack idx).getD .nil

def pop (L : Frame) (n : Nat) : Frame := { L with stack := JLua.luaPop L.stack n }

def insert (L : Frame) (idx : Int) : Frame := { L with stack := JLua.luaInsert L.stack idx }

def addUserdata (L : Frame) (block : Block) : Frame :=
  { L with userdata := L.userdata ++ [⟨block, none⟩] }

def addTable (L : Frame) : Frame := { L with tables := L.tables ++ [⟨fun _ => .nil, none⟩] }

def addClosure (L : Frame) (f : CFunction) : Frame := { L with closures := L.closures ++ [f] }

def newuserdata (L : Frame) (block : Block) : Frame :=
  (L.addUserdata block).push (.userdata L.userdata.length)

def newtable (L : Frame) : Frame := L.addTable.push (.table L.tables.length)

def pushcfunction (L : Frame) (f : CFunction) : Frame :=
  (L.addClosure f).push (.function L.closures.length)

/-- The table at a valid index, or the registry. -/
def tableAt (L : Frame) (idx : Int) : Value → Value :=
  if idx = LUA_REGISTRYINDEX then L.registry
  else match L.valueAt idx with
    | .table a => (L.tables[a]?).elim (fun _ => .nil) Table.get
    | _ => fun _ => .nil

/-- The key on top gives way to the value. -/
def rawget (L : Frame) (idx : Int) : Frame := (L.pop 1).put (L.tableAt idx (L.valueAt (-1)))

def setTable (L : Frame) (a : Nat) (k v : Value) : Frame :=
  { L with tables := L.tables.modify a fun t => { t with get := Function.update t.get k v } }

def setRegistry (L : Frame) (k v : Value) : Frame :=
  { L with registry := Function.update L.registry k v }

def rawset (L : Frame) (idx : Int) : Frame :=
  let k := L.valueAt (-2)
  let v := L.valueAt (-1)
  if idx = LUA_REGISTRYINDEX then (L.setRegistry k v).pop 2
  else match L.valueAt idx with
    | .table a => (L.setTable a k v).pop 2
    | _ => L.pop 2

def metatableOf (L : Frame) : Value → Option Nat
  | .table a => (L.tables[a]?).bind Table.metatable
  | .userdata a => (L.userdata[a]?).bind Udata.metatable
  | v => L.typeMetatable v.type

def setMetatable (L : Frame) (v : Value) (mt : Option Nat) : Frame :=
  match v with
  | .table a => { L with tables := L.tables.modify a fun t => { t with metatable := mt } }
  | .userdata a => { L with userdata := L.userdata.modify a fun u => { u with metatable := mt } }
  | v => { L with typeMetatable := Function.update L.typeMetatable v.type mt }

def tableAddress : Value → Option Nat
  | .table a => some a
  | _ => none

def setmetatable (L : Frame) (idx : Int) : Frame :=
  (L.setMetatable (L.valueAt idx) (tableAddress (L.valueAt (-1)))).pop 1

end Frame

/-- C code on a frame, which may raise a Lua error. -/
abbrev C (α : Type) := EStateM Value Frame α

def luaPushstring (s : String) : C Unit := modify (·.push (.ofString s))

def luaPushboolean (b : Bool) : C Unit := modify (·.push (.boolean b))

def luaPushcfunction (f : CFunction) : C Unit := modify (·.pushcfunction f)

def luaPop (n : Nat) : C Unit := modify (·.pop n)

def luaInsert (idx : Int) : C Unit := modify (·.insert idx)

def luaNewuserdata (block : Block) : C Unit := modify (·.newuserdata block)

def luaNewtable : C Unit := modify (·.newtable)

def luaRawget (idx : Int) : C Unit := modify (·.rawget idx)

def luaRawset (idx : Int) : C Unit := modify (·.rawset idx)

/-- Always answers 1. -/
def luaSetmetatable (idx : Int) : C Bool := do
  modify (·.setmetatable idx)
  return true

def luaGetmetatable (idx : Int) : C Bool := do
  match (← get).metatableOf ((← get).valueAt idx) with
  | none => return false
  | some a =>
    modify (·.push (.table a))
    return true

def luaError {α : Type} : C α := do throw ((← get).valueAt (-1))

/-- What the helpers ask of the JVM and of the C library. -/
structure Outside where
  javaVM : Nat
  version : Int
  getEnv : Block → Block → Int × Nat
  attachCurrentThread : Block → Int
  checkJavaObj : Double → JavaObject → Option JavaObject
  stringToNumber : List UInt8 → Option Double

def isUserdata (t : LuaType) : Bool := t = .userdata || t = .lightuserdata

def luaIsuserdata (idx : Int) : C Bool := return isUserdata (luaType (← get).stack idx)

def luaIsnil (idx : Int) : C Bool := return luaType (← get).stack idx = .nil

/-- What a userdata points to; the helpers write no light ones. -/
def Frame.blockOf (L : Frame) : Value → Block
  | .userdata a => (L.userdata[a]?).elim .other Udata.block
  | _ => .other

def luaTouserdata (idx : Int) : C Block := do return (← get).blockOf ((← get).valueAt idx)

section Helpers
variable (J : Outside)

def tonumber : Value → Option Double
  | .number x => some x
  | .string s => J.stringToNumber s
  | _ => none

def luaIsnumber (idx : Int) : C Bool := return (tonumber J ((← get).valueAt idx)).isSome

def luaTonumber (idx : Int) : C Double :=
  return (tonumber J ((← get).valueAt idx)).getD (.ofInt _ 0)

def getLuaStateIndex : C Double := do
  luaPushstring JLUASTATEINDEX
  luaRawget LUA_REGISTRYINDEX
  if !(← luaIsnumber J (-1)) then
    luaPushstring "Impossible to identify luaState id."
    luaError
  else
    let stateIndex ← luaTonumber J (-1)
    luaPop 1
    return stateIndex

def isJavaObject (idx : Int) : C Bool := do
  if !(← luaIsuserdata idx) then return false
  else if !(← luaGetmetatable idx) then return false
  else
    luaPushstring JLUAOBJECTIND
    luaRawget (-2)
    if ← luaIsnil (-1) then
      luaPop 2
      return false
    else
      luaPop 2
      return true

def JNI_OK : Int := 0

def JNI_EDETACHED : Int := -2

/-- A thread that has just been attached gets no environment either. -/
def currentEnv (udJvm udJavaVersion : Block) : Option Nat :=
  let (getEnvStat, env) := J.getEnv udJvm udJavaVersion
  if getEnvStat = JNI_EDETACHED then
    if J.attachCurrentThread udJvm ≠ 0 then none else none
  else if getEnvStat = JNI_OK then some env
  else none

/-- `none` is `NULL`. -/
def getEnvFromState : C (Option Nat) := do
  luaPushstring JLUAJVMTAG
  luaRawget LUA_REGISTRYINDEX
  if !(← luaIsuserdata (-1)) then
    luaPop 1
    return none
  else
    let udJvm ← luaTouserdata (-1)
    luaPop 1
    luaPushstring JLUAJVERSIONTAG
    luaRawget LUA_REGISTRYINDEX
    if !(← luaIsuserdata (-1)) then
      luaPop 1
      return none
    else
      let udJavaVersion ← luaTouserdata (-1)
      luaPop 1
      return currentEnv J udJvm udJavaVersion

def getEnvFromStateCheck : C Nat := do
  match ← getEnvFromState J with
  | some javaEnv => return javaEnv
  | none =>
    luaPushstring "Invalid JNI Environment."
    luaError

def pushJNIEnv : C Unit := do
  luaNewuserdata (.javaVM J.javaVM)
  luaPushstring JLUAJVMTAG
  luaInsert (-2)
  luaRawset LUA_REGISTRYINDEX
  luaNewuserdata (.jint J.version)
  luaPushstring JLUAJVERSIONTAG
  luaInsert (-2)
  luaRawset LUA_REGISTRYINDEX

/-- The state itself is the one at work. -/
def getStateFromCPtr : C Unit := pushJNIEnv J

/-! ### The proxies of Java objects -/

def setMetamethods : List (String × CFunction) → C Unit
  | [] => pure ()
  | (tag, f) :: metamethods => do
    luaPushstring tag
    luaPushcfunction f
    luaRawset (-3)
    setMetamethods metamethods

/-- A userdata with a new metatable, which is marked after the metamethods are set. -/
def pushProxy (metamethods : List (String × CFunction)) (failed : C Unit) (obj : JavaObject) :
    C Unit := do
  luaNewuserdata (.jobject obj)
  luaNewtable
  setMetamethods metamethods
  luaPushstring JLUAOBJECTIND
  luaPushboolean true
  luaRawset (-3)
  if !(← luaSetmetatable (-2)) then failed

def cannotCreateProxy : C Unit := do
  luaPushstring "Cannot create proxy to java object."
  luaError

def pushUnchecked (obj : JavaObject) : C Unit := do
  let _ ← getEnvFromStateCheck J
  pushProxy [(LUAINDEXMETAMETHODTAG, .objectIndex), (LUANEWINDEXMETAMETHODTAG, .objectNewIndex),
    (LUAGCMETAMETHODTAG, .gc)] cannotCreateProxy obj

/-- The stack trace that is kept for Java first is left out. -/
def handleException : Option JavaObject → C Unit
  | none => pure ()
  | some exp => do
    pushUnchecked J exp
    luaError

/-- With the code of `getLuaStateIndex` written out in the source. -/
def checkJavaObj (obj : JavaObject) : C Unit := do
  let _ ← getEnvFromStateCheck J
  let stateIndex ← getLuaStateIndex J
  handleException J (J.checkJavaObj stateIndex obj)

def pushJavaObject (obj : JavaObject) (checkObject : Bool) : C Unit := do
  if checkObject then checkJavaObj J obj
  pushUnchecked J obj

def pushJavaArray (obj : JavaObject) : C Unit := do
  let _ ← getEnvFromStateCheck J
  pushProxy [(LUAINDEXMETAMETHODTAG, .arrayIndex), (LUANEWINDEXMETAMETHODTAG, .arrayNewIndex),
    (LUAGCMETAMETHODTAG, .gc)] cannotCreateProxy obj

/-- The native method, which has its environment from Java and leaves an exception there if it
fails. -/
def pushJavaFunction (obj : JavaObject) : C Unit := do
  getStateFromCPtr J
  pushProxy [(LUACALLMETAMETHODTAG, .jluaFunctionCall), (LUAGCMETAMETHODTAG, .gc)] (pure ()) obj

end Helpers

/-! ### Frames -/

namespace Frame
variable (L : Frame)

theorem reach_reach (m n : Nat) : (L.reach m).reach n = L.reach (max m n) := by
  ext1 <;> try rfl
  simp only [reach]
  grind

theorem reach_put (v : Value) (n : Nat) : (L.put v).reach n = (L.reach (n + 1)).put v := by
  ext1 <;> try rfl
  simp only [reach, put, List.length_append, List.length_singleton]
  grind

theorem push_eq (v : Value) : L.push v = (L.reach 1).put v := rfl

@[simp] theorem pop_put (v : Value) : (L.put v).pop 1 = L := by
  ext1 <;> try rfl
  exact luaPop_top L.stack v

@[simp] theorem pop_put_put (v w : Value) : ((L.put v).put w).pop 2 = L := by
  ext1 <;> try rfl
  simp [pop, put, JLua.luaPop]

@[simp] theorem valueAt_put (v : Value) : (L.put v).valueAt (-1) = v := by
  simp [valueAt, put, index2adr_top]

@[simp] theorem valueAt_put_put (v w : Value) : ((L.put v).put w).valueAt (-2) = v := by
  have habove := index2adr_above L.stack v [w]
  simp only [valueAt, put, List.append_assoc, List.cons_append, List.nil_append]
  rw [show (-2 : Int) = -(([w].length : Int) + 1) from rfl, habove]
  rfl

@[simp] theorem valueAt_put_put_put (u v w : Value) :
    (((L.put u).put v).put w).valueAt (-3) = u := by
  have habove := index2adr_above L.stack u [v, w]
  simp only [valueAt, put, List.append_assoc, List.cons_append, List.nil_append]
  rw [show (-3 : Int) = -(([v, w].length : Int) + 1) from rfl, habove]
  rfl

@[simp] theorem insert_put_put (v w : Value) :
    ((L.put v).put w).insert (-2) = (L.put w).put v := by
  ext1 <;> try rfl
  simp [insert, put, luaInsert_second]

@[simp] theorem rawget_registry (k : Value) :
    (L.put k).rawget LUA_REGISTRYINDEX = L.put (L.registry k) := by
  rw [rawget, pop_put, valueAt_put, tableAt, if_pos rfl]
  rfl

def get (a : Nat) (k : Value) : Value := (L.tables[a]?).elim .nil (Table.get · k)

@[simp] theorem rawget_table (a : Nat) (k : Value) :
    ((L.put (.table a)).put k).rawget (-2) = (L.put (.table a)).put (L.get a k) := by
  rw [rawget, pop_put, valueAt_put, tableAt, if_neg (by decide), valueAt_put_put]
  dsimp only [get]
  change (L.put (.table a)).put ((L.tables[a]?).elim (fun _ => .nil) Table.get k) = _
  cases L.tables[a]? <;> rfl

@[simp] theorem rawset_registry (k v : Value) :
    ((L.put k).put v).rawset LUA_REGISTRYINDEX = L.setRegistry k v := by
  rw [rawset, valueAt_put, valueAt_put_put, if_pos rfl]
  exact pop_put_put (L.setRegistry k v) k v

@[simp] theorem rawset_table (a : Nat) (k v : Value) :
    (((L.put (.table a)).put k).put v).rawset (-3) = (L.setTable a k v).put (.table a) := by
  rw [rawset, valueAt_put, valueAt_put_put, valueAt_put_put_put, if_neg (by decide)]
  exact pop_put_put ((L.setTable a k v).put (.table a)) k v

theorem setMetatable_put (v w : Value) (mt : Option Nat) :
    (L.put w).setMetatable v mt = (L.setMetatable v mt).put w := by
  cases v <;> rfl

@[simp] theorem setmetatable_put (v : Value) (a : Nat) :
    ((L.put v).put (.table a)).setmetatable (-2) = (L.setMetatable v (some a)).put v := by
  rw [setmetatable, valueAt_put, valueAt_put_put, setMetatable_put, setMetatable_put, pop_put]
  rfl

theorem addClosure_put (v : Value) (f : CFunction) :
    (L.put v).addClosure f = (L.addClosure f).put v := rfl

theorem addClosure_reach (n : Nat) (f : CFunction) :
    (L.reach n).addClosure f = (L.addClosure f).reach n := rfl

theorem addTable_put (v : Value) : (L.put v).addTable = L.addTable.put v := rfl

theorem addTable_reach (n : Nat) : (L.reach n).addTable = L.addTable.reach n := rfl

/-- One more metamethod in the table, as a closure of its own. -/
def addMetamethod (a : Nat) (m : String × CFunction) : Frame :=
  (L.addClosure m.2).setTable a (.ofString m.1) (.function L.closures.length)

def addMetamethods (a : Nat) (L : Frame) (metamethods : List (String × CFunction)) : Frame :=
  metamethods.foldl (fun L m => L.addMetamethod a m) L

theorem reach_addMetamethods (a n : Nat) (metamethods : List (String × CFunction)) :
    addMetamethods a (L.reach n) metamethods = (addMetamethods a L metamethods).reach n := by
  induction metamethods generalizing L with
  | nil => rfl
  | cons m metamethods ih => exact ih (L.addMetamethod a m)

theorem put_addMetamethods (a : Nat) (v : Value) (metamethods : List (String × CFunction)) :
    addMetamethods a (L.put v) metamethods = (addMetamethods a L metamethods).put v := by
  induction metamethods generalizing L with
  | nil => rfl
  | cons m metamethods ih => exact ih (L.addMetamethod a m)

/-- But for the contents of tables and for closures, nothing is changed. -/
structure SameBelow (L L' : Frame) : Prop where
  stack : L'.stack = L.stack
  limit : L'.limit = L.limit
  overflow : L'.overflow = L.overflow
  registry : L'.registry = L.registry
  userdata : L'.userdata = L.userdata
  tables : L'.tables.length = L.tables.length

theorem sameBelow_addMetamethods (a : Nat) (metamethods : List (String × CFunction)) :
    SameBelow L (addMetamethods a L metamethods) := by
  induction metamethods generalizing L with
  | nil => exact ⟨rfl, rfl, rfl, rfl, rfl, rfl⟩
  | cons m metamethods ih =>
    obtain ⟨hstack, hlimit, hoverflow, hregistry, huserdata, htables⟩ := ih (L.addMetamethod a m)
    refine ⟨hstack, hlimit, hoverflow, hregistry, huserdata, htables.trans ?_⟩
    exact List.length_modify _ _ _

/-- With a new userdata in the registry. -/
def register (tag : String) (block : Block) : Frame :=
  ((L.addUserdata block).reach 2).setRegistry (.ofString tag) (.userdata L.userdata.length)

/-- The frame in which the helpers find their environment. -/
def withEnv (J : Outside) : Frame :=
  (L.register JLUAJVMTAG (.javaVM J.javaVM)).register JLUAJVERSIONTAG (.jint J.version)

theorem register_eq (tag : String) (block : Block) :
    (((L.newuserdata block).push (.ofString tag)).insert (-2)).rawset LUA_REGISTRYINDEX =
      L.register tag block := by
  simp only [newuserdata, push_eq, reach_put, reach_reach, insert_put_put, rawset_registry]
  rfl

/-- With the proxy of an object on top. -/
def withProxy (metamethods : List (String × CFunction)) (obj : JavaObject) : Frame :=
  let a := L.tables.length
  let created := (L.addUserdata (.jobject obj)).addTable
  let marked := (addMetamethods a created metamethods).setTable a (.ofString JLUAOBJECTIND)
    (.boolean true)
  ((marked.reach 4).setMetatable (.userdata L.userdata.length) (some a)).put
    (.userdata L.userdata.length)

end Frame

/-! ### Runs of the helpers -/

theorem pushJNIEnv_run (J : Outside) (L : Frame) : pushJNIEnv J L = .ok () (L.withEnv J) := by
  rw [Frame.withEnv, ← Frame.register_eq, ← Frame.register_eq]
  rfl

theorem setMetamethods_run (a : Nat) (metamethods : List (String × CFunction)) (L : Frame) :
    ∃ M : Frame, setMetamethods metamethods (L.put (.table a)) = .ok () (M.put (.table a)) ∧
      M.reach 3 = (Frame.addMetamethods a L metamethods).reach 3 := by
  induction metamethods generalizing L with
  | nil => exact ⟨L, rfl, rfl⟩
  | cons m metamethods ih =>
    have hstep : (((L.put (.table a)).push (.ofString m.1)).pushcfunction m.2).rawset (-3) =
        ((L.reach 3).addMetamethod a m).put (.table a) := by
      simp only [Frame.pushcfunction, Frame.push_eq, Frame.reach_put, Frame.addClosure_put,
        Frame.addClosure_reach, Frame.reach_reach, Frame.rawset_table]
      rfl
    obtain ⟨M, hrun, hM⟩ := ih ((L.reach 3).addMetamethod a m)
    refine ⟨M, ?_, ?_⟩
    · rw [← hrun, ← hstep]
      rfl
    · rw [hM]
      change (Frame.addMetamethods a ((L.addMetamethod a m).reach 3) metamethods).reach 3 = _
      rw [Frame.reach_addMetamethods, Frame.reach_reach]
      rfl

theorem pushProxy_run (metamethods : List (String × CFunction)) (failed : C Unit)
    (obj : JavaObject) (L : Frame) :
    pushProxy metamethods failed obj L = .ok () (L.withProxy metamethods obj) := by
  let u := L.userdata.length
  let a := L.tables.length
  let created := (L.addUserdata (.jobject obj)).addTable
  have hcreate : (L.newuserdata (.jobject obj)).newtable =
      ((created.reach 2).put (.userdata u)).put (.table a) := by
    simp only [Frame.newuserdata, Frame.newtable, Frame.push_eq, Frame.addTable_put,
      Frame.addTable_reach, Frame.reach_put, Frame.reach_reach]
    rfl
  obtain ⟨M, hrun, hM⟩ :=
    setMetamethods_run a metamethods ((created.reach 2).put (.userdata u))
  have hM' : M.reach 3 =
      ((Frame.addMetamethods a created metamethods).reach 4).put (.userdata u) := by
    rw [hM, Frame.put_addMetamethods, Frame.reach_addMetamethods, Frame.reach_put,
      Frame.reach_reach]
    rfl
  have hmark : ((((M.put (.table a)).push (.ofString JLUAOBJECTIND)).push (.boolean true)).rawset
      (-3)).setmetatable (-2) = L.withProxy metamethods obj := by
    have hpushed : ((M.put (.table a)).push (.ofString JLUAOBJECTIND)).push (.boolean true) =
        (((M.reach 3).put (.table a)).put (.ofString JLUAOBJECTIND)).put (.boolean true) := by
      simp only [Frame.push_eq, Frame.reach_put, Frame.reach_reach]
      rfl
    rw [hpushed, Frame.rawset_table, hM']
    exact Frame.setmetatable_put (((Frame.addMetamethods a created metamethods).reach 4).setTable a
      (.ofString JLUAOBJECTIND) (.boolean true)) (.userdata u) a
  calc pushProxy metamethods failed obj L
      = (do
          setMetamethods metamethods
          luaPushstring JLUAOBJECTIND
          luaPushboolean true
          luaRawset (-3)
          if !(← luaSetmetatable (-2)) then failed)
            (((created.reach 2).put (.userdata u)).put (.table a)) := by rw [← hcreate]; rfl
    _ = .ok () (L.withProxy metamethods obj) := by
      rw [bind_of_ok hrun, ← hmark]
      rfl

/-! ### Runs that look at the registry or at a value -/

namespace Frame
variable (L : Frame)

/-- A string key for which the registry is asked. -/
theorem lookup_eq (tag : String) : (L.push (.ofString tag)).rawget LUA_REGISTRYINDEX =
    (L.reach 1).put (L.registry (.ofString tag)) := rawget_registry _ _

def stateIndex (J : Outside) : Option Double := tonumber J (L.registry (.ofString JLUASTATEINDEX))

def env (J : Outside) : Option Nat :=
  let udJvm := L.registry (.ofString JLUAJVMTAG)
  let udJavaVersion := L.registry (.ofString JLUAJVERSIONTAG)
  if isUserdata udJvm.type && isUserdata udJavaVersion.type then
    currentEnv J (L.blockOf udJvm) (L.blockOf udJavaVersion)
  else none

/-- What `isJavaObject` answers for a value. -/
def isMarked (v : Value) : Bool :=
  isUserdata v.type && (L.metatableOf v).any fun a => L.get a (.ofString JLUAOBJECTIND) ≠ .nil

/-- It pushes the metatable of a userdata that has one, and the tag. -/
def probe (v : Value) : Frame :=
  if isUserdata v.type = true ∧ (L.metatableOf v).isSome then L.reach 2 else L

theorem isUserdata_luaType (idx : Int) :
    isUserdata (luaType L.stack idx) = isUserdata (L.valueAt idx).type := by
  unfold luaType valueAt
  cases index2adr L.stack idx <;> rfl

end Frame

theorem luaType_put (L : Frame) (v : Value) : luaType (L.put v).stack (-1) = v.type := by
  rw [luaType, Frame.put, index2adr_top]
  rfl

theorem luaIsnil_run (L : Frame) (v : Value) :
    luaIsnil (-1) (L.put v) = .ok (decide (v = .nil)) (L.put v) := by
  have hnil : decide (v.type = .nil) = decide (v = .nil) := by cases v <;> rfl
  rw [← hnil, ← luaType_put L v]
  rfl

theorem luaIsuserdata_run (L : Frame) (v : Value) :
    luaIsuserdata (-1) (L.put v) = .ok (isUserdata v.type) (L.put v) := by
  rw [← luaType_put L v]
  rfl

theorem luaTouserdata_run (L : Frame) (v : Value) :
    luaTouserdata (-1) (L.put v) = .ok (L.blockOf v) (L.put v) := by
  change EStateM.Result.ok (L.blockOf ((L.put v).valueAt (-1))) (L.put v) = _
  rw [Frame.valueAt_put]

theorem luaPop_run (L : Frame) (v : Value) : luaPop 1 (L.put v) = .ok () L :=
  congrArg (EStateM.Result.ok ()) (L.pop_put v)

theorem lookup_run {α : Type} (L : Frame) (tag : String) (c : C α) :
    (do luaPushstring tag; luaRawget LUA_REGISTRYINDEX; c : C α) L =
      c ((L.reach 1).put (L.registry (.ofString tag))) := by
  rw [← L.lookup_eq tag]
  rfl

theorem getLuaStateIndex_of_some {J : Outside} {L : Frame} {x : Double}
    (h : L.stateIndex J = some x) : getLuaStateIndex J L = .ok x (L.reach 1) := by
  have hnumber : luaIsnumber J (-1) ((L.reach 1).put (L.registry (.ofString JLUASTATEINDEX))) =
      .ok true ((L.reach 1).put (L.registry (.ofString JLUASTATEINDEX))) := by
    simp only [luaIsnumber, get_bind, Frame.valueAt_put]
    exact congrArg (EStateM.Result.ok · _) (Option.isSome_iff_exists.mpr ⟨x, h⟩)
  have htonumber : luaTonumber J (-1) ((L.reach 1).put (L.registry (.ofString JLUASTATEINDEX))) =
      .ok x ((L.reach 1).put (L.registry (.ofString JLUASTATEINDEX))) := by
    simp only [luaTonumber, get_bind, Frame.valueAt_put]
    rw [← Frame.stateIndex, h]
    rfl
  rw [getLuaStateIndex, lookup_run, bind_of_ok hnumber]
  exact (bind_of_ok htonumber).trans (bind_of_ok (luaPop_run _ _))

theorem getLuaStateIndex_of_none {J : Outside} {L : Frame} (h : L.stateIndex J = none) :
    ∃ e L', getLuaStateIndex J L = .error e L' := by
  have hnumber : luaIsnumber J (-1) ((L.reach 1).put (L.registry (.ofString JLUASTATEINDEX))) =
      .ok false ((L.reach 1).put (L.registry (.ofString JLUASTATEINDEX))) := by
    simp only [luaIsnumber, get_bind, Frame.valueAt_put]
    rw [← Frame.stateIndex, h]
    rfl
  rw [getLuaStateIndex, lookup_run, bind_of_ok hnumber]
  exact ⟨_, _, rfl⟩

theorem getEnvFromState_run (J : Outside) (L : Frame) :
    getEnvFromState J L = .ok (L.env J) (L.reach 1) := by
  rw [getEnvFromState, lookup_run, bind_of_ok (luaIsuserdata_run _ _), Frame.env]
  cases hjvm : isUserdata (L.registry (.ofString JLUAJVMTAG)).type with
  | false => exact bind_of_ok (luaPop_run _ _)
  | true =>
    have hagain : ((L.reach 1).reach 1) = L.reach 1 := L.reach_reach 1 1
    have hregistry : (L.reach 1).registry = L.registry := rfl
    simp only [Bool.not_true, Bool.false_eq_true, if_false, Bool.true_and]
    rw [bind_of_ok (luaTouserdata_run _ _), bind_of_ok (luaPop_run _ _), lookup_run,
      bind_of_ok (luaIsuserdata_run _ _), hagain, hregistry]
    cases hversion : isUserdata (L.registry (.ofString JLUAJVERSIONTAG)).type with
    | false => exact bind_of_ok (luaPop_run _ _)
    | true => exact (bind_of_ok (luaTouserdata_run _ _)).trans (bind_of_ok (luaPop_run _ _))

theorem getEnvFromStateCheck_of_some {J : Outside} {L : Frame} {env : Nat}
    (h : L.env J = some env) : getEnvFromStateCheck J L = .ok env (L.reach 1) := by
  have hrun := getEnvFromState_run J L
  rw [h] at hrun
  exact bind_of_ok hrun

theorem getEnvFromStateCheck_of_none {J : Outside} {L : Frame} (h : L.env J = none) :
    ∃ e L', getEnvFromStateCheck J L = .error e L' := by
  have hrun := getEnvFromState_run J L
  rw [h] at hrun
  exact ⟨_, _, bind_of_ok hrun⟩

theorem checked_run {J : Outside} {L : Frame} {env : Nat} (h : L.env J = some env)
    (metamethods : List (String × CFunction)) (failed : C Unit) (obj : JavaObject) :
    (do let _ ← getEnvFromStateCheck J; pushProxy metamethods failed obj : C Unit) L =
      .ok () ((L.reach 1).withProxy metamethods obj) := by
  rw [bind_of_ok (getEnvFromStateCheck_of_some h), pushProxy_run]

theorem pushJavaFunction_run (J : Outside) (obj : JavaObject) (L : Frame) :
    pushJavaFunction J obj L = .ok () ((L.withEnv J).withProxy
      [(LUACALLMETAMETHODTAG, .jluaFunctionCall), (LUAGCMETAMETHODTAG, .gc)] obj) := by
  rw [pushJavaFunction, getStateFromCPtr, bind_of_ok (pushJNIEnv_run J L), pushProxy_run]

theorem tags_ne : Value.ofString JLUAJVMTAG ≠ .ofString JLUAJVERSIONTAG := by decide +kernel

/-- After `pushJNIEnv`, the JVM is asked for the environment with its own version. -/
theorem env_withEnv (J : Outside) (L : Frame) :
    (L.withEnv J).env J = currentEnv J (.javaVM J.javaVM) (.jint J.version) := by
  have hjvm : (L.withEnv J).registry (.ofString JLUAJVMTAG) = .userdata L.userdata.length := by
    change Function.update (Function.update L.registry _ _) _ _ _ = _
    rw [Function.update_of_ne tags_ne, Function.update_self]
  have hversion : (L.withEnv J).registry (.ofString JLUAJVERSIONTAG) =
      .userdata (L.userdata.length + 1) := by
    refine (Function.update_self _ _ _).trans ?_
    change Value.userdata (L.userdata ++ [_]).length = _
    rw [List.length_append]
    rfl
  have huserdata : (L.withEnv J).userdata =
      L.userdata ++ [⟨.javaVM J.javaVM, none⟩, ⟨.jint J.version, none⟩] :=
    List.append_assoc _ [_] [_]
  simp only [Frame.env, hjvm, hversion, Frame.blockOf, huserdata]
  simp [isUserdata, Value.type]

theorem isJavaObject_run (idx : Int) (L : Frame) :
    isJavaObject idx L = .ok (L.isMarked (L.valueAt idx)) (L.probe (L.valueAt idx)) := by
  have htype := L.isUserdata_luaType idx
  cases huserdata : isUserdata (L.valueAt idx).type with
  | false =>
    have hrun : luaIsuserdata idx L = .ok false L := by rw [← huserdata, ← htype]; rfl
    rw [isJavaObject, bind_of_ok hrun, Frame.isMarked, Frame.probe, huserdata]
    rfl
  | true =>
    have hrun : luaIsuserdata idx L = .ok true L := by rw [← huserdata, ← htype]; rfl
    rw [isJavaObject, bind_of_ok hrun, Frame.isMarked, Frame.probe, huserdata]
    cases hmt : L.metatableOf (L.valueAt idx) with
    | none =>
      have hget : luaGetmetatable idx L = .ok false L := by
        simp only [luaGetmetatable, get_bind, hmt]
        rfl
      exact bind_of_ok hget
    | some a =>
      have hget : luaGetmetatable idx L = .ok true (L.push (.table a)) := by
        simp only [luaGetmetatable, get_bind, hmt]
        rfl
      have hlookup : ((L.push (.table a)).push (.ofString JLUAOBJECTIND)).rawget (-2) =
          ((L.reach 2).put (.table a)).put (L.get a (.ofString JLUAOBJECTIND)) := by
        simp only [Frame.push_eq, Frame.reach_put, Frame.reach_reach, Frame.rawget_table]
        rfl
      have hnil := luaIsnil_run ((L.reach 2).put (.table a)) (L.get a (.ofString JLUAOBJECTIND))
      rw [← hlookup] at hnil
      refine (bind_of_ok hget).trans ?_
      change (luaIsnil (-1) >>= fun b => if b = true then (do luaPop 2; pure false : C Bool)
        else do luaPop 2; pure true) (((L.push (.table a)).push (.ofString JLUAOBJECTIND)).rawget
          (-2)) = _
      rw [bind_of_ok hnil, hlookup]
      have hpop : (((L.reach 2).put (.table a)).put (L.get a (.ofString JLUAOBJECTIND))).pop 2 =
          L.reach 2 := Frame.pop_put_put _ _ _
      by_cases hmark : L.get a (.ofString JLUAOBJECTIND) = .nil
      · simp only [hmark, decide_true, if_true, Option.any_some, ne_eq, not_true_eq_false,
          decide_false, Bool.and_false, Option.isSome_some, and_self]
        rw [hmark] at hpop
        exact congrArg (EStateM.Result.ok false) hpop
      · simp only [hmark, decide_false, Bool.false_eq_true, if_false, Option.any_some, ne_eq,
          not_false_eq_true, decide_true, Bool.and_self, Option.isSome_some, and_self, if_true]
        exact congrArg (EStateM.Result.ok true) hpop

/-! ### What the proxy is -/

namespace Frame
variable (L : Frame)

theorem get_setTable_self {a : Nat} (h : a < L.tables.length) (k v : Value) :
    (L.setTable a k v).get a k = v := by
  simp [get, setTable, h]

theorem metatableOf_setMetatable_self {a : Nat} (h : a < L.userdata.length) (mt : Option Nat) :
    (L.setMetatable (.userdata a) mt).metatableOf (.userdata a) = mt := by
  simp [metatableOf, setMetatable, h]

variable (metamethods : List (String × CFunction)) (obj : JavaObject)

theorem stack_withProxy :
    (L.withProxy metamethods obj).stack = L.stack ++ [.userdata L.userdata.length] :=
  congrArg (· ++ _) (sameBelow_addMetamethods (L.addUserdata (.jobject obj)).addTable _ _).stack

theorem registry_withProxy : (L.withProxy metamethods obj).registry = L.registry :=
  (sameBelow_addMetamethods (L.addUserdata (.jobject obj)).addTable _ _).registry

theorem overflow_withProxy : (L.withProxy metamethods obj).overflow = (L.reach 4).overflow := by
  have hsame := sameBelow_addMetamethods (L.addUserdata (.jobject obj)).addTable L.tables.length
    metamethods
  simp only [withProxy, setMetatable, put, reach, setTable, hsame.stack, hsame.limit,
    hsame.overflow]
  rfl

theorem overflow_withEnv (J : Outside) : (L.withEnv J).overflow = (L.reach 2).overflow := by
  have hagain := congrArg Frame.overflow (L.reach_reach 2 2)
  exact hagain

theorem isMarked_withProxy :
    (L.withProxy metamethods obj).isMarked (.userdata L.userdata.length) = true := by
  have hsame := sameBelow_addMetamethods (L.addUserdata (.jobject obj)).addTable L.tables.length
    metamethods
  have hmetatable : (L.withProxy metamethods obj).metatableOf (.userdata L.userdata.length) =
      some L.tables.length := by
    refine metatableOf_setMetatable_self (L := Frame.reach _ 4) ?_ _
    change L.userdata.length < (addMetamethods _ _ _).userdata.length
    rw [hsame.userdata]
    simp [addTable, addUserdata]
  have hlength : L.tables.length <
      (addMetamethods L.tables.length (L.addUserdata (.jobject obj)).addTable
        metamethods).tables.length := by
    rw [hsame.tables]
    simp [addTable, addUserdata]
  have hget : (L.withProxy metamethods obj).get L.tables.length (.ofString JLUAOBJECTIND) =
      .boolean true := get_setTable_self _ hlength _ _
  simp [isMarked, hmetatable, hget, isUserdata, Value.type]

end Frame

/-! ### The net effect -/

/-- The stack and the registry as found. -/
structure Same (L L' : Frame) : Prop where
  stack : L'.stack = L.stack
  registry : L'.registry = L.registry

/-- The registry, but for the entries of the JNI environment. -/
def KeepsOthers (L L' : Frame) : Prop :=
  ∀ k, k ≠ .ofString JLUAJVMTAG → k ≠ .ofString JLUAJVERSIONTAG → L'.registry k = L.registry k

/-- One new value, a userdata in which a Java object is recognized at any index that names it. -/
structure PushesProxy (L L' : Frame) : Prop where
  pushed : ∃ a, L'.stack = L.stack ++ [.userdata a]
  recognized : ∀ idx, absIndex L'.stack idx = L.stack.length →
    ∃ L'', isJavaObject idx L' = .ok true L''

section Effects
variable (J : Outside) (L : Frame)

theorem same_reach (n : Nat) : Same L (L.reach n) := ⟨rfl, rfl⟩

theorem same_probe (v : Value) : Same L (L.probe v) := by
  unfold Frame.probe
  split <;> exact ⟨rfl, rfl⟩

theorem stack_withEnv : (L.withEnv J).stack = L.stack := rfl

theorem keepsOthers_withEnv : KeepsOthers L (L.withEnv J) := by
  intro k hjvm hversion
  change Function.update (Function.update L.registry _ _) _ _ k = _
  rw [Function.update_of_ne hversion, Function.update_of_ne hjvm]

theorem pushesProxy_withProxy (metamethods : List (String × CFunction)) (obj : JavaObject) :
    PushesProxy L (L.withProxy metamethods obj) := by
  have hstack := L.stack_withProxy metamethods obj
  refine ⟨⟨_, hstack⟩, fun idx hidx => ?_⟩
  have hvalue : (L.withProxy metamethods obj).valueAt idx = .userdata L.userdata.length := by
    rw [Frame.valueAt, index2adr, hidx, hstack, List.getElem?_concat_length]
    rfl
  have hrun := isJavaObject_run idx (L.withProxy metamethods obj)
  rw [hvalue, L.isMarked_withProxy metamethods obj] at hrun
  exact ⟨_, hrun⟩

variable {L}

theorem PushesProxy.of_same {L₁ L' : Frame} (h : PushesProxy L₁ L') (hstack : L₁.stack = L.stack) :
    PushesProxy L L' := by
  obtain ⟨hpushed, hrecognized⟩ := h
  rw [hstack] at hpushed hrecognized
  exact ⟨hpushed, hrecognized⟩

/-- The helpers that check the environment before they push. -/
theorem ends_checked (metamethods : List (String × CFunction)) (failed : C Unit)
    (obj : JavaObject) {c : C Unit}
    (hc : c = do let _ ← getEnvFromStateCheck J; pushProxy metamethods failed obj) :
    Ends c L (fun _ L' => PushesProxy L L' ∧ L'.registry = L.registry)
      fun _ _ => L.env J = none := by
  subst hc
  cases henv : L.env J with
  | none =>
    obtain ⟨e, L', hrun⟩ := getEnvFromStateCheck_of_none henv
    exact (ends_of_error (bind_of_error hrun)).mpr rfl
  | some env =>
    exact (ends_of_ok (checked_run henv metamethods failed obj)).mpr
      ⟨(pushesProxy_withProxy (L.reach 1) metamethods obj).of_same rfl,
        (L.reach 1).registry_withProxy metamethods obj⟩

theorem handleException_some (exp : JavaObject) (L : Frame) :
    ∃ e L', handleException J (some exp) L = .error e L' := by
  cases hpush : pushUnchecked J exp L with
  | error e L' => exact ⟨e, L', bind_of_error hpush⟩
  | ok _ L' => exact ⟨_, _, bind_of_ok hpush⟩

/-- Why `checkJavaObj` raises an error. -/
def Refused (L : Frame) (obj : JavaObject) : Prop :=
  ∀ x, L.stateIndex J = some x → (J.checkJavaObj x obj).isSome

theorem ends_checkJavaObj (obj : JavaObject) :
    Ends (checkJavaObj J obj) L (fun _ L' => L' = L.reach 1)
      fun _ _ => L.env J = none ∨ Refused J L obj := by
  cases henv : L.env J with
  | none =>
    obtain ⟨e, L', hrun⟩ := getEnvFromStateCheck_of_none henv
    exact (ends_of_error (bind_of_error hrun)).mpr (Or.inl rfl)
  | some env =>
    have hcheck := getEnvFromStateCheck_of_some henv
    cases hindex : L.stateIndex J with
    | none =>
      obtain ⟨e, L', hrun⟩ := getLuaStateIndex_of_none (L := L.reach 1) hindex
      have hfails : checkJavaObj J obj L = .error e L' :=
        (bind_of_ok hcheck).trans (bind_of_error hrun)
      exact (ends_of_error hfails).mpr (Or.inr fun x hx => by rw [hindex] at hx; cases hx)
    | some x =>
      have hrun := getLuaStateIndex_of_some (L := L.reach 1) hindex
      rw [L.reach_reach 1 1] at hrun
      have hstep : checkJavaObj J obj L = handleException J (J.checkJavaObj x obj) (L.reach 1) :=
        (bind_of_ok hcheck).trans (bind_of_ok hrun)
      cases hanswer : J.checkJavaObj x obj with
      | none =>
        rw [hanswer] at hstep
        exact (ends_of_ok hstep).mpr rfl
      | some exp =>
        obtain ⟨e, L', hexception⟩ := handleException_some J exp (L.reach 1)
        rw [hanswer, hexception] at hstep
        refine (ends_of_error hstep).mpr (Or.inr fun y hy => ?_)
        rw [hindex] at hy
        obtain rfl := Option.some.inj hy
        rw [hanswer]
        rfl

theorem ends_pushJavaObject (obj : JavaObject) (checkObject : Bool) :
    Ends (pushJavaObject J obj checkObject) L
      (fun _ L' => PushesProxy L L' ∧ L'.registry = L.registry)
      fun _ _ => L.env J = none ∨ checkObject = true ∧ Refused J L obj := by
  have hunchecked : ∀ L, Ends (pushUnchecked J obj) L
      (fun _ L' => PushesProxy L L' ∧ L'.registry = L.registry) fun _ _ => L.env J = none :=
    fun _ => ends_checked J _ _ obj rfl
  cases checkObject with
  | false => exact (hunchecked L).mono (fun _ _ h => h) fun _ _ h => Or.inl h
  | true =>
    refine ends_bind.mpr ((ends_checkJavaObj J obj).mono ?_ fun _ _ h => h.imp id (⟨rfl, ·⟩))
    rintro _ _ rfl
    exact (hunchecked (L.reach 1)).mono (fun _ _ h => ⟨h.1.of_same rfl, h.2⟩) fun _ _ => Or.inl

end Effects

/-- The helpers that only look leave the stack and the registry as they are, `pushJNIEnv` changes
two entries of the registry, and the helpers that push an object push one proxy of it. They stop
without one only for want of an environment, or if Java refuses the object. -/
theorem helpers_net_effect (J : Outside) (L : Frame) :
    (∀ idx, Ends (isJavaObject idx) L (fun _ => Same L) fun _ _ => False) ∧
    Ends (getLuaStateIndex J) L (fun _ => Same L) (fun _ _ => L.stateIndex J = none) ∧
    Ends (getEnvFromState J) L (fun _ => Same L) (fun _ _ => False) ∧
    Ends (pushJNIEnv J) L (fun _ L' => L'.stack = L.stack ∧ KeepsOthers L L') (fun _ _ => False) ∧
    (∀ obj checkObject, Ends (pushJavaObject J obj checkObject) L
      (fun _ L' => PushesProxy L L' ∧ L'.registry = L.registry)
      fun _ _ => L.env J = none ∨ checkObject = true ∧ Refused J L obj) ∧
    (∀ obj, Ends (pushJavaArray J obj) L
      (fun _ L' => PushesProxy L L' ∧ L'.registry = L.registry) fun _ _ => L.env J = none) ∧
    (∀ obj, Ends (pushJavaFunction J obj) L (fun _ L' => PushesProxy L L' ∧ KeepsOthers L L')
      fun _ _ => False) ∧
    Ends (getStateFromCPtr J) L (fun _ L' => luaGettop L'.stack = luaGettop L.stack ∧
      ∀ idx, index2adr L'.stack idx = index2adr L.stack idx) (fun _ _ => False) := by
  refine ⟨?_, ?_, ?_, ?_, ?_, ?_, ?_, ?_⟩
  · intro idx
    exact (ends_of_ok (isJavaObject_run idx L)).mpr (same_probe L _)
  · cases hindex : L.stateIndex J with
    | none =>
      obtain ⟨e, L', hrun⟩ := getLuaStateIndex_of_none hindex
      exact (ends_of_error hrun).mpr rfl
    | some x => exact (ends_of_ok (getLuaStateIndex_of_some hindex)).mpr (same_reach L 1)
  · exact (ends_of_ok (getEnvFromState_run J L)).mpr (same_reach L 1)
  · exact (ends_of_ok (pushJNIEnv_run J L)).mpr ⟨rfl, keepsOthers_withEnv J L⟩
  · exact ends_pushJavaObject J
  · exact fun obj => ends_checked J _ _ obj rfl
  · intro obj
    refine (ends_of_ok (pushJavaFunction_run J obj L)).mpr
      ⟨(pushesProxy_withProxy _ _ obj).of_same (stack_withEnv J L), ?_⟩
    intro k hjvm hversion
    rw [Frame.registry_withProxy]
    exact keepsOthers_withEnv J L k hjvm hversion
  · rw [getStateFromCPtr, ends_of_ok (pushJNIEnv_run J L), stack_withEnv]
    exact ⟨rfl, fun _ => rfl⟩

end JLua.NativeHelpers
