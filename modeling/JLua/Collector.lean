import JLua.Tables
import Mathlib.Logic.Function.Basic
import Mathlib.Data.List.Basic

/-!
# The collector

The collector of Lua works in small steps between those of the program. It marks from the roots
with a frontier of gray objects, finishes the marking in one atomic step, then sweeps one list after
the other, and calls the finalizers. An object that was not marked has the other white.
-/

namespace JLua.Collector

set_option autoImplicit false

abbrev Addr := Nat

/-- Of a value the collector sees whether it is nil and whether it is an object. -/
inductive TValue where
  | nil
  | other
  | object (o : Addr)
  deriving DecidableEq

inductive Key where
  | value (v : TValue)
  | dead (o : Addr)
  deriving DecidableEq

structure Node where
  key : Key
  val : TValue
  deriving DecidableEq

structure Table where
  metatable : Option Addr
  array : List TValue
  node : List Node
  weakkey : Bool
  weakvalue : Bool
  deriving DecidableEq

/-- An open upvalue is a place in the stack of a thread. -/
inductive UpVal where
  | opened (th : Addr) (level : Nat)
  | closed (v : TValue)
  deriving DecidableEq

inductive Closure where
  | c (env : Addr) (upvalue : List TValue)
  | lua (env : Addr) (p : Addr) (upvals : List Addr)
  deriving DecidableEq

/-- The stack up to the top. -/
structure Thread where
  gt : TValue
  stack : List TValue
  openupval : List Addr
  deriving DecidableEq

structure Proto where
  source : Option Addr
  k : List TValue
  upvalues : List (Option Addr)
  p : List (Option Addr)
  varnames : List (Option Addr)
  deriving DecidableEq

inductive Body where
  | string (bytes : List UInt8)
  | userdata (metatable : Option Addr) (env : Addr)
  | upval (uv : UpVal)
  | function (cl : Closure)
  | table (h : Table)
  | thread (th : Thread)
  | proto (p : Proto)
  deriving DecidableEq

/-- The bits of `marked` that the collector changes. A string is never black. -/
inductive Color where
  | white (bit : Bool)
  | gray
  | black
  deriving DecidableEq

def Color.isWhite : Color → Bool
  | white _ => true
  | _ => false

structure GCObject where
  body : Body
  fixed : Bool
  finalized : Bool
  deriving DecidableEq

inductive GCState where
  | pause
  | propagate
  | sweepstring
  | sweep
  | finalize
  deriving DecidableEq

/-- `rootgc` is `swept ++ unswept`, and `sweepgc` is the link between them. `strt` is the table of
strings, `running` the thread `L` that the program runs in. -/
structure State where
  heap : Addr → Option GCObject
  color : Addr → Color
  swept : List Addr
  unswept : List Addr
  strt : List (List Addr)
  nuse : Nat
  sweepstrgc : Nat
  gray : List Addr
  grayagain : List Addr
  weak : List Addr
  tmudata : List Addr
  uvhead : List Addr
  currentwhite : Bool
  gcstate : GCState
  mainthread : Addr
  registry : TValue
  mt : List (Option Addr)
  modeName : Addr
  gcName : Addr
  running : Addr

namespace State
variable (s : State)

def rootgc : List Addr := s.swept ++ s.unswept

def body (o : Addr) : Option Body := (s.heap o).map GCObject.body

def setColor (o : Addr) (c : Color) : State := { s with color := Function.update s.color o c }

def setBody (o : Addr) (b : Body) : State :=
  let x := (s.heap o).map fun x => { x with body := b }
  { s with heap := Function.update s.heap o x }

def iswhite (o : Addr) : Bool := (s.color o).isWhite

def makewhite (o : Addr) : State := s.setColor o (.white s.currentwhite)

def otherwhite : Color := .white (!s.currentwhite)

def isdead (o : Addr) : Bool := s.color o = s.otherwhite

def isfixed (o : Addr) : Bool := ((s.heap o).map GCObject.fixed).getD false

def isfinalized (o : Addr) : Bool := ((s.heap o).map GCObject.finalized).getD false

/-- `*uv->v` -/
def value : UpVal → TValue
  | .opened th level =>
    match s.body th with
    | some (.thread t) => t.stack.getD level .nil
    | _ => .nil
  | .closed v => v

/-! ### Marking -/

/-- Functions, tables, threads and prototypes go to the gray list. -/
def linkgray (o : Addr) : State := { s.setColor o .gray with gray := o :: s.gray }

/-- `markobject` of what is declared as a table. -/
def marktable (t : Addr) : State :=
  match s.body t with
  | some (.table _) => if s.iswhite t then s.linkgray t else s
  | _ => s

def marktableoption : Option Addr → State
  | some t => s.marktable t
  | none => s

/-- `reallymarkobject` of an object that values can be: all but upvalues. -/
def reallymarkvalue (o : Addr) : State :=
  match s.body o with
  | some (.string _) => s.setColor o .gray
  | some (.userdata mt env) => ((s.setColor o .black).marktableoption mt).marktable env
  | some (.function _) | some (.table _) | some (.thread _) | some (.proto _) => s.linkgray o
  | _ => s

def markvalue : TValue → State
  | .object o => if s.iswhite o then s.reallymarkvalue o else s
  | _ => s

def reallymarkobject (o : Addr) : State :=
  match s.body o with
  | some (.upval (.opened th level)) =>
    (s.setColor o .gray).markvalue (s.value (.opened th level))
  | some (.upval (.closed v)) => ((s.setColor o .gray).markvalue v).setColor o .black
  | _ => s.reallymarkvalue o

def markobject (o : Addr) : State := if s.iswhite o then s.reallymarkobject o else s

def markoption : Option Addr → State
  | some o => s.markobject o
  | none => s

def stringmark (o : Addr) : State := if s.iswhite o then s.setColor o .gray else s

def stringmarkoption : Option Addr → State
  | some o => s.stringmark o
  | none => s

/-- The value of a raw field of a metatable. -/
def fasttm (mt : Option Addr) (event : Addr) : TValue :=
  match mt.bind s.body with
  | some (.table h) =>
    ((h.node.find? fun n => n.key = .value (.object event)).map Node.val).getD .nil
  | _ => .nil

/-- The characters of the C string. -/
def svalue (bytes : List UInt8) : List UInt8 := bytes.takeWhile (· ≠ 0)

/-- Whether `__mode` has a `k`, and whether it has a `v`. -/
def weakmode (mt : Option Addr) : Bool × Bool :=
  match s.fasttm mt s.modeName with
  | .object m =>
    match s.body m with
    | some (.string bytes) => (107 ∈ svalue bytes, 118 ∈ svalue bytes)
    | _ => (false, false)
  | _ => (false, false)

end State

def TValue.iscollectable : TValue → Bool
  | .object _ => true
  | _ => false

def Node.removeentry (n : Node) : Node :=
  match n.key with
  | .value (.object o) => { n with key := .dead o }
  | _ => n

def Table.removeentries (h : Table) : Table :=
  { h with node := h.node.map fun n => if n.val = .nil then n.removeentry else n }

def Key.live : Key → TValue
  | value v => v
  | dead _ => .nil

/-- The values that `traversetable` marks, in its order. -/
def Table.marked (h : Table) (weakkey weakvalue : Bool) : List TValue :=
  (if weakvalue then [] else h.array.reverse) ++
    h.node.reverse.flatMap fun n =>
      if n.val = .nil then []
      else (if weakkey then [] else [n.key.live]) ++ (if weakvalue then [] else [n.val])

namespace State
variable (s : State)

def markvalues (vs : List TValue) : State := vs.foldl markvalue s

/-- The entries of a table, when it is known what is weak. -/
def traverseentries (o : Addr) (h : Table) (weakkey weakvalue : Bool) : State × Bool :=
  let weak := weakkey || weakvalue
  let h := if weak then { h with weakkey, weakvalue } else h
  let s := if weak then { s with weak := o :: s.weak } else s
  if weakkey && weakvalue then (s.setBody o (.table h), true)
  else ((s.setBody o (.table h.removeentries)).markvalues (h.marked weakkey weakvalue), weak)

/-- Gives whether the table is weak. -/
def traversetable (o : Addr) (h : Table) : State × Bool :=
  let s := s.marktableoption h.metatable
  s.traverseentries o h (s.weakmode h.metatable).1 (s.weakmode h.metatable).2

def traverseproto (p : Proto) : State :=
  let s := s.stringmarkoption p.source
  let s := s.markvalues p.k
  let s := p.upvalues.foldl stringmarkoption s
  let s := p.p.foldl markoption s
  p.varnames.foldl stringmarkoption s

def traverseclosure : Closure → State
  | .c env upvalue => (s.marktable env).markvalues upvalue
  | .lua env p upvals => upvals.foldl markobject ((s.marktable env).markobject p)

/-- What is above the top becomes nil and the stack may shrink, neither of which shows here. -/
def traversestack (th : Thread) : State := (s.markvalue th.gt).markvalues th.stack

/-- The object leaves the gray list for good, or until the atomic step. -/
def blacken (o : Addr) (rest : List Addr) : State := { s.setColor o .black with gray := rest }

def linkgrayagain (o : Addr) (rest : List Addr) : State :=
  { s.setColor o .gray with gray := rest, grayagain := o :: s.grayagain }

/-- Takes the first object off the gray list. -/
def propagatemark : State :=
  match s.gray with
  | [] => s
  | o :: rest =>
    match s.body o with
    | some (.table h) =>
      let (s, weak) := (s.blacken o rest).traversetable o h
      if weak then s.setColor o .gray else s
    | some (.function cl) => (s.blacken o rest).traverseclosure cl
    | some (.thread th) => (s.linkgrayagain o rest).traversestack th
    | some (.proto p) => (s.blacken o rest).traverseproto p
    | _ => s.blacken o rest

/-- The loop of `propagateall`, with a bound on its rounds. -/
def propagate : Nat → State → State
  | 0, s => s
  | rounds + 1, s => if s.gray = [] then s else propagate rounds s.propagatemark

/-- Every round takes an object off the gray list, and an object gets there once. -/
def propagateall : State := propagate (s.gray.length + s.rootgc.length) s

/-! ### The atomic step -/

def markmt : State := s.mt.foldl markoption s

/-- A collection begins with empty lists. -/
def restart : State := { s with gray := [], grayagain := [], weak := [] }

/-- The global table is traversed before the main stack. -/
def markglobals : State :=
  match s.body s.mainthread with
  | some (.thread th) => s.markvalue th.gt
  | _ => s

def markroots : State :=
  let s := (s.markobject s.mainthread).markglobals
  (s.markvalue s.registry).markmt

def markroot : State := { s.restart.markroots with gcstate := .propagate }

/-- Open upvalues that are gray keep what they refer to, even in the stack of a dead thread. -/
def remarkupval (uv : Addr) : State :=
  match s.body uv with
  | some (.upval v) => if s.color uv = .gray then s.markvalue (s.value v) else s
  | _ => s

def remarkupvals : State := s.uvhead.foldl remarkupval s

def markfinalized (o : Addr) : State :=
  let x := (s.heap o).map fun x => { x with finalized := true }
  { s with heap := Function.update s.heap o x }

/-- One round of the loop of `luaC_separateudata`. -/
def separate (all : Bool) (curr : Addr) : State :=
  match s.body curr with
  | some (.userdata mt _) =>
    if !(s.iswhite curr || all) || s.isfinalized curr then s
    else if s.fasttm mt s.gcName = .nil then s.markfinalized curr
    else
      { s.markfinalized curr with
        swept := s.swept.erase curr
        unswept := s.unswept.erase curr
        tmudata := s.tmudata ++ [curr] }
  | _ => s

/-- The userdata come after the main thread. -/
def separateudata (all : Bool) : State :=
  ((s.rootgc.dropWhile (· ≠ s.mainthread)).drop 1).foldl (fun s curr => s.separate all curr) s

def marktmu : State := s.tmudata.foldl (fun s u => (s.makewhite u).reallymarkobject u) s

/-- Strings are values and are marked instead. -/
def iscleared (v : TValue) (iskey : Bool) : State × Bool :=
  match v with
  | .object o =>
    match s.body o with
    | some (.string _) => (s.stringmark o, false)
    | some (.userdata _ _) => (s, s.iswhite o || (!iskey && s.isfinalized o))
    | _ => (s, s.iswhite o)
  | _ => (s, false)

def clearvalue (v : TValue) : State × TValue :=
  match s.iscleared v false with
  | (s, true) => (s, .nil)
  | (s, false) => (s, v)

/-- An entry goes when its key or its value was collected. -/
def clearnode (n : Node) : State × Node :=
  if n.val = .nil then (s, n)
  else
    match s.iscleared n.key.live true with
    | (s, true) => (s, { n with val := .nil }.removeentry)
    | (s, false) =>
      match s.iscleared n.val false with
      | (s, true) => (s, { n with val := .nil }.removeentry)
      | (s, false) => (s, n)

/-- Goes through a list from its end. -/
def clearlist {α : Type} (clear : State → α → State × α) : List α → State → State × List α
  | [], s => (s, [])
  | x :: rest, s =>
    let (s, rest) := clearlist clear rest s
    let (s, x) := clear s x
    (s, x :: rest)

def cleartable (o : Addr) : State :=
  match s.body o with
  | some (.table h) =>
    let (s, array) := if h.weakvalue then clearlist clearvalue h.array s else (s, h.array)
    let (s, node) := clearlist clearnode h.node s
    s.setBody o (.table { h with array, node })
  | _ => s

def cleartables : State := s.weak.foldl cleartable s

/-- The weak tables are gray again, in the list to be traversed. -/
def regrayweak : State := { s with gray := s.weak, weak := [] }

def regrayagain : State := { s with gray := s.grayagain, grayagain := [] }

/-- Marks the running thread, and the basic metatables again. -/
def marklate : State := (s.markobject s.running).markmt

/-- Flips the current white and starts the sweep. -/
def flip : State :=
  { s with
    currentwhite := !s.currentwhite
    sweepstrgc := 0
    swept := []
    unswept := s.rootgc
    gcstate := .sweepstring }

/-- The last marking, with no step of the program in between. -/
def atomic : State :=
  let s := s.remarkupvals.propagateall
  let s := s.regrayweak.marklate.propagateall
  let s := s.regrayagain.propagateall
  let s := (s.separateudata false).marktmu.propagateall
  s.cleartables.flip

/-! ### Linking and closing -/

/-- Links an object into `rootgc`. -/
def link (o : Addr) : State :=
  if s.swept = [] then { s with unswept := o :: s.unswept } else { s with swept := o :: s.swept }

def insertAfter (m o : Addr) : List Addr → List Addr
  | [] => []
  | x :: rest => if x = m then x :: o :: rest else x :: insertAfter m o rest

/-- Links a userdata after the main thread. -/
def linkudata (o : Addr) : State :=
  if s.swept.getLast? = some s.mainthread then { s with unswept := o :: s.unswept }
  else
    { s with
      swept := insertAfter s.mainthread o s.swept
      unswept := insertAfter s.mainthread o s.unswept }

def barrierf (o v : Addr) : State :=
  if s.gcstate = .propagate then s.reallymarkobject v else s.makewhite o

/-- `luaC_objbarrier` -/
def objbarrier (o v : Addr) : State :=
  if s.iswhite v && s.color o = .black then s.barrierf o v else s

/-- `luaC_barrier` -/
def barrier (o : Addr) : TValue → State
  | .object v => s.objbarrier o v
  | _ => s

def barrierback (t : Addr) : State :=
  { s.setColor t .gray with grayagain := t :: s.grayagain }

/-- `luaC_objbarriert` -/
def objbarriert (t v : Addr) : State :=
  if s.iswhite v && s.color t = .black then s.barrierback t else s

/-- `luaC_barriert` -/
def barriert (t : Addr) : TValue → State
  | .object v => s.objbarriert t v
  | _ => s

def free (o : Addr) : State := { s with heap := Function.update s.heap o none }

/-- `luaF_freeupval` of an open upvalue. -/
def freeupval (uv : Addr) : State := { s.free uv with uvhead := s.uvhead.erase uv }

def linkupval (uv : Addr) (v : TValue) : State :=
  let s := s.link uv
  if s.color uv = .gray then
    if s.gcstate = .propagate then (s.setColor uv .black).barrier uv v else s.makewhite uv
  else s

def setOpenupval (th : Addr) (openupval : List Addr) : State :=
  match s.body th with
  | some (.thread t) => s.setBody th (.thread { t with openupval })
  | _ => s

/-- One round of the loop of `luaF_close`. -/
def closeupval (th uv : Addr) (rest : List Addr) : State :=
  match s.body uv with
  | some (.upval v) =>
    let s := s.setOpenupval th rest
    if s.isdead uv then s.freeupval uv
    else
      let v := s.value v
      (({ s with uvhead := s.uvhead.erase uv }).setBody uv (.upval (.closed v))).linkupval uv v
  | _ => s

/-- `uv->v >= level` -/
def atOrAbove (level : Nat) (uv : Addr) : Bool :=
  match s.body uv with
  | some (.upval (.opened _ level')) => level ≤ level'
  | _ => false

/-- Closes the open upvalues of a thread from `level` on; the list has them from the top down. -/
def closeupvals (th : Addr) (level : Nat) : List Addr → State → State
  | [], s => s
  | uv :: rest, s =>
    if s.atOrAbove level uv then closeupvals th level rest (s.closeupval th uv rest) else s

/-- `luaF_close` -/
def close (th : Addr) (level : Nat) : State :=
  match s.body th with
  | some (.thread t) => closeupvals th level t.openupval s
  | _ => s

/-! ### Sweeping -/

/-- `(curr->gch.marked ^ WHITEBITS) & deadmask`; the mask has the bit of fixed objects. -/
def keeps (o : Addr) : Bool := !s.isdead o || s.isfixed o

def sweepwholelist (freeobj : State → Addr → State) : List Addr → State → State × List Addr
  | [], s => (s, [])
  | curr :: rest, s =>
    if s.keeps curr then
      let (s, rest) := sweepwholelist freeobj rest (s.makewhite curr)
      (s, curr :: rest)
    else sweepwholelist freeobj rest (freeobj s curr)

def freestring (o : Addr) : State := { s.free o with nuse := s.nuse - 1 }

/-- `freeobj` of what `rootgc` holds. Freeing a thread closes its upvalues first. -/
def freeobj (o : Addr) : State :=
  match s.body o with
  | some (.thread _) => (s.close o 0).free o
  | _ => s.free o

/-- The open upvalues of a thread are swept with it. -/
def sweepupvals (th : Addr) : State :=
  match s.body th with
  | some (.thread t) =>
    let (s, openupval) := sweepwholelist freeupval t.openupval s
    s.setOpenupval th openupval
  | _ => s

/-- `sweeplist` of `rootgc` from where the last one stopped. -/
def sweeplist : Nat → State → State
  | 0, s => s
  | count + 1, s =>
    match s.unswept with
    | [] => s
    | curr :: rest =>
      let s := s.sweepupvals curr
      if s.keeps curr then
        sweeplist count
          { s.makewhite curr with swept := s.swept ++ [curr], unswept := rest }
      else sweeplist count ({ s with unswept := rest }.freeobj curr)

/-- `lmod` for a size that is a power of two. -/
def lmod (h : UInt32) (size : Nat) : Nat := h.toNat % size

def hashOf (o : Addr) : UInt32 :=
  match s.body o with
  | some (.string bytes) => Strings.hash bytes
  | _ => 0

/-- Chains a string into its list of the table. -/
def chain (strt : List (List Addr)) (o : Addr) : List (List Addr) :=
  strt.modify (lmod (s.hashOf o) strt.length) (o :: ·)

/-- `luaS_resize` -/
def resize (newsize : Nat) : State :=
  if s.gcstate = .sweepstring then s
  else { s with strt := s.strt.flatten.foldl s.chain (List.replicate newsize []) }

def MINSTRTABSIZE : Nat := 32

def GCSWEEPMAX : Nat := 40

/-- The buffer of the lexer is not part of this model. -/
def checkSizes : State :=
  if s.nuse < s.strt.length / 4 ∧ MINSTRTABSIZE * 2 < s.strt.length then
    s.resize (s.strt.length / 2)
  else s

def push (th : Addr) (v : TValue) : State :=
  match s.body th with
  | some (.thread t) => s.setBody th (.thread { t with stack := t.stack ++ [v] })
  | _ => s

/-- The finalizer of a userdata is called by the thread that runs: the function and its argument
are on the stack, and the call is what the program does next. -/
def GCTM : State :=
  match s.tmudata with
  | [] => s
  | o :: rest =>
    let s := ({ s with tmudata := rest }.linkudata o).makewhite o
    match s.body o with
    | some (.userdata mt _) =>
      let tm := s.fasttm mt s.gcName
      if tm = .nil then s else (s.push s.running tm).push s.running (.object o)
    | _ => s

def singlestep : State :=
  match s.gcstate with
  | .pause => s.markroot
  | .propagate => if s.gray = [] then s.atomic else s.propagatemark
  | .sweepstring =>
    let (s, bucket) := sweepwholelist freestring (s.strt.getD s.sweepstrgc []) s
    let s := { s with
      strt := s.strt.set s.sweepstrgc bucket
      sweepstrgc := s.sweepstrgc + 1 }
    if s.strt.length ≤ s.sweepstrgc then { s with gcstate := .sweep } else s
  | .sweep =>
    let s := sweeplist GCSWEEPMAX s
    if s.unswept = [] then { s.checkSizes with gcstate := .finalize } else s
  | .finalize => if s.tmudata = [] then { s with gcstate := .pause } else s.GCTM

/-- The first part of `luaC_fullgc` gives up a marking that has begun: nothing has the other
white, and the sweep makes everything white again. -/
def abandon : State :=
  if s.gcstate = .pause ∨ s.gcstate = .propagate then
    { s with
      sweepstrgc := 0
      swept := []
      unswept := s.rootgc
      gray := []
      grayagain := []
      weak := []
      gcstate := .sweepstring }
  else s

end State
end JLua.Collector
