import JLua.Protos
import Mathlib.Logic.Relation
import Mathlib.Data.Option.Basic

/-!
# Checking code

A chunk that was compiled elsewhere is checked before it runs. The check goes through the code once,
one instruction after the other, and follows no jump. That is enough for every jump to end at an
instruction of the function, and for every operand to be there.
-/

namespace JLua.Protos

open Opcodes
set_option autoImplicit false

def LUA_MULTRET : Int := -1

namespace Proto

/-! ### Symbolic execution -/

def precheck (pt : Proto) : Bool :=
  pt.maxstacksize.toNat ≤ MAXSTACK ∧
    pt.numparams.toNat + (pt.isVararg &&& VARARG_HASARG).toNat ≤ pt.maxstacksize.toNat ∧
    (pt.isVararg &&& VARARG_NEEDSARG = 0 ∨ pt.isVararg &&& VARARG_HASARG ≠ 0) ∧
    pt.upvalues.length ≤ pt.nups.toNat ∧
    (pt.lineinfo.length = pt.sizecode ∨ pt.lineinfo.length = 0) ∧
    0 < pt.sizecode ∧ getOpcode (pt.instr (pt.sizecode - 1)) = some .RETURN

/-- `luaG_checkopenop`: what may follow an operation that leaves an open number of values. -/
def checkopenop (i : Instruction) : Bool :=
  match getOpcode i with
  | some .CALL => getargB i = 0
  | some .TAILCALL => getargB i = 0
  | some .RETURN => getargB i = 0
  | some .SETLIST => getargB i = 0
  | _ => false

def checkreg (pt : Proto) (reg : Int) : Bool := reg < pt.maxstacksize.toNat

def checkArgMode (pt : Proto) (r : Nat) : OpArgMask → Bool
  | .OpArgN => r = 0
  | .OpArgU => true
  | .OpArgR => pt.checkreg r
  | .OpArgK => if isK r then indexK r < pt.k.length else r < pt.maxstacksize.toNat

/-- The word looks like an instruction that has its count in the next word. -/
def looksLikeSetlist (i : Instruction) : Bool := getOpcode i = some .SETLIST ∧ getargC i = 0

/-- How many words before `dest` look like that, one after the other. -/
def setlists (pt : Proto) : Nat → Nat
  | 0 => 0
  | dest + 1 => if looksLikeSetlist (pt.instr dest) then pt.setlists dest + 1 else 0

/-- The arguments B and C, after the checks that go by the format of the operation. -/
def checkArgs (pt : Proto) (pc : Nat) (op : OpCode) (i : Instruction) : Option (Int × Int) :=
  match (opmodes op).mode with
  | .iABC => do
    guard (pt.checkArgMode (getargB i) (opmodes op).b)
    guard (pt.checkArgMode (getargC i) (opmodes op).c)
    some (getargB i, getargC i)
  | .iABx => do
    guard ((opmodes op).b = .OpArgK → getargBx i < pt.k.length)
    some (getargBx i, 0)
  | .iAsBx => do
    let dest := pc + 1 + getargSBx i
    guard ((opmodes op).b = .OpArgR → 0 ≤ dest ∧ dest < pt.sizecode ∧
      (0 < dest → pt.setlists dest.toNat % 2 = 0))
    some (getargSBx i, 0)

def isString : Constant → Bool
  | .string _ => true
  | _ => false

/-- A jump forward is done if that is asked for. -/
def jumpForward (lastpc reg pc last : Nat) (b : Int) : Nat × Nat :=
  let dest := pc + 1 + b
  if reg ≠ NO_REG ∧ pc < dest ∧ dest ≤ lastpc then ((pc + b).toNat, last) else (pc, last)

/-- What is checked for each operation. It gives `pc` and `last` again. -/
def checkOp (pt : Proto) (lastpc reg pc last : Nat) (op : OpCode) (a : Nat) (b c : Int) :
    Option (Nat × Nat) :=
  match op with
  | .LOADBOOL => do
    guard (c = 1 → pc + 2 < pt.sizecode ∧ ¬ looksLikeSetlist (pt.instr (pc + 1)))
    some (pc, last)
  | .LOADNIL => some (pc, if a ≤ reg ∧ reg ≤ b then pc else last)
  | .GETUPVAL | .SETUPVAL => do
    guard (b < pt.nups.toNat)
    some (pc, last)
  | .GETGLOBAL | .SETGLOBAL => do
    guard (isString (pt.k.getD b.toNat .nil))
    some (pc, last)
  | .SELF => do
    guard (pt.checkreg (a + 1))
    some (pc, if reg = a + 1 then pc else last)
  | .CONCAT => do
    guard (b < c)
    some (pc, last)
  | .TFORLOOP => do
    guard (1 ≤ c)
    guard (pt.checkreg (a + 2 + c))
    some (pc, if reg ≥ a + 2 then pc else last)
  | .FORLOOP | .FORPREP => do
    guard (pt.checkreg (a + 3))
    some (jumpForward lastpc reg pc last b)
  | .JMP => some (jumpForward lastpc reg pc last b)
  | .CALL | .TAILCALL => do
    guard (b ≠ 0 → pt.checkreg (a + b - 1))
    let c := c - 1
    guard (if c = LUA_MULTRET then checkopenop (pt.instr (pc + 1))
      else c ≠ 0 → pt.checkreg (a + c - 1))
    some (pc, if reg ≥ a then pc else last)
  | .RETURN => do
    let b := b - 1
    guard (0 < b → pt.checkreg (a + b - 1))
    some (pc, last)
  | .SETLIST => do
    guard (0 < b → pt.checkreg (a + b))
    if c = 0 then
      guard ((pc : Int) + 1 < pt.sizecode - 1)
      some (pc + 1, last)
    else some (pc, last)
  | .CLOSURE => do
    guard (b < pt.p.length)
    let nup := (pt.p[b.toNat]?.map fun f => f.nups.toNat).getD 0
    guard (pc + nup < pt.sizecode)
    guard (∀ j ∈ List.range' 1 nup, getOpcode (pt.instr (pc + j)) = some .GETUPVAL ∨
      getOpcode (pt.instr (pc + j)) = some .MOVE)
    -- the pseudo-instructions are not executed when a register is traced
    some (if reg ≠ NO_REG then pc + nup else pc, last)
  | .VARARG => do
    guard (pt.isVararg &&& VARARG_ISVARARG ≠ 0 ∧ pt.isVararg &&& VARARG_NEEDSARG = 0)
    let b := b - 1
    guard (b = LUA_MULTRET → checkopenop (pt.instr (pc + 1)))
    guard (pt.checkreg (a + b - 1))
    some (pc, last)
  | _ => some (pc, last)

/-- What the loop does with the instruction at `pc`. -/
def symbexecStep (pt : Proto) (lastpc reg pc last : Nat) : Option (Nat × Nat) := do
  let i := pt.instr pc
  let op ← getOpcode i
  let a := getargA i
  guard (pt.checkreg a)
  let (b, c) ← pt.checkArgs pc op i
  let last := if (opmodes op).a ∧ a = reg then pc else last
  guard ((opmodes op).t → pc + 2 < pt.sizecode ∧ getOpcode (pt.instr (pc + 1)) = some .JMP)
  pt.checkOp lastpc reg pc last op a b c

def symbexecLoop (pt : Proto) (lastpc reg : Nat) : Nat → Nat → Nat → Option Nat
  | 0, _, last => some last
  | rounds + 1, pc, last =>
    if pc < lastpc then do
      let (pc, last) ← pt.symbexecStep lastpc reg pc last
      pt.symbexecLoop lastpc reg rounds (pc + 1) last
    else some last

/-- The last instruction before `lastpc` that changed the register, 0 if a check fails. Every round
of the loop goes forward. -/
def symbexec (pt : Proto) (lastpc reg : Nat) : Instruction :=
  if pt.precheck then
    match pt.symbexecLoop lastpc reg lastpc 0 (pt.sizecode - 1) with
    | some last => pt.instr last
    | none => 0
  else 0

/-- `luaG_checkcode`. -/
def luaGCheckcode (pt : Proto) : Bool := pt.symbexec pt.sizecode NO_REG ≠ 0

/-! ### Execution -/

/-- Where `luaV_execute` may go from the instruction at `pc`. A return leaves the function, and so
may a tail call. -/
def nexts (pt : Proto) (pc : Nat) : List Int :=
  let i := pt.instr pc
  match getOpcode i with
  | some .LOADBOOL => if getargC i ≠ 0 then [pc + 2] else [pc + 1]
  | some .JMP => [pc + 1 + getargSBx i]
  | some .EQ | some .LT | some .LE | some .TEST | some .TESTSET | some .TFORLOOP =>
    [pc + 1 + getargSBx (pt.instr (pc + 1)) + 1, pc + 2]
  | some .FORLOOP => [pc + 1 + getargSBx i, pc + 1]
  | some .FORPREP => [pc + 1 + getargSBx i]
  | some .SETLIST => if getargC i = 0 then [pc + 2] else [pc + 1]
  | some .CLOSURE => [pc + 1 + (pt.p[getargBx i]?.map fun f => f.nups.toNat).getD 0]
  | some .RETURN => []
  | _ => [pc + 1]

/-- One step of the program counter. -/
inductive Goes (pt : Proto) : Int → Int → Prop where
  | next (pc : Nat) {pc' : Int} (h : pc' ∈ pt.nexts pc) : Goes pt pc pc'

/-- The registers that an argument names. -/
def argRegisters (x : Nat) : OpArgMask → List Nat
  | .OpArgR => [x]
  | .OpArgK => if isK x then [] else [x]
  | _ => []

def argConstants (x : Nat) : OpArgMask → List Nat
  | .OpArgK => if isK x then [indexK x] else []
  | _ => []

/-- The registers of operations on several of them, where their number is fixed. -/
def moreRegisters (a b c : Nat) : OpCode → List Nat
  | .LOADNIL => List.range' a (b + 1 - a)
  | .SELF => [a + 1]
  | .CONCAT => List.range' b (c + 1 - b)
  | .CALL | .TAILCALL => List.range' a b ++ List.range' a (c - 1)
  | .RETURN => List.range' a (b - 1)
  | .FORLOOP | .FORPREP => List.range' a 4
  | .TFORLOOP => List.range' a (c + 3)
  | .SETLIST => List.range' a (b + 1)
  | .VARARG => List.range' a (b - 1)
  | _ => []

def registers (op : OpCode) (i : Instruction) : List Nat :=
  getargA i :: moreRegisters (getargA i) (getargB i) (getargC i) op ++
    match (opmodes op).mode with
    | .iABC => argRegisters (getargB i) (opmodes op).b ++ argRegisters (getargC i) (opmodes op).c
    | _ => []

def constants (op : OpCode) (i : Instruction) : List Nat :=
  match (opmodes op).mode with
  | .iABC => argConstants (getargB i) (opmodes op).b ++ argConstants (getargC i) (opmodes op).c
  | .iABx => if (opmodes op).b = .OpArgK then [getargBx i] else []
  | .iAsBx => []

/-- The operands of an instruction are parts of the function. -/
structure Operands (pt : Proto) (op : OpCode) (i : Instruction) : Prop where
  registers : ∀ r ∈ registers op i, r < pt.maxstacksize.toNat
  constants : ∀ k ∈ constants op i, k < pt.k.length
  upvalue : op = .GETUPVAL ∨ op = .SETUPVAL → getargB i < pt.nups.toNat
  proto : op = .CLOSURE → getargBx i < pt.p.length
  name : op = .GETGLOBAL ∨ op = .SETGLOBAL → isString (pt.k.getD (getargBx i) .nil) = true

/-! ### What an accepted instruction is -/

section
variable {pt : Proto} {pc pc' last lastpc reg : Nat} {op : OpCode} {b c : Int} {r : Nat × Nat}

theorem guard_bind_eq_some {X : Type} {q : Prop} [Decidable q] {x : Option X} {y : X} :
    (guard q >>= fun _ => x) = some y ↔ q ∧ x = some y := by
  by_cases h : q <;> simp [guard, h]

/-- An instruction that passed. -/
structure Passed (pt : Proto) (pc : Nat) (op : OpCode) (b c : Int) : Prop where
  opcode : getOpcode (pt.instr pc) = some op
  reg : pt.checkreg (getargA (pt.instr pc)) = true
  args : pt.checkArgs pc op (pt.instr pc) = some (b, c)
  test : (opmodes op).t = true →
    pc + 2 < pt.sizecode ∧ getOpcode (pt.instr (pc + 1)) = some .JMP
  own : ∃ last r, pt.checkOp pt.sizecode NO_REG pc last op (getargA (pt.instr pc)) b c = some r

theorem symbexecStep_some (h : pt.symbexecStep lastpc reg pc last = some r) :
    ∃ op b c last', getOpcode (pt.instr pc) = some op ∧
      pt.checkreg (getargA (pt.instr pc)) = true ∧
      pt.checkArgs pc op (pt.instr pc) = some (b, c) ∧
      ((opmodes op).t = true →
        pc + 2 < pt.sizecode ∧ getOpcode (pt.instr (pc + 1)) = some .JMP) ∧
      pt.checkOp lastpc reg pc last' op (getargA (pt.instr pc)) b c = some r := by
  rw [symbexecStep] at h
  obtain ⟨op, hop, h⟩ := Option.bind_eq_some_iff.mp h
  obtain ⟨hreg, h⟩ := guard_bind_eq_some.mp h
  obtain ⟨⟨b, c⟩, hargs, h⟩ := Option.bind_eq_some_iff.mp h
  obtain ⟨htest, h⟩ := guard_bind_eq_some.mp h
  exact ⟨op, b, c, _, hop, hreg, hargs, htest, h⟩

theorem checkArgs_iABC (hmode : (opmodes op).mode = .iABC) {i : Instruction}
    (h : pt.checkArgs pc op i = some (b, c)) :
    pt.checkArgMode (getargB i) (opmodes op).b = true ∧
      pt.checkArgMode (getargC i) (opmodes op).c = true ∧ b = getargB i ∧ c = getargC i := by
  rw [checkArgs, hmode] at h
  obtain ⟨hb, h⟩ := guard_bind_eq_some.mp h
  obtain ⟨hc, h⟩ := guard_bind_eq_some.mp h
  cases h
  exact ⟨hb, hc, rfl, rfl⟩

theorem checkArgs_iABx (hmode : (opmodes op).mode = .iABx) {i : Instruction}
    (h : pt.checkArgs pc op i = some (b, c)) :
    ((opmodes op).b = .OpArgK → getargBx i < pt.k.length) ∧ b = getargBx i ∧ c = 0 := by
  rw [checkArgs, hmode] at h
  obtain ⟨hb, h⟩ := guard_bind_eq_some.mp h
  cases h
  exact ⟨hb, rfl, rfl⟩

theorem checkArgs_iAsBx (hmode : (opmodes op).mode = .iAsBx) {i : Instruction}
    (h : pt.checkArgs pc op i = some (b, c)) :
    ((opmodes op).b = .OpArgR → 0 ≤ pc + 1 + getargSBx i ∧ pc + 1 + getargSBx i < pt.sizecode ∧
      (0 < pc + 1 + getargSBx i → pt.setlists (pc + 1 + getargSBx i).toNat % 2 = 0)) ∧
      b = getargSBx i ∧ c = 0 := by
  rw [checkArgs, hmode] at h
  obtain ⟨hb, h⟩ := guard_bind_eq_some.mp h
  cases h
  exact ⟨hb, rfl, rfl⟩

/-- Without a register to trace, only the count of a SETLIST is passed over. -/
theorem checkOp_pc {a : Nat} (h : pt.checkOp lastpc NO_REG pc last op a b c = some r)
    (hop : op ≠ .SETLIST) : r.1 = pc := by
  cases op
  case SETLIST => exact absurd rfl hop
  all_goals
    simp only [checkOp, guard_bind_eq_some, jumpForward, ne_eq, not_true_eq_false, false_and,
      if_false, Option.some.injEq] at h
    grind

theorem checkOp_setlist {a : Nat}
    (h : pt.checkOp lastpc reg pc last .SETLIST a b c = some r) :
    (0 < b → pt.checkreg (a + b) = true) ∧
      (c = 0 ∧ pc + 1 < pt.sizecode - 1 ∧ r.1 = pc + 1 ∨ c ≠ 0 ∧ r.1 = pc) := by
  obtain ⟨hb, h⟩ := guard_bind_eq_some.mp h
  refine ⟨hb, ?_⟩
  by_cases hc : c = 0
  · rw [if_pos hc] at h
    obtain ⟨hlt, h⟩ := guard_bind_eq_some.mp h
    cases h
    exact .inl ⟨hc, by omega, rfl⟩
  · rw [if_neg hc] at h
    cases h
    exact .inr ⟨hc, rfl⟩

/-! ### The words that are instructions -/

/-- How many words an instruction has: its count may be in the next one. -/
def width (pt : Proto) (pc : Nat) : Nat := if looksLikeSetlist (pt.instr pc) then 2 else 1

/-- The check goes on from one instruction to the next one. -/
def Next (pt : Proto) (pc pc' : Nat) : Prop := pc < pt.sizecode ∧ pc' = pc + pt.width pc

/-- The check comes to the word as an instruction. -/
def Scanned (pt : Proto) (pc : Nat) : Prop := Relation.ReflTransGen pt.Next 0 pc

theorem looksLikeSetlist_iff {i : Instruction} :
    looksLikeSetlist i = true ↔ getOpcode i = some .SETLIST ∧ getargC i = 0 := by
  simp [looksLikeSetlist]

theorem symbexecStep_passed (h : pt.symbexecStep pt.sizecode NO_REG pc last = some r) :
    (∃ op b c, Passed pt pc op b c) ∧ r.1 + 1 = pc + pt.width pc := by
  obtain ⟨op, b, c, last', hop, hreg, hargs, htest, hown⟩ := symbexecStep_some h
  refine ⟨⟨op, b, c, hop, hreg, hargs, htest, last', r, hown⟩, ?_⟩
  rw [width]
  by_cases hset : op = .SETLIST
  · subst hset
    obtain ⟨_, _, _, hc⟩ := checkArgs_iABC rfl hargs
    obtain ⟨_, ⟨hzero, _, hr⟩ | ⟨hzero, hr⟩⟩ := checkOp_setlist hown
    · rw [if_pos (looksLikeSetlist_iff.mpr ⟨hop, by omega⟩), hr]
    · rw [if_neg fun hlook => hzero ?_, hr]
      have := (looksLikeSetlist_iff.mp hlook).2
      omega
  · rw [if_neg fun hlook => hset ?_, checkOp_pc hown hset]
    exact Option.some.inj (hop.symm.trans (looksLikeSetlist_iff.mp hlook).1)

theorem le_of_next (h : Relation.ReflTransGen pt.Next pc pc') : pc ≤ pc' := by
  induction h with
  | refl => exact le_rfl
  | tail _ hnext ih =>
    obtain ⟨_, rfl⟩ := hnext
    exact ih.trans (Nat.le_add_right _ _)

theorem symbexecLoop_passed {rounds : Nat} {l : Nat} (hrounds : pt.sizecode ≤ pc + rounds)
    (h : pt.symbexecLoop pt.sizecode NO_REG rounds pc last = some l)
    (hpc : Relation.ReflTransGen pt.Next pc pc') (hlt : pc' < pt.sizecode) :
    ∃ op b c, Passed pt pc' op b c := by
  induction rounds generalizing pc last with
  | zero =>
    have hle := le_of_next hpc
    omega
  | succ rounds ih =>
    rw [symbexecLoop] at h
    split_ifs at h with hin
    · obtain ⟨⟨p, l'⟩, hstep, hrest⟩ := Option.bind_eq_some_iff.mp h
      obtain ⟨hpassed, hp⟩ := symbexecStep_passed hstep
      rcases hpc.cases_head with rfl | ⟨q, ⟨_, rfl⟩, hq⟩
      · exact hpassed
      · dsimp only at hp hrest
        refine ih ?_ hrest (hp ▸ hq)
        rw [hp, width]
        split_ifs <;> omega
    · have hle := le_of_next hpc
      omega

/-- The first word is an instruction, and a word after one is an instruction or a count. -/
theorem scanned_or_count {n : Nat} (hn : n ≤ pt.sizecode) :
    pt.Scanned n ∨ ∃ m, n = m + 1 ∧ pt.Scanned m ∧ looksLikeSetlist (pt.instr m) = true := by
  induction n with
  | zero => exact .inl .refl
  | succ n ih =>
    rcases ih (by omega) with hscan | ⟨m, rfl, hscan, hlook⟩
    · by_cases hlook : looksLikeSetlist (pt.instr n) = true
      · exact .inr ⟨n, rfl, hscan, hlook⟩
      · exact .inl (hscan.tail ⟨by omega, by rw [width, if_neg hlook]⟩)
    · exact .inl (hscan.tail ⟨by omega, by rw [width, if_pos hlook]⟩)

/-- An even number of words that look like a SETLIST with its count are just that, every other one
of them a count. -/
theorem scanned_of_even {n : Nat} (hn : n ≤ pt.sizecode) (heven : pt.setlists n % 2 = 0) :
    pt.Scanned n := by
  induction n using Nat.strong_induction_on with
  | _ n ih =>
    rcases scanned_or_count hn with hscan | ⟨m, rfl, _, hlook⟩
    · exact hscan
    · rw [setlists, if_pos hlook] at heven
      rcases m with _ | m
      · exact absurd heven (by rw [setlists]; decide)
      · rw [setlists] at heven
        split_ifs at heven with hlook'
        · have hscan := ih m (by omega) (by omega) (by omega)
          exact hscan.tail ⟨by omega, by rw [width, if_pos hlook']⟩

/-- A function that the check accepts. -/
structure Accepted (pt : Proto) : Prop where
  last : getOpcode (pt.instr (pt.sizecode - 1)) = some .RETURN
  passed : ∀ pc, pt.Scanned pc → pc < pt.sizecode → ∃ op b c, Passed pt pc op b c
  nonempty : 0 < pt.sizecode

theorem accepted_of_checkcode (h : pt.luaGCheckcode = true) : Accepted pt := by
  rw [luaGCheckcode, decide_eq_true_eq, symbexec] at h
  split_ifs at h with hpre
  · cases hloop : pt.symbexecLoop pt.sizecode NO_REG pt.sizecode 0 (pt.sizecode - 1) with
    | none => simp [hloop] at h
    | some l =>
      rw [precheck, decide_eq_true_eq] at hpre
      obtain ⟨_, _, _, _, _, hpos, hreturn⟩ := hpre
      exact ⟨hreturn, fun pc hscan hlt => symbexecLoop_passed (by omega) hloop hscan hlt, hpos⟩
  · exact absurd rfl h

theorem Accepted.succ_lt (h : Accepted pt) (hlt : pc < pt.sizecode)
    (hop : getOpcode (pt.instr pc) = some op) (hne : op ≠ .RETURN) : pc + 1 < pt.sizecode := by
  by_contra hge
  have hlast : pc = pt.sizecode - 1 := by omega
  rw [hlast, h.last] at hop
  exact hne (Option.some.inj hop).symm

theorem Scanned.succ (hscan : pt.Scanned pc) (hlt : pc < pt.sizecode)
    (hlook : ¬ looksLikeSetlist (pt.instr pc) = true) : pt.Scanned (pc + 1) :=
  hscan.tail ⟨hlt, by rw [width, if_neg hlook]⟩

theorem not_looksLikeSetlist (hop : getOpcode (pt.instr pc) = some op) (hne : op ≠ .SETLIST) :
    ¬ looksLikeSetlist (pt.instr pc) = true := fun hlook =>
  hne (Option.some.inj (hop.symm.trans (looksLikeSetlist_iff.mp hlook).1))

/-- A jump ends at an instruction. -/
theorem Passed.jump (h : Passed pt pc op b c) (hmode : (opmodes op).mode = .iAsBx)
    (hb : (opmodes op).b = .OpArgR) :
    ∃ n : Nat, pc + 1 + getargSBx (pt.instr pc) = n ∧ pt.Scanned n ∧ n < pt.sizecode := by
  obtain ⟨hdest, _⟩ := checkArgs_iAsBx hmode h.args
  obtain ⟨hlo, hhi, heven⟩ := hdest hb
  obtain ⟨n, hn⟩ := Int.eq_ofNat_of_zero_le hlo
  rw [hn] at hhi heven
  refine ⟨n, hn, ?_, by omega⟩
  rcases Nat.eq_zero_or_pos n with rfl | hpos
  · exact .refl
  · exact scanned_of_even (by omega) (heven (by omega))

/-- Going on with the next word. -/
theorem Accepted.goes_succ (h : Accepted pt) (hscan : pt.Scanned pc) (hlt : pc < pt.sizecode)
    (hop : getOpcode (pt.instr pc) = some op) (hreturn : op ≠ .RETURN) (hset : op ≠ .SETLIST) :
    pt.Scanned (pc + 1) ∧ pc + 1 < pt.sizecode :=
  ⟨hscan.succ hlt (not_looksLikeSetlist hop hset), h.succ_lt hlt hop hreturn⟩

/-- A test goes on behind the jump that follows it, or does the jump. -/
theorem Accepted.goes_test (h : Accepted pt) (hp : Passed pt pc op b c) (hscan : pt.Scanned pc)
    (hlt : pc < pt.sizecode) (htest : (opmodes op).t = true) (hset : op ≠ .SETLIST) :
    (∃ n : Nat, pc + 1 + getargSBx (pt.instr (pc + 1)) + 1 = n ∧ pt.Scanned n ∧
        n < pt.sizecode) ∧
      pt.Scanned (pc + 2) ∧ pc + 2 < pt.sizecode := by
  obtain ⟨hlt', hjmp⟩ := hp.test htest
  have hscan' := hscan.succ hlt (not_looksLikeSetlist hp.opcode hset)
  obtain ⟨op', b', c', hp'⟩ := h.passed (pc + 1) hscan' (by omega)
  have hop' : op' = .JMP := Option.some.inj (hp'.opcode.symm.trans hjmp)
  subst hop'
  obtain ⟨n, hn, hscan'', hlt''⟩ := hp'.jump rfl rfl
  refine ⟨⟨n, ?_, hscan'', hlt''⟩, ?_, hlt'⟩
  · rw [← hn]
    push_cast
    omega
  · exact hscan'.succ (by omega) (not_looksLikeSetlist hjmp (by decide))

theorem checkOp_closure {a : Nat} (h : pt.checkOp lastpc reg pc last .CLOSURE a b c = some r) :
    b < pt.p.length ∧ pc + (pt.p[b.toNat]?.map fun f => f.nups.toNat).getD 0 < pt.sizecode ∧
      ∀ j ∈ List.range' 1 ((pt.p[b.toNat]?.map fun f => f.nups.toNat).getD 0),
        getOpcode (pt.instr (pc + j)) = some .GETUPVAL ∨
          getOpcode (pt.instr (pc + j)) = some .MOVE := by
  obtain ⟨hb, h⟩ := guard_bind_eq_some.mp h
  obtain ⟨hlt, h⟩ := guard_bind_eq_some.mp h
  obtain ⟨hall, _⟩ := guard_bind_eq_some.mp h
  exact ⟨hb, hlt, hall⟩

/-- The pseudo-instructions behind a CLOSURE are instructions for the check, and none is the last
one. -/
theorem Accepted.goes_closure (h : Accepted pt) (hop : getOpcode (pt.instr pc) = some .CLOSURE)
    (hscan : pt.Scanned pc) {nup : Nat} (hnup : pc + nup < pt.sizecode)
    (hpseudo : ∀ j ∈ List.range' 1 nup, getOpcode (pt.instr (pc + j)) = some .GETUPVAL ∨
      getOpcode (pt.instr (pc + j)) = some .MOVE) :
    pt.Scanned (pc + 1 + nup) ∧ pc + 1 + nup < pt.sizecode := by
  have hkind : ∀ j ≤ nup, ∃ op, getOpcode (pt.instr (pc + j)) = some op ∧ op ≠ .RETURN ∧
      op ≠ .SETLIST := by
    intro j hj
    rcases Nat.eq_zero_or_pos j with rfl | hpos
    · exact ⟨.CLOSURE, hop, by decide, by decide⟩
    · rcases hpseudo j (List.mem_range'_1.mpr (by omega)) with hup | hmove
      · exact ⟨.GETUPVAL, hup, by decide, by decide⟩
      · exact ⟨.MOVE, hmove, by decide, by decide⟩
  have hall : ∀ j ≤ nup, pt.Scanned (pc + j) := by
    intro j hj
    induction j with
    | zero => exact hscan
    | succ j ih =>
      obtain ⟨op, hop', _, hset⟩ := hkind j (by omega)
      exact (ih (by omega)).succ (by omega) (not_looksLikeSetlist hop' hset)
  obtain ⟨op, hop', hreturn, hset⟩ := hkind nup le_rfl
  have hgoes := h.goes_succ (hall nup le_rfl) hnup hop' hreturn hset
  rwa [Nat.add_right_comm]

/-- The operation that may skip a word skips no more than one instruction. -/
def LoadboolIsBool (pt : Proto) : Prop :=
  ∀ pc < pt.sizecode, getOpcode (pt.instr pc) = some .LOADBOOL → getargC (pt.instr pc) ≤ 1

/-- From an instruction, execution goes on at an instruction. -/
theorem Accepted.goes (h : Accepted pt) (hbool : LoadboolIsBool pt) (hscan : pt.Scanned pc)
    (hlt : pc < pt.sizecode) {dest : Int} (hdest : dest ∈ pt.nexts pc) :
    ∃ n : Nat, dest = n ∧ pt.Scanned n ∧ n < pt.sizecode := by
  obtain ⟨op, b, c, hp⟩ := h.passed pc hscan hlt
  have hop := hp.opcode
  have hsucc : op ≠ .RETURN → op ≠ .SETLIST → dest = (pc : Int) + 1 →
      ∃ n : Nat, dest = n ∧ pt.Scanned n ∧ n < pt.sizecode := fun hreturn hset heq =>
    ⟨pc + 1, by rw [heq]; push_cast; rfl, h.goes_succ hscan hlt hop hreturn hset⟩
  have htest : (opmodes op).t = true → op ≠ .SETLIST →
      dest = pc + 1 + getargSBx (pt.instr (pc + 1)) + 1 ∨ dest = (pc : Int) + 2 →
      ∃ n : Nat, dest = n ∧ pt.Scanned n ∧ n < pt.sizecode := by
    intro ht hset hcases
    obtain ⟨⟨n, hn, hjump⟩, hskip⟩ := h.goes_test hp hscan hlt ht hset
    rcases hcases with heq | heq
    · exact ⟨n, heq.trans hn, hjump⟩
    · exact ⟨pc + 2, by rw [heq]; push_cast; rfl, hskip⟩
  simp only [nexts, hop] at hdest
  cases op <;> dsimp only at hdest
  case LOADBOOL =>
    obtain ⟨_, _, _, rfl⟩ := checkArgs_iABC rfl hp.args
    obtain ⟨_, _, hown⟩ := hp.own
    have hle := hbool pc hlt hop
    split_ifs at hdest with hc
    · obtain ⟨hlt', hlook⟩ := (guard_bind_eq_some.mp hown).1 (by omega)
      have hscan' := hscan.succ hlt (not_looksLikeSetlist hop (by decide))
      refine ⟨pc + 2, by simpa using hdest, hscan'.succ (by omega) hlook, hlt'⟩
    · exact hsucc (by decide) (by decide) (by simpa using hdest)
  case JMP | FORPREP =>
    obtain ⟨n, hn, hjump⟩ := hp.jump rfl rfl
    exact ⟨n, (List.mem_singleton.mp hdest).trans hn, hjump⟩
  case FORLOOP =>
    obtain ⟨n, hn, hjump⟩ := hp.jump rfl rfl
    rcases List.mem_cons.mp hdest with heq | hmem
    · exact ⟨n, heq.trans hn, hjump⟩
    · exact hsucc (by decide) (by decide) (List.mem_singleton.mp hmem)
  case EQ | LT | LE | TEST | TESTSET | TFORLOOP =>
    exact htest rfl (by decide) (by simpa using hdest)
  case SETLIST =>
    obtain ⟨_, _, _, rfl⟩ := checkArgs_iABC rfl hp.args
    obtain ⟨_, _, hown⟩ := hp.own
    obtain ⟨_, hcount⟩ := checkOp_setlist hown
    split_ifs at hdest with hc
    · rcases hcount with ⟨_, hlt', _⟩ | ⟨hne, _⟩
      · refine ⟨pc + 2, by simpa using hdest, hscan.tail ⟨hlt, ?_⟩, by omega⟩
        rw [width, if_pos (looksLikeSetlist_iff.mpr ⟨hop, hc⟩)]
      · exact absurd (by omega) hne
    · have hscan' := hscan.succ hlt fun hlook => hc (looksLikeSetlist_iff.mp hlook).2
      exact ⟨pc + 1, by simpa using hdest, hscan', h.succ_lt hlt hop (by decide)⟩
  case CLOSURE =>
    obtain ⟨_, rfl, _⟩ := checkArgs_iABx rfl hp.args
    obtain ⟨_, _, hown⟩ := hp.own
    obtain ⟨_, hnup, hpseudo⟩ := checkOp_closure hown
    exact ⟨_, (List.mem_singleton.mp hdest).trans (by push_cast; rfl),
      h.goes_closure hop hscan hnup hpseudo⟩
  case RETURN => exact absurd hdest List.not_mem_nil
  all_goals exact hsucc (by decide) (by decide) (List.mem_singleton.mp hdest)

/-! ### Operands -/

theorem checkreg_iff {reg : Int} : pt.checkreg reg = true ↔ reg < pt.maxstacksize.toNat := by
  rw [checkreg, decide_eq_true_eq]

theorem argRegisters_lt {x : Nat} {m : OpArgMask} (h : pt.checkArgMode x m = true) :
    ∀ r ∈ argRegisters x m, r < pt.maxstacksize.toNat := by
  intro r hr
  cases m with
  | OpArgR =>
    cases List.mem_singleton.mp hr
    have := checkreg_iff.mp h
    omega
  | OpArgK =>
    rw [argRegisters] at hr
    rw [checkArgMode] at h
    split_ifs at hr h with hk
    · cases hr
    · cases List.mem_singleton.mp hr
      exact of_decide_eq_true h
  | _ => cases hr

theorem argConstants_lt {x : Nat} {m : OpArgMask} (h : pt.checkArgMode x m = true) :
    ∀ k ∈ argConstants x m, k < pt.k.length := by
  intro k hk
  cases m with
  | OpArgK =>
    rw [argConstants] at hk
    rw [checkArgMode] at h
    split_ifs at hk h with hisk
    · cases List.mem_singleton.mp hk
      exact of_decide_eq_true h
    · cases hk
  | _ => cases hk

/-- The registers of operations on several of them lie below those that are checked. -/
theorem Passed.moreRegisters_lt (h : Passed pt pc op b c) :
    ∀ r ∈ moreRegisters (getargA (pt.instr pc)) (getargB (pt.instr pc)) (getargC (pt.instr pc)) op,
      r < pt.maxstacksize.toNat := by
  intro r hr
  have ha := checkreg_iff.mp h.reg
  obtain ⟨last, res, hown⟩ := h.own
  cases op
  case LOADNIL =>
    obtain ⟨hb, _⟩ := checkArgs_iABC rfl h.args
    have := checkreg_iff.mp hb
    have := List.mem_range'_1.mp hr
    omega
  case SELF =>
    have := checkreg_iff.mp (guard_bind_eq_some.mp hown).1
    have := List.mem_singleton.mp hr
    omega
  case CONCAT =>
    obtain ⟨_, hc, _⟩ := checkArgs_iABC rfl h.args
    have := checkreg_iff.mp hc
    have := List.mem_range'_1.mp hr
    omega
  case CALL | TAILCALL =>
    obtain ⟨_, _, rfl, rfl⟩ := checkArgs_iABC rfl h.args
    obtain ⟨hb, hown⟩ := guard_bind_eq_some.mp hown
    obtain ⟨hc, _⟩ := guard_bind_eq_some.mp hown
    rcases List.mem_append.mp hr with hmem | hmem
    · have hrange := List.mem_range'_1.mp hmem
      have := checkreg_iff.mp (hb (by omega))
      omega
    · have hrange := List.mem_range'_1.mp hmem
      rw [LUA_MULTRET, if_neg (by omega)] at hc
      have := checkreg_iff.mp (of_decide_eq_true hc (by omega))
      omega
  case RETURN =>
    obtain ⟨_, _, rfl, _⟩ := checkArgs_iABC rfl h.args
    have hrange := List.mem_range'_1.mp hr
    have := checkreg_iff.mp ((guard_bind_eq_some.mp hown).1 (by omega))
    omega
  case FORLOOP | FORPREP =>
    have := checkreg_iff.mp (guard_bind_eq_some.mp hown).1
    have := List.mem_range'_1.mp hr
    omega
  case TFORLOOP =>
    obtain ⟨_, _, _, rfl⟩ := checkArgs_iABC rfl h.args
    obtain ⟨_, hown⟩ := guard_bind_eq_some.mp hown
    have := checkreg_iff.mp (guard_bind_eq_some.mp hown).1
    have := List.mem_range'_1.mp hr
    omega
  case SETLIST =>
    obtain ⟨_, _, rfl, _⟩ := checkArgs_iABC rfl h.args
    obtain ⟨hb, _⟩ := checkOp_setlist hown
    have hrange := List.mem_range'_1.mp hr
    rcases Nat.eq_zero_or_pos (getargB (pt.instr pc)) with hzero | hpos
    · omega
    · have := checkreg_iff.mp (hb (by omega))
      omega
  case VARARG =>
    obtain ⟨_, _, rfl, _⟩ := checkArgs_iABC rfl h.args
    obtain ⟨_, hown⟩ := guard_bind_eq_some.mp hown
    obtain ⟨_, hown⟩ := guard_bind_eq_some.mp hown
    have := checkreg_iff.mp (guard_bind_eq_some.mp hown).1
    have := List.mem_range'_1.mp hr
    omega
  all_goals exact absurd hr List.not_mem_nil

theorem Passed.operands (h : Passed pt pc op b c) : Operands pt op (pt.instr pc) := by
  refine ⟨?_, ?_, ?_, ?_, ?_⟩
  · intro r hr
    rcases List.mem_append.mp hr with hr | hr
    · rcases List.mem_cons.mp hr with rfl | hr
      · have := checkreg_iff.mp h.reg
        omega
      · exact h.moreRegisters_lt r hr
    · cases hmode : (opmodes op).mode with
      | iABC =>
        rw [hmode] at hr
        obtain ⟨hb, hc, _⟩ := checkArgs_iABC hmode h.args
        rcases List.mem_append.mp hr with hr | hr
        · exact argRegisters_lt hb r hr
        · exact argRegisters_lt hc r hr
      | _ =>
        rw [hmode] at hr
        cases hr
  · intro k hk
    rw [constants] at hk
    cases hmode : (opmodes op).mode with
    | iABC =>
      rw [hmode] at hk
      obtain ⟨hb, hc, _⟩ := checkArgs_iABC hmode h.args
      rcases List.mem_append.mp hk with hk | hk
      · exact argConstants_lt hb k hk
      · exact argConstants_lt hc k hk
    | iABx =>
      rw [hmode] at hk
      dsimp only at hk
      split_ifs at hk with hb
      · cases List.mem_singleton.mp hk
        exact (checkArgs_iABx hmode h.args).1 hb
      · cases hk
    | iAsBx =>
      rw [hmode] at hk
      cases hk
  · obtain ⟨_, _, hown⟩ := h.own
    rintro (rfl | rfl)
    all_goals
      obtain ⟨_, _, rfl, _⟩ := checkArgs_iABC rfl h.args
      have := (guard_bind_eq_some.mp hown).1
      omega
  · rintro rfl
    obtain ⟨_, rfl, _⟩ := checkArgs_iABx rfl h.args
    obtain ⟨_, _, hown⟩ := h.own
    have := (checkOp_closure hown).1
    omega
  · obtain ⟨_, _, hown⟩ := h.own
    rintro (rfl | rfl)
    all_goals
      obtain ⟨_, rfl, _⟩ := checkArgs_iABx rfl h.args
      have := (guard_bind_eq_some.mp hown).1
      simpa using this

/-- Wherever accepted code is executed to, there is an instruction of the function with operands
that are there, as long as no operation skips more than the one instruction it may skip. -/
theorem accepted_run (hcheck : pt.luaGCheckcode = true) (hbool : LoadboolIsBool pt) {pc : Int}
    (run : Relation.ReflTransGen pt.Goes 0 pc) :
    0 ≤ pc ∧ pc < pt.sizecode ∧
      ∃ op, getOpcode (pt.instr pc.toNat) = some op ∧ Operands pt op (pt.instr pc.toNat) := by
  have h := accepted_of_checkcode hcheck
  have hscan : ∃ n : Nat, pc = n ∧ pt.Scanned n ∧ n < pt.sizecode := by
    induction run with
    | refl => exact ⟨0, rfl, .refl, h.nonempty⟩
    | tail _ hstep ih =>
      obtain ⟨n, rfl, hscan, hlt⟩ := ih
      obtain ⟨_, hdest⟩ := hstep
      exact h.goes hbool hscan hlt hdest
  obtain ⟨n, rfl, hscan, hlt⟩ := hscan
  obtain ⟨op, b, c, hp⟩ := h.passed n hscan hlt
  exact ⟨Int.natCast_nonneg n, by omega, op, hp.opcode, hp.operands⟩

/-- A function that is its code, and has two registers. -/
def ofCode (code : List Instruction) : Proto :=
  ⟨[], code, [], [], [], [], none, 0, 0, 0, 0, 0, 2⟩

theorem accepted_run_skip :
    let f := ofCode [createABC .LOADBOOL 0 1 1, createABC .LOADBOOL 0 0 0, createABC .RETURN 0 2 0]
    f.luaGCheckcode = true ∧
      ∃ op, getOpcode (f.instr 2) = some op ∧ Operands f op (f.instr 2) := by
  intro f
  have hcheck : f.luaGCheckcode = true := by decide +kernel
  have hbool : LoadboolIsBool f := by unfold LoadboolIsBool; decide +kernel
  have hstep : f.Goes 0 2 := .next 0 (by decide +kernel)
  exact ⟨hcheck, (accepted_run hcheck hbool (.single hstep)).2.2⟩

/-- The check looks only at a skip of 1, and `luaV_execute` skips a word for any other one, too. -/
example :
    let f := ofCode [createABC .LOADBOOL 0 1 2, createABC .RETURN 0 2 0]
    f.luaGCheckcode = true ∧ f.Goes 0 f.sizecode := by
  intro f
  exact ⟨by decide +kernel, .next 0 (by decide +kernel)⟩

end

/-! ### What the check looks at -/

/-- Two functions that only differ in what is there for messages, and inside their functions. -/
structure SameCode (f g : Proto) : Prop where
  code : g.code = f.code
  k : g.k = f.k
  p : g.p.map Proto.nups = f.p.map Proto.nups
  nups : g.nups = f.nups
  numparams : g.numparams = f.numparams
  isVararg : g.isVararg = f.isVararg
  maxstacksize : g.maxstacksize = f.maxstacksize

namespace SameCode
variable {f g : Proto} (h : SameCode f g)
include h

theorem instr : g.instr = f.instr := by
  funext pc
  rw [Proto.instr, Proto.instr, h.code]

theorem sizecode : g.sizecode = f.sizecode := congrArg List.length h.code

theorem checkreg : g.checkreg = f.checkreg := by
  funext reg
  rw [Proto.checkreg, Proto.checkreg, h.maxstacksize]

theorem setlists (n : Nat) : g.setlists n = f.setlists n := by
  induction n with
  | zero => rfl
  | succ n ih => rw [Proto.setlists, Proto.setlists, ih, h.instr]

theorem checkArgMode (r : Nat) (m : OpArgMask) : g.checkArgMode r m = f.checkArgMode r m := by
  cases m <;> simp only [Proto.checkArgMode, h.checkreg, h.k, h.maxstacksize]

theorem checkArgs (pc : Nat) (op : OpCode) (i : Instruction) :
    g.checkArgs pc op i = f.checkArgs pc op i := by
  simp only [Proto.checkArgs, h.checkArgMode, h.k, h.sizecode, h.setlists]

theorem lengthP : g.p.length = f.p.length := by
  simpa only [List.length_map] using congrArg List.length h.p

theorem nupsOfP (b : Nat) :
    g.p[b]?.map (fun f => f.nups.toNat) = f.p[b]?.map fun f => f.nups.toNat := by
  have hb := congrArg (fun l => l[b]?.map UInt8.toNat) h.p
  simp only [List.getElem?_map, Option.map_map] at hb
  exact hb

theorem checkOp (lastpc reg pc last : Nat) (op : OpCode) (a : Nat) (b c : Int) :
    g.checkOp lastpc reg pc last op a b c = f.checkOp lastpc reg pc last op a b c := by
  cases op <;>
    simp only [Proto.checkOp, h.instr, h.sizecode, h.checkreg, h.k, h.nups, h.isVararg, h.lengthP,
      h.nupsOfP]

theorem symbexecLoop (lastpc reg rounds pc last : Nat) :
    g.symbexecLoop lastpc reg rounds pc last = f.symbexecLoop lastpc reg rounds pc last := by
  induction rounds generalizing pc last with
  | zero => rfl
  | succ rounds ih =>
    simp only [Proto.symbexecLoop, symbexecStep, h.instr, h.sizecode, h.checkreg, h.checkArgs,
      h.checkOp, ih]

/-- A function with less debug information passes the check, too. -/
theorem luaGCheckcode
    (hlines : g.lineinfo.length = f.lineinfo.length ∨ g.lineinfo.length = 0)
    (hupvalues : g.upvalues.length ≤ f.upvalues.length) (hcheck : f.luaGCheckcode = true) :
    g.luaGCheckcode = true := by
  have hpre : f.precheck = true → g.precheck = true := by
    rw [precheck, precheck, decide_eq_true_eq, decide_eq_true_eq, h.sizecode, h.instr, h.nups,
      h.numparams, h.isVararg, h.maxstacksize]
    rintro ⟨hmax, hparams, hvararg, hnups, hsize, hrest⟩
    exact ⟨hmax, hparams, hvararg, by omega, by omega, hrest⟩
  rw [Proto.luaGCheckcode, symbexec, decide_eq_true_eq] at hcheck ⊢
  split_ifs at hcheck with hf
  · rwa [if_pos (hpre hf), h.sizecode, h.symbexecLoop, h.instr]
  · exact absurd rfl hcheck

end SameCode

end Proto
end JLua.Protos
