import LinuxNet.Lib.CStr

/-!
# The firewall's data: commands, rules, tables

`sipfw.h` and `sipfw_para.h` are shared by the user-space tool and the kernel
module, so this file is too. A machine integer is its bit pattern (`BitVec`),
read as signed where the source declares `int`; the two enumerations that
select code or a table (`Cmd`, `Chain`) are inductive types with the source's
numbering, and `ofInt` is the only way from a number to them.

A rule is the `struct sipfw_rules` the kernel links into a chain. `cell` is
the address of the memory that holds it: two rules of equal content in two
cells are two rules. A chain is the list of the rules reached through `next`.

Left out: `ifname` of a rule (no function writes or reads it), the lock of a
list, and the fields of `sipfw_variant` the code never uses.
-/

namespace LinuxNet.Sipfw

/-! ## Name tables -/

/-- `struct vec`: an entry of a name table; `ptr = NULL` ends the table. -/
structure Vec where
  ptr : Option CStr
  len : Nat
  value : BitVec 32
  deriving DecidableEq, Repr

def sipfwChainName : List Vec :=
  [⟨some "INPUT".toList, 5, 0⟩, ⟨some "OUTPUT".toList, 6, 0⟩,
   ⟨some "FORWARD".toList, 7, 0⟩, ⟨none, 0, 0⟩]

def sipfwActionName : List Vec :=
  [⟨some "DROP".toList, 4, 0⟩, ⟨some "ACCEPT".toList, 6, 0⟩,
   ⟨some "STOLEN".toList, 6, 0⟩, ⟨some "QUEUE".toList, 6, 0⟩,
   ⟨some "REPEAT".toList, 6, 0⟩, ⟨none, 0, 0⟩]

def sipfwProtocolName : List Vec :=
  [⟨some "tcp".toList, 3, 6⟩, ⟨some "udp".toList, 3, 17⟩,
   ⟨some "icmp".toList, 4, 1⟩, ⟨some "igmp".toList, 4, 2⟩, ⟨none, 0, 0⟩]

/-! ## Enumerations -/

/-- `SIPFW_CMD_*`. -/
inductive Cmd where
  | insert
  | delete
  | append
  | list
  | flush
  | replace
  deriving DecidableEq, Repr

def Cmd.code : Cmd → BitVec 32
  | .insert => 0#32
  | .delete => 1#32
  | .append => 2#32
  | .list => 3#32
  | .flush => 4#32
  | .replace => 5#32

/-- The `case` a command number selects; `none` is `default`. -/
def Cmd.ofInt (v : BitVec 32) : Option Cmd :=
  if v = 0#32 then some .insert
  else if v = 1#32 then some .delete
  else if v = 2#32 then some .append
  else if v = 3#32 then some .list
  else if v = 4#32 then some .flush
  else if v = 5#32 then some .replace
  else none

@[simp] theorem Cmd.ofInt_code (c : Cmd) : Cmd.ofInt c.code = some c := by
  cases c <;> rfl

/-- `SIPFW_CHAIN_INPUT`, `SIPFW_CHAIN_OUTPUT`, `SIPFW_CHAIN_FORWARD`. -/
inductive Chain where
  | input
  | output
  | forward
  deriving DecidableEq, Repr

def Chain.code : Chain → BitVec 32
  | .input => 0#32
  | .output => 1#32
  | .forward => 2#32

/-- The table an index selects; `none` is outside `sipfw_tables[3]`. -/
def Chain.ofInt (v : BitVec 32) : Option Chain :=
  if v = 0#32 then some .input
  else if v = 1#32 then some .output
  else if v = 2#32 then some .forward
  else none

@[simp] theorem Chain.ofInt_code (c : Chain) : Chain.ofInt c.code = some c := by
  cases c <;> rfl

theorem Chain.ofInt_eq_some {v : BitVec 32} {c : Chain} :
    Chain.ofInt v = some c ↔ v = c.code := by
  constructor
  · intro h
    unfold Chain.ofInt at h
    split at h
    next hv => cases h; exact hv
    next =>
      split at h
      next hv => cases h; exact hv
      next =>
        split at h
        next hv => cases h; exact hv
        next => exact nomatch h
  · intro he
    subst he
    exact Chain.ofInt_code c

/-- `SIPFW_CHAIN_NUM`, which is also `SIPFW_CHAIN_ALL`. -/
def chainNum : BitVec 32 := 3#32

def chainAll : BitVec 32 := 3#32

/-- Netfilter's verdicts, and the actions of a rule. -/
def nfDrop : BitVec 32 := 0#32

def nfAccept : BitVec 32 := 1#32

def nfStolen : BitVec 32 := 2#32

def nfQueue : BitVec 32 := 3#32

/-! ## Command options -/

/-- `union sipfw_variant`, by the members the code uses. No variant is written
through one member and read through the other. -/
structure SipfwVariant where
  vStr : CStr
  vUint : BitVec 32
  deriving DecidableEq, Repr

/-- The member `v_int`: the same bits read as a signed number. -/
def SipfwVariant.vInt (v : SipfwVariant) : Int := v.vUint.toInt

/-- Store a number in a variant. -/
def SipfwVariant.ofUint (n : BitVec 32) : SipfwVariant := ⟨[], n⟩

/-- `union addtion`: `valid` is the whole word, `tcp` its first three bytes
(sixteen flag bits, then the byte `valid`), `icgmp` the bytes `valid`, `type`,
`code`. -/
abbrev Addtion := BitVec 32

namespace Addtion

/-- `tcp.fin`, bit 8 of the word. -/
def tcpFin (a : Addtion) : Bool := a.getLsbD 8

/-- `tcp.syn`, bit 9 of the word. -/
def tcpSyn (a : Addtion) : Bool := a.getLsbD 9

/-- `tcp.ack`, bit 12 of the word. -/
def tcpAck (a : Addtion) : Bool := a.getLsbD 12

/-- `icgmp.type`, the second byte. -/
def icgmpType (a : Addtion) : Byte := byteOf 1 a

/-- `icgmp.code`, the third byte. -/
def icgmpCode (a : Addtion) : Byte := byteOf 2 a

/-- `tcp.valid = 1`: the third byte becomes `1`. -/
def setTcpValid (a : Addtion) : Addtion := (a &&& 0xFF00FFFF#32) ||| 0x00010000#32

def setTcpFin (a : Addtion) : Addtion := a ||| 0x100#32

def setTcpSyn (a : Addtion) : Addtion := a ||| 0x200#32

def setTcpRst (a : Addtion) : Addtion := a ||| 0x400#32

def setTcpAck (a : Addtion) : Addtion := a ||| 0x1000#32

end Addtion

/-- `struct sipfw_cmd_opts`. -/
structure SipfwCmdOpts where
  command : SipfwVariant
  source : SipfwVariant
  dest : SipfwVariant
  sport : SipfwVariant
  dport : SipfwVariant
  protocol : SipfwVariant
  chain : SipfwVariant
  ifname : SipfwVariant
  action : SipfwVariant
  addtion : Addtion
  number : SipfwVariant
  deriving DecidableEq, Repr

/-! ## Rules and tables -/

/-- `struct sipfw_rules` as the kernel links it. -/
structure SipfwRules where
  cell : Nat
  chain : BitVec 32
  source : BitVec 32
  dest : BitVec 32
  sport : BitVec 16
  dport : BitVec 16
  protocol : BitVec 8
  action : BitVec 32
  addtion : Addtion
  deriving DecidableEq, Repr

/-- `struct sipfw_list`: a chain and its hand-kept counter. -/
structure SipfwList where
  rule : List SipfwRules
  number : Int
  deriving DecidableEq, Repr

/-- `sipfw_tables[SIPFW_CHAIN_NUM]`. -/
abbrev SipfwTables := Chain → SipfwList

/-- The tables as the module is loaded: zero-initialised. -/
def SipfwTables.empty : SipfwTables := fun _ => ⟨[], 0⟩

/-- Replace one of the three lists. -/
def SipfwTables.set (t : SipfwTables) (c : Chain) (l : SipfwList) : SipfwTables :=
  Function.update t c l

@[simp] theorem SipfwTables.set_same (t : SipfwTables) (c : Chain) (l : SipfwList) :
    t.set c l c = l := by
  simp [SipfwTables.set]

theorem SipfwTables.set_other (t : SipfwTables) {c c' : Chain} (h : c' ≠ c)
    (l : SipfwList) : t.set c l c' = t c' := by
  simp [SipfwTables.set, h]

/-- The kernel's `int` counters wrap at 32 bits. -/
def intWrap (n : Int) : Int := n.bmod 4294967296

theorem intWrap_of_lt {n : Int} (h0 : 0 ≤ n) (h1 : n < 2147483648) : intWrap n = n := by
  unfold intWrap
  exact Int.bmod_eq_of_le (by omega) (by omega)

/-- `struct sipfw_conf`, less the path of the rules file, which nothing opens. -/
structure SipfwConf where
  defaultAction : BitVec 32
  logFilePath : CStr
  hitNumber : BitVec 32
  invalid : BitVec 32
  logPause : BitVec 32
  deriving DecidableEq, Repr

/-- `cf` as the module is loaded. -/
def SipfwConf.initial : SipfwConf := ⟨1, "/etc/sipfw.log".toList, 0, 0, 0⟩

end LinuxNet.Sipfw
