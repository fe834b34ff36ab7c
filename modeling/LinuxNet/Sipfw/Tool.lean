import LinuxNet.Lib.Getopt
import LinuxNet.Sipfw.Types

/-!
# The user-space tool: from the command line to `sipfw_cmd_opts`

`app/sipfw_u.c` turns its arguments into a `struct sipfw_cmd_opts`
(`parseCommand`, over the events `getopt_long` delivers), decides whether the
command makes sense (`judgeCommand`), and sends the structure to the kernel as
it is. `toolMain` is that pipeline.

Two habits of the source matter below and are kept: an option argument that
starts with `:` is skipped as if it had not been given, and `judgeCommand`
reaches `SIPFW_CMD_INSERT` by falling through into the `SIPFW_CMD_LIST` case.
-/

namespace LinuxNet.Sipfw

/-- The C environment of the tool: the width of `unsigned long`. -/
inductive Abi where
  | ilp32
  | lp64
  deriving DecidableEq, Repr

/-- `sizeof(void *)`, which is also `sizeof(unsigned long)`. -/
def Abi.word : Abi → Nat
  | .ilp32 => 4
  | .lp64 => 8

def Abi.ulongMax : Abi → Nat
  | .ilp32 => 4294967295
  | .lp64 => 18446744073709551615

/-! ## `SIPFW_ParseOpt` -/

/-- `SIPFW_OPT_*`. -/
inductive SipfwOpt where
  | chain
  | ip
  | port
  | protocol
  | str
  | action
  deriving DecidableEq, Repr

/-- The index of the first of the first `num` table entries whose name `str`
begins with, as the source's search loops find it. -/
def findName (table : List Vec) (num : Nat) (str : CStr) : Option Nat :=
  (table.take num).findIdx? fun v => strncmp0 str (v.ptr.getD []) v.len

/-- The value of the first protocol whose name `str` begins with. -/
def findProtocol (str : CStr) : Option (BitVec 32) :=
  ((sipfwProtocolName.takeWhile (·.ptr.isSome)).find? fun v =>
    strncmp0 (v.ptr.getD []) str v.len).map (·.value)

/-- The number a port or position argument is stored as: sixteen bits of it,
with the bytes exchanged. -/
def parsePort (abi : Abi) (str : CStr) : BitVec 32 :=
  (htons (BitVec.ofNat 16 (strtoul abi.ulongMax str))).setWidth 32

/-- `SIPFW_ParseOpt`. -/
def parseOpt (abi : Abi) (opt : SipfwOpt) (str : CStr) (var : SipfwVariant) :
    SipfwVariant :=
  match opt with
  | .chain => { var with vUint := BitVec.ofNat 32 ((findName sipfwChainName 3 str).getD 3) }
  | .action => { var with vUint := BitVec.ofNat 32 ((findName sipfwActionName 2 str).getD 0) }
  | .ip => { var with vUint := inetAddr str }
  | .port => { var with vUint := parsePort abi str }
  | .protocol => { var with vUint := (findProtocol str).getD 0 }
  | .str => { var with vStr := if str.length < 8 then str else [] }

/-! ## `SIPFW_ParseCommand` -/

/-- `opts_short`, `"s:d:m:n:p:LFA:I:D:i:j:yrkfu:"`. -/
def optsShort : List (Char × HasArg) :=
  [('s', .required), ('d', .required), ('m', .required), ('n', .required),
   ('p', .required), ('L', .no), ('F', .no), ('A', .required), ('I', .required),
   ('D', .required), ('i', .required), ('j', .required), ('y', .no), ('r', .no),
   ('k', .no), ('f', .no), ('u', .required)]

/-- `longopts`. -/
def longopts : List LongOption :=
  [⟨"source".toList, .required, 's'⟩, ⟨"dest".toList, .required, 'd'⟩,
   ⟨"sport".toList, .required, 'm'⟩, ⟨"dport".toList, .required, 'n'⟩,
   ⟨"protocol".toList, .required, 'p'⟩, ⟨"list".toList, .optional, 'L'⟩,
   ⟨"flush".toList, .optional, 'F'⟩, ⟨"append".toList, .required, 'A'⟩,
   ⟨"insert".toList, .required, 'I'⟩, ⟨"delete".toList, .required, 'D'⟩,
   ⟨"interface".toList, .required, 'i'⟩, ⟨"action".toList, .required, 'j'⟩,
   ⟨"syn".toList, .no, 'y'⟩, ⟨"rst".toList, .no, 'r'⟩,
   ⟨"acksyn".toList, .no, 'k'⟩, ⟨"fin".toList, .no, 'f'⟩,
   ⟨"number".toList, .required, 'u'⟩]

/-- `if (l_opt_arg && l_opt_arg[0] != ':') SIPFW_ParseOpt(opt, optarg, var)`. -/
def parseArg (abi : Abi) (opt : SipfwOpt) (optarg : Option CStr) (var : SipfwVariant) :
    SipfwVariant :=
  match optarg with
  | some str => if str.head? = some ':' then var else parseOpt abi opt str var
  | none => var

/-- The cases `L`, `F`, `A`, `I`, `D`: set the command, then the chain. -/
def parseCmdCase (abi : Abi) (cmd : Cmd) (optarg : Option CStr) (o : SipfwCmdOpts) :
    SipfwCmdOpts :=
  { o with command := .ofUint cmd.code, chain := parseArg abi .chain optarg o.chain }

/-- The option characters `SIPFW_ParseCommand` has a `case` for. -/
inductive OptChar where
  | s | d | m | n | p | L | F | A | I | D | i | j | y | r | k | f | u
  deriving DecidableEq, Repr

/-- The `case` a character selects; `none` is `default`. -/
def OptChar.ofChar (c : Char) : Option OptChar :=
  [('s', .s), ('d', .d), ('m', .m), ('n', .n), ('p', .p), ('L', .L), ('F', .F), ('A', .A),
   ('I', .I), ('D', .D), ('i', .i), ('j', .j), ('y', .y), ('r', .r), ('k', .k), ('f', .f),
   ('u', .u)].lookup c

/-- The body of the `switch` in `SIPFW_ParseCommand`. -/
def parseCase (abi : Abi) (o : SipfwCmdOpts) (ev : OptEvent) : SipfwCmdOpts :=
  match OptChar.ofChar ev.c with
  | some .s => { o with source := parseArg abi .ip ev.optarg o.source }
  | some .d => { o with dest := parseArg abi .ip ev.optarg o.dest }
  | some .m => { o with sport := parseArg abi .port ev.optarg o.sport }
  | some .n => { o with dport := parseArg abi .port ev.optarg o.dport }
  | some .p => { o with protocol := parseArg abi .protocol ev.optarg o.protocol }
  | some .L => parseCmdCase abi .list ev.optarg o
  | some .F => parseCmdCase abi .flush ev.optarg o
  | some .A => parseCmdCase abi .append ev.optarg o
  | some .I => parseCmdCase abi .insert ev.optarg o
  | some .D => parseCmdCase abi .delete ev.optarg o
  | some .i => { o with ifname := parseArg abi .str ev.optarg o.ifname }
  | some .j => { o with action := parseArg abi .action ev.optarg o.action }
  | some .y => { o with addtion := o.addtion.setTcpValid.setTcpSyn }
  | some .r => { o with addtion := o.addtion.setTcpValid.setTcpRst }
  | some .k => { o with addtion := o.addtion.setTcpValid.setTcpAck.setTcpSyn }
  | some .f => { o with addtion := o.addtion.setTcpValid.setTcpFin }
  | some .u => { o with number := parseArg abi .port ev.optarg o.number }
  | none => o

/-- The defaults `SIPFW_ParseCommand` stores first; `addtion` and `number` keep
what `main` gave them. -/
def parseDefaults (o : SipfwCmdOpts) : SipfwCmdOpts :=
  { o with
    command := .ofUint (-1#32), source := .ofUint 0#32, sport := .ofUint 0#32, dest := .ofUint 0#32
    dport := .ofUint 0#32, protocol := .ofUint (-1#32), chain := .ofUint (-1#32)
    action := .ofUint (-1#32), ifname := ⟨[], o.ifname.vUint⟩ }

/-- The events `getopt_long` delivers to `SIPFW_ParseCommand`. -/
def optEvents (argv : List CStr) : List OptEvent := getoptLong optsShort longopts none argv

/-- `SIPFW_ParseCommand`. -/
def parseCommand (abi : Abi) (argv : List CStr) (o : SipfwCmdOpts) : SipfwCmdOpts :=
  (optEvents argv).foldl (parseCase abi) (parseDefaults o)

/-! ## `SIPFW_JudgeCommand` and `main` -/

/-- The `SIPFW_CMD_LIST` case, into which `SIPFW_CMD_INSERT` falls through, and
whose text `SIPFW_CMD_FLUSH` repeats. -/
def judgeList (o : SipfwCmdOpts) : Int × SipfwCmdOpts :=
  let o := if o.chain.vInt = -1 then { o with chain := .ofUint chainAll } else o
  if o.chain.vInt > chainNum.toInt ∨ o.chain.vInt < 0 then (-1, o) else (0, o)

/-- `SIPFW_JudgeCommand`: the return value, and the options it may change. -/
def judgeCommand (o : SipfwCmdOpts) : Int × SipfwCmdOpts :=
  match Cmd.ofInt o.command.vUint with
  | some .append =>
    if o.chain.vInt > chainNum.toInt ∨ o.chain.vInt < 0 ∨ o.action.vInt = -1 then (-1, o)
    else (0, o)
  | some .delete =>
    if o.chain.vInt > chainNum.toInt ∨ o.chain.vInt < 0 then (-1, o) else (0, o)
  | some .flush => judgeList o
  | some .insert =>
    -- the bad case leaves the switch with retval still 0; the good one has no
    -- break and goes on with the code of SIPFW_CMD_LIST
    if o.chain.vInt ≥ chainNum.toInt ∨ o.chain.vInt < 0 ∨ o.number.vInt = -1 then (0, o)
    else judgeList o
  | some .list => judgeList o
  | some .replace =>
    if o.chain.vInt ≥ chainNum.toInt ∨ o.chain.vInt < 0 ∨ o.number.vInt = -1 then (-1, o)
    else (0, o)
  | none => (-1, o)

/-- The options as `main` initialises them; `ifname` is whatever the stack held. -/
def mainOpts (ifname : SipfwVariant) : SipfwCmdOpts :=
  { command := .ofUint (-1#32), source := .ofUint 0#32, dest := .ofUint 0#32
    sport := .ofUint (-1#32), dport := .ofUint (-1#32), protocol := .ofUint (-1#32)
    chain := .ofUint (-1#32), ifname := ifname, action := .ofUint (-1#32), addtion := 0#32
    number := .ofUint (-1#32) }

/-- `main` up to `SIPFW_NLSend`: the verdict on the command and what is sent. -/
def toolMain (abi : Abi) (argv : List CStr) (ifname : SipfwVariant) : Int × SipfwCmdOpts :=
  judgeCommand (parseCommand abi argv (mainOpts ifname))

example :
    (toolMain .lp64 ["-A".toList, "INPUT".toList, "-j".toList, "DROP".toList] ⟨[], 0⟩).1
      = 0 := by decide

end LinuxNet.Sipfw
