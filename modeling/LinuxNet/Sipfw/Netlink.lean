import LinuxNet.Sipfw.Steps
import LinuxNet.Sipfw.Tool

/-!
# Messages as bytes: `SIPFW_NLInput`

What the kernel takes from the socket is a buffer: memory from `skb->data` on,
of which `skb->len` bytes belong to the message. `nlInput` is the loop of
`SIPFW_NLInput` over the receive queue; `nlDoAction` is `SIPFW_NLDoAction`
down to the bytes of `struct sipfw_cmd_opts` it reads. Buffers taken from the
queue and bytes read both go to the trace.

The layout of the structure follows from its members: a `union sipfw_variant`
has the size of its largest one, `struct vec`, three words, and
`union addtion` four bytes, padded to a word. Two tests of lengths stand
between the queue and `nlDoAction`; the type of a message is never looked at. On the
side of the tool there is room for 128 bytes behind the header, and the structure has
124 where a word has four bytes, 248 where it has eight (`nlSend`).
-/

namespace LinuxNet.Sipfw

/-! ## Messages -/

/-- A buffer of the receive queue: memory from `skb->data`, and `skb->len`. -/
structure NlSkb where
  data : Mem
  len : Nat

namespace NlSkb

/-- `sizeof(struct nlmsghdr)`, which is also where `NLMSG_DATA` starts. -/
def hdrLen : Nat := 16

/-- `nlh->nlmsg_len`. -/
def nlmsgLen (skb : NlSkb) : Nat := (skb.data.u32 0).toNat

/-- `nlh->nlmsg_type`. -/
def nlmsgType (skb : NlSkb) : BitVec 16 := skb.data.u16 4

end NlSkb

/-- A message with the cell `kmalloc` returns when it is handled. -/
structure Queued where
  skb : NlSkb
  mem : SipfwRules

/-- What `SIPFW_NLInput` does to the queue. -/
inductive NlEv where
  /-- `skb_dequeue` has returned the buffer. -/
  | taken (skb : NlSkb)
  /-- The byte at this offset of the buffer is read. -/
  | read (skb : NlSkb) (o : Nat)

/-- Read a 32-bit word of a message. -/
abbrev readMsg32 (skb : NlSkb) (o : Nat) : Traced NlEv (BitVec 32) :=
  (rd32 skb.data o).mapLog (.read skb)

/-! ## `struct sipfw_cmd_opts` in a message -/

/-- The members `SIPFW_NLDoAction` reads. -/
inductive OptField where
  | command
  | source
  | sport
  | dport
  | protocol
  | chain
  | action
  | addtion
  | number
  deriving DecidableEq, Repr

/-- The words in front of a member. -/
def OptField.words : OptField → Nat
  | .command => 0
  | .source => 3
  | .sport => 9
  | .dport => 12
  | .protocol => 15
  | .chain => 18
  | .action => 24
  | .addtion => 27
  | .number => 28

/-- Where a member starts in the message. -/
def OptField.offset (abi : Abi) (f : OptField) : Nat := NlSkb.hdrLen + f.words * abi.word

/-- `sizeof(struct sipfw_cmd_opts)`. -/
def cmdOptsSize (abi : Abi) : Nat := 31 * abi.word

/-- Read a member. -/
abbrev readOpt (abi : Abi) (skb : NlSkb) (f : OptField) : Traced NlEv (BitVec 32) :=
  readMsg32 skb (f.offset abi)

/-- The options a message carries, as far as the kernel reads them: `dest` and
`ifname` are not among them. -/
def nlOpts (abi : Abi) (skb : NlSkb) : Traced NlEv SipfwCmdOpts := do
  let command ← readOpt abi skb .command
  let chain ← readOpt abi skb .chain
  let _ ← readOpt abi skb .source
  let source ← readOpt abi skb .source
  let sport ← readOpt abi skb .sport
  let dport ← readOpt abi skb .dport
  let protocol ← readOpt abi skb .protocol
  let action ← readOpt abi skb .action
  let addtion ← readOpt abi skb .addtion
  let number ← readOpt abi skb .number
  return { command := .ofUint command, source := .ofUint source, dest := .ofUint 0#32
           sport := .ofUint sport, dport := .ofUint dport, protocol := .ofUint protocol
           chain := .ofUint chain, ifname := .ofUint 0#32, action := .ofUint action
           addtion := addtion, number := .ofUint number }

/-- The pid the answers go to; a command that is not answered does not read it. -/
def nlTo (skb : NlSkb) (o : SipfwCmdOpts) : Traced NlEv (BitVec 32) :=
  match Cmd.ofInt o.command.vUint with
  | some _ => readMsg32 skb 12
  | none => return 0#32

/-- `SIPFW_NLDoAction`. -/
def nlDoAction (abi : Abi) (t : SipfwTables) (q : Queued) : Traced NlEv (Except Fault Outcome) := do
  let o ← nlOpts abi q.skb
  let pid ← nlTo q.skb o
  return doAction q.mem pid o t

/-- The body of the inner loop of `SIPFW_NLInput`, for one buffer. -/
def nlMessage (abi : Abi) (t : SipfwTables) (q : Queued) :
    Traced NlEv (Except Fault SipfwTables) :=
  if NlSkb.hdrLen ≤ q.skb.len then do
    let nlmsgLen ← readMsg32 q.skb 0
    if NlSkb.hdrLen ≤ nlmsgLen.toNat ∧ nlmsgLen.toNat ≤ q.skb.len then do
      let out ← nlDoAction abi t q
      return out.map (·.tables)
    else return .ok t
  else return .ok t

/-- `SIPFW_NLInput`: dequeue and handle, until the queue is empty. -/
def nlInput (abi : Abi) : SipfwTables → List Queued → Traced NlEv (Except Fault SipfwTables)
  | t, [] => return .ok t
  | t, q :: queue => do
    Traced.emit (.taken q.skb)
    let r ← nlMessage abi t q
    match r with
    | .error f => return .error f
    | .ok t' => nlInput abi t' queue

/-! ## What the tool sends -/

/-- The members in the order of the structure. -/
def OptField.all : List OptField :=
  [.command, .source, .sport, .dport, .protocol, .chain, .action, .addtion, .number]

/-- The word a member holds. -/
def OptField.get : OptField → SipfwCmdOpts → BitVec 32
  | .command, o => o.command.vUint
  | .source, o => o.source.vUint
  | .sport, o => o.sport.vUint
  | .dport, o => o.dport.vUint
  | .protocol, o => o.protocol.vUint
  | .chain, o => o.chain.vUint
  | .action, o => o.action.vUint
  | .addtion, o => o.addtion
  | .number, o => o.number.vUint

/-- The header of a message: `nlmsg_len`, `nlmsg_type`, `nlmsg_pid`; the rest is zero. -/
def nlmsghdr (nlmsgLen : BitVec 32) (type : BitVec 16) (pid : BitVec 32) : Mem :=
  ((Mem.zero.write 0 (bytesOf32 nlmsgLen)).write 4 (bytesOf16 type)).write 12 (bytesOf32 pid)

/-- `struct packet_u` as it is sent: the header, and behind it the structure as it lies in memory.
The members the kernel does not read are zero here. -/
def packetU (abi : Abi) (o : SipfwCmdOpts) (pid : BitVec 32) (type : BitVec 16) : NlSkb where
  data := (nlmsghdr (BitVec.ofNat 32 (NlSkb.hdrLen + cmdOptsSize abi)) type pid).writeWords
    (OptField.offset abi) (fun f => f.get o) OptField.all
  len := NlSkb.hdrLen + cmdOptsSize abi

/-- `sizeof(union response)`, the room behind the header in `message`. -/
def responseSize : Nat := 128

/-- `SIPFW_NLSend`: the structure is copied behind the header, room or no room. -/
def nlSend (abi : Abi) (o : SipfwCmdOpts) (pid : BitVec 32) (type : BitVec 16) :
    Except Fault NlSkb :=
  if cmdOptsSize abi ≤ responseSize then .ok (packetU abi o pid type) else .error .outOfBounds

theorem OptField.mem_all (f : OptField) : f ∈ OptField.all := by
  cases f <;> decide

/-- The members lie one behind the other, behind the header. -/
theorem OptField.offset_pairwise (abi : Abi) :
    OptField.all.Pairwise fun f g => f.offset abi + 4 ≤ g.offset abi := by
  cases abi <;> decide

theorem OptField.header_le_offset (abi : Abi) : ∀ f ∈ OptField.all, 12 + 4 ≤ f.offset abi := by
  cases abi <;> decide

/-- The kernel reads the words the tool wrote. -/
theorem readOpt_packetU (abi : Abi) (o : SipfwCmdOpts) (pid : BitVec 32) (type : BitVec 16)
    (f : OptField) : (readOpt abi (packetU abi o pid type) f).val = f.get o :=
  @Mem.u32_writeWords OptField (OptField.offset abi) (fun f => f.get o) OptField.all
    (OptField.offset_pairwise abi) _ f f.mem_all

/-- The message has the length its header says. -/
theorem packetU_nlmsgLen (abi : Abi) (o : SipfwCmdOpts) (pid : BitVec 32) (type : BitVec 16) :
    (packetU abi o pid type).nlmsgLen = NlSkb.hdrLen + cmdOptsSize abi := by
  have hapart : ∀ f ∈ OptField.all, 0 + 4 ≤ f.offset abi := by
    intro f hf
    have := OptField.header_le_offset abi f hf
    omega
  have hlen : (packetU abi o pid type).data.u32 0 =
      BitVec.ofNat 32 (NlSkb.hdrLen + cmdOptsSize abi) := by
    rw [packetU, Mem.u32_writeWords_apart hapart, nlmsghdr, Mem.u32_write_apart (.inl (by decide)),
      Mem.u32_write_apart (.inl (by decide)), Mem.u32_write_self]
  rw [NlSkb.nlmsgLen, hlen]
  cases abi <;> rfl

/-! ## A message as a command -/

/-- The message passes both tests of lengths. -/
def Dispatched (skb : NlSkb) : Prop :=
  NlSkb.hdrLen ≤ skb.len ∧ NlSkb.hdrLen ≤ skb.nlmsgLen ∧ skb.nlmsgLen ≤ skb.len

/-- The command a message is taken for. -/
def Queued.request (abi : Abi) (q : Queued) : Request :=
  let o := (nlOpts abi q.skb).val
  ⟨q.mem, (nlTo q.skb o).val, o⟩

/-- The tables after one message. -/
def stepMsg (abi : Abi) (t : SipfwTables) (q : Queued) : Except Fault SipfwTables :=
  (nlMessage abi t q).val

/-- A message that passes the tests is handled as a command, whatever it is. -/
theorem stepMsg_dispatched {q : Queued} (h : Dispatched q.skb) (abi : Abi) (t : SipfwTables) :
    stepMsg abi t q = step t (q.request abi) := by
  unfold stepMsg nlMessage
  have h2 : NlSkb.hdrLen ≤ (readMsg32 q.skb 0).val.toNat ∧
      (readMsg32 q.skb 0).val.toNat ≤ q.skb.len := h.2
  rw [if_pos h.1, Traced.val_bind, if_pos h2]
  rfl

/-- What the tool sends passes the tests. -/
theorem dispatched_packetU (abi : Abi) (o : SipfwCmdOpts) (pid : BitVec 32) (type : BitVec 16) :
    Dispatched (packetU abi o pid type) := by
  unfold Dispatched
  rw [packetU_nlmsgLen]
  exact ⟨Nat.le_add_right .., Nat.le_add_right .., Nat.le_refl _⟩

/-- Every other message is dropped. -/
theorem stepMsg_dropped {q : Queued} (h : ¬ Dispatched q.skb) (abi : Abi) (t : SipfwTables) :
    stepMsg abi t q = .ok t := by
  unfold stepMsg nlMessage
  by_cases h1 : NlSkb.hdrLen ≤ q.skb.len
  · have h2 : ¬ (NlSkb.hdrLen ≤ (readMsg32 q.skb 0).val.toNat ∧
        (readMsg32 q.skb 0).val.toNat ≤ q.skb.len) := fun h2 => h ⟨h1, h2⟩
    rw [if_pos h1, Traced.val_bind, if_neg h2]
    rfl
  · rw [if_neg h1]
    rfl

end LinuxNet.Sipfw
