import LinuxNet.Lib.Memory
import LinuxNet.Sip.Socket

/-!
# `recvfrom`

The loop of `recvfrom` in `sip_api.c`, on the descriptor of an open socket and on what it
reads of the `struct sock` behind it (`ReadSock`). A buffer is whatever the lwIP helpers
make of it: `Netbufs` has what they give, and `Netbufs.Assumed` says that `netbuf_len` is the
number of bytes and `netbuf_copy_partial` copies the range asked for.

What is still to be read is a list of *pieces*: the rest of `lastdata`, then the queue.
A turn takes from the first piece (`recvTurn_read`), and a call takes pieces until it has the
bytes asked for, or has read one with the push flag. If it comes to the end of the queue
before that, it returns 0, and what it has read by then is lost: `Enough` is when that does
not happen. `InReach` is when the 16 bits of `off` hold the bytes read. `Reading` holds before
each turn then, and a call hands out what it takes (`recvLoop_read`).

A call that peeks takes at most one buffer off the queue, and a call in the state behind it
takes what it would have taken in the state before, unless it is not to wait and finds
`rcvevent` at 0 (`recvfrom_ahead`).

Left out: `get_socket` (in `Sip.Socket`) and the address of the peer, which `recvfrom` asks
lwIP for when all is read.
-/

namespace LinuxNet.Sip

/-- `MSG_PEEK`. -/
def msgPeek : BitVec 32 := 0x2#32

/-- `MSG_DONTWAIT`. -/
def msgDontwait : BitVec 32 := 0x40#32

/-- `O_NONBLOCK`. -/
def oNonblock : BitVec 16 := 0x800#16

/-- Buffers, and the helpers of lwIP for them: the bytes in a buffer, `PBUF_FLAG_PUSH`,
`netbuf_len` and `netbuf_copy_partial`, which is given a length and an offset. -/
structure Netbufs (β : Type) where
  bytes : β → List Byte
  push : β → Bool
  netbufLen : β → BitVec 16
  netbufCopyPartial : β → BitVec 16 → BitVec 16 → List Byte

/-- What lwIP says of its helpers. -/
structure Netbufs.Assumed {β : Type} (N : Netbufs β) : Prop where
  len : ∀ b, (N.netbufLen b).toNat = (N.bytes b).length
  copy : ∀ b n o, o.toNat + n.toNat ≤ (N.bytes b).length →
    N.netbufCopyPartial b n o = ((N.bytes b).drop o.toNat).take n.toNat

/-- `struct lwip_socket` as `recvfrom` sees it, with `type` and `skb_recv` of its `conn`. -/
structure ReadSock (β : Type) where
  type : NetconnType
  skbRecv : List β
  lastdata : Option β
  lastoffset : BitVec 16
  rcvevent : BitVec 16
  flags : BitVec 16

/-- The arguments of a call: the memory to read into, `len` and `flags`. -/
structure RecvCall where
  mem : Mem
  len : Int
  flags : BitVec 32

/-- The variables of the loop. -/
structure RecvVars where
  mem : Mem
  len : Int
  off : BitVec 16

/-- The call is to leave what it reads. -/
def Peeks (flags : BitVec 32) : Prop := flags &&& msgPeek ≠ 0#32

instance (flags : BitVec 32) : Decidable (Peeks flags) := inferInstanceAs (Decidable (_ ≠ _))

variable {β : Type}

/-- The call is not to wait, and nothing has been reported to have come. -/
def ReadSock.Unready (s : ReadSock β) (flags : BitVec 32) : Prop :=
  (flags &&& msgDontwait ≠ 0#32 ∨ s.flags &&& oNonblock ≠ 0#16) ∧ s.rcvevent = 0#16

instance (s : ReadSock β) (flags : BitVec 32) : Decidable (s.Unready flags) :=
  inferInstanceAs (Decidable ((_ ∨ _) ∧ _))

/-- The buffer of a turn: `lastdata`, or what `netconn_recv` gives; or what the call returns
with. -/
def nextBuf (s : ReadSock β) (flags : BitVec 32) : Except Int (ReadSock β × β) :=
  match s.lastdata with
  | some buf => .ok (s, buf)
  | none =>
    if s.Unready flags then .error (-1)
    else
      match s.skbRecv with
      | [] => .error 0
      | buf :: rest => .ok ({ s with lastdata := some buf, skbRecv := rest }, buf)

/-- The rest of a turn: whether it is the last, the socket and the variables behind it. -/
def recvTurn (N : Netbufs β) (flags : BitVec 32) (s : ReadSock β) (buf : β) (v : RecvVars) :
    Bool × ReadSock β × RecvVars :=
  let buflen := N.netbufLen buf - s.lastoffset
  let copylen := if v.len > buflen.toNat then buflen else BitVec.ofInt 16 v.len
  let mem := v.mem.write v.off.toNat (N.netbufCopyPartial buf copylen s.lastoffset)
  let off := v.off + copylen
  let len := if s.type = .tcp then v.len - copylen.toNat else v.len
  let done := if s.type = .tcp then decide (len ≤ 0) || N.push buf || s.rcvevent == 0#16 else true
  if Peeks flags then (true, s, ⟨mem, len, off⟩)
  else if s.type = .tcp ∧ copylen.toNat < buflen.toNat then
    (done, { s with lastdata := some buf, lastoffset := s.lastoffset + copylen }, ⟨mem, len, off⟩)
  else (done, { s with lastdata := none, lastoffset := 0#16 }, ⟨mem, len, off⟩)

/-- The turns of the loop, at most so many: the socket, the value returned and the memory. -/
def recvLoop (N : Netbufs β) (flags : BitVec 32) :
    Nat → ReadSock β → RecvVars → Except Fault (ReadSock β × Int × Mem)
  | 0, _, _ => .error .diverges
  | turns + 1, s, v =>
    match nextBuf s flags with
    | .error ret => .ok (s, ret, v.mem)
    | .ok (s1, buf) =>
      match recvTurn N flags s1 buf v with
      | (true, s2, v2) => .ok (s2, v2.off.toNat, v2.mem)
      | (false, s2, v2) => recvLoop N flags turns s2 v2

/-- `recvfrom`. Each turn but the last takes a buffer, so these turns are enough
(`recvfrom_returns`). -/
def recvfrom (N : Netbufs β) (s : ReadSock β) (c : RecvCall) :
    Except Fault (ReadSock β × Int × Mem) :=
  recvLoop N c.flags (s.skbRecv.length + 2) s ⟨c.mem, c.len, 0#16⟩

/-! ## What is still to be read -/

/-- Bytes that stand together in a buffer, and whether the buffer has the push flag. -/
abbrev Piece := List Byte × Bool

/-- The number of bytes of the pieces. -/
def total (ps : List Piece) : Nat := (ps.flatMap Prod.fst).length

/-- The number of bytes up to the end of the first piece with the push flag. -/
def reach : List Piece → Nat
  | [] => 0
  | (bs, push) :: ps => bs.length + if push then 0 else reach ps

/-- With `g` bytes read, reading `n` more does not come to the end of the pieces, unless
there is nothing at all. -/
def Enough (ps : List Piece) (n g : Nat) : Prop :=
  (∃ p ∈ ps, p.2 = true) ∨ n ≤ total ps ∨ total ps = 0 ∧ g = 0

/-- With `g` bytes read, reading `n` more stays within 16 bits. -/
def InReach (ps : List Piece) (n g : Nat) : Prop := g + n < 65536 ∨ g + reach ps < 65536

/-- The first bytes of a memory. -/
def received (mem : Mem) (n : Nat) : List Byte := (List.range n).map mem

/-- The buffer was the first of the queue of `s`, and is `lastdata` now. -/
def ReadSock.Took (s1 s : ReadSock β) : Prop :=
  s.lastdata = none ∧ ∃ buf rest, s.skbRecv = buf :: rest ∧
    s1 = { s with lastdata := some buf, skbRecv := rest }

namespace ReadSock

/-- The rest of `lastdata`, then the queue. -/
def pieces (N : Netbufs β) (s : ReadSock β) : List Piece :=
  (s.lastdata.toList.map fun b => ((N.bytes b).drop s.lastoffset.toNat, N.push b)) ++
    s.skbRecv.map fun b => (N.bytes b, N.push b)

/-- The bytes still to be read. -/
def unread (N : Netbufs β) (s : ReadSock β) : List Byte := (s.pieces N).flatMap Prod.fst

/-- The socket is a stream, and `lastoffset` a place in `lastdata`. -/
structure Sound (N : Netbufs β) (s : ReadSock β) : Prop where
  tcp : s.type = .tcp
  fresh : s.lastdata = none → s.lastoffset = 0#16
  within : ∀ b, s.lastdata = some b → s.lastoffset.toNat ≤ (N.bytes b).length

end ReadSock

section Pieces

variable {ps : List Piece} {bs : List Byte} {n g : Nat}

theorem total_cons (p : Piece) : total (p :: ps) = p.1.length + total ps := by
  rw [total, List.flatMap_cons, List.length_append, total]

/-- A piece without the push flag is read as a whole. -/
theorem Enough.tail (h : Enough ((bs, false) :: ps) n g) (hn : bs.length < n) :
    Enough ps (n - bs.length) (g + bs.length) := by
  rcases h with ⟨p, hp, hpush⟩ | h
  · rcases List.mem_cons.mp hp with rfl | hp
    · cases hpush
    · exact Or.inl ⟨p, hp, hpush⟩
  · rw [total_cons] at h
    dsimp only at h
    refine Or.inr ?_
    omega

theorem InReach.tail (h : InReach ((bs, false) :: ps) n g) (hn : bs.length < n) :
    InReach ps (n - bs.length) (g + bs.length) := by
  rw [InReach, reach, if_neg Bool.false_ne_true] at h
  rw [InReach]
  omega

/-- What is written behind the first bytes is read behind them. -/
theorem received_write (mem : Mem) (n : Nat) (bs : List Byte) :
    received (mem.write n bs) (n + bs.length) = received mem n ++ bs := by
  rw [received, List.range_add, List.map_append, List.map_map, received]
  congr 1
  · refine List.map_congr_left fun i hi => ?_
    exact Mem.write_apart (Or.inl (List.mem_range.mp hi))
  · refine List.ext_getElem (by simp) fun k _ hk => ?_
    simp only [List.getElem_map, List.getElem_range, Function.comp_apply]
    exact Mem.write_get k hk

end Pieces

namespace ReadSock

variable {N : Netbufs β} {s s1 : ReadSock β}

theorem pieces_some {b : β} (h : s.lastdata = some b) :
    s.pieces N = ((N.bytes b).drop s.lastoffset.toNat, N.push b) ::
      s.skbRecv.map fun b => (N.bytes b, N.push b) := by
  rw [ReadSock.pieces, h]
  rfl

theorem pieces_none (h : s.lastdata = none) :
    s.pieces N = s.skbRecv.map fun b => (N.bytes b, N.push b) := by
  rw [ReadSock.pieces, h]
  rfl

theorem length_pieces (N : Netbufs β) (s : ReadSock β) :
    (s.pieces N).length = s.lastdata.toList.length + s.skbRecv.length := by
  rw [ReadSock.pieces, List.length_append, List.length_map, List.length_map]

theorem Took.pieces (h : s1.Took s) (hs : s.Sound N) : s1.pieces N = s.pieces N := by
  obtain ⟨hlast, buf, rest, hq, rfl⟩ := h
  rw [ReadSock.pieces, ReadSock.pieces, hlast, hq, hs.fresh hlast]
  rfl

theorem Took.sound (h : s1.Took s) (hs : s.Sound N) : s1.Sound N := by
  obtain ⟨hlast, buf, rest, hq, rfl⟩ := h
  have h0 : s.lastoffset.toNat = 0 := congrArg BitVec.toNat (hs.fresh hlast)
  exact ⟨hs.tcp, fun _ => hs.fresh hlast, fun _ _ => h0.trans_le (Nat.zero_le _)⟩

/-- The socket a turn works on has the same to be read. -/
theorem sound_of_takes (hs : s.Sound N) (h : s1 = s ∨ s1.Took s) :
    s1.Sound N ∧ s1.pieces N = s.pieces N ∧ s1.rcvevent = s.rcvevent := by
  rcases h with rfl | h
  · exact ⟨hs, rfl, rfl⟩
  · refine ⟨h.sound hs, h.pieces hs, ?_⟩
    obtain ⟨-, _, _, -, rfl⟩ := h
    rfl

end ReadSock

section Turn

variable {N : Netbufs β} {s s1 : ReadSock β} {flags : BitVec 32} {buf : β}

/-- What a turn begins with. -/
theorem nextBuf_cases (s : ReadSock β) (flags : BitVec 32) :
    s.lastdata = none ∧ s.Unready flags ∧ nextBuf s flags = .error (-1) ∨
      s.lastdata = none ∧ s.skbRecv = [] ∧ nextBuf s flags = .error 0 ∨
        ∃ s1 buf, nextBuf s flags = .ok (s1, buf) ∧ s1.lastdata = some buf ∧
          (s1 = s ∨ s1.Took s) := by
  rw [nextBuf]
  cases hlast : s.lastdata with
  | some b => exact Or.inr (Or.inr ⟨s, b, rfl, hlast, Or.inl rfl⟩)
  | none =>
    by_cases hu : s.Unready flags
    · exact Or.inl ⟨rfl, hu, if_pos hu⟩
    · dsimp only
      rw [if_neg hu]
      cases hq : s.skbRecv with
      | nil => exact Or.inr (Or.inl ⟨rfl, rfl, rfl⟩)
      | cons b rest =>
        exact Or.inr (Or.inr ⟨_, b, rfl, rfl, Or.inr ⟨hlast, b, rest, hq, rfl⟩⟩)

/-- A turn that reads takes from the first piece what there is, or what is asked for. -/
theorem recvTurn_read (hN : N.Assumed) (hs : s.Sound N) (hbuf : s.lastdata = some buf)
    (hpeek : ¬Peeks flags) {bs : List Byte} (hbs : (N.bytes buf).drop s.lastoffset.toNat = bs)
    (mem : Mem) (n : Nat) (off : BitVec 16) :
    bs.length < 65536 ∧ ∃ s', recvTurn N flags s buf ⟨mem, n, off⟩ =
        (decide (n ≤ bs.length) || N.push buf || s.rcvevent == 0#16, s',
          ⟨mem.write off.toNat (bs.take n), ((n - bs.length : Nat) : Int),
            off + BitVec.ofNat 16 (min n bs.length)⟩) ∧
      s'.Sound N ∧ s'.rcvevent = s.rcvevent ∧ s'.pieces N =
        (if n < bs.length then [(bs.drop n, N.push buf)] else []) ++
          s.skbRecv.map fun b => (N.bytes b, N.push b) := by
  have hwithin := hs.within buf hbuf
  have hlen := hN.len buf
  have hbl : bs.length = (N.bytes buf).length - s.lastoffset.toNat := by
    rw [← hbs, List.length_drop]
  have hbuflen : (N.netbufLen buf - s.lastoffset).toNat = bs.length := by
    rw [BitVec.toNat_sub_of_le (BitVec.le_def.mpr (hwithin.trans_eq hlen.symm)), hlen, hbl]
  have hfit : bs.length < 65536 := hbuflen ▸ (N.netbufLen buf - s.lastoffset).isLt
  -- what is copied, as a number
  have hcopy : (if (n : Int) > bs.length then N.netbufLen buf - s.lastoffset
      else BitVec.ofInt 16 n) = BitVec.ofNat 16 (min n bs.length) := by
    by_cases hn : (n : Int) > bs.length
    · rw [if_pos hn, Nat.min_eq_right (by omega), ← hbuflen, BitVec.ofNat_toNat,
        BitVec.setWidth_eq]
    · rw [if_neg hn, Nat.min_eq_left (by omega), BitVec.ofInt_natCast]
  have hcopyNat : (BitVec.ofNat 16 (min n bs.length)).toNat = min n bs.length := by
    rw [BitVec.toNat_ofNat, Nat.mod_eq_of_lt (by omega)]
  have hbytes : N.netbufCopyPartial buf (BitVec.ofNat 16 (min n bs.length)) s.lastoffset =
      bs.take n := by
    rw [hN.copy _ _ _ (by omega), hcopyNat, hbs, List.take_eq_take_iff]
    omega
  have hend : ((n - bs.length : Nat) : Int) ≤ 0 ↔ n ≤ bs.length := by omega
  have hleft : (n : Int) - (min n bs.length : Nat) = ((n - bs.length : Nat) : Int) := by omega
  simp only [recvTurn, hbuflen, hcopy, hcopyNat, hbytes, if_pos hs.tcp, if_neg hpeek, hend,
    hleft, and_iff_right hs.tcp]
  by_cases hn : n < bs.length
  · -- the rest of the buffer is kept
    rw [if_pos (by omega : min n bs.length < bs.length)]
    refine ⟨hfit, _, rfl, ⟨hs.tcp, (by intro h; cases h), fun b hb => ?_⟩, rfl, ?_⟩
    · cases hb
      dsimp only
      rw [BitVec.toNat_add, hcopyNat]
      omega
    · rw [ReadSock.pieces_some rfl, if_pos hn, List.singleton_append]
      dsimp only
      rw [BitVec.toNat_add, hcopyNat, Nat.mod_eq_of_lt (by omega), Nat.min_eq_left hn.le, ← hbs,
        List.drop_drop]
  · rw [if_neg (by omega : ¬min n bs.length < bs.length)]
    refine ⟨hfit, _, rfl, ⟨hs.tcp, fun _ => rfl, (by intro b hb; cases hb)⟩, rfl, ?_⟩
    rw [ReadSock.pieces_none rfl, if_neg hn, List.nil_append]

/-- What holds before each turn of a call that reads, when `g` has been read and `n` more are
asked for. -/
structure Reading (N : Netbufs β) (s : ReadSock β) (mem : Mem) (n : Nat) (g : List Byte) :
    Prop where
  sound : s.Sound N
  handed : received mem g.length = g
  more : 0 < n ∨ g = []
  idle : s.rcvevent = 0#16 → g = []
  enough : s.rcvevent ≠ 0#16 → Enough (s.pieces N) n g.length
  inReach : s.rcvevent ≠ 0#16 → InReach (s.pieces N) n g.length

namespace Reading

variable {mem : Mem} {n : Nat} {g : List Byte}

/-- Where there is nothing to be read, nothing has been. -/
theorem nothing (h : Reading N s mem n g) (hnil : s.pieces N = []) : g = [] := by
  by_cases hr : s.rcvevent = 0#16
  · exact h.idle hr
  · have henough := h.enough hr
    rw [hnil] at henough
    rcases henough with ⟨p, hp, -⟩ | hle | hnone
    · cases hp
    · exact h.more.resolve_left (Nat.not_lt.mpr hle)
    · exact List.eq_nil_of_length_eq_zero hnone.2

theorem takes (h : Reading N s mem n g) (hs1 : s1 = s ∨ s1.Took s) : Reading N s1 mem n g := by
  obtain ⟨hsound, hpieces, hrcv⟩ := ReadSock.sound_of_takes h.sound hs1
  refine ⟨hsound, h.handed, h.more, ?_, ?_, ?_⟩
  · rw [hrcv]
    exact h.idle
  · rw [hrcv, hpieces]
    exact h.enough
  · rw [hrcv, hpieces]
    exact h.inReach

/-- The bytes of a turn are counted in 16 bits. -/
theorem fits {bs : List Byte} {push : Bool} {ps : List Piece} (h : Reading N s mem n g)
    (hcons : s.pieces N = (bs, push) :: ps) (hbs : bs.length < 65536) :
    (g ++ bs.take n).length < 65536 := by
  rw [List.length_append, List.length_take]
  by_cases hr : s.rcvevent = 0#16
  · rw [h.idle hr, List.length_nil]
    omega
  · have hreach := h.inReach hr
    rw [hcons, InReach, reach] at hreach
    omega

/-- **A turn** hands out what it takes, and if it is not the last there is less to be read. -/
theorem turn (hN : N.Assumed) (h : Reading N s mem n g) (hbuf : s.lastdata = some buf)
    (hpeek : ¬Peeks flags) : ∃ done s' mem' n' g',
      recvTurn N flags s buf ⟨mem, n, BitVec.ofNat 16 g.length⟩ =
        (done, s', ⟨mem', (n' : Nat), BitVec.ofNat 16 g'.length⟩) ∧
      s'.Sound N ∧ received mem' g'.length = g' ∧ g'.length < 65536 ∧
        g' ++ s'.unread N = g ++ s.unread N ∧ (done = false →
          Reading N s' mem' n' g' ∧ (s'.pieces N).length < (s.pieces N).length) := by
  obtain ⟨bs, hbs⟩ : ∃ bs, (N.bytes buf).drop s.lastoffset.toNat = bs := ⟨_, rfl⟩
  have hcons := ReadSock.pieces_some (N := N) hbuf
  rw [hbs] at hcons
  obtain ⟨hlt, s', hturn, hs', hrcv, hpieces⟩ :=
    recvTurn_read hN h.sound hbuf hpeek hbs mem n (BitVec.ofNat 16 g.length)
  have hfit := h.fits hcons hlt
  have hlen : (g ++ bs.take n).length = g.length + min n bs.length := by
    rw [List.length_append, List.length_take]
  have hoff : (BitVec.ofNat 16 g.length).toNat = g.length := by
    rw [BitVec.toNat_ofNat, Nat.mod_eq_of_lt (by omega)]
  have hhanded : received (mem.write g.length (bs.take n)) (g ++ bs.take n).length =
      g ++ bs.take n := by
    rw [List.length_append, received_write, h.handed]
  rw [hoff, ← BitVec.ofNat_add, ← hlen] at hturn
  refine ⟨_, s', _, _, g ++ bs.take n, hturn, hs', hhanded, hfit, ?_, fun hdone => ?_⟩
  · rw [ReadSock.unread, ReadSock.unread, hpieces, hcons, List.append_assoc, List.flatMap_append,
      List.flatMap_cons, ← List.append_assoc (bs.take n)]
    congr 2
    by_cases hn : n < bs.length
    · rw [if_pos hn, List.flatMap_singleton, List.take_append_drop]
    · rw [if_neg hn, List.flatMap_nil, List.append_nil, List.take_of_length_le (by omega)]
  · simp only [Bool.or_eq_false_iff, decide_eq_false_iff_not, beq_eq_false_iff_ne] at hdone
    obtain ⟨⟨hmore, hpush⟩, hr⟩ := hdone
    have hle : bs.length ≤ n := by omega
    rw [if_neg (by omega), List.nil_append] at hpieces
    rw [hpush] at hcons
    have henough := h.enough hr
    have hreach := h.inReach hr
    rw [hcons, ← hpieces] at henough hreach
    refine ⟨⟨hs', hhanded, Or.inl (by omega), fun h0 => absurd (hrcv ▸ h0) hr, fun _ => ?_,
      fun _ => ?_⟩, ?_⟩
    · rw [List.take_of_length_le hle, List.length_append]
      exact henough.tail (by omega)
    · rw [List.take_of_length_le hle, List.length_append]
      exact hreach.tail (by omega)
    · rw [hcons, ← hpieces, List.length_cons]
      exact Nat.lt_succ_self _

end Reading

/-- **A call that reads**: if it does not come to the end of the queue, and `off` does not
wrap, it hands out what it takes. -/
theorem recvLoop_read (hN : N.Assumed) (hpeek : ¬Peeks flags) (turns : Nat) :
    ∀ {s : ReadSock β} {mem : Mem} {n : Nat} {g : List Byte}, Reading N s mem n g →
      (s.pieces N).length < turns →
      ∃ s' ret mem', recvLoop N flags turns s ⟨mem, n, BitVec.ofNat 16 g.length⟩ =
          .ok (s', ret, mem') ∧ s'.Sound N ∧
        received mem' ret.toNat ++ s'.unread N = g ++ s.unread N := by
  induction turns with
  | zero =>
    intro s mem n g _ hturns
    exact absurd hturns (Nat.not_lt_zero _)
  | succ turns ih =>
    intro s mem n g h hturns
    rw [recvLoop]
    rcases nextBuf_cases s flags with ⟨-, hu, hnext⟩ | ⟨hlast, hq, hnext⟩ |
      ⟨s1, buf, hnext, hbuf, hs1⟩
    · -- not to wait: nothing is read
      refine ⟨s, -1, mem, by rw [hnext], h.sound, ?_⟩
      rw [h.idle hu.2]
      rfl
    · -- the queue is empty: nothing has been read, or it would be lost
      refine ⟨s, 0, mem, by rw [hnext], h.sound, ?_⟩
      rw [h.nothing (by rw [ReadSock.pieces_none hlast, hq, List.map_nil])]
      rfl
    · have hpieces := (ReadSock.sound_of_takes h.sound hs1).2.1
      obtain ⟨done, s2, mem2, n2, g2, hturn, hs2, hhanded, hfit, hbytes, hgo⟩ :=
        (h.takes hs1).turn hN hbuf hpeek
      have hunread : s1.unread N = s.unread N := congrArg (List.flatMap Prod.fst) hpieces
      rw [hunread] at hbytes
      rw [hnext]
      dsimp only
      rw [hturn]
      cases done with
      | true =>
        refine ⟨s2, _, _, rfl, hs2, ?_⟩
        rw [BitVec.toNat_ofNat, Nat.mod_eq_of_lt hfit, Int.toNat_natCast, hhanded, hbytes]
      | false =>
        obtain ⟨hreading, hless⟩ := hgo rfl
        obtain ⟨s3, ret, mem3, hloop, hs3, hrest⟩ := ih hreading (by rw [hpieces] at hless; omega)
        exact ⟨s3, ret, mem3, hloop, hs3, hrest.trans hbytes⟩

/-- A turn that is not the last has been given a buffer, and leaves none. -/
theorem recvTurn_next {v v2 : RecvVars} {s2 : ReadSock β}
    (h : recvTurn N flags s buf v = (false, s2, v2)) :
    s2.lastdata = none ∧ s2.skbRecv = s.skbRecv := by
  simp only [recvTurn] at h
  generalize hcopy : (if v.len > (N.netbufLen buf - s.lastoffset).toNat then
    N.netbufLen buf - s.lastoffset else BitVec.ofInt 16 v.len) = copylen at h
  by_cases hpeek : Peeks flags
  · rw [if_pos hpeek, Prod.mk.injEq] at h
    cases h.1
  · rw [if_neg hpeek] at h
    split at h
    next hkept =>
      -- a buffer of which something is left has given all that was asked for
      obtain ⟨htcp, hlt⟩ := hkept
      rw [if_pos htcp, if_pos htcp, Prod.mk.injEq, Bool.or_eq_false_iff, Bool.or_eq_false_iff,
        decide_eq_false_iff_not] at h
      have hgt := h.1.1.1
      have hbound := (N.netbufLen buf - s.lastoffset).isLt
      by_cases hlen : v.len > (N.netbufLen buf - s.lastoffset).toNat
      · rw [if_pos hlen] at hcopy
        rw [hcopy] at hlt
        exact absurd hlt (lt_irrefl _)
      · rw [if_neg hlen] at hcopy
        rw [← hcopy, BitVec.toNat_ofInt] at hgt
        omega
    next =>
      rw [Prod.mk.injEq, Prod.mk.injEq] at h
      obtain ⟨-, rfl, -⟩ := h
      exact ⟨rfl, rfl⟩

/-- The loop ends. -/
theorem recvLoop_returns (turns : Nat) : ∀ {s : ReadSock β} {v : RecvVars},
    s.lastdata.toList.length + s.skbRecv.length < turns →
      ∃ r, recvLoop N flags turns s v = .ok r := by
  induction turns with
  | zero =>
    intro s v h
    exact absurd h (Nat.not_lt_zero _)
  | succ turns ih =>
    intro s v h
    rw [recvLoop]
    rcases nextBuf_cases s flags with ⟨-, -, hnext⟩ | ⟨-, -, hnext⟩ | ⟨s1, buf, hnext, hbuf, hs1⟩
    · exact ⟨_, by rw [hnext]⟩
    · exact ⟨_, by rw [hnext]⟩
    · rw [hnext]
      dsimp only
      have hless : s1.skbRecv.length < turns := by
        rcases hs1 with rfl | ⟨hlast, _, _, hq, rfl⟩
        · rw [hbuf, Option.toList_some, List.length_singleton] at h
          omega
        · rw [hlast, hq, Option.toList_none, List.length_nil, List.length_cons] at h
          dsimp only
          omega
      cases hturn : recvTurn N flags s1 buf v with
      | mk done p =>
        obtain ⟨s2, v2⟩ := p
        cases done with
        | true => exact ⟨_, rfl⟩
        | false =>
          obtain ⟨hlast, hq⟩ := recvTurn_next hturn
          apply ih
          rw [hlast, hq, Option.toList_none, List.length_nil, Nat.zero_add]
          exact hless

/-- More turns than are needed change nothing. -/
theorem recvLoop_mono (turns : Nat) : ∀ {s : ReadSock β} {v : RecvVars}
    {r : ReadSock β × Int × Mem} (more : Nat), recvLoop N flags turns s v = .ok r →
      recvLoop N flags (turns + more) s v = .ok r := by
  induction turns with
  | zero =>
    intro s v r more h
    cases h
  | succ turns ih =>
    intro s v r more h
    rw [Nat.add_right_comm, recvLoop]
    rw [recvLoop] at h
    cases hnext : nextBuf s flags with
    | error ret =>
      rw [hnext] at h
      exact h
    | ok p =>
      obtain ⟨s1, buf⟩ := p
      rw [hnext] at h
      dsimp only at h ⊢
      cases hturn : recvTurn N flags s1 buf v with
      | mk done p =>
        obtain ⟨s2, v2⟩ := p
        rw [hturn] at h
        cases done with
        | true => exact h
        | false => exact ih more h

/-! ## A call -/

variable {c : RecvCall}

/-- A call comes back. -/
theorem recvfrom_returns (N : Netbufs β) (s : ReadSock β) (c : RecvCall) :
    ∃ r, recvfrom N s c = .ok r := by
  refine recvLoop_returns _ ?_
  have := Option.length_toList_le (o := s.lastdata)
  omega

/-- **A call that reads** hands out what it takes. -/
theorem recvfrom_read (hN : N.Assumed) (hs : s.Sound N) (hpeek : ¬Peeks c.flags)
    (hlen : 0 ≤ c.len) (hbusy : s.rcvevent ≠ 0#16 →
      Enough (s.pieces N) c.len.toNat 0 ∧ InReach (s.pieces N) c.len.toNat 0) :
    ∃ s' ret mem', recvfrom N s c = .ok (s', ret, mem') ∧ s'.Sound N ∧
      received mem' ret.toNat ++ s'.unread N = s.unread N := by
  have hreading : Reading N s c.mem c.len.toNat [] :=
    ⟨hs, rfl, Or.inr rfl, fun _ => rfl, fun hr => (hbusy hr).1, fun hr => (hbusy hr).2⟩
  have h := recvLoop_read hN hpeek (s.skbRecv.length + 2) hreading (by
    have := Option.length_toList_le (o := s.lastdata)
    rw [ReadSock.length_pieces]
    omega)
  rwa [Int.toNat_of_nonneg hlen] at h

/-- A call that peeks at most takes a buffer off the queue. -/
theorem recvfrom_peek {r : ReadSock β × Int × Mem} (hpeek : Peeks c.flags)
    (h : recvfrom N s c = .ok r) : r.1 = s ∨ r.1.Took s := by
  rw [recvfrom, recvLoop] at h
  rcases nextBuf_cases s c.flags with ⟨-, -, hnext⟩ | ⟨-, -, hnext⟩ | ⟨s1, buf, hnext, -, hs1⟩
  · rw [hnext] at h
    cases h
    exact Or.inl rfl
  · rw [hnext] at h
    cases h
    exact Or.inl rfl
  · rw [hnext] at h
    simp only [recvTurn, if_pos hpeek] at h
    cases h
    exact hs1

/-- **A buffer taken off the queue by a peek makes no difference** to the next call, but for
one that is not to wait and has been told of nothing. -/
theorem recvfrom_ahead (hs1 : s1.Took s) (hu : ¬s.Unready c.flags) :
    recvfrom N s1 c = recvfrom N s c := by
  obtain ⟨hlast, buf, rest, hq, rfl⟩ := hs1
  have hnext : nextBuf s c.flags = .ok ({ s with lastdata := some buf, skbRecv := rest }, buf) := by
    rw [nextBuf, hlast]
    dsimp only
    rw [if_neg hu, hq]
  obtain ⟨r, hr⟩ := recvfrom_returns N { s with lastdata := some buf, skbRecv := rest } c
  rw [hr, ← recvLoop_mono _ 1 hr, recvfrom, hq, List.length_cons, recvLoop, recvLoop, hnext]
  rfl

end Turn

end LinuxNet.Sip
