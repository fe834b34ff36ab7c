import LinuxNet.Lib.Run
import LinuxNet.Ping.Ping

/-!
# What `ping` counts

`packet_recv` is to be the number of requests that have been answered. A run is
recorded beside the state of the program: when each number was last sent, and which
numbers that were sent have been answered by a reply with the identifier of the
process.

The two are compared in `accounts_iff`: a run counts right and measures right exactly
if the counter of the requests does not wrap, and a reply is found in the table
exactly if it is the first answer to its request. It is not if the table was full when the
request was sent or the process id does not fit into the identifier, and a second
answer is counted as long as the slot of the first has not been given away.
-/

namespace LinuxNet.Ping

/-! ## What is to hold -/

/-- The program, and what has been sent and answered. -/
structure World where
  st : PingState
  /-- When the request with a number was last sent. -/
  sentAt : BitVec 16 → Option Timeval
  /-- The numbers that were sent and then answered. -/
  answered : Finset (BitVec 16)

def World.initial : World := ⟨.initial, fun _ => none, ∅⟩

/-- A step of one of the threads, with the time it takes place. -/
inductive PingOp where
  | send (now : Timeval)
  | recv (d : Datagram) (now : Timeval)

/-- The number in the ICMP message of a datagram. -/
def Datagram.seq (d : Datagram) : BitVec 16 := d.buf.u16 (iphdrlen d.buf + 6)

/-- An echo reply that carries the identifier of the process. -/
def OwnReply (pid : BitVec 32) (d : Datagram) : Prop :=
  iphdrlen d.buf + 8 ≤ d.len ∧ d.buf (iphdrlen d.buf) = 0#8 ∧
    d.buf.u16 (iphdrlen d.buf + 4) = pid.setWidth 16

instance (pid : BitVec 32) (d : Datagram) : Decidable (OwnReply pid d) :=
  inferInstanceAs (Decidable (_ ∧ _ ∧ _))

/-- A step, and the record of it. The number of a request is the one in the message. -/
def pingStep (pid : BitVec 32) (w : World) : PingOp → Except Fault World
  | .send now =>
    let r := icmpSend pid w.st now
    .ok { w with st := r.1, sentAt := Function.update w.sentAt (r.2.u16 6) (some now) }
  | .recv d now =>
    .ok { w with
      st := (icmpUnpack pid w.st d now).1
      answered := if OwnReply pid d ∧ (w.sentAt d.seq).isSome = true then insert d.seq w.answered
        else w.answered }

/-- As many are counted as have been answered, and no more than were sent. -/
def Counts (w : World) : Prop :=
  w.st.packetRecv.toInt = w.answered.card ∧ w.st.packetRecv.toInt ≤ w.st.packetSend.toInt

/-- A point in time in microseconds. -/
def Timeval.micros (t : Timeval) : Int := t.tvSec * 1000000 + t.tvUsec

/-- The line for a reply gives the whole milliseconds since its request was sent. -/
def Measures (pid : BitVec 32) (w : World) (op : PingOp) : Prop :=
  ∀ d now r, op = .recv d now → (icmpUnpack pid w.st d now).2 = some r →
    ∃ t, w.sentAt d.seq = some t ∧
      r.rtt = BitVec.ofInt 32 ((now.micros - t.micros) / 1000)

/-- A run counts right in every state and measures right in every step. -/
def Accounts (pid : BitVec 32) (ops : List PingOp) : Prop :=
  Along (pingStep pid) (Measures pid) .initial ops ∧ Always (pingStep pid) Counts .initial ops

/-! ## When it holds -/

/-- A request that has not been answered yet. -/
def World.Awaited (w : World) (s : BitVec 16) : Prop :=
  (w.sentAt s).isSome = true ∧ s ∉ w.answered

instance (w : World) (s : BitVec 16) : Decidable (w.Awaited s) :=
  inferInstanceAs (Decidable (_ ∧ _))

/-- A slot has this number; the ones from 32768 on are no `short`. -/
def PingState.Has (st : PingState) (s : BitVec 16) : Prop :=
  ∃ i, (st.pingpacket i).seq.toInt = s.toNat

/-- The steps that keep count: there is a number left for a request, the first answer
to a request comes to a process whose id fits and that has given it a slot, and any other
answer finds no slot with its number. -/
def KeepsCount (pid : BitVec 32) (w : World) : PingOp → Prop
  | .send _ => w.st.packetSend.toInt < 32767
  | .recv d _ => OwnReply pid d →
    ((pid.toNat < 65536 ∧ w.st.Has d.seq) ↔ w.Awaited d.seq)

/-! ## The functions of the source -/

section Functions

variable {pid : BitVec 32} {st : PingState} {d : Datagram} {now : Timeval} {s : BitVec 16}
  {i : Fin 128}

/-- The identifier on the wire is the process id exactly if that fits into 16 bits. -/
theorem setWidth_eq_iff (x : BitVec 16) (pid : BitVec 32) :
    x.setWidth 32 = pid ↔ x = pid.setWidth 16 ∧ pid.toNat < 65536 := by
  have hx := x.isLt
  rw [← BitVec.toNat_inj, ← BitVec.toNat_inj, BitVec.toNat_setWidth, BitVec.toNat_setWidth]
  omega

theorem find_seq (st : PingState) (s : BitVec 16) :
    icmpFindpacket st s.toNat =
      (List.finRange 128).find? fun i => (st.pingpacket i).seq.toInt = s.toNat := by
  have h : ((s.toNat : Int) ≠ -1) := by omega
  rw [icmpFindpacket, if_neg h, if_pos (Int.natCast_nonneg _)]

theorem find_none (h : ¬ st.Has s) : icmpFindpacket st s.toNat = none := by
  rw [find_seq, List.find?_eq_none]
  intro i _ hi
  exact h ⟨i, of_decide_eq_true hi⟩

theorem find_some (h : st.Has s) :
    ∃ i, icmpFindpacket st s.toNat = some i ∧ (st.pingpacket i).seq.toInt = s.toNat := by
  rw [find_seq]
  cases hf : (List.finRange 128).find? fun i => (st.pingpacket i).seq.toInt = s.toNat with
  | none =>
    obtain ⟨i, hi⟩ := h
    exact absurd (decide_eq_true hi) (List.find?_eq_none.mp hf i (List.mem_finRange i))
  | some i =>
    have hi := List.find?_some hf
    exact ⟨i, rfl, of_decide_eq_true hi⟩

/-- Clearing the checksum leaves the length of the header and the message behind it. -/
theorem cleared (d : Datagram) :
    iphdrlen (d.buf.write 10 [0#8, 0#8]) = iphdrlen d.buf ∧
      d.buf.write 10 [0#8, 0#8] (iphdrlen d.buf) = d.buf (iphdrlen d.buf) ∧
      ∀ k, (d.buf.write 10 [0#8, 0#8]).u16 (iphdrlen d.buf + k) =
        d.buf.u16 (iphdrlen d.buf + k) := by
  have hheader := d.header
  refine ⟨?_, Mem.write_apart (Or.inr ?_), fun k => Mem.u16_write_apart (Or.inr ?_)⟩
  · rw [iphdrlen, Mem.write_apart (Or.inl (by decide)), iphdrlen]
  · simp only [List.length_cons, List.length_nil]
    omega
  · simp only [List.length_cons, List.length_nil]
    omega

/-- A datagram is looked up in the table exactly if it is a reply for this process, and
the process id fits. -/
theorem icmpUnpack_own (hown : OwnReply pid d) (hpid : pid.toNat < 65536) :
    icmpUnpack pid st d now = (icmpFindpacket st d.seq.toNat).elim (st, none) fun i =>
      (received st i, some ⟨d.len - iphdrlen d.buf, (d.buf.write 10 [0#8, 0#8]).u32 12, d.seq,
        d.buf.write 10 [0#8, 0#8] 8, rtt now (st.pingpacket i).tvBegin⟩) := by
  obtain ⟨hlen, htype, hid⟩ := hown
  obtain ⟨hhdr, h0, hword⟩ := cleared d
  have hid' : (d.buf.u16 (iphdrlen d.buf + 4)).setWidth 32 = pid :=
    (setWidth_eq_iff _ pid).mpr ⟨hid, hpid⟩
  have hseq : d.buf.u16 (iphdrlen d.buf + 6) = d.seq := rfl
  unfold icmpUnpack
  simp only [hhdr, h0, hword, hseq]
  rw [if_neg (by omega), if_pos ⟨htype, hid'⟩]
  cases icmpFindpacket st d.seq.toNat <;> rfl

theorem icmpUnpack_other (h : ¬ (OwnReply pid d ∧ pid.toNat < 65536)) :
    icmpUnpack pid st d now = (st, none) := by
  obtain ⟨hhdr, h0, hword⟩ := cleared d
  unfold icmpUnpack
  simp only [hhdr, h0, hword]
  split
  next => rfl
  next hlen =>
    rw [if_neg]
    intro hmatch
    obtain ⟨hid, hpid⟩ := (setWidth_eq_iff _ pid).mp hmatch.2
    exact h ⟨⟨by omega, hmatch.1, hid⟩, hpid⟩

/-- A reply that is not for this process, or that no slot has the number of. -/
theorem icmpUnpack_none (h : OwnReply pid d → pid.toNat < 65536 → ¬ st.Has d.seq) :
    icmpUnpack pid st d now = (st, none) := by
  by_cases hown : OwnReply pid d ∧ pid.toNat < 65536
  · rw [icmpUnpack_own hown.1 hown.2, find_none (h hown.1 hown.2)]
    rfl
  · exact icmpUnpack_other hown

/-- A reply that is counted. -/
theorem icmpUnpack_some (hown : OwnReply pid d) (hpid : pid.toNat < 65536)
    (hi : icmpFindpacket st d.seq.toNat = some i) :
    (icmpUnpack pid st d now).1 = received st i ∧
      ∃ r, (icmpUnpack pid st d now).2 = some r ∧ r.rtt = rtt now (st.pingpacket i).tvBegin := by
  rw [icmpUnpack_own hown hpid, hi]
  exact ⟨rfl, _, rfl, rfl⟩

/-- What is printed is the time in between, in whole milliseconds. -/
theorem rtt_eq (e b : Timeval) : rtt e b = BitVec.ofInt 32 ((e.micros - b.micros) / 1000) := by
  have he := e.nonneg
  have hb := b.lt
  unfold rtt icmpTvsub Timeval.micros
  by_cases hneg : e.tvUsec - b.tvUsec < 0
  · rw [if_pos hneg]
    dsimp only
    rw [Int.tdiv_eq_ediv_of_nonneg (by omega)]
    congr 1
    omega
  · rw [if_neg hneg]
    dsimp only
    rw [Int.tdiv_eq_ediv_of_nonneg (by omega)]
    congr 1
    omega

/-- The number in a request is the counter. -/
theorem icmpSend_seq (pid : BitVec 32) (st : PingState) (now : Timeval) :
    (icmpSend pid st now).2.u16 6 = st.packetSend := by
  show (icmpPack pid st.packetSend.toInt 64).u16 6 = _
  unfold icmpPack
  -- of the five writes only the second one touches the number
  rw [Mem.u16_write_apart (Or.inr (by simp [bytesOf16])), Mem.u16_write_apart (Or.inl (by decide)),
    Mem.u16_write_apart (Or.inr (by simp [bytesOf16])), Mem.u16_write_self, BitVec.ofInt_toInt]

@[simp] theorem icmpSend_packetSend (pid : BitVec 32) (st : PingState) (now : Timeval) :
    (icmpSend pid st now).1.packetSend = st.packetSend + 1#16 := rfl

/-- What a request changes. -/
theorem pingStep_send {w w' : World} (h : pingStep pid w (.send now) = .ok w') :
    w'.st = (icmpSend pid w.st now).1 ∧
      w'.sentAt = Function.update w.sentAt w.st.packetSend (some now) ∧
      w'.answered = w.answered := by
  rw [pingStep, icmpSend_seq] at h
  rw [← Except.ok.inj h]
  exact ⟨rfl, rfl, rfl⟩

/-- A slot keeps what it has, or it was free and has the request. -/
theorem icmpSend_slot (i : Fin 128) :
    (icmpSend pid st now).1.pingpacket i = st.pingpacket i ∨
      (st.pingpacket i).flag = 0 ∧
        (icmpSend pid st now).1.pingpacket i = ⟨now, st.packetSend, 1⟩ := by
  unfold icmpSend
  cases hf : icmpFindpacket st (-1) with
  | none => exact Or.inl rfl
  | some j =>
    by_cases hij : i = j
    · subst hij
      have hfree := List.find?_some hf
      exact Or.inr ⟨of_decide_eq_true hfree, Function.update_self ..⟩
    · exact Or.inl (Function.update_of_ne hij ..)

/-- A free slot 0 is taken. -/
theorem icmpSend_first (h : (st.pingpacket 0).flag = 0) :
    (icmpSend pid st now).1.pingpacket 0 = ⟨now, st.packetSend, 1⟩ := by
  have hf : icmpFindpacket st (-1) = some 0 := by
    rw [icmpFindpacket, if_pos rfl, List.finRange_succ]
    exact List.find?_cons_of_pos (decide_eq_true h)
  unfold icmpSend
  rw [hf]
  exact Function.update_self (0 : Fin 128) _ st.pingpacket

/-- Number 0 is found in slot 0 first. -/
theorem find_zero (h : (st.pingpacket 0).seq = 0#16) :
    icmpFindpacket st (BitVec.toNat 0#16) = some 0 := by
  have h0 : (st.pingpacket 0).seq.toInt = BitVec.toNat 0#16 := by
    rw [h]
    rfl
  rw [find_seq, List.finRange_succ]
  exact List.find?_cons_of_pos (decide_eq_true h0)

/-- What a datagram changes: the first answer to a request is recorded. -/
theorem pingStep_recv {w w' : World} (h : pingStep pid w (.recv d now) = .ok w') :
    w'.st = (icmpUnpack pid w.st d now).1 ∧ w'.sentAt = w.sentAt ∧
      w'.answered = if OwnReply pid d ∧ w.Awaited d.seq then insert d.seq w.answered
        else w.answered := by
  rw [pingStep] at h
  rw [← Except.ok.inj h]
  refine ⟨rfl, rfl, ?_⟩
  by_cases hown : OwnReply pid d ∧ (w.sentAt d.seq).isSome = true
  · rw [if_pos hown]
    by_cases hs : d.seq ∈ w.answered
    · rw [if_neg (fun ha => ha.2.2 hs), Finset.insert_eq_of_mem hs]
    · rw [if_pos ⟨hown.1, hown.2, hs⟩]
  · rw [if_neg hown, if_neg fun ha => hown ⟨ha.1, ha.2.1⟩]

/-- The slot of a reply keeps its number and its time. -/
theorem received_slot (st : PingState) (i j : Fin 128) :
    ((received st i).pingpacket j).seq = (st.pingpacket j).seq ∧
      ((received st i).pingpacket j).tvBegin = (st.pingpacket j).tvBegin := by
  by_cases hij : j = i
  · subst hij
    have hself : (received st j).pingpacket j = { st.pingpacket j with flag := 0 } :=
      Function.update_self ..
    rw [hself]
    exact ⟨rfl, rfl⟩
  · have hne : (received st i).pingpacket j = st.pingpacket j := Function.update_of_ne hij ..
    rw [hne]
    exact ⟨rfl, rfl⟩

end Functions

/-! ## The invariant -/

/-- The requests so far have the numbers below the counter. A slot has the time of the
request with its number. The number 0 is in every slot that has not been used, so for the
first request it is slot 0 that counts. -/
structure Good (w : World) : Prop where
  small : w.st.packetSend.toNat ≤ 32767
  sent : ∀ s, (w.sentAt s).isSome = true ↔ s.toNat < w.st.packetSend.toNat
  answered : ∀ s ∈ w.answered, (w.sentAt s).isSome = true
  recv : w.st.packetRecv.toNat = w.answered.card
  slot : ∀ i, (w.st.pingpacket i).seq ≠ 0#16 →
    w.sentAt (w.st.pingpacket i).seq = some (w.st.pingpacket i).tvBegin
  zero : w.Awaited 0#16 → (w.st.pingpacket 0).seq = 0#16 ∧ (w.st.pingpacket 0).flag ≠ 0 ∧
    w.sentAt 0#16 = some (w.st.pingpacket 0).tvBegin
  start : w.st.packetSend = 0#16 → (w.st.pingpacket 0).flag = 0

theorem initial_good : Good .initial where
  small := by decide
  sent _ := iff_of_false nofun (Nat.not_lt_zero _)
  answered _ h := absurd h (Finset.notMem_empty _)
  recv := rfl
  slot _ h := absurd rfl h
  zero h := nomatch h.1
  start _ := rfl

namespace Good

variable {pid : BitVec 32} {w w' : World} {d : Datagram} {now : Timeval} {s : BitVec 16}
  {i : Fin 128}

/-- No more have been answered than sent. -/
theorem card_le (hg : Good w) : w.answered.card ≤ w.st.packetSend.toNat := by
  have hmaps : ∀ s ∈ w.answered, s.toNat ∈ Finset.range w.st.packetSend.toNat := fun s hs =>
    Finset.mem_range.mpr ((hg.sent s).mp (hg.answered s hs))
  have hle := Finset.card_le_card_of_injOn BitVec.toNat hmaps
    fun a _ b _ h => BitVec.eq_of_toNat_eq h
  rwa [Finset.card_range] at hle

theorem send_toInt (hg : Good w) : w.st.packetSend.toInt = w.st.packetSend.toNat :=
  BitVec.toInt_eq_toNat_of_lt (by have := hg.small; omega)

theorem recv_toInt (hg : Good w) : w.st.packetRecv.toInt = w.answered.card := by
  have hle := hg.card_le
  have hsmall := hg.small
  rw [BitVec.toInt_eq_toNat_of_lt (by rw [hg.recv]; omega), hg.recv]

/-- **The invariant is enough.** -/
theorem counts (hg : Good w) : Counts w := by
  refine ⟨hg.recv_toInt, ?_⟩
  rw [hg.recv_toInt, hg.send_toInt]
  exact Int.ofNat_le.mpr hg.card_le

/-- The slot in which a request is found that has not been answered has its number and
the time it was sent. -/
theorem found (hg : Good w) (ha : w.Awaited s)
    (hi : icmpFindpacket w.st s.toNat = some i) :
    (w.st.pingpacket i).seq = s ∧ w.sentAt s = some (w.st.pingpacket i).tvBegin := by
  by_cases hs : s = 0#16
  · subst hs
    obtain ⟨h0, -, ht⟩ := hg.zero ha
    have hi0 : i = 0 := Option.some.inj (hi.symm.trans (find_zero h0))
    subst hi0
    exact ⟨h0, ht⟩
  · have hseq : (w.st.pingpacket i).seq = s := by
      rw [find_seq] at hi
      have hfound := List.find?_some hi
      have heq : (w.st.pingpacket i).seq.toInt = s.toNat := of_decide_eq_true hfound
      have hlt := (hg.sent s).mp ha.1
      have hsmall := hg.small
      rw [← BitVec.toInt_inj, heq, BitVec.toInt_eq_toNat_of_lt (by omega)]
    exact ⟨hseq, hseq ▸ hg.slot i (hseq ▸ hs)⟩

/-- A request with a number of its own. -/
theorem send (hg : Good w) (hlt : w.st.packetSend.toInt < 32767)
    (h : pingStep pid w (.send now) = .ok w') : Good w' := by
  obtain ⟨hst, hat, hans⟩ := pingStep_send h
  rw [hg.send_toInt] at hlt
  have hnext : w'.st.packetSend.toNat = w.st.packetSend.toNat + 1 := by
    rw [hst, icmpSend_packetSend, BitVec.toNat_add, BitVec.toNat_ofNat]
    omega
  -- the number is new, so what is known of the others stays
  have hold : ∀ {s}, (w.sentAt s).isSome = true → w'.sentAt s = w.sentAt s := by
    intro s hs
    have hne : s ≠ w.st.packetSend := fun he =>
      Nat.lt_irrefl _ (he ▸ (hg.sent s).mp hs)
    rw [hat, Function.update_of_ne hne]
  have hself : w'.sentAt w.st.packetSend = some now := by
    rw [hat, Function.update_self]
  refine ⟨by omega, fun s => ?_, fun s hs => ?_, ?_, fun i hi => ?_, fun ha => ?_, fun h0 => ?_⟩
  · rw [hnext]
    by_cases hs : s = w.st.packetSend
    · rw [hs, hself]
      exact iff_of_true rfl (Nat.lt_succ_self _)
    · rw [hat, Function.update_of_ne hs, hg.sent s]
      have hne : s.toNat ≠ w.st.packetSend.toNat := fun he => hs (BitVec.eq_of_toNat_eq he)
      omega
  · have hsent := hg.answered s (hans ▸ hs)
    rwa [hold hsent]
  · rw [hst, hans]
    exact hg.recv
  · rw [hst] at hi ⊢
    rcases icmpSend_slot i with hsame | ⟨-, hnew⟩
    · rw [hsame] at hi ⊢
      have ht := hg.slot i hi
      rw [hold (by rw [ht]; rfl), ht]
    · rw [hnew]
      exact hself
  · rw [hst]
    by_cases hfirst : w.st.packetSend = 0#16
    · -- the first request, in slot 0
      rw [icmpSend_first (hg.start hfirst)]
      exact ⟨hfirst, Nat.one_ne_zero, hfirst ▸ hself⟩
    · have hne : 0#16 ≠ w.st.packetSend := fun he => hfirst he.symm
      have ha' : w.Awaited 0#16 := by
        obtain ⟨hsent, hnot⟩ := ha
        rw [hat, Function.update_of_ne hne] at hsent
        exact ⟨hsent, hans ▸ hnot⟩
      obtain ⟨hseq, hflag, ht⟩ := hg.zero ha'
      rcases icmpSend_slot 0 with hsame | ⟨hfree, -⟩
      · rw [hsame, hold ha'.1]
        exact ⟨hseq, hflag, ht⟩
      · exact absurd hfree hflag
  · rw [h0] at hnext
    exact absurd hnext.symm (Nat.succ_ne_zero _)

/-- A datagram that is not counted, and is not an answer to be counted. -/
theorem ignore (hg : Good w) (hmiss : OwnReply pid d → pid.toNat < 65536 → ¬ w.st.Has d.seq)
    (hnot : ¬ (OwnReply pid d ∧ w.Awaited d.seq))
    (h : pingStep pid w (.recv d now) = .ok w') : Good w' := by
  obtain ⟨hst, hat, hans⟩ := pingStep_recv h
  rw [icmpUnpack_none hmiss] at hst
  rw [if_neg hnot] at hans
  have hw : w' = w := by
    cases w
    cases w'
    simp only at hst hat hans
    rw [hst, hat, hans]
  rwa [hw]

/-- The first answer to a request, which is found. -/
theorem count (hg : Good w) (hown : OwnReply pid d) (hpid : pid.toNat < 65536)
    (hhas : w.st.Has d.seq) (ha : w.Awaited d.seq)
    (h : pingStep pid w (.recv d now) = .ok w') : Good w' := by
  obtain ⟨hst, hat, hans⟩ := pingStep_recv h
  obtain ⟨i, hi, -⟩ := find_some hhas
  rw [(icmpUnpack_some hown hpid hi).1] at hst
  rw [if_pos ⟨hown, ha⟩] at hans
  obtain ⟨hseq, -⟩ := hg.found ha hi
  have hslot := fun j => received_slot w.st i j
  refine ⟨?_, ?_, fun s hs => ?_, ?_, fun j hj => ?_, fun ha0 => ?_, fun h0 => ?_⟩
  · rw [hst]
    exact hg.small
  · rw [hst, hat]
    exact hg.sent
  · rw [hat]
    rw [hans] at hs
    rcases Finset.mem_insert.mp hs with rfl | hs
    · exact ha.1
    · exact hg.answered s hs
  · have hle := hg.card_le
    have hsmall := hg.small
    rw [hst, hans, Finset.card_insert_of_notMem ha.2, ← hg.recv]
    show (w.st.packetRecv + 1#16).toNat = w.st.packetRecv.toNat + 1
    rw [BitVec.toNat_add, BitVec.toNat_ofNat, hg.recv]
    omega
  · rw [hst, (hslot j).1] at hj
    rw [hst, hat, (hslot j).1, (hslot j).2]
    exact hg.slot j hj
  · -- 0 still waits, so this was the answer to another request, in another slot
    obtain ⟨hsent, hnot⟩ := ha0
    rw [hans, Finset.mem_insert, not_or] at hnot
    obtain ⟨hseq0, hflag, ht⟩ := hg.zero ⟨hat ▸ hsent, hnot.2⟩
    have hne : 0 ≠ i := by
      intro he
      rw [← he, hseq0] at hseq
      exact hnot.1 hseq
    have hsame : (received w.st i).pingpacket 0 = w.st.pingpacket 0 :=
      Function.update_of_ne hne ..
    rw [hst, hat, hsame]
    exact ⟨hseq0, hflag, ht⟩
  · rw [hst] at h0
    have hlt := (hg.sent _).mp ha.1
    rw [show w.st.packetSend = 0#16 from h0] at hlt
    exact absurd hlt (Nat.not_lt_zero _)

/-- **One step** that meets the guard. -/
theorem step (hg : Good w) {op : PingOp} (hk : KeepsCount pid w op)
    (h : pingStep pid w op = .ok w') : Good w' := by
  cases op with
  | send now => exact hg.send hk h
  | recv d now =>
    by_cases hown : OwnReply pid d
    · by_cases ha : w.Awaited d.seq
      · obtain ⟨hpid, hhas⟩ := (hk hown).mpr ha
        exact hg.count hown hpid hhas ha h
      · exact hg.ignore (fun _ hpid hhas => ha ((hk hown).mp ⟨hpid, hhas⟩)) (fun hn => ha hn.2) h
    · exact hg.ignore (fun hn => absurd hn hown) (fun hn => hown hn.1) h

/-- One that does not has miscounted. -/
theorem miscounts (hg : Good w) {op : PingOp} (hn : ¬ KeepsCount pid w op)
    (h : pingStep pid w op = .ok w') : ¬ Counts w' := by
  intro hc
  cases op with
  | send now =>
    obtain ⟨hst, -, -⟩ := pingStep_send h
    -- the counter has wrapped to a negative number
    have hwrap : w'.st.packetSend.toInt = -32768 := by
      have hmax : w.st.packetSend = 32767#16 := by
        apply BitVec.eq_of_toNat_eq
        have hsmall := hg.small
        rw [KeepsCount, hg.send_toInt] at hn
        rw [BitVec.toNat_ofNat]
        omega
      rw [hst, icmpSend_packetSend, hmax]
      rfl
    obtain ⟨hcard, hle⟩ := hc
    rw [hcard, hwrap] at hle
    omega
  | recv d now =>
    obtain ⟨hst, -, hans⟩ := pingStep_recv h
    obtain ⟨hown, hn⟩ := Classical.not_imp.mp hn
    obtain ⟨hcard, -⟩ := hc
    by_cases hhit : pid.toNat < 65536 ∧ w.st.Has d.seq
    · -- counted, but not to be counted
      have ha : ¬ w.Awaited d.seq := fun ha => hn (iff_of_true hhit ha)
      obtain ⟨i, hi, -⟩ := find_some hhit.2
      rw [if_neg fun hn => ha hn.2] at hans
      rw [hst, (icmpUnpack_some hown hhit.1 hi).1, hans, ← hg.recv_toInt, BitVec.toInt_inj] at hcard
      have hsucc : (w.st.packetRecv + 1#16).toNat = w.st.packetRecv.toNat :=
        congrArg BitVec.toNat hcard
      rw [BitVec.toNat_add, BitVec.toNat_ofNat] at hsucc
      omega
    · -- to be counted, but not counted
      have ha : w.Awaited d.seq := by
        by_contra ha
        exact hn (iff_of_false hhit ha)
      rw [icmpUnpack_none fun _ hpid hhas => hhit ⟨hpid, hhas⟩] at hst
      rw [if_pos ⟨hown, ha⟩] at hans
      rw [hst, hans, hg.recv_toInt, Finset.card_insert_of_notMem ha.2] at hcard
      omega

/-- A step that meets the guard measures from the request. -/
theorem measures (hg : Good w) {op : PingOp} (hk : KeepsCount pid w op) :
    Measures pid w op := by
  intro d now r hop hr
  rw [hop] at hk
  by_cases hhit : OwnReply pid d ∧ pid.toNat < 65536 ∧ w.st.Has d.seq
  · obtain ⟨hown, hpid, hhas⟩ := hhit
    obtain ⟨i, hi, -⟩ := find_some hhas
    obtain ⟨-, ht⟩ := hg.found ((hk hown).mp ⟨hpid, hhas⟩) hi
    obtain ⟨-, r', hr', hrtt⟩ := @icmpUnpack_some pid w.st d now i hown hpid hi
    rw [hr'] at hr
    cases hr
    exact ⟨_, ht, hrtt.trans (rtt_eq _ _)⟩
  · rw [icmpUnpack_none fun hown hpid hhas => hhit ⟨hown, hpid, hhas⟩] at hr
    cases hr

end Good

/-- **When `ping` counts right.** A run of requests and datagrams counts the answered
requests and measures each answer from its request exactly if the counter of the requests
does not wrap, the first answer to a request finds its number in the table, with a process
id that fits into 16 bits, and no other answer does. -/
theorem accounts_iff (pid : BitVec 32) (ops : List PingOp) :
    Accounts pid ops ↔ Along (pingStep pid) (KeepsCount pid) .initial ops := by
  refine ok_always_iff_along Good (Measures pid) (fun _ hg => hg.counts) ?_ ?_ ?_ ?_ ops
    initial_good
  · exact fun w op w' hg hk h => hg.step hk h
  · exact fun w op w' hg hn h => hg.miscounts hn h
  · exact fun w op w' hg hk _ => hg.measures hk
  · intro w op f _ h
    cases op with
    | send now => cases h
    | recv d now => cases h

/-- An echo reply with an IP header of 20 bytes, as the host that was asked sends it back. -/
def reply (pid : BitVec 32) (seq : Int) : Datagram where
  buf := fun i => if i = 0 then 0x45#8 else if i < 20 then 0#8
    else (icmpPack pid seq 64).write 0 [0#8] (i - 20)
  len := 84
  header := by
    show 20 ≤ (0x45#8).toNat % 16 * 4
    decide

/-- The answer to the first request comes twice, and is counted twice. -/
theorem duplicate_counted :
    ¬ Accounts 4711#32 [.send .zero, .recv (reply 4711#32 0) .zero,
      .recv (reply 4711#32 0) .zero] := by
  intro h
  have hlast := (((h.2.2 _ rfl).2 _ rfl).2 _ rfl).2
  exact absurd hlast (by decide)

end LinuxNet.Ping
