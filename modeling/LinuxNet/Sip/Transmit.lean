import LinuxNet.Lib.Except
import LinuxNet.Sip.Fragment

/-!
# What the send path does with the buffers

One lemma for each function of the send path that says what state it leaves, from the
link layer up. `lowoutput` sends and frees one buffer; a second one in the chain it does
not get to, since the loop reads through a pointer it has cleared (`lowoutput_second`), so
the chains that are sent as a whole are those of one buffer (`lowoutput_iff`).
An ARP request is sent and freed at once, so asking for an address changes no buffer
(`arpWait_spec`). `ip_output` hands on a chain, the packet itself or its fragments, and
`output` sends it if it has an address for it (`ipOutput_eq`, `output_eq`).
-/

namespace LinuxNet.Sip

/-- The buffers in which `ip_output` hands a packet to `output`. -/
def ipFrames (dev : TxDevice) (a : IpArgs) (skb : Skbuff) : Except TxFault (List Skbuff) :=
  if dev.mtu.toNat < skb.totLen.toNat then fragments dev (ipHeader a skb)
  else .ok [ipHeader a skb]

/-- The buffers as `lowoutput` gets them: the first has its Ethernet header. -/
def linkFrames (dev : TxDevice) (ethaddr : List Byte) : List Skbuff → List Skbuff
  | [] => []
  | skb :: skbs => etherHeader dev ethaddr skb :: skbs

/-- A pointer leads through a chain of buffers with this in them. -/
structure Chain (s : SockState Skbuff) (p : Option Nat) (l : List Nat) (skbs : List Skbuff) :
    Prop where
  linked : Linked s.link p l
  data : l.map s.datagram = skbs.map some

namespace TxState

variable {st : TxState} {p q : Nat} {c : RecvSkb Skbuff}

/-- The state in which a buffer has been freed. -/
def drop (st : TxState) (p : Nat) : TxState :=
  { st with sock := { st.sock with skb := Function.update st.sock.skb p none } }

theorem deref_eq (h : st.sock.skb p = some c) : st.deref (some p) = .ok c := by
  rw [deref, h]

theorem modify_eq (h : st.sock.skb p = some c) (f : Skbuff → Skbuff) :
    st.modify (some p) f =
      .ok { st with sock := st.sock.write p { c with datagram := f c.datagram } } := by
  unfold modify
  rw [deref_eq h]

theorem skbFree_eq (h : st.sock.skb p = some c) : st.skbFree p = .ok (st.drop p) := by
  rw [skbFree, deref_eq h]
  rfl

@[simp] theorem drop_self : (st.drop p).sock.skb p = none := Function.update_self ..

theorem drop_ne (h : q ≠ p) : (st.drop p).sock.skb q = st.sock.skb q := Function.update_of_ne h ..

end TxState

/-! ## The link layer -/

section Link

variable {st : TxState} {p : Nat} {c : RecvSkb Skbuff}

/-- The first turn of `lowoutput`. -/
theorem lowLoop_first (h : st.sock.skb p = some c) (turns : Nat) :
    lowLoop (turns + 1) st (some p) (some p) =
      lowLoop turns { st.drop p with sent := st.sent ++ [c.datagram] } none c.next := by
  rw [lowLoop, TxState.deref_eq h]
  have h' : ({ st with sent := st.sent ++ [c.datagram] } : TxState).sock.skb p = some c := h
  show (do
    let q ← ({ st with sent := st.sent ++ [c.datagram] } : TxState).deref (some p)
    let st ← ({ st with sent := st.sent ++ [c.datagram] } : TxState).skbFree p
    lowLoop turns st none q.next) = _
  rw [TxState.deref_eq h', TxState.skbFree_eq h']
  rfl

/-- One buffer is sent and freed. -/
theorem lowoutput_one (h : st.sock.skb p = some c) (hnext : c.next = none)
    (hbrk : 0 < st.sock.brk) :
    lowoutput st (some p) = .ok { st.drop p with sent := st.sent ++ [c.datagram] } := by
  obtain ⟨k, hk⟩ := Nat.exists_eq_add_of_lt hbrk
  rw [lowoutput, lowLoop_first h, hnext, hk]
  rfl

/-- With a second buffer behind the first, `lowoutput` follows a NULL pointer. -/
theorem lowoutput_second (h : st.sock.skb p = some c) (hnext : c.next ≠ none) :
    ∃ e, lowoutput st (some p) = .error e := by
  rw [lowoutput, lowLoop_first h]
  cases hn : c.next with
  | none => exact absurd hn hnext
  | some q =>
    cases st.sock.brk with
    | zero => exact ⟨_, rfl⟩
    | succ k => exact ⟨_, rfl⟩

end Link

/-! ## Asking for an address -/

/-- Nothing has been allocated at the next address or behind it. -/
def Unused (s : SockState Skbuff) : Prop := ∀ q, s.brk ≤ q → s.skb q = none

/-- The buffers and the queues are as they were; others have come and gone. -/
structure SameBuffers (st st' : TxState) : Prop where
  skb : st'.sock.skb = st.sock.skb
  recv : st'.sock.skbRecv = st.sock.skbRecv
  reads : st'.sock.reads = st.sock.reads
  brk : st.sock.brk ≤ st'.sock.brk

section Arp

variable {st st' st'' : TxState} {dev : TxDevice} {clock : Nat → Nat} {ip : BitVec 32}

theorem SameBuffers.trans (h : SameBuffers st st') (h' : SameBuffers st' st'') :
    SameBuffers st st'' :=
  ⟨h'.skb.trans h.skb, h'.recv.trans h.recv, h'.reads.trans h.reads, h.brk.trans h'.brk⟩

theorem SameBuffers.unused (h : SameBuffers st st') (hu : Unused st.sock) : Unused st'.sock := by
  intro q hq
  rw [h.skb]
  exact hu q (h.brk.trans hq)

/-- A frame for ARP is sent, this one and no other, and its buffer is gone. -/
theorem arpSend_spec (hu : Unused st.sock) (type : BitVec 16) (srcIp destIp : BitVec 32)
    (srcHw destHw targetHw : Option Mac) :
    ∃ st', arpSend dev st type srcIp destIp srcHw destHw targetHw = .ok st' ∧
      SameBuffers st st' ∧ st'.arp = st.arp ∧
      st'.sent = st.sent ++ [arpCreate dev type srcIp destIp srcHw destHw targetHw] := by
  have hnew : (st.alloc (arpCreate dev type srcIp destIp srcHw destHw targetHw)).sock.skb
      st.sock.brk = some ⟨_, none⟩ := SockState.skb_alloc_self ..
  refine ⟨_, lowoutput_one hnew rfl (Nat.succ_pos _), ⟨?_, rfl, rfl, Nat.le_succ _⟩, rfl, rfl⟩
  show Function.update (Function.update st.sock.skb st.sock.brk _) st.sock.brk none = st.sock.skb
  rw [Function.update_idem, Function.update_eq_self_iff]
  exact (hu _ (Nat.le_refl _)).symm

/-- The loop of `output` ends with what its first lookup has found: requests do not change
the table, and nobody else does in the meantime. -/
theorem arpWait_spec (clock : Nat → Nat) (dev : TxDevice) (ip : BitVec 32) (left : Nat) :
    ∀ (times : Nat) (st : TxState), Unused st.sock →
      ∃ st', arpWait clock dev ip left times st =
        .ok (st', arpLookup (clock times) ip st.arp) ∧ SameBuffers st st' := by
  induction left with
  | zero =>
    intro times st _
    refine ⟨{ st with arp := (arpFindEntry (clock times) ip st.arp).1 }, ?_,
      rfl, rfl, rfl, Nat.le_refl _⟩
    unfold arpWait
    dsimp only
    cases arpLookup (clock times) ip st.arp <;> rfl
  | succ left ih =>
    intro times st hu
    unfold arpWait
    dsimp only
    cases hl : arpLookup (clock times) ip st.arp with
    | some ethaddr =>
      exact ⟨{ st with arp := (arpFindEntry (clock times) ip st.arp).1 }, rfl,
        rfl, rfl, rfl, Nat.le_refl _⟩
    | none =>
      have hu' :
          Unused ({ st with arp := (arpFindEntry (clock times) ip st.arp).1 } : TxState).sock :=
        hu
      obtain ⟨st1, h1, hsame1, harp1, -⟩ := @arpSend_spec _ dev hu' arpopRequest dev.ipHost
        (if onLink dev ip = true then ip else dev.ipGw) (some dev.hwaddr) none none
      obtain ⟨st2, h2, hsame2⟩ := ih (times + 1) st1 (hsame1.unused hu')
      -- a request changes no table, so the next turn finds as little
      have hagain : arpLookup (clock (times + 1)) ip st1.arp = none := by
        rw [harp1]
        exact arpLookup_again hl
      rw [hagain] at h2
      refine ⟨st2, ?_, SameBuffers.trans ⟨hsame1.skb, hsame1.recv, hsame1.reads, hsame1.brk⟩ hsame2⟩
      show (arpRequest dev _ ip >>= fun st => arpWait clock dev ip left (times + 1) st) = _
      exact bind_eq_ok.mpr ⟨st1, h1, h2⟩

end Arp

/-! ## Chains -/

section Chains

variable {s s' : SockState Skbuff} {p : Option Nat} {l : List Nat} {skb : Skbuff}
  {skbs : List Skbuff}

/-- A chain is in its own cells. -/
theorem Chain.congr (h : Chain s p l skbs) (hsame : ∀ q ∈ l, s'.skb q = s.skb q) :
    Chain s' p l skbs where
  linked := h.linked.congr fun q hq => by rw [SockState.link, SockState.link, hsame q hq]
  data := by
    rw [← h.data]
    exact List.map_congr_left fun q hq => by
      rw [SockState.datagram, SockState.datagram, hsame q hq]

/-- The buffer a chain begins with. -/
theorem Chain.head {q : Nat} (h : Chain s (some q) l skbs) :
    ∃ c l' skbs', s.skb q = some c ∧ l = q :: l' ∧ skbs = c.datagram :: skbs' ∧
      Chain s c.next l' skbs' := by
  cases l with
  | nil => cases h.linked
  | cons r l =>
    obtain ⟨hqr, n, hn, hlinked⟩ := h.linked
    cases hqr
    obtain ⟨c, hc, rfl⟩ := Option.map_eq_some_iff.mp hn
    have hdata := h.data
    rw [List.map_cons, SockState.datagram_eq hc] at hdata
    cases skbs with
    | nil => cases hdata
    | cons t skbs =>
      rw [List.map_cons, List.cons.injEq, Option.some.injEq] at hdata
      exact ⟨c, l, skbs, hc, rfl, by rw [hdata.1], hlinked, hdata.2⟩

/-- A buffer in front of a chain. -/
theorem Chain.cons {q : Nat} (hq : s.skb q = some ⟨skb, p⟩) (h : Chain s p l skbs) :
    Chain s (some q) (q :: l) (skb :: skbs) where
  linked := ⟨rfl, p, SockState.link_eq hq, h.linked⟩
  data := by rw [List.map_cons, List.map_cons, SockState.datagram_eq hq, h.data]

theorem Chain.nil : Chain s none [] [] := ⟨rfl, rfl⟩

/-- An empty chain is at NULL. -/
theorem Chain.of_nil (h : Chain s p l []) : p = none ∧ l = [] := by
  have hl : l = [] := List.map_eq_nil_iff.mp h.data
  have hlinked := h.linked
  rw [hl] at hlinked
  exact ⟨hlinked, hl⟩

/-- A chain that is not empty is not at NULL. -/
theorem Chain.some_head (h : Chain s p l (skb :: skbs)) : ∃ q, p = some q := by
  have hdata := h.data
  cases l with
  | nil => cases hdata
  | cons q l => exact ⟨q, h.linked.1⟩

/-- Only the next `n` addresses have been used. -/
structure Grown (s s' : SockState Skbuff) (n : Nat) : Prop where
  old : ∀ q, q < s.brk → s'.skb q = s.skb q
  above : ∀ q, s.brk + n ≤ q → s'.skb q = s.skb q
  recv : s'.skbRecv = s.skbRecv
  reads : s'.reads = s.reads
  brk : s'.brk = s.brk + n

theorem alloc_grown (s : SockState Skbuff) (skb : Skbuff) : Grown s (s.alloc skb) 1 where
  old _ hq := SockState.skb_alloc_ne (Nat.ne_of_lt hq) skb
  above _ hq := SockState.skb_alloc_ne (Nat.ne_of_gt hq) skb
  recv := rfl
  reads := rfl
  brk := rfl

/-- The buffers that are allocated one after the other are a chain. -/
theorem allocChain_spec : ∀ (skbs : List Skbuff) (s : SockState Skbuff), skbs ≠ [] →
    Chain (s.allocChain skbs) (some s.brk) (List.range' s.brk skbs.length) skbs ∧
      Grown s (s.allocChain skbs) skbs.length
  | [], _, h => absurd rfl h
  | [skb], s, _ => ⟨Chain.nil.cons (SockState.skb_alloc_self ..), alloc_grown s skb⟩
  | skb :: skb' :: skbs, s, _ => by
    let s1 : SockState Skbuff :=
      { s with
        skb := Function.update s.skb s.brk (some ⟨skb, some (s.brk + 1)⟩)
        brk := s.brk + 1 }
    obtain ⟨hchain, hgrown⟩ := allocChain_spec (skb' :: skbs) s1 (List.cons_ne_nil _ _)
    -- the first buffer points to where the next one will be
    have hself : (s1.allocChain (skb' :: skbs)).skb s.brk = some ⟨skb, some (s.brk + 1)⟩ := by
      rw [hgrown.old s.brk (Nat.lt_succ_self _)]
      exact Function.update_self ..
    have hne : ∀ q, q ≠ s.brk → s1.skb q = s.skb q := fun q hq => Function.update_of_ne hq ..
    refine ⟨hchain.cons hself, ?_, ?_, hgrown.recv, hgrown.reads, ?_⟩
    · intro q hq
      exact (hgrown.old q (Nat.lt_succ_of_lt hq)).trans (hne q (Nat.ne_of_lt hq))
    · intro q hq
      rw [List.length_cons] at hq
      refine (hgrown.above q ?_).trans (hne q (by omega))
      show s.brk + 1 + (skb' :: skbs).length ≤ q
      omega
    · show (s1.allocChain (skb' :: skbs)).brk = _
      rw [hgrown.brk]
      show s.brk + 1 + _ = s.brk + (_ + 1)
      omega

end Chains

/-! ## A chain at the link layer -/

/-- `lowoutput` has sent the buffers of a chain, each once and in their order, and has freed
each; everything else is as it was. -/
structure SentAll (st st' : TxState) (l : List Nat) (skbs : List Skbuff) : Prop where
  sent : st'.sent = st.sent ++ skbs
  freed : ∀ q ∈ l, st'.sock.skb q = none
  others : ∀ q, q ∉ l → st'.sock.skb q = st.sock.skb q
  arp : st'.arp = st.arp
  recv : st'.sock.skbRecv = st.sock.skbRecv
  reads : st'.sock.reads = st.sock.reads

section LinkChain

variable {st : TxState} {p : Option Nat} {l : List Nat} {skbs : List Skbuff}

/-- Where there is a buffer, an address has been used. -/
theorem Unused.brk_pos {s : SockState Skbuff} (hu : Unused s) {q : Nat} {c : RecvSkb Skbuff}
    (hq : s.skb q = some c) : 0 < s.brk := by
  refine Nat.pos_of_ne_zero fun hzero => ?_
  rw [hu q (hzero ▸ Nat.zero_le q)] at hq
  cases hq

/-- **`lowoutput`** sends and frees the buffers of a chain exactly if there is but one. -/
theorem lowoutput_iff (hc : Chain st.sock p l skbs) (hne : skbs ≠ []) (hu : Unused st.sock) :
    (∃ st', lowoutput st p = .ok st' ∧ SentAll st st' l skbs) ↔ skbs.length = 1 := by
  obtain ⟨skb, rest, rfl⟩ := List.exists_cons_of_ne_nil hne
  obtain ⟨q, rfl⟩ := hc.some_head
  obtain ⟨c, l', skbs', hq, rfl, hskbs, hrest⟩ := hc.head
  rw [List.cons.injEq] at hskbs
  obtain ⟨rfl, rfl⟩ := hskbs
  rw [List.length_cons, Nat.succ_inj, List.length_eq_zero_iff]
  constructor
  · intro h
    obtain ⟨st', hok, -⟩ := h
    by_contra hrne
    -- behind the first buffer there is another, and the loop has cleared its pointer
    obtain ⟨skb', rest', rfl⟩ := List.exists_cons_of_ne_nil hrne
    obtain ⟨q', hq'⟩ := hrest.some_head
    obtain ⟨e, he⟩ := lowoutput_second hq (by rw [hq']; exact Option.some_ne_none q')
    rw [he] at hok
    cases hok
  · intro hnil
    subst hnil
    obtain ⟨hnext, rfl⟩ := hrest.of_nil
    refine ⟨_, lowoutput_one hq hnext (hu.brk_pos hq), rfl, fun r hr => ?_, fun r hr => ?_,
      rfl, rfl, rfl⟩
    · rw [List.mem_singleton.mp hr]
      exact TxState.drop_self
    · exact TxState.drop_ne fun he => hr (List.mem_singleton.mpr he)

/-- Buffers as they were allocated, one linked to the next, and nothing else. -/
def TxState.chained (skbs : List Skbuff) : TxState :=
  ⟨initArpEntry, SockState.initial.allocChain skbs, []⟩

theorem chained_spec (hne : skbs ≠ []) :
    Chain (TxState.chained skbs).sock (some 0) (List.range' 0 skbs.length) skbs ∧
      Unused (TxState.chained skbs).sock := by
  obtain ⟨hchain, hgrown⟩ := allocChain_spec skbs SockState.initial hne
  refine ⟨hchain, fun q hq => hgrown.above q ?_⟩
  rwa [← hgrown.brk]

theorem lowoutput_iff_single : ∃ st',
    lowoutput (TxState.chained [skbAlloc 60]) (some 0) = .ok st' ∧
      SentAll (TxState.chained [skbAlloc 60]) st' [0] [skbAlloc 60] :=
  have h := @chained_spec [skbAlloc 60] (List.cons_ne_nil _ _)
  (lowoutput_iff h.1 (List.cons_ne_nil _ _) h.2).mpr rfl

theorem lowoutput_pair : ¬∀ (st : TxState) (p : Option Nat) (l : List Nat) (skbs : List Skbuff),
    Chain st.sock p l skbs → skbs ≠ [] → Unused st.sock →
      ∃ st', lowoutput st p = .ok st' ∧ SentAll st st' l skbs := by
  intro h
  have hne : [skbAlloc 60, skbAlloc 60] ≠ [] := List.cons_ne_nil _ _
  obtain ⟨hchain, hu⟩ := chained_spec hne
  obtain ⟨st', hok, -⟩ := h _ _ _ _ hchain hne hu
  obtain ⟨e, he⟩ := @lowoutput_second (TxState.chained [skbAlloc 60, skbAlloc 60]) 0
    ⟨skbAlloc 60, some 1⟩ rfl (Option.some_ne_none 1)
  rw [he] at hok
  cases hok

end LinkChain

/-! ## Output -/

/-- Between `ip_output` and `output`: the chain is the packet's own buffer or new ones, and
its own buffer is in the chain or freed. -/
structure HandedOn (st st' : TxState) (p : Nat) (l : List Nat) : Prop where
  arp : st'.arp = st.arp
  recv : st'.sock.skbRecv = st.sock.skbRecv
  reads : st'.sock.reads = st.sock.reads
  brk : st.sock.brk ≤ st'.sock.brk
  others : ∀ q, q < st.sock.brk → q ≠ p → st'.sock.skb q = st.sock.skb q
  own : p ∉ l → st'.sock.skb p = none
  cells : ∀ q ∈ l, q = p ∨ st.sock.brk ≤ q
  below : ∀ q ∈ l, q < st'.sock.brk
  new : ∀ q, st.sock.brk ≤ q → q ∉ l → st'.sock.skb q = none

/-- Behind what has been handed on, nothing is allocated. -/
theorem HandedOn.unused {st st' : TxState} {p : Nat} {l : List Nat} (h : HandedOn st st' p l) :
    Unused st'.sock := by
  intro q hq
  refine h.new q (h.brk.trans hq) fun hl => ?_
  exact absurd (h.below q hl) (Nat.not_lt.mpr hq)

/-- A packet that is handed on as it is. -/
theorem HandedOn.refl {st : TxState} {p : Nat} (hlt : p < st.sock.brk) (hu : Unused st.sock) :
    HandedOn st st p [p] where
  arp := rfl
  recv := rfl
  reads := rfl
  brk := Nat.le_refl _
  others _ _ _ := rfl
  own h := absurd (List.mem_singleton_self p) h
  cells q hq := .inl (List.mem_singleton.mp hq)
  below q hq := by
    rw [List.mem_singleton.mp hq]
    exact hlt
  new q hq _ := hu q hq

/-- Its own buffer may be written before. -/
theorem HandedOn.of_write {st st' : TxState} {p : Nat} {l : List Nat} {c : RecvSkb Skbuff}
    (h : HandedOn { st with sock := st.sock.write p c } st' p l) : HandedOn st st' p l where
  arp := h.arp
  recv := h.recv
  reads := h.reads
  brk := h.brk
  others q hq hqp := (h.others q hq hqp).trans (SockState.skb_write_ne hqp ..)
  own := h.own
  cells := h.cells
  below := h.below
  new := h.new

section Output

variable {st : TxState} {dev : TxDevice} {clock : Nat → Nat} {p : Nat} {a : IpArgs}
  {c : RecvSkb Skbuff} {skbs : List Skbuff} {l : List Nat}

theorem ipFrag_error (hp : st.sock.skb p = some c) {e : TxFault}
    (h : fragments dev c.datagram = .error e) : ipFrag dev st p = .error e := by
  rw [ipFrag, TxState.deref_eq hp]
  show (fragments dev c.datagram >>= _) = _
  rw [h]
  rfl

/-- `ip_frag`: the packet's buffer is freed, and the fragments are a chain of new ones. -/
theorem ipFrag_ok (hp : st.sock.skb p = some c) (hlt : p < st.sock.brk) (hu : Unused st.sock)
    (h : fragments dev c.datagram = .ok skbs) :
    ∃ st' head l, ipFrag dev st p = .ok (st', head) ∧ Chain st'.sock head l skbs ∧
      HandedOn st st' p l := by
  have hgone : ∀ s : SockState Skbuff, s.skb p = some c →
      ({ st with sock := s } : TxState).skbFree p =
        .ok (({ st with sock := s } : TxState).drop p) :=
    fun s hs => TxState.skbFree_eq hs
  have hfrag : ∀ s head, s = st.sock.allocChain skbs → s.skb p = some c →
      head = (if skbs = [] then none else some st.sock.brk) →
      ipFrag dev st p = .ok (({ st with sock := s } : TxState).drop p, head) := by
    intro s head hs hsp hhead
    subst hs hhead
    rw [ipFrag, TxState.deref_eq hp]
    show (fragments dev c.datagram >>= _) = _
    rw [h]
    show (TxState.skbFree _ p >>= _) = _
    rw [hgone _ hsp]
    rfl
  -- without a fragment the packet is freed all the same
  by_cases hnil : skbs = []
  · subst hnil
    refine ⟨_, none, [], hfrag st.sock none rfl hp rfl, Chain.nil, rfl, rfl, rfl, Nat.le_refl _,
      fun q _ hq => TxState.drop_ne hq, fun _ => TxState.drop_self, ?_, ?_, fun q hq _ => ?_⟩
    · intro q hq
      cases hq
    · intro q hq
      cases hq
    · exact (TxState.drop_ne (Nat.ne_of_gt (Nat.lt_of_lt_of_le hlt hq))).trans (hu q hq)
  · obtain ⟨hchain, hgrown⟩ := allocChain_spec skbs st.sock hnil
    have hbrk : st.sock.brk ≤ (st.sock.allocChain skbs).brk := by
      rw [hgrown.brk]
      omega
    have hne : ∀ q, st.sock.brk ≤ q → q ≠ p := fun q hq => Nat.ne_of_gt (Nat.lt_of_lt_of_le hlt hq)
    refine ⟨_, some st.sock.brk, _, hfrag _ _ rfl ((hgrown.old p hlt).trans hp) (if_neg hnil).symm,
      hchain.congr fun q hq => TxState.drop_ne (hne q (List.mem_range'_1.mp hq).1),
      rfl, hgrown.recv, hgrown.reads, hbrk, fun q hq hqp => ?_, fun _ => TxState.drop_self,
      fun q hq => ?_,
      fun q hq => ?_, fun q hq hql => ?_⟩
    · exact (TxState.drop_ne hqp).trans (hgrown.old q hq)
    · exact .inr (List.mem_range'_1.mp hq).1
    · show q < (st.sock.allocChain skbs).brk
      rw [hgrown.brk]
      exact (List.mem_range'_1.mp hq).2
    · rw [List.mem_range'_1, not_and, Nat.not_lt] at hql
      exact (TxState.drop_ne (hne q hq)).trans ((hgrown.above q (hql hq)).trans (hu q hq))

/-- The packet with its header filled in. -/
def TxState.headed (st : TxState) (p : Nat) (a : IpArgs) (c : RecvSkb Skbuff) : TxState :=
  { st with sock := st.sock.write p { c with datagram := ipHeader a c.datagram } }

theorem TxState.headed_self : (st.headed p a c).sock.skb p =
    some { c with datagram := ipHeader a c.datagram } := SockState.skb_write_self ..

/-- `ip_output` fills the header in and then goes by the length. -/
theorem ipOutput_split (clock : Nat → Nat) (hp : st.sock.skb p = some c) :
    ipOutput clock dev st p a =
      if dev.mtu.toNat < c.datagram.totLen.toNat then
        ipFrag dev (st.headed p a c) p >>= fun r => output clock dev r.1 r.2
      else output clock dev (st.headed p a c) (some p) := by
  rw [ipOutput, TxState.modify_eq hp]
  show ((st.headed p a c).deref (some p) >>= _) = _
  rw [TxState.deref_eq TxState.headed_self]
  rfl

/-- **`ip_output`** hands a chain to `output`, the packet or its fragments. -/
theorem ipOutput_eq (clock : Nat → Nat) (hp : st.sock.skb p = some c) (hnext : c.next = none)
    (hlt : p < st.sock.brk) (hu : Unused st.sock) :
    (∃ e, ipFrames dev a c.datagram = .error e ∧ ipOutput clock dev st p a = .error e) ∨
      ∃ skbs st' head l, ipFrames dev a c.datagram = .ok skbs ∧
        ipOutput clock dev st p a = output clock dev st' head ∧
        Chain st'.sock head l skbs ∧ HandedOn st st' p l := by
  have hself := @TxState.headed_self st p a c
  have hlt1 : p < (st.headed p a c).sock.brk := hlt
  have hu1 : Unused (st.headed p a c).sock := by
    intro q hq
    exact (SockState.skb_write_ne (Nat.ne_of_gt (hlt.trans_le hq)) ..).trans (hu q hq)
  rw [ipOutput_split clock hp, ipFrames]
  split
  next =>
    -- cut up, with the header already filled in
    cases hf : fragments dev (ipHeader a c.datagram) with
    | error e =>
      rw [ipFrag_error hself hf]
      exact .inl ⟨e, rfl, rfl⟩
    | ok skbs =>
      obtain ⟨st2, head, l, hfrag, hchain, hand⟩ := ipFrag_ok hself hlt1 hu1 hf
      rw [hfrag]
      exact .inr ⟨skbs, st2, head, l, rfl, rfl, hchain, hand.of_write⟩
  next =>
    refine .inr ⟨_, _, some p, [p], rfl, rfl, Chain.nil.cons ?_,
      (HandedOn.refl hlt1 hu1).of_write⟩
    rw [hself, ← hnext]

/-- **`output`** with a chain: without an address for the next hop it leaves everything as it
is; else the chain goes to `lowoutput`, its first buffer with an Ethernet header. -/
theorem output_eq (clock : Nat → Nat) {t : Skbuff} {ts : List Skbuff}
    (hc : Chain st.sock (some p) l (t :: ts)) (hu : Unused st.sock) :
    (arpLookup (clock 0) (nextHop dev (ipDaddr t.mem t.nh)) st.arp = none ∧
      ∃ st', output clock dev st (some p) = .ok st' ∧ SameBuffers st st') ∨
    ∃ ethaddr st', arpLookup (clock 0) (nextHop dev (ipDaddr t.mem t.nh)) st.arp = some ethaddr ∧
      output clock dev st (some p) = lowoutput st' (some p) ∧
      Chain st'.sock (some p) l (linkFrames dev ethaddr (t :: ts)) ∧
      (∀ q, q ≠ p → st'.sock.skb q = st.sock.skb q) ∧ st'.sock.skbRecv = st.sock.skbRecv ∧
      st'.sock.reads = st.sock.reads ∧ st.sock.brk ≤ st'.sock.brk := by
  obtain ⟨c, l', ts', hp, rfl, hts, hrest⟩ := hc.head
  rw [List.cons.injEq] at hts
  obtain ⟨rfl, rfl⟩ := hts
  have hnot : p ∉ l' := (List.nodup_cons.mp hc.linked.nodup).1
  obtain ⟨st1, hwait, hsame⟩ := arpWait_spec clock dev
    (nextHop dev (ipDaddr c.datagram.mem c.datagram.nh)) 5 0 st hu
  have hout : output clock dev st (some p) =
      (arpLookup (clock 0) (nextHop dev (ipDaddr c.datagram.mem c.datagram.nh)) st.arp).elim
        (.ok st1) fun ethaddr =>
          st1.modify (some p) (etherHeader dev ethaddr) >>= fun st => lowoutput st (some p) := by
    rw [output, TxState.deref_eq hp]
    show (arpWait clock dev _ 5 0 st >>= _) = _
    rw [hwait]
    cases arpLookup (clock 0) (nextHop dev (ipDaddr c.datagram.mem c.datagram.nh)) st.arp <;> rfl
  rw [hout]
  cases hl : arpLookup (clock 0) (nextHop dev (ipDaddr c.datagram.mem c.datagram.nh)) st.arp with
  | none => exact .inl ⟨rfl, st1, rfl, hsame⟩
  | some ethaddr =>
    have hp1 : st1.sock.skb p = some c := by rw [hsame.skb, hp]
    rw [Option.elim_some, TxState.modify_eq hp1]
    -- only the first buffer gets an Ethernet header
    have hne : ∀ q, q ≠ p → (st1.sock.write p
        { c with datagram := etherHeader dev ethaddr c.datagram }).skb q = st.sock.skb q :=
      fun q hq => (SockState.skb_write_ne hq ..).trans (congrFun hsame.skb q)
    refine .inr ⟨ethaddr, _, rfl, rfl, ?_, hne, hsame.recv, hsame.reads, hsame.brk⟩
    refine Chain.cons (SockState.skb_write_self ..) (hrest.congr fun q hq => hne q ?_)
    intro he
    exact hnot (he ▸ hq)

end Output

end LinuxNet.Sip
