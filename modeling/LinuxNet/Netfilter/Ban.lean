import LinuxNet.Lib.Except
import LinuxNet.Lib.Memory
import LinuxNet.Lib.Run

/-!
# A kernel module that bans packets

`test.c` of example 17-1 keeps one `band_status`: an address from which nothing is
sent, a port that nothing is delivered to, and whether echo requests are answered. It
is set through `nf_sockopt_set`, an extended socket option, and consulted by two hooks.

What the kernel provides is modelled by what the module sees of it: whether the caller
has the capability, the user's memory and how much of it can be read, and the headers
of a packet as `ip_hdr` and `tcp_hdr` find them. `copy_from_user` clears what it could
not copy. The local variable it copies into has twelve bytes, and more than that is a
write outside it.

A packet is to be dropped for what was set last (`ToDropIn`, `ToDropOut`), which
`enforces_iff` compares with what the hooks do. Left out: `nf_sockopt_get`, which sets
nothing.
-/

namespace LinuxNet.Netfilter

/-- `nf_bandport`. -/
structure NfBandport where
  protocol : BitVec 16
  port : BitVec 16
  deriving DecidableEq, Repr

/-- `band_status`. -/
structure BandStatus where
  bandIp : BitVec 32
  bandPort : NfBandport
  bandPing : Byte
  deriving DecidableEq, Repr

/-- `sizeof(band_status)`. -/
def sizeofBandStatus : Nat := 12

/-- `b_status` when the module is loaded. -/
def BandStatus.initial : BandStatus := ⟨0#32, ⟨0#16, 0#16⟩, 0#8⟩

/-- A `band_status` in memory. -/
def BandStatus.ofMem (m : Mem) : BandStatus := ⟨m.u32 0, ⟨m.u16 4, m.u16 6⟩, m 8⟩

def soeBandip : BitVec 32 := 0x6001#32

def soeBandport : BitVec 32 := 0x6002#32

def soeBandping : BitVec 32 := 0x6003#32

def ipprotoIcmp : Byte := 1#8

def ipprotoTcp : Byte := 6#8

def ipprotoUdp : Byte := 17#8

/-- `IS_BANDPORT_TCP` and `IS_BANDPORT_UDP`, which differ in the protocol. -/
def IsBandport (protocol : Byte) (status : BandStatus) : Prop :=
  status.bandPort.port ≠ 0#16 ∧ status.bandPort.protocol = protocol.setWidth 16

instance (protocol : Byte) (status : BandStatus) : Decidable (IsBandport protocol status) :=
  inferInstanceAs (Decidable (_ ∧ _))

/-- `IS_BANDPORT_TCP`. -/
abbrev IsBandportTcp : BandStatus → Prop := IsBandport ipprotoTcp

/-- `IS_BANDPORT_UDP`. -/
abbrev IsBandportUdp : BandStatus → Prop := IsBandport ipprotoUdp

/-- `IS_BANDPING`. -/
abbrev IsBandping (status : BandStatus) : Prop := status.bandPing ≠ 0#8

/-- `IS_BANDIP`. -/
abbrev IsBandip (status : BandStatus) : Prop := status.bandIp ≠ 0#32

/-- A call of `nf_sockopt_set`. -/
structure Call where
  capable : Bool
  cmd : BitVec 32
  user : Mem
  /-- How many bytes at `user` can be read. -/
  readable : Nat
  len : BitVec 32
  /-- What is in the local variable before. -/
  stack : Mem

/-- The local variable after `copy_from_user`. -/
def Call.copied (c : Call) : Mem := fun i =>
  if i < c.len.toNat then if i < c.readable then c.user i else 0#8 else c.stack i

/-- `copy_from_user` into a variable of some size: the variable, and how many bytes could
not be copied. -/
def copyFromUser (size : Nat) (c : Call) : Except Fault (Mem × Nat) :=
  if size < c.len.toNat then .error .outOfBounds else .ok (c.copied, c.len.toNat - c.readable)

/-- The port that `SOE_BANDPORT` stores. -/
def storedPort (status : BandStatus) : NfBandport :=
  if IsBandportTcp status then ⟨ipprotoTcp.setWidth 16, status.bandPort.port⟩
  else if IsBandportUdp status then ⟨ipprotoUdp.setWidth 16, status.bandPort.port⟩
  else ⟨0#16, 0#16⟩

/-- The `switch` of `nf_sockopt_set`. -/
def setStatus (b : BandStatus) (cmd : BitVec 32) (status : BandStatus) : BandStatus × Int :=
  if cmd = soeBandip then
    ({ b with bandIp := if IsBandip status then status.bandIp else 0#32 }, 0)
  else if cmd = soeBandport then
    ({ b with bandPort := storedPort status }, 0)
  else if cmd = soeBandping then
    ({ b with bandPing := if IsBandping status then 1#8 else 0#8 }, 0)
  else (b, -22)

/-- `nf_sockopt_set`: the new `b_status`, and what is returned (`-EPERM` is -1, `-EINVAL`
is -22). -/
def nfSockoptSet (b : BandStatus) (c : Call) : Except Fault (BandStatus × Int) :=
  if c.capable = true then do
    let r ← copyFromUser sizeofBandStatus c
    if r.2 ≠ 0 then .ok (b, -22) else .ok (setStatus b c.cmd (.ofMem r.1))
  else .ok (b, -1)

/-- A packet: the memory from the IP header and from the TCP or UDP header on. -/
structure Skb where
  iph : Mem
  th : Mem

def Skb.saddr (skb : Skb) : BitVec 32 := skb.iph.u32 12

def Skb.protocol (skb : Skb) : Byte := skb.iph 9

/-- The destination port, which a TCP and a UDP header have at the same place. -/
def Skb.dest (skb : Skb) : BitVec 16 := skb.th.u16 2

/-- What a hook returns. -/
inductive NfVerdict where
  | drop
  | accept
  deriving DecidableEq, Repr

/-- `nf_hook_out`. -/
def nfHookOut (b : BandStatus) (skb : Skb) : NfVerdict :=
  if IsBandip b then if b.bandIp = skb.saddr then .drop else .accept else .accept

/-- `nf_hook_in`. -/
def nfHookIn (b : BandStatus) (skb : Skb) : NfVerdict :=
  if skb.protocol = ipprotoTcp then
    if IsBandportTcp b then if skb.dest = b.bandPort.port then .drop else .accept else .accept
  else if skb.protocol = ipprotoUdp then
    if IsBandportUdp b then if skb.dest = b.bandPort.port then .drop else .accept else .accept
  else if skb.protocol = ipprotoIcmp then if ¬ IsBandping b then .drop else .accept
  else .accept

/-! ## What is to hold -/

/-- The settings of a module that is loaded, call by call. -/
def nfStep (b : BandStatus) (c : Call) : Except Fault BandStatus :=
  (nfSockoptSet b c).map (·.1)

/-- A call copies no more than there is room for, and one that fails changes nothing. -/
def Behaves (b : BandStatus) (c : Call) : Prop :=
  nfSockoptSet b c ≠ .error .outOfBounds ∧
    ∀ r, nfSockoptSet b c = .ok r → r.2 ≠ 0 → r.1 = b

/-- A privileged call with a whole `band_status` that returns 0. -/
def Succeeds (b : BandStatus) (c : Call) : Prop :=
  c.capable = true ∧ c.len.toNat = sizeofBandStatus ∧ ∃ b', nfSockoptSet b c = .ok (b', 0)

/-- The last setting made with a command. -/
def lastSet (cmd : BitVec 32) (calls : List Call) : Option BandStatus :=
  (calls.filter fun c => c.cmd = cmd).getLast?.map fun c => .ofMem c.user

/-- The packets not to be delivered: to the port that was banned last for their protocol,
or an ICMP message while ping is forbidden. -/
def ToDropIn (calls : List Call) (skb : Skb) : Prop :=
  (skb.protocol = ipprotoTcp ∨ skb.protocol = ipprotoUdp) ∧
      (∃ s, lastSet soeBandport calls = some s ∧ IsBandport skb.protocol s ∧
        s.bandPort.port = skb.dest) ∨
    skb.protocol = ipprotoIcmp ∧ ∃ s, lastSet soeBandping calls = some s ∧ s.bandPing ≠ 0#8

/-- The packets not to be sent: from the address that was banned last. -/
def ToDropOut (calls : List Call) (skb : Skb) : Prop :=
  ∃ s, lastSet soeBandip calls = some s ∧ s.bandIp ≠ 0#32 ∧ s.bandIp = skb.saddr

/-- The calls behave, and if all of them succeed the hooks drop what is to be dropped. -/
def Enforces (calls : List Call) (skb : Skb) : Prop :=
  Along nfStep Behaves .initial calls ∧
    (Along nfStep Succeeds .initial calls → ∀ b, run nfStep .initial calls = .ok b →
      (nfHookIn b skb = .drop ↔ ToDropIn calls skb) ∧
      (nfHookOut b skb = .drop ↔ ToDropOut calls skb))

/-! ## A call -/

/-- A call that succeeds with a whole `band_status`. -/
def Call.Full (c : Call) : Prop :=
  c.capable = true ∧ c.len.toNat = sizeofBandStatus ∧ sizeofBandStatus ≤ c.readable ∧
    (c.cmd = soeBandip ∨ c.cmd = soeBandport ∨ c.cmd = soeBandping)

section Calls

variable {b b' : BandStatus} {c : Call} {calls : List Call} {skb : Skb}

/-- An error changes nothing. -/
theorem setStatus_error {cmd : BitVec 32} {status : BandStatus}
    (h : (setStatus b cmd status).2 ≠ 0) : (setStatus b cmd status).1 = b := by
  unfold setStatus at h ⊢
  split
  next hip =>
    rw [if_pos hip] at h
    exact absurd rfl h
  next hip =>
    rw [if_neg hip] at h
    split
    next hport =>
      rw [if_pos hport] at h
      exact absurd rfl h
    next hport =>
      rw [if_neg hport] at h
      split
      next hping =>
        rw [if_pos hping] at h
        exact absurd rfl h
      next => rfl

theorem nfSockoptSet_unprivileged (hcap : ¬ c.capable = true) :
    nfSockoptSet b c = .ok (b, -1) := if_neg hcap

theorem nfSockoptSet_over (hcap : c.capable = true) (hlen : sizeofBandStatus < c.len.toNat) :
    nfSockoptSet b c = .error .outOfBounds := by
  rw [nfSockoptSet, if_pos hcap, copyFromUser, if_pos hlen]
  rfl

theorem nfSockoptSet_within (hcap : c.capable = true) (hlen : c.len.toNat ≤ sizeofBandStatus) :
    nfSockoptSet b c = .ok (if c.len.toNat - c.readable ≠ 0 then (b, -22)
      else setStatus b c.cmd (.ofMem c.copied)) := by
  rw [nfSockoptSet, if_pos hcap, copyFromUser, if_neg (Nat.not_lt.mpr hlen)]
  exact (apply_ite Except.ok _ _ _).symm

/-- A call behaves exactly if it is not privileged, or copies what there is room for. -/
theorem behaves_iff : Behaves b c ↔ (c.capable = true → c.len.toNat ≤ sizeofBandStatus) := by
  by_cases hcap : c.capable = true
  · by_cases hlen : c.len.toNat ≤ sizeofBandStatus
    · refine iff_of_true ⟨?_, fun r hr hne => ?_⟩ fun _ => hlen
      · rw [nfSockoptSet_within hcap hlen]
        exact nofun
      · rw [nfSockoptSet_within hcap hlen] at hr
        rw [← Except.ok.inj hr] at hne ⊢
        by_cases hleft : c.len.toNat - c.readable ≠ 0
        · rw [if_pos hleft]
        · rw [if_neg hleft] at hne ⊢
          exact setStatus_error hne
    · exact iff_of_false (fun h => h.1 (nfSockoptSet_over hcap (Nat.lt_of_not_le hlen)))
        fun h => hlen (h hcap)
  · refine iff_of_true ⟨?_, fun r hr _ => ?_⟩ fun h => absurd h hcap
    · rw [nfSockoptSet_unprivileged hcap]
      exact nofun
    · rw [nfSockoptSet_unprivileged hcap] at hr
      rw [← Except.ok.inj hr]

/-- A call that behaves gets through. -/
theorem nfStep_ok (h : c.capable = true → c.len.toNat ≤ sizeofBandStatus) :
    ∃ b', nfStep b c = .ok b' := by
  unfold nfStep
  by_cases hcap : c.capable = true
  · rw [nfSockoptSet_within hcap (h hcap)]
    exact ⟨_, rfl⟩
  · rw [nfSockoptSet_unprivileged hcap]
    exact ⟨_, rfl⟩

/-- What a whole `band_status` says is what the user wrote. -/
theorem ofMem_copied (h : c.Full) : BandStatus.ofMem c.copied = .ofMem c.user := by
  have hbyte : ∀ i < sizeofBandStatus, c.copied i = c.user i := by
    intro i hi
    rw [Call.copied, if_pos (h.2.1 ▸ hi), if_pos (Nat.lt_of_lt_of_le hi h.2.2.1)]
  unfold sizeofBandStatus at hbyte
  simp only [BandStatus.ofMem, Mem.u32, Mem.u16, Nat.reduceAdd]
  rw [hbyte 0 (by decide), hbyte 1 (by decide), hbyte 2 (by decide), hbyte 3 (by decide),
    hbyte 4 (by decide), hbyte 5 (by decide), hbyte 6 (by decide), hbyte 7 (by decide),
    hbyte 8 (by decide)]

theorem nfSockoptSet_full (h : c.Full) :
    nfSockoptSet b c = .ok (setStatus b c.cmd (.ofMem c.user)) := by
  have hleft : c.len.toNat - c.readable = 0 := Nat.sub_eq_zero_of_le (h.2.1 ▸ h.2.2.1)
  rw [nfSockoptSet_within h.1 (Nat.le_of_eq h.2.1), if_neg (not_not.mpr hleft), ofMem_copied h]

/-- A call returns 0 exactly if everything is right with it. -/
theorem succeeds_iff : Succeeds b c ↔ c.Full := by
  constructor
  · intro h
    obtain ⟨hcap, hlen, b', hr⟩ := h
    rw [nfSockoptSet_within hcap (Nat.le_of_eq hlen)] at hr
    have hr := Except.ok.inj hr
    by_cases hleft : c.len.toNat - c.readable = 0
    · rw [if_neg (not_not.mpr hleft)] at hr
      refine ⟨hcap, hlen, hlen ▸ Nat.le_of_sub_eq_zero hleft, ?_⟩
      by_contra hcmd
      obtain ⟨hip, hcmd⟩ := not_or.mp hcmd
      obtain ⟨hport, hping⟩ := not_or.mp hcmd
      rw [setStatus, if_neg hip, if_neg hport, if_neg hping] at hr
      cases hr
    · rw [if_pos hleft] at hr
      cases hr
  · intro h
    refine ⟨h.1, h.2.1, ?_⟩
    rw [nfSockoptSet_full h]
    obtain ⟨-, -, -, hip | hport | hping⟩ := h
    · exact ⟨_, by rw [setStatus, if_pos hip]⟩
    · exact ⟨_, by rw [setStatus, if_neg (by rw [hport]; decide), if_pos hport]⟩
    · exact ⟨_, by rw [setStatus, if_neg (by rw [hping]; decide), if_neg (by rw [hping]; decide),
        if_pos hping]⟩

theorem nfStep_full (h : c.Full) :
    nfStep b c = .ok (setStatus b c.cmd (.ofMem c.user)).1 := by
  rw [nfStep, nfSockoptSet_full h]
  rfl

/-! ## What a run has set -/

/-- A command sets its part of `b_status` and keeps the others. -/
theorem setStatus_bandIp (b : BandStatus) (cmd : BitVec 32) (status : BandStatus) :
    (setStatus b cmd status).1.bandIp = if cmd = soeBandip then status.bandIp else b.bandIp := by
  unfold setStatus
  by_cases hip : cmd = soeBandip
  · rw [if_pos hip, if_pos hip]
    by_cases h0 : IsBandip status
    · exact if_pos h0
    · exact (if_neg h0).trans (not_not.mp h0).symm
  · rw [if_neg hip, if_neg hip]
    split
    next => rfl
    next => split <;> rfl

theorem setStatus_bandPort (b : BandStatus) (cmd : BitVec 32) (status : BandStatus) :
    (setStatus b cmd status).1.bandPort =
      if cmd = soeBandport then storedPort status else b.bandPort := by
  unfold setStatus
  by_cases hip : cmd = soeBandip
  · have hne : cmd ≠ soeBandport := by
      rw [hip]
      decide
    rw [if_pos hip]
    exact (if_neg hne).symm
  · rw [if_neg hip]
    by_cases hport : cmd = soeBandport
    · rw [if_pos hport, if_pos hport]
    · rw [if_neg hport, if_neg hport]
      split <;> rfl

theorem setStatus_bandPing (b : BandStatus) (cmd : BitVec 32) (status : BandStatus) :
    (setStatus b cmd status).1.bandPing =
      if cmd = soeBandping then (if IsBandping status then 1#8 else 0#8) else b.bandPing := by
  unfold setStatus
  by_cases hip : cmd = soeBandip
  · have hne : cmd ≠ soeBandping := by
      rw [hip]
      decide
    rw [if_pos hip]
    exact (if_neg hne).symm
  · rw [if_neg hip]
    by_cases hport : cmd = soeBandport
    · have hne : cmd ≠ soeBandping := by
        rw [hport]
        decide
      rw [if_pos hport]
      exact (if_neg hne).symm
    · rw [if_neg hport]
      split <;> rfl

/-- A part of `b_status` after a run is what the last setting of it made of it. -/
theorem run_part {α : Type} {f : BandStatus → α} {cmd : BitVec 32} {val : BandStatus → α}
    (hset : ∀ b cmd' status, f (setStatus b cmd' status).1 = if cmd' = cmd then val status else f b)
    (hfull : ∀ c ∈ calls, c.Full) (hrun : run nfStep .initial calls = .ok b) :
    f b = (lastSet cmd calls).elim (f .initial) val := by
  have hstep : ∀ c ∈ calls, ∀ b b', nfStep b c = .ok b' →
      f b' = if c.cmd = cmd then val (.ofMem c.user) else f b := by
    intro c hc b b' h
    rw [nfStep_full (hfull c hc)] at h
    rw [← Except.ok.inj h, hset]
  rw [run_last_write calls hstep hrun, lastSet]
  cases (calls.filter fun c => c.cmd = cmd).getLast? <;> rfl

/-! ## The hooks -/

/-- What is stored is the port that is banned, for the two protocols there are. -/
theorem storedPort_eq (s : BandStatus) :
    storedPort s = if IsBandportTcp s ∨ IsBandportUdp s then s.bandPort else ⟨0#16, 0#16⟩ := by
  have hsame : ∀ {protocol : Byte}, IsBandport protocol s →
      (⟨protocol.setWidth 16, s.bandPort.port⟩ : NfBandport) = s.bandPort := by
    intro protocol h
    rw [← h.2]
  unfold storedPort
  by_cases htcp : IsBandportTcp s
  · rw [if_pos htcp, if_pos (Or.inl htcp), hsame htcp]
  · rw [if_neg htcp]
    by_cases hudp : IsBandportUdp s
    · rw [if_pos hudp, if_pos (Or.inr hudp), hsame hudp]
    · rw [if_neg hudp, if_neg fun h => h.elim htcp hudp]

/-- Where the stored port is consulted it bans what was asked for. -/
theorem isBandport_stored {protocol : Byte} (hp : protocol = ipprotoTcp ∨ protocol = ipprotoUdp)
    {s : BandStatus} (hb : b.bandPort = storedPort s) (port : BitVec 16) :
    IsBandport protocol b ∧ port = b.bandPort.port ↔
      IsBandport protocol s ∧ s.bandPort.port = port := by
  unfold IsBandport
  rw [hb, storedPort_eq]
  by_cases h : IsBandportTcp s ∨ IsBandportUdp s
  · rw [if_pos h]
    exact and_congr_right fun _ => eq_comm
  · rw [if_neg h]
    refine iff_of_false (fun hn => hn.1.1 rfl) fun hs => h ?_
    rcases hp with rfl | rfl
    · exact Or.inl hs.1
    · exact Or.inr hs.1

/-- When `nf_hook_in` drops a packet. -/
theorem nfHookIn_drop : nfHookIn b skb = .drop ↔
    (skb.protocol = ipprotoTcp ∨ skb.protocol = ipprotoUdp) ∧ IsBandport skb.protocol b ∧
        skb.dest = b.bandPort.port ∨
      skb.protocol = ipprotoIcmp ∧ b.bandPing = 0#8 := by
  -- the two cases of the switch that look at the port
  have hcase : ∀ {protocol : Byte}, (protocol = ipprotoTcp ∨ protocol = ipprotoUdp) →
      skb.protocol = protocol →
      ((if IsBandport protocol b then if skb.dest = b.bandPort.port then NfVerdict.drop else .accept
        else .accept) = .drop ↔
          (skb.protocol = ipprotoTcp ∨ skb.protocol = ipprotoUdp) ∧ IsBandport skb.protocol b ∧
            skb.dest = b.bandPort.port ∨ skb.protocol = ipprotoIcmp ∧ b.bandPing = 0#8) := by
    intro protocol hp he
    have hnot : skb.protocol ≠ ipprotoIcmp := by
      rw [he]
      rcases hp with rfl | rfl <;> decide
    rw [or_iff_left fun h => hnot h.1, he, and_iff_right hp]
    by_cases hb : IsBandport protocol b
    · rw [if_pos hb, and_iff_right hb]
      by_cases hd : skb.dest = b.bandPort.port
      · exact iff_of_true (if_pos hd) hd
      · rw [if_neg hd]
        exact iff_of_false nofun hd
    · rw [if_neg hb]
      exact iff_of_false nofun fun h => hb h.1
  unfold nfHookIn
  by_cases htcp : skb.protocol = ipprotoTcp
  · rw [if_pos htcp]
    exact hcase (Or.inl rfl) htcp
  · rw [if_neg htcp]
    by_cases hudp : skb.protocol = ipprotoUdp
    · rw [if_pos hudp]
      exact hcase (Or.inr rfl) hudp
    · rw [if_neg hudp, or_iff_right fun h => h.1.elim htcp hudp]
      by_cases hicmp : skb.protocol = ipprotoIcmp
      · rw [if_pos hicmp, and_iff_right hicmp]
        by_cases hping : b.bandPing = 0#8
        · exact iff_of_true (if_pos (not_not.mpr hping)) hping
        · rw [if_neg (not_not.mpr hping)]
          exact iff_of_false nofun hping
      · rw [if_neg hicmp]
        exact iff_of_false nofun fun h => hicmp h.1

/-- When `nf_hook_out` drops a packet. -/
theorem nfHookOut_drop :
    nfHookOut b skb = .drop ↔ b.bandIp ≠ 0#32 ∧ b.bandIp = skb.saddr := by
  unfold nfHookOut
  by_cases hip : IsBandip b
  · rw [if_pos hip]
    by_cases he : b.bandIp = skb.saddr
    · rw [if_pos he]
      exact iff_of_true rfl ⟨hip, he⟩
    · rw [if_neg he]
      exact iff_of_false nofun fun h => he h.2
  · rw [if_neg hip]
    exact iff_of_false nofun fun h => hip h.1

end Calls

/-! ## The policy -/

section Policy

variable {b : BandStatus} {calls : List Call} {skb : Skb}

/-- The port of the last setting is the one that is banned. -/
theorem port_banned (hfull : ∀ c ∈ calls, c.Full) (hrun : run nfStep .initial calls = .ok b)
    {protocol : Byte} (hp : protocol = ipprotoTcp ∨ protocol = ipprotoUdp) (port : BitVec 16) :
    IsBandport protocol b ∧ port = b.bandPort.port ↔
      ∃ s, lastSet soeBandport calls = some s ∧ IsBandport protocol s ∧ s.bandPort.port = port := by
  have hb := run_part setStatus_bandPort hfull hrun
  cases hlast : lastSet soeBandport calls with
  | none =>
    rw [hlast] at hb
    refine iff_of_false (fun h => h.1.1 ?_) nofun
    rw [hb]
    rfl
  | some s =>
    rw [hlast] at hb
    rw [isBandport_stored hp hb]
    simp only [Option.some.injEq, exists_eq_left']

/-- What was set last decides whether ping is forbidden. -/
theorem ping_banned (hfull : ∀ c ∈ calls, c.Full) (hrun : run nfStep .initial calls = .ok b) :
    b.bandPing ≠ 0#8 ↔ ∃ s, lastSet soeBandping calls = some s ∧ s.bandPing ≠ 0#8 := by
  have hb := run_part setStatus_bandPing hfull hrun
  cases hlast : lastSet soeBandping calls with
  | none =>
    rw [hlast] at hb
    exact iff_of_false (not_not.mpr hb) nofun
  | some s =>
    rw [hlast] at hb
    rw [hb]
    simp only [Option.some.injEq, exists_eq_left']
    by_cases hs : s.bandPing = 0#8
    · refine iff_of_false (not_not.mpr ?_) (not_not.mpr hs)
      exact if_neg (not_not.mpr hs)
    · refine iff_of_true ?_ hs
      rw [Option.elim_some, if_pos hs]
      decide

/-- A packet that is not an ICMP message is dropped exactly if it is to be dropped. -/
theorem hookIn_iff (hfull : ∀ c ∈ calls, c.Full) (hrun : run nfStep .initial calls = .ok b)
    (hicmp : skb.protocol ≠ ipprotoIcmp) : nfHookIn b skb = .drop ↔ ToDropIn calls skb := by
  have hno : ∀ q : Prop, ¬ (skb.protocol = ipprotoIcmp ∧ q) := fun q h => hicmp h.1
  rw [nfHookIn_drop, ToDropIn, or_iff_left (hno _), or_iff_left (hno _)]
  exact and_congr_right fun hp => port_banned hfull hrun hp _

/-- An ICMP message is dropped exactly if it is not to be dropped. -/
theorem hookIn_icmp (hfull : ∀ c ∈ calls, c.Full) (hrun : run nfStep .initial calls = .ok b)
    (hicmp : skb.protocol = ipprotoIcmp) : nfHookIn b skb = .drop ↔ ¬ ToDropIn calls skb := by
  have hnot : ¬ (skb.protocol = ipprotoTcp ∨ skb.protocol = ipprotoUdp) := by
    rw [hicmp]
    decide
  have hno : ∀ q : Prop,
      ¬ ((skb.protocol = ipprotoTcp ∨ skb.protocol = ipprotoUdp) ∧ q) := fun q h => hnot h.1
  rw [nfHookIn_drop, ToDropIn, or_iff_right (hno _), or_iff_right (hno _),
    and_iff_right hicmp, and_iff_right hicmp, ← ping_banned hfull hrun, not_not]

/-- A packet is kept from being sent exactly if it is to be. -/
theorem hookOut_iff (hfull : ∀ c ∈ calls, c.Full) (hrun : run nfStep .initial calls = .ok b) :
    nfHookOut b skb = .drop ↔ ToDropOut calls skb := by
  have hb := run_part setStatus_bandIp hfull hrun
  rw [nfHookOut_drop, ToDropOut]
  cases hlast : lastSet soeBandip calls with
  | none =>
    rw [hlast] at hb
    exact iff_of_false (fun h => h.1 hb) nofun
  | some s =>
    rw [hlast] at hb
    rw [hb]
    simp only [Option.elim_some, Option.some.injEq, exists_eq_left']

/-- **When the module enforces the last settings.** The calls of a run copy no more than
there is room for and change nothing by an error, and after calls that all succeed the
hooks drop what is to be dropped, exactly if no privileged call has more than twelve bytes
and, where all succeed, the packet is not an ICMP message. -/
theorem enforces_iff (calls : List Call) (skb : Skb) :
    Enforces calls skb ↔
      (∀ c ∈ calls, c.capable = true → c.len.toNat ≤ sizeofBandStatus) ∧
        ((∀ c ∈ calls, c.Full) → skb.protocol ≠ ipprotoIcmp) := by
  have hsucc : Along nfStep Succeeds .initial calls ↔ ∀ c ∈ calls, c.Full :=
    along_iff_forall (fun b c => @succeeds_iff b c) (fun b c hc => ⟨_, @nfStep_full b c hc⟩) calls _
  have hbehaves : Along nfStep Behaves .initial calls ↔
      ∀ c ∈ calls, c.capable = true → c.len.toNat ≤ sizeofBandStatus :=
    along_iff_forall (fun b c => @behaves_iff b c) (fun b c hc => @nfStep_ok b c hc) calls _
  rw [Enforces, hbehaves, hsucc]
  refine and_congr_right fun _ => ⟨fun h hfull hicmp => ?_, fun h hfull b hrun => ?_⟩
  · obtain ⟨b, hrun⟩ := run_gets_through (fun c hc b => ⟨_, nfStep_full (hfull c hc)⟩) .initial
    have hwrong := (h hfull b hrun).1
    rw [hookIn_icmp hfull hrun hicmp] at hwrong
    exact not_iff_self hwrong
  · exact ⟨hookIn_iff hfull hrun (h hfull), hookOut_iff hfull hrun⟩

/-- An ICMP message that nobody has forbidden is dropped, and a call with 13 bytes writes
outside the local variable. -/
theorem ping_dropped :
    ¬ Enforces [] ⟨Mem.zero.write 9 [1#8], Mem.zero⟩ ∧
      ∀ skb, ¬ Enforces [⟨true, soeBandip, Mem.zero, 13, 13#32, Mem.zero⟩] skb := by
  refine ⟨fun h => ?_, fun skb h => h.1.1.1 rfl⟩
  have hdrop : ToDropIn [] _ := ((h.2 trivial _ rfl).1.mp rfl)
  rcases hdrop with ⟨hp, -⟩ | ⟨-, s, hs, -⟩
  · exact absurd hp (by decide)
  · cases hs

end Policy

end LinuxNet.Netfilter
