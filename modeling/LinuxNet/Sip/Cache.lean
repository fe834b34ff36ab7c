import LinuxNet.Sip.ArpMap
import LinuxNet.Sip.Heard

/-!
# The ARP cache of a running stack

What the cache holds after a run depends on the frames alone: the lookups of the send path
change nothing as long as the clock does not go back. Since no entry ever expires, it is the
first ten senders that stay, each with the hardware address it was last seen with
(`cache_keeps_first_ten`). An eleventh host can never be reached, and a frame with any
source address in its IP header, whatever else is wrong with it, redirects what is sent to
that address.
-/

namespace LinuxNet.Sip

/-! ## What the calls have told last -/

/-- The hardware address a call brings for an address. -/
def ArpCall.brings (ip : BitVec 32) (c : ArpCall) : Option (List Byte) :=
  if c.ip = ip then
    match c.op with
    | .find => none
    | .update ethaddr => some ethaddr
    | .add ethaddr => some ethaddr
  else none

/-- The hardware address that was brought last for an address. -/
def lastTold (cs : List ArpCall) (ip : BitVec 32) : Option (List Byte) :=
  (cs.filterMap (ArpCall.brings ip)).getLast?

/-- Each entry has what was brought last for its address. -/
def Latest (cs : List ArpCall) (t : ArpTable) : Prop :=
  ∀ e ∈ t, e.status = .established → lastTold cs e.ipaddr = some e.ethaddr

section Told

variable {cs : List ArpCall} {c : ArpCall} {ip : BitVec 32} {t : ArpTable}

theorem lastTold_some {ethaddr : List Byte} (h : c.brings ip = some ethaddr) :
    lastTold (cs ++ [c]) ip = some ethaddr := by
  rw [lastTold, List.filterMap_append, List.filterMap_cons_some h, List.filterMap_nil,
    List.getLast?_concat]

theorem lastTold_none (h : c.brings ip = none) : lastTold (cs ++ [c]) ip = lastTold cs ip := by
  rw [lastTold, List.filterMap_append, List.filterMap_cons_none h, List.filterMap_nil,
    List.append_nil]
  rfl

theorem brings_ne (h : c.ip ≠ ip) : c.brings ip = none := if_neg h

/-- A call that writes nothing brings nothing that the table has an entry for. -/
theorem brings_unwritten {e : ArptArp}
    (ht : arpTarget (arpFindEntry c.now c.ip t) c.op = none)
    (he : e ∈ (arpFindEntry c.now c.ip t).1) (hs : e.status = .established) :
    c.brings e.ipaddr = none := by
  by_cases hip : c.ip = e.ipaddr
  · -- so the scan has found it
    have hfound : (arpFindEntry c.now c.ip t).2 ≠ none := by
      intro hnone
      obtain ⟨i, hi⟩ := List.mem_iff_getElem?.mp he
      exact (arpFindEntry_scanned c.now c.ip t).absent hnone i ⟨e, hi, hs, hip.symm⟩
    obtain ⟨i, hi⟩ := Option.ne_none_iff_exists'.mp hfound
    rw [ArpCall.brings, if_pos hip]
    cases hop : c.op with
    | find => rfl
    | update ethaddr =>
      rw [hop, arpTarget, hi] at ht
      cases ht
    | add ethaddr =>
      rw [hop, arpTarget, arpSlot, hi] at ht
      cases ht
  · exact brings_ne hip

/-- What is written is what the call brings. -/
theorem brings_written {p : Nat × List Byte}
    (ht : arpTarget (arpFindEntry c.now c.ip t) c.op = some p) : c.brings c.ip = some p.2 := by
  rw [ArpCall.brings, if_pos rfl]
  cases hop : c.op with
  | find => rw [hop] at ht; cases ht
  | update ethaddr =>
    rw [hop] at ht
    obtain ⟨i, -, rfl⟩ := Option.map_eq_some_iff.mp ht
    rfl
  | add ethaddr =>
    rw [hop] at ht
    obtain ⟨i, -, rfl⟩ := Option.map_eq_some_iff.mp ht
    rfl

/-- **One call**, whatever the clock says. -/
theorem arpStep_latest (h : Latest cs t) (hu : Unique t) : Latest (cs ++ [c]) (arpStep t c) := by
  have hunique := unique_step c hu
  intro e he hs
  rw [arpStep_eq] at he hunique
  cases ht : arpTarget (arpFindEntry c.now c.ip t) c.op with
  | none =>
    rw [ht] at he
    rw [lastTold_none (brings_unwritten ht he hs)]
    exact h e (mem_arpFindEntry he hs) hs
  | some p =>
    rw [ht] at he hunique
    rw [Option.map_some, Option.getD_some] at he hunique
    have hlt : p.1 < (arpFindEntry c.now c.ip t).1.length := by
      rcases @arpTarget_cases _ _ _ c.op _ (arpFindEntry_scanned c.now c.ip t) with
        hno | ⟨i, ethaddr, hi, hslot⟩
      · rw [ht] at hno
        cases hno
      · rw [ht] at hi
        cases hi
        rcases hslot with ⟨x, hx, -⟩ | ⟨-, x, hx, -⟩ <;> exact (List.getElem?_eq_some_iff.mp hx).1
    obtain ⟨j, hj⟩ := List.mem_iff_getElem?.mp he
    by_cases hji : j = p.1
    · rw [hji, List.getElem?_set_self hlt] at hj
      cases hj
      exact lastTold_some (brings_written ht)
    · -- another slot is for another address, or there would be two
      have hne : c.ip ≠ e.ipaddr := by
        intro hip
        refine hji (hunique c.ip j p.1 ⟨e, hj, hs, hip.symm⟩ ?_)
        exact holds_set_self.mpr ⟨hlt, rfl, rfl⟩
      rw [List.getElem?_set_ne fun h => hji h.symm] at hj
      rw [lastTold_none (brings_ne hne)]
      exact h e (mem_arpFindEntry (List.mem_of_getElem? hj) hs) hs

/-- The calls, at any times. -/
theorem arpRun_latest (cs : List ArpCall) : Latest cs (arpRun cs) ∧ Unique (arpRun cs) := by
  induction cs using List.reverseRecOn with
  | nil =>
    refine ⟨fun e he hs => ?_, unique_init⟩
    rw [List.eq_of_mem_replicate he] at hs
    cases hs
  | append_singleton cs c ih =>
    have hrun : arpRun (cs ++ [c]) = arpStep (arpRun cs) c := List.foldl_append ..
    rw [hrun]
    exact ⟨arpStep_latest ih.1 ih.2, unique_step c ih.2⟩

/-- **The cache by its calls**: at times that do not decrease, a lookup answers what was brought
last for an address among the first ten that were added, and for no other. -/
theorem arpLookup_told {now : Nat} (hmono : (cs.map ArpCall.now ++ [now]).Pairwise (· ≤ ·)) :
    arpLookup now ip (arpRun cs) = if ip ∈ firstAdded cs then lastTold cs ip else none := by
  rcases (arpRun_tracks cs now hmono).lookup ip with ⟨hip, hl⟩ | ⟨hip, ethaddr, hl, -⟩
  · rw [if_neg hip, hl]
  · obtain ⟨e, he, hs, rfl, rfl⟩ := mem_of_lookup hl
    rw [if_pos hip, hl]
    exact ((arpRun_latest cs).1 e he hs).symm

end Told

/-! ## Whole runs -/

/-- The calls an event makes on the cache, lookups apart. -/
def StackEv.calls (dev : NetDevice) : StackEv → List ArpCall
  | .frame f => heardCalls dev f.now f.frame f.n
  | .recv _ => []
  | .output _ => []
  | .request _ => []

/-- The calls of a run. -/
def allCalls (dev : NetDevice) (es : List StackEv) : List ArpCall := es.flatMap (StackEv.calls dev)

theorem allCalls_snoc (dev : NetDevice) (es : List StackEv) (e : StackEv) :
    allCalls dev (es ++ [e]) = allCalls dev es ++ e.calls dev := by
  rw [allCalls, List.flatMap_append, List.flatMap_singleton]
  rfl

/-- A frame does not come later than a frame or a datagram behind it. -/
def StackEv.NotAfter : StackEv → StackEv → Prop
  | .frame f, .frame g => f.now ≤ g.now
  | .frame f, .output d => ∀ k, f.now ≤ d.clock k
  | _, _ => True

/-- The clock does not go back, neither between two events nor while a frame is processed. -/
structure InOrder (es : List StackEv) : Prop where
  between : es.Pairwise StackEv.NotAfter
  inside : ∀ f, StackEv.frame f ∈ es → ∀ k, f.now ≤ f.clock k

section Whole

variable {dev : TxDevice} {es : List StackEv} {st st' : Stack} {now : Nat} {ip : BitVec 32}

/-- Only frames make calls. -/
theorem calls_frame {dev : NetDevice} {e : StackEv} {c : ArpCall} (h : c ∈ e.calls dev) :
    ∃ f, e = .frame f := by
  cases e with
  | frame f => exact ⟨f, rfl⟩
  | recv conn => cases h
  | output d => cases h
  | request ip => cases h

theorem calls_now {dev : NetDevice} {f : RxFrame} {c : ArpCall}
    (h : c ∈ StackEv.calls dev (.frame f)) : c.now = f.now := by
  unfold StackEv.calls heardCalls at h
  dsimp only at h
  split at h
  next =>
    rw [List.mem_singleton.mp h]
    rfl
  next =>
    split at h
    next =>
      rcases List.mem_cons.mp h with rfl | h
      · rfl
      · split at h
        next =>
          rw [List.mem_singleton.mp h]
          rfl
        next => cases h
    next => cases h

/-- So neither do the times of the calls. -/
theorem allCalls_mono {dev : NetDevice} (horder : InOrder es)
    (hnow : ∀ f, StackEv.frame f ∈ es → f.now ≤ now) :
    ((allCalls dev es).map ArpCall.now ++ [now]).Pairwise (· ≤ ·) := by
  rw [List.pairwise_append]
  refine ⟨?_, List.pairwise_singleton .., fun x hx y hy => ?_⟩
  · rw [List.pairwise_map, allCalls, List.pairwise_flatMap]
    refine ⟨fun e _ => ?_, horder.between.imp fun {a b} hab c hc c' hc' => ?_⟩
    · refine List.pairwise_of_forall_mem_list fun c hc c' hc' => ?_
      obtain ⟨f, rfl⟩ := calls_frame hc
      rw [calls_now hc, calls_now hc']
    · obtain ⟨f, rfl⟩ := calls_frame hc
      obtain ⟨g, rfl⟩ := calls_frame hc'
      rw [calls_now hc, calls_now hc']
      exact hab
  · rw [List.mem_singleton.mp hy]
    obtain ⟨c, hc, rfl⟩ := List.mem_map.mp hx
    obtain ⟨e, he, hc⟩ := List.mem_flatMap.mp hc
    obtain ⟨f, rfl⟩ := calls_frame hc
    rw [calls_now hc]
    exact hnow f he

/-- Lookups on a clock that has not gone back leave the table as it is. -/
theorem Looked.same {clock : Nat → Nat} {t t' : ArpTable} (h : Looked clock t t')
    (hscan : ∀ k ip, (arpFindEntry (clock k) ip t).1 = t) : t' = t := by
  induction h with
  | refl => rfl
  | tail _ hstep ih =>
    obtain ⟨k, ip, rfl⟩ := hstep
    rw [ih]
    exact hscan k ip

theorem InOrder.past {e : StackEv} (h : InOrder (es ++ [e])) : InOrder es :=
  ⟨(List.pairwise_append.mp h.between).1, fun f hf => h.inside f (List.mem_append_left _ hf)⟩

/-- What is sent on a clock that has not gone back leaves the table as it is. -/
theorem Sends.same {clock : Nat → Nat} {goes : List Byte → Prop} {tx tx' : TxState}
    (h : Sends clock dev goes tx tx') (harp : tx.arp = arpRun (allCalls dev.toNetDevice es))
    (horder : InOrder es) (hclock : ∀ k f, StackEv.frame f ∈ es → f.now ≤ clock k) :
    tx'.arp = arpRun (allCalls dev.toNetDevice es) := by
  refine (h.arp.same fun k ip => ?_).trans harp
  have htracks := arpRun_tracks (allCalls dev.toNetDevice es) (clock k)
    (allCalls_mono horder (hclock k))
  rw [harp]
  exact htracks.scan (Nat.le_refl _)

/-- **One event** makes its calls on the table, and nothing else. -/
theorem stackStep_table {e : StackEv} (horder : InOrder (es ++ [e]))
    (hst : st.tx.arp = arpRun (allCalls dev.toNetDevice es))
    (h : stackStep dev st e = .ok st') :
    st'.tx.arp = arpRun (allCalls dev.toNetDevice (es ++ [e])) := by
  have hbefore : ∀ f, StackEv.frame f ∈ es → StackEv.NotAfter (.frame f) e := fun f hf =>
    (List.pairwise_append.mp horder.between).2.2 _ hf _ List.mem_cons_self
  rw [allCalls_snoc]
  cases e with
  | recv conn =>
    rw [StackEv.calls, List.append_nil, ← hst]
    unfold stackStep at h
    dsimp only at h
    split at h
    next => cases h; rfl
    next => cases h
  | output d =>
    obtain ⟨tx, hout, h⟩ := bind_eq_ok.mp h
    cases h
    have hsends : Sends d.clock dev (fun _ => True) (st.tx.alloc d.skb) tx :=
      ipOutput_sends (fun _ _ => trivial) hout
    rw [StackEv.calls, List.append_nil]
    exact hsends.same hst horder.past fun k f hf => hbefore f hf k
  | request ip =>
    obtain ⟨tx, hreq, h⟩ := bind_eq_ok.mp h
    cases h
    rw [StackEv.calls, List.append_nil, ← hst]
    exact (arpSend_ok hreq).1
  | frame f =>
    rw [← allCalls_snoc]
    have hcalls : (heardCalls dev.toNetDevice f.now f.frame f.n).foldl arpStep st.tx.arp =
        arpRun (allCalls dev.toNetDevice (es ++ [.frame f])) := by
      rw [hst, allCalls_snoc, arpRun, arpRun, List.foldl_append]
      rfl
    have hsends := @stackInput_sends f.clock f.now f.n dev (fun _ => True) st st' f.frame
      (fun _ _ => trivial) (fun _ => trivial) h
    refine hsends.same hcalls horder fun k g hg => ?_
    have hinside := horder.inside f (List.mem_append_right _ List.mem_cons_self) k
    rcases List.mem_append.mp hg with hg | hg
    · exact Nat.le_trans (hbefore g hg) hinside
    · cases List.mem_singleton.mp hg
      exact hinside

/-- **The cache of a running stack**: in every run of frames, reads, datagrams and requests from
an empty cache on a clock that does not go back, a lookup afterwards answers for the first ten
addresses that frames have named as their sender, with the hardware address brought last for it,
and for no other address. -/
theorem cache_keeps_first_ten (harp : st.tx.arp = initArpEntry)
    (h : run (stackStep dev) st es = .ok st') (horder : InOrder es)
    (hnow : ∀ f, StackEv.frame f ∈ es → f.now ≤ now) :
    arpLookup now ip st'.tx.arp =
      if ip ∈ firstAdded (allCalls dev.toNetDevice es) then
        lastTold (allCalls dev.toNetDevice es) ip
      else none := by
  have hstep : ∀ (past : List StackEv) (s : Stack) (e : StackEv) (s' : Stack),
      (InOrder past → s.tx.arp = arpRun (allCalls dev.toNetDevice past)) →
      stackStep dev s e = .ok s' →
      InOrder (past ++ [e]) → s'.tx.arp = arpRun (allCalls dev.toNetDevice (past ++ [e])) :=
    fun past s e s' hs h1 ho => stackStep_table ho (hs ho.past) h1
  have hend := @run_history _ _ _ _
    (fun past s => InOrder past → s.tx.arp = arpRun (allCalls dev.toNetDevice past)) hstep es []
    st st' (fun _ => harp) h horder
  rw [List.nil_append] at hend
  rw [hend]
  exact arpLookup_told (allCalls_mono horder hnow)

/-- The sender of a request is looked up a second later. -/
theorem cache_keeps_first_ten_sender :
    ∃ st', run (stackStep zeroHost) quietStack [.frame requestRx] = .ok st' ∧
      arpLookup 1000000001 0x0200000A#32 st'.tx.arp = some (List.replicate 6 0x02#8) := by
  obtain ⟨st', hok, -⟩ := @stackInput_arp (fun _ => 1000000000) 1000000000 42 zeroHost
    quietStack requestFrame quiet_unused (by decide) (by decide)
  have hstep : stackStep zeroHost quietStack (.frame requestRx) = .ok st' := hok
  have hrun : run (stackStep zeroHost) quietStack [.frame requestRx] = .ok st' :=
    (run_cons_ok hstep).trans (run_nil st')
  have honly : ∀ f, StackEv.frame f ∈ [StackEv.frame requestRx] → f = requestRx := by
    intro f hf
    cases List.mem_singleton.mp hf
    rfl
  have horder : InOrder [.frame requestRx] := by
    refine ⟨List.pairwise_singleton .., fun f hf k => ?_⟩
    rw [honly f hf]
    exact Nat.le_refl _
  have hnow : ∀ f, StackEv.frame f ∈ [StackEv.frame requestRx] → f.now ≤ 1000000001 := by
    intro f hf
    rw [honly f hf]
    decide
  refine ⟨st', hrun, ?_⟩
  rw [cache_keeps_first_ten rfl hrun horder hnow]
  decide

end Whole

end LinuxNet.Sip
