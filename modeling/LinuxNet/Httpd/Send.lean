import LinuxNet.Lib.Transfer
import LinuxNet.Lib.Memory

/-!
# `sendChunk`

All output of the server goes through `sendChunk`, which calls `send` until a
buffer is on the socket. What `send` gives back is an `Answer`: some of the
bytes offered are taken, `EAGAIN`, or an error that is not transient.

The first call stands in front of the loop and treats errors as the loop does,
with one exception: an error it does not know is reported and not returned. The
`-1` of `send` is added to `totalSent`, and the loop goes on one byte in front
of the buffer. So `sendChunk` is a transfer of the buffer (`Lib.Transfer`), or
of the buffer and the byte before it (`sendChunk_exact`).

A run with too few results of `send` is one that is still in the loop, and has
no return value.
-/

namespace LinuxNet.Httpd

/-- The errors `sendChunk` tells apart, besides `EAGAIN`. -/
inductive SendError where
  | epipe
  | ebadf
  /-- Any other `errno`. -/
  | other
  deriving DecidableEq, Repr

/-- What the calls of `send` give back, in order. -/
abbrev Sends := List (Answer SendError)

/-- What comes of `sendChunk`. -/
structure SendRun where
  /-- The value returned, if the loop has ended. -/
  ret : Option Int
  /-- The bytes that went out, in order. -/
  wire : List Byte
  /-- The results of `send` that have not been used. -/
  sends : Sends
  deriving DecidableEq, Repr

/-- The `n` bytes from place `o` of a buffer on; places in front of it are negative. -/
def span (buff : Int → Byte) (o : Int) (n : Nat) : List Byte :=
  (List.range n).map fun (i : Nat) => buff (o + i)

/-- `send(sock, buff + o, n, 0)` taking at most `k`: the bytes that go out. `send` returns
their number. -/
def sent (buff : Int → Byte) (o : Int) (n k : Nat) : List Byte := (span buff o n).take k

/-- The `while` loop of `sendChunk`, from `totalSent` on. -/
def sendLoop (buff : Int → Byte) (len : Nat) : Int → Sends → SendRun
  | totalSent, [] => if totalSent < len then ⟨none, [], []⟩ else ⟨some len, [], []⟩
  | totalSent, r :: rs =>
    if totalSent < len then
      match r with
      | .takes k =>
        let out := sent buff totalSent (len - totalSent).toNat k
        let next := sendLoop buff len (totalSent + out.length) rs
        { next with wire := out ++ next.wire }
      | .again => sendLoop buff len totalSent rs
      | .fails _ => ⟨some (-1), [], rs⟩
    else ⟨some len, [], r :: rs⟩

/-- `sendChunk(sock, buff, len)`. -/
def sendChunk (buff : Int → Byte) (len : Nat) : Sends → SendRun
  | [] => ⟨none, [], []⟩
  | .takes k :: rs =>
    let out := sent buff 0 len k
    if out.length < len then
      let next := sendLoop buff len out.length rs
      { next with wire := out ++ next.wire }
    else ⟨some len, out, rs⟩
  | .again :: rs => sendLoop buff len 0 rs
  | .fails .epipe :: rs => ⟨some (-1), [], rs⟩
  | .fails .ebadf :: rs => ⟨some (-1), [], rs⟩
  -- reported, but not returned
  | .fails .other :: rs => sendLoop buff len (-1) rs

/-! ## The loop is a transfer -/

theorem length_span (buff : Int → Byte) (o : Int) (n : Nat) : (span buff o n).length = n := by
  rw [span, List.length_map, List.length_range]

theorem drop_span (buff : Int → Byte) (o : Int) (n k : Nat) :
    (span buff o n).drop k = span buff (o + k) (n - k) := by
  apply List.ext_getElem
  · rw [List.length_drop, length_span, length_span]
  · intro i h₁ h₂
    simp only [span, List.getElem_drop, List.getElem_map, List.getElem_range]
    congr 1
    push_cast
    omega

/-- What `sendChunk` makes of a transfer of `len` bytes. -/
def SendRun.ofDrained (len : Nat) (d : Drained Byte SendError) : SendRun :=
  ⟨if d.left = [] then some len else d.failure.map fun _ => -1, d.moved, d.answers⟩

/-- The loop hands over what is left of the buffer. -/
theorem sendLoop_eq_drain (buff : Int → Byte) (len : Nat) (rs : Sends) :
    ∀ (totalSent : Int) (todo : List Byte), totalSent ≤ len →
      todo = span buff totalSent (len - totalSent).toNat →
      sendLoop buff len totalSent rs = SendRun.ofDrained len (drain rs todo) := by
  induction rs with
  | nil =>
    intro totalSent todo hle htodo
    have hlen := congrArg List.length htodo
    rw [length_span] at hlen
    unfold sendLoop
    cases todo with
    | nil => rw [if_neg (by rw [List.length_nil] at hlen; omega)]; rfl
    | cons x xs => rw [if_pos (by rw [List.length_cons] at hlen; omega)]; rfl
  | cons r rs ih =>
    intro totalSent todo hle htodo
    have hlen := congrArg List.length htodo
    rw [length_span] at hlen
    unfold sendLoop
    cases todo with
    | nil => rw [if_neg (by rw [List.length_nil] at hlen; omega)]; rfl
    | cons x xs =>
      rw [if_pos (by rw [List.length_cons] at hlen; omega)]
      cases r with
      | takes k =>
        have hout : sent buff totalSent (len - totalSent).toNat k = (x :: xs).take k := by
          rw [sent, ← htodo]
        have hk : ((x :: xs).take k).length = min k (len - totalSent).toNat := by
          rw [List.length_take, hlen]
        -- what the next turn finds left
        have hrest : (x :: xs).drop k = span buff (totalSent + ((x :: xs).take k).length)
            (len - (totalSent + ((x :: xs).take k).length)).toNat := by
          rw [hk, htodo, drop_span]
          rcases Nat.le_total k (len - totalSent).toNat with h | h
          · rw [Nat.min_eq_left h]
            congr 1
            omega
          · rw [Nat.min_eq_right h, Nat.sub_eq_zero_of_le h, show
              ((len : Int) - (totalSent + ((len - totalSent).toNat : Nat))).toNat = 0 by omega]
            rfl
        simp only [hout]
        rw [ih _ ((x :: xs).drop k) (by rw [hk]; omega) hrest]
        rfl
      | again => exact ih totalSent (x :: xs) hle htodo
      | fails e => rfl

/-- What `sendChunk` transfers: the buffer, and the byte in front of it after an unknown error
of the first call. -/
def toSend (buff : Int → Byte) (len : Nat) (sends : Sends) : List Byte :=
  if sends.head? = some (.fails .other) then span buff (-1) (len + 1) else span buff 0 len

/-- The results that count: an unknown error of the first call does not. -/
def counting (sends : Sends) : Sends :=
  if sends.head? = some (.fails .other) then sends.tail else sends

theorem sendChunk_eq_drain (buff : Int → Byte) {len : Nat} (hlen : 0 < len) (sends : Sends) :
    sendChunk buff len sends
      = SendRun.ofDrained len (drain (counting sends) (toSend buff len sends)) := by
  have hspan := length_span buff 0 len
  have hpos : span buff 0 len ≠ [] := by
    intro h
    rw [h, List.length_nil] at hspan
    omega
  obtain ⟨x, xs, hx⟩ := List.exists_cons_of_ne_nil hpos
  have hloop : ∀ (out : Nat) (rs : Sends), out ≤ len →
      sendLoop buff len out rs = SendRun.ofDrained len (drain rs ((x :: xs).drop out)) := by
    intro out rs ho
    apply sendLoop_eq_drain buff len rs out _ (by omega)
    rw [← hx, drop_span, Int.zero_add]
    congr 1
    omega
  cases sends with
  | nil =>
    show (⟨none, [], []⟩ : SendRun) = SendRun.ofDrained len (drain [] (span buff 0 len))
    rw [hx]
    rfl
  | cons r rs =>
    cases r with
    | takes k =>
      show _ = SendRun.ofDrained len (drain (.takes k :: rs) (span buff 0 len))
      have hout : (sent buff 0 len k).length = min k len := by
        rw [sent, List.length_take, hspan]
      rw [sendChunk, hout, hx]
      split
      next hlt =>
        rw [hloop (min k len) rs (by omega), Nat.min_eq_left (by omega)]
        simp only [sent, hx]
        rfl
      next hge =>
        -- all of it in one call
        have hk : len ≤ k := by omega
        rw [drain, List.drop_eq_nil_of_le (by rw [← hx, hspan]; exact hk), drain_nil]
        simp only [sent, hx, SendRun.ofDrained, List.append_nil]
        rfl
    | again =>
      show sendLoop buff len 0 rs = SendRun.ofDrained len (drain (.again :: rs) (span buff 0 len))
      rw [hx]
      exact hloop 0 rs (Nat.zero_le _)
    | fails e =>
      cases e with
      | epipe =>
        show _ = SendRun.ofDrained len (drain (.fails .epipe :: rs) (span buff 0 len))
        rw [hx]
        rfl
      | ebadf =>
        show _ = SendRun.ofDrained len (drain (.fails .ebadf :: rs) (span buff 0 len))
        rw [hx]
        rfl
      | other =>
        show sendLoop buff len (-1) rs = SendRun.ofDrained len (drain rs (span buff (-1) (len + 1)))
        apply sendLoop_eq_drain buff len rs (-1) _ (by omega)
        congr 1

/-- Whatever the calls of `send` take and however often they time out, what `sendChunk` puts on
the socket is the beginning of what it has to send, as much as the calls take. It returns `len`
when that is all of it and `-1` when a call fails before that; else it is still in the loop.
What it has to send is the buffer, or, when the first call fails with an error it does not
know, the byte in front of the buffer and then the buffer. -/
theorem sendChunk_exact (buff : Int → Byte) {len : Nat} (hlen : 0 < len) (sends : Sends) :
    (sendChunk buff len sends).wire
        = (toSend buff len sends).take (offered (counting sends)) ∧
      (sendChunk buff len sends).ret
        = if (toSend buff len sends).length ≤ offered (counting sends) then some (len : Int)
          else (firstFailure (counting sends)).map fun _ => -1 := by
  rw [sendChunk_eq_drain buff hlen]
  refine ⟨drain_moved _ _, ?_⟩
  simp only [SendRun.ofDrained, drain_left, drain_failure]
  split
  next => rfl
  next => rfl

theorem sendChunk_exact_at :
    (sendChunk (fun i => BitVec.ofInt 8 (i + 65)) 3 [.fails .other, .takes 2, .again, .takes 9]).wire
        = (toSend (fun i => BitVec.ofInt 8 (i + 65)) 3
            [.fails .other, .takes 2, .again, .takes 9]).take
          (offered (counting [.fails .other, .takes 2, .again, .takes 9])) ∧
      (sendChunk (fun i => BitVec.ofInt 8 (i + 65)) 3
          [.fails .other, .takes 2, .again, .takes 9]).ret
        = if (toSend (fun i => BitVec.ofInt 8 (i + 65)) 3
              [.fails .other, .takes 2, .again, .takes 9]).length
            ≤ offered (counting [.fails .other, .takes 2, .again, .takes 9]) then some ((3 : Nat) : Int)
          else (firstFailure (counting [.fails .other, .takes 2, .again, .takes 9])).map fun _ => -1 :=
  sendChunk_exact (fun i => BitVec.ofInt 8 (i + 65)) (by decide)
    [.fails .other, .takes 2, .again, .takes 9]

/-- After an unknown error of the first call, the byte in front of the buffer goes out too. -/
example : (sendChunk (fun i => BitVec.ofInt 8 (i + 65)) 3
    [.fails .other, .takes 2, .again, .takes 9]).wire = [64#8, 65#8, 66#8, 67#8] := by decide

end LinuxNet.Httpd
