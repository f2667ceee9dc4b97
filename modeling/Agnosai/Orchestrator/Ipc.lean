import Mathlib.Data.Nat.Find
import Agnosai.Core.Bytes
import Agnosai.Support.Rounds

/-!
# Orchestrator — Ipc

Frames over a socket, after `orchestrator/ipc.cyr`: a length of four bytes, the high byte first,
and the payload. The kernel is a parameter. It may take or give fewer bytes than asked and may
interrupt any call, and on a file that is no socket it refuses `sendto`; a `Kernel.Fair` does
nothing else, and does not interrupt for ever. The loops run on fuel, and `Ends` says that enough
of it gives the result.

A stream is the bytes that were written and not yet read. What a loop does to it depends on how
many bytes are asked for and not on the kernel (`writeAll_ends`, `readAll_ends`).
-/

namespace Agnosai.Ipc

open List

/-- `AGNOSAI_IPC_MAX_FRAME_SIZE`: 16 MiB. -/
def maxFrameSize : Nat := 16777216

/-- What the kernel answers in the `i`-th turn of a loop, given how many bytes it could take or
give. -/
structure Kernel where
  sendto : Nat → Nat → Int
  write : Nat → Nat → Int
  read : Nat → Nat → Int

/-- The connection as one side sees it: the turns taken so far, the bytes in the stream, and
`_AGNOSAI_IPC_ERROR`. -/
structure Conn where
  turns : Nat
  stream : Bytes
  lastError : Option String

/-! ### The loops -/

/-- Where `_agnosai_ipc_write_all` stands: whether it still tries `sendto`, and what is left to
write. -/
structure Writing where
  useSend : Bool
  conn : Conn
  rest : Bytes

variable (kernel : Kernel)

/-- The system calls of a round: `sendto` while it is in use, and `write` once ENOTSOCK or ENOSYS,
-88 or -38, has put it out of use. -/
def sendOrWrite (useSend : Bool) (i m : Nat) : Bool × Int :=
  let sent := kernel.sendto i m
  if useSend = true ∧ sent ≠ -88 ∧ sent ≠ -38 then (true, sent) else (false, kernel.write i m)

/-- A round of `_agnosai_ipc_write_all`. EINTR is -4. -/
def writeRound (w : Writing) : Writing ⊕ (Conn × Bool) :=
  if w.rest = [] then .inr (w.conn, true)
  else
    let (useSend, n) := sendOrWrite kernel w.useSend w.conn.turns w.rest.length
    let conn := { w.conn with turns := w.conn.turns + 1 }
    if n = -4 then .inl ⟨useSend, conn, w.rest⟩
    else if n ≤ 0 then .inr (conn, false)
    else .inl ⟨useSend, { conn with stream := conn.stream ++ w.rest.take n.toNat },
      w.rest.drop n.toNat⟩

variable (conn : Conn)

/-- `_agnosai_ipc_write_all`. -/
def writeAll (buf : Bytes) : Nat → Option (Conn × Bool) :=
  rounds (writeRound kernel) ⟨true, conn, buf⟩

/-- What `_agnosai_ipc_read_all` returns: 1, -1 or 0. -/
inductive Got where
  | all (data : Bytes)
  | eof
  | failed

/-- Where `_agnosai_ipc_read_all` stands, with what it has read. -/
structure Reading where
  conn : Conn
  got : Bytes

/-- A round of `_agnosai_ipc_read_all`. -/
def readRound (len : Nat) (r : Reading) : Reading ⊕ (Conn × Got) :=
  if len ≤ r.got.length then .inr (r.conn, .all r.got)
  else
    let n := kernel.read r.conn.turns (min (len - r.got.length) r.conn.stream.length)
    let conn := { r.conn with turns := r.conn.turns + 1 }
    if n = -4 then .inl ⟨conn, r.got⟩
    else if n = 0 then .inr (conn, if r.got = [] then .eof else .failed)
    else if n < 0 then .inr (conn, .failed)
    else .inl ⟨{ conn with stream := conn.stream.drop n.toNat }, r.got ++ conn.stream.take n.toNat⟩

/-- `_agnosai_ipc_read_all`. -/
def readAll (len : Nat) : Nat → Option (Conn × Got) :=
  rounds (readRound kernel len) ⟨conn, []⟩

/-! ### Frames -/

/-- `_agnosai_ipc_fail`. -/
def Conn.fail (msg : String) : Conn := { conn with lastError := some msg }

/-- `_agnosai_ipc_too_large`. -/
def tooLarge (len : Nat) : String := s!"frame size {len} exceeds maximum {maxFrameSize}"

/-- The four bytes of a length, the high one first. -/
def header (len : Nat) : Bytes :=
  [UInt8.ofNat (len >>> 24 &&& 255), UInt8.ofNat (len >>> 16 &&& 255),
    UInt8.ofNat (len >>> 8 &&& 255), UInt8.ofNat (len &&& 255)]

/-- The length in four bytes. -/
def headerLen (hdr : Bytes) : Nat :=
  (hdr.getD 0 0).toNat <<< 24 ||| (hdr.getD 1 0).toNat <<< 16 ||| (hdr.getD 2 0).toNat <<< 8 |||
    (hdr.getD 3 0).toNat

/-- `agnosai_ipc_write_frame`; the answer is whether it returns 0. -/
def writeFrame (data : Bytes) (fuel : Nat) : Option (Conn × Bool) :=
  let conn := { conn with lastError := none }
  if maxFrameSize < data.length then some (conn.fail (tooLarge data.length), false)
  else
    (writeAll kernel conn (header data.length) fuel).bind fun (conn, ok) =>
      if ok = false then some (conn.fail "write length failed", false)
      else if data = [] then some (conn, true)
      else
        (writeAll kernel conn data fuel).bind fun (conn, ok) =>
          if ok = false then some (conn.fail "write payload failed", false) else some (conn, true)

/-- What `agnosai_ipc_read_frame` returns: a payload, `AGNOSAI_IPC_EOF` or `AGNOSAI_IPC_ERR`. -/
inductive Frame where
  | payload (data : Bytes)
  | eof
  | err

/-- `agnosai_ipc_read_frame`, where `alloc` says for which sizes there is memory. -/
def readFrame (alloc : Nat → Bool) (conn : Conn) (fuel : Nat) : Option (Conn × Frame) :=
  (readAll kernel { conn with lastError := none } 4 fuel).bind fun
    | (conn, .eof) => some (conn.fail "peer disconnected (EOF on length read)", .eof)
    | (conn, .failed) => some (conn.fail "read length failed", .err)
    | (conn, .all hdr) =>
      let len := headerLen hdr
      if len = 0 then some (conn.fail "empty frame (zero-length)", .err)
      else if maxFrameSize < len then some (conn.fail (tooLarge len), .err)
      else if alloc len = false then some (conn.fail "read payload failed", .err)
      else
        (readAll kernel conn len fuel).bind fun
          | (conn, .all data) => some (conn, .payload data)
          | (conn, .eof) | (conn, .failed) =>
            some (conn.fail s!"peer disconnected mid-frame (expected {len} bytes)", .err)

/-- Write payloads as frames, one after the other, up to the first that fails. -/
def writeFrames (kernel : Kernel) (conn : Conn) (fuel : Nat) : List Bytes → Option (Conn × Bool)
  | [] => some (conn, true)
  | p :: ps =>
    (writeFrame kernel conn p fuel).bind fun (conn, ok) =>
      if ok = false then some (conn, false) else writeFrames kernel conn fuel ps

/-- Read frames up to the first answer that is no payload: the payloads, and that answer. -/
def readFrames (kernel : Kernel) (alloc : Nat → Bool) (fuel : Nat) :
    Nat → Conn → Option (Conn × List Bytes × Frame)
  | 0, _ => none
  | n + 1, conn =>
    (readFrame kernel alloc conn fuel).bind fun
      | (conn, .payload p) =>
        (readFrames kernel alloc fuel n conn).map fun (conn, ps, last) => (conn, p :: ps, last)
      | (conn, .eof) => some (conn, [], .eof)
      | (conn, .err) => some (conn, [], .err)

/-! ### A fair kernel -/

/-- No call is interrupted in turn `j`. -/
def Kernel.Calm (j : Nat) : Prop :=
  ∀ m, kernel.sendto j m ≠ -4 ∧ kernel.write j m ≠ -4 ∧ kernel.read j m ≠ -4

/-- The kernel takes or gives at least a byte and no more than there are, or interrupts the call;
`sendto` may be refused; and no interruption lasts for ever. A read gives nothing only at the end
of the stream. -/
structure Kernel.Fair (kernel : Kernel) : Prop where
  sendto : ∀ i m, 0 < m → kernel.sendto i m = -4 ∨ kernel.sendto i m = -88 ∨
    kernel.sendto i m = -38 ∨
    1 ≤ kernel.sendto i m ∧ kernel.sendto i m ≤ m
  write : ∀ i m, 0 < m → kernel.write i m = -4 ∨ 1 ≤ kernel.write i m ∧ kernel.write i m ≤ m
  read : ∀ i m, kernel.read i m = -4 ∨ min 1 (m : Int) ≤ kernel.read i m ∧ kernel.read i m ≤ m
  calm : ∀ i, ∃ j, i ≤ j ∧ kernel.Calm j

variable {kernel : Kernel} {conn : Conn}

open Classical in
/-- How many turns there are until a calm one. -/
noncomputable def Kernel.Fair.patience (hk : kernel.Fair) (i : Nat) : Nat :=
  Nat.find (hk.calm i) - i

open Classical in
theorem Kernel.Fair.patience_lt (hk : kernel.Fair) {i : Nat} (h : ¬ kernel.Calm i) :
    hk.patience (i + 1) < hk.patience i := by
  obtain ⟨hle, hcalm⟩ := Nat.find_spec (hk.calm i)
  have hne : i ≠ Nat.find (hk.calm i) := fun heq => h (heq ▸ hcalm)
  have hmin : Nat.find (hk.calm (i + 1)) ≤ Nat.find (hk.calm i) :=
    Nat.find_min' _ ⟨Nat.succ_le_of_lt (lt_of_le_of_ne hle hne), hcalm⟩
  unfold patience
  omega

/-! ### What the loops do -/

theorem sendOrWrite_fair (hk : kernel.Fair) (useSend : Bool) (i : Nat) {m : Nat} (hm : 0 < m) :
    (sendOrWrite kernel useSend i m).2 = -4 ∧ ¬ kernel.Calm i ∨
      1 ≤ (sendOrWrite kernel useSend i m).2 ∧ (sendOrWrite kernel useSend i m).2 ≤ m := by
  unfold sendOrWrite
  dsimp only
  split
  next hsend =>
    rcases hk.sendto i m hm with h | h | h | h
    · exact .inl ⟨h, fun hcalm => (hcalm m).1 h⟩
    · exact absurd h hsend.2.1
    · exact absurd h hsend.2.2
    · exact .inr h
  · rcases hk.write i m hm with h | h
    · exact .inl ⟨h, fun hcalm => (hcalm m).2.1 h⟩
    · exact .inr h

/-- A round has nothing left to write, was interrupted, or wrote some of the bytes. -/
theorem writeRound_spec (hk : kernel.Fair) (w : Writing) :
    (w.rest = [] ∧ writeRound kernel w = .inr (w.conn, true)) ∨
      ∃ w', writeRound kernel w = .inl w' ∧
        ((¬ kernel.Calm w.conn.turns ∧ w'.conn.turns = w.conn.turns + 1 ∧
          w'.conn.stream = w.conn.stream ∧
          w'.rest = w.rest) ∨
        ∃ n, 0 < n ∧ n ≤ w.rest.length ∧ w'.conn.stream = w.conn.stream ++ w.rest.take n ∧
          w'.rest = w.rest.drop n) := by
  unfold writeRound
  split
  next hrest => exact .inl ⟨hrest, rfl⟩
  next hrest =>
    have hfair := sendOrWrite_fair hk w.useSend w.conn.turns (length_pos_iff.2 hrest)
    generalize sendOrWrite kernel w.useSend w.conn.turns w.rest.length = answer at hfair
    obtain ⟨useSend, n⟩ := answer
    dsimp only at hfair ⊢
    obtain ⟨hn, hcalm⟩ | ⟨hlow, hhigh⟩ := hfair
    · rw [if_pos hn]
      exact .inr ⟨_, rfl, .inl ⟨hcalm, rfl, rfl, rfl⟩⟩
    · rw [if_neg (by omega), if_neg (by omega)]
      exact .inr ⟨_, rfl, .inr ⟨_, by omega, by omega, rfl, rfl⟩⟩

/-- The order in which the loops go down: the bytes still to come, then the turns until a calm
one. -/
noncomputable def Kernel.Fair.before (hk : kernel.Fair) (a b : Nat × Nat) : Prop :=
  Prod.Lex (· < ·) (· < ·) (a.1, hk.patience a.2) (b.1, hk.patience b.2)

theorem Kernel.Fair.before_wf (hk : kernel.Fair) {σ : Type} (f : σ → Nat × Nat) :
    WellFounded fun s s' => hk.before (f s) (f s') :=
  InvImage.wf (fun s => ((f s).1, hk.patience (f s).2)) (Prod.lex Nat.lt_wfRel Nat.lt_wfRel).wf

/-- **Writing**: the bytes are at the end of the stream. -/
theorem writeAll_ends (hk : kernel.Fair) (conn : Conn) (buf : Bytes) :
    ∃ r, Ends (writeAll kernel conn buf) r ∧ r.2 = true ∧ r.1.stream = conn.stream ++ buf := by
  refine rounds_ends (I := fun w => w.conn.stream ++ w.rest = conn.stream ++ buf)
    (hk.before_wf fun w => (w.rest.length, w.conn.turns)) (fun w hI => ?_) rfl
  obtain ⟨hrest, hround⟩ | ⟨w', hround, hwrote⟩ := writeRound_spec hk w
  · rw [hrest, append_nil] at hI
    exact .inr ⟨_, hround, rfl, hI⟩
  · refine .inl ⟨w', hround, ?_⟩
    obtain ⟨hcalm, hturns, hstream, hrest⟩ | ⟨n, hpos, hle, hstream, hrest⟩ := hwrote
    · rw [hstream, hrest, hturns]
      exact ⟨hI, .right _ (hk.patience_lt hcalm)⟩
    · rw [hstream, hrest, append_assoc, take_append_drop]
      refine ⟨hI, .left _ _ ?_⟩
      rw [length_drop]
      omega

/-- What a read of `len` bytes gives of a stream. -/
def gotOf (len : Nat) (stream : Bytes) : Got :=
  if len ≤ stream.length then .all (stream.take len) else if stream = [] then .eof else .failed

/-- A round has what was asked for, is at the end of the stream, was interrupted, or read some of
the bytes. -/
theorem readRound_spec (hk : kernel.Fair) (len : Nat) (r : Reading) :
    (len ≤ r.got.length ∧ readRound kernel len r = .inr (r.conn, .all r.got)) ∨
      (r.got.length < len ∧ r.conn.stream = [] ∧ ∃ conn,
        readRound kernel len r = .inr (conn, if r.got = [] then .eof else .failed) ∧
          conn.stream = []) ∨
      ∃ r', readRound kernel len r = .inl r' ∧
        ((¬ kernel.Calm r.conn.turns ∧ r'.conn.turns = r.conn.turns + 1 ∧
          r'.conn.stream = r.conn.stream ∧
          r'.got = r.got) ∨
        ∃ n, 0 < n ∧ n ≤ len - r.got.length ∧ n ≤ r.conn.stream.length ∧
          r'.conn.stream = r.conn.stream.drop n ∧ r'.got = r.got ++ r.conn.stream.take n) := by
  unfold readRound
  split
  next hle => exact .inl ⟨hle, rfl⟩
  next hlt =>
    obtain hn | ⟨hlow, hhigh⟩ :=
      hk.read r.conn.turns (min (len - r.got.length) r.conn.stream.length)
    · rw [if_pos hn]
      exact .inr (.inr ⟨_, rfl, .inl ⟨fun hcalm => (hcalm _).2.2 hn, rfl, rfl, rfl⟩⟩)
    · rw [if_neg (by omega)]
      split
      · have hempty : r.conn.stream = [] := length_eq_zero_iff.1 (by omega)
        exact .inr (.inl ⟨Nat.lt_of_not_le hlt, hempty, _, rfl, hempty⟩)
      · rw [if_neg (by omega)]
        exact .inr (.inr ⟨_, rfl, .inr ⟨_, by omega, by omega, by omega, rfl, rfl⟩⟩)

/-- **Reading**: the bytes are taken off the front of the stream, or all of it where it is
shorter. -/
theorem readAll_ends (hk : kernel.Fair) (conn : Conn) (len : Nat) :
    ∃ r, Ends (readAll kernel conn len) r ∧ r.2 = gotOf len conn.stream ∧
      r.1.stream = conn.stream.drop len := by
  refine rounds_ends (I := fun r => r.got ++ r.conn.stream = conn.stream ∧ r.got.length ≤ len)
    (hk.before_wf fun r => (r.conn.stream.length, r.conn.turns)) (fun r hI => ?_)
      ⟨rfl, Nat.zero_le len⟩
  obtain ⟨hall, hle⟩ := hI
  rw [← hall]
  obtain ⟨hge, hround⟩ | ⟨hlt, hend, conn', hround, hstream⟩ | ⟨r', hround, hread⟩ :=
    readRound_spec hk len r
  · obtain rfl : r.got.length = len := le_antisymm hle hge
    refine .inr ⟨_, hround, ?_⟩
    rw [gotOf, if_pos (by simp), take_left, drop_left]
    exact ⟨rfl, rfl⟩
  · refine .inr ⟨_, hround, ?_⟩
    rw [hstream, hend, append_nil, gotOf, if_neg (not_le.2 hlt), drop_eq_nil_of_le (le_of_lt hlt)]
    exact ⟨rfl, rfl⟩
  · refine .inl ⟨r', hround, ?_⟩
    obtain ⟨hcalm, hturns, hstream, hgot⟩ | ⟨n, hpos, hlen, hlong, hstream, hgot⟩ := hread
    · rw [hstream, hgot, hturns]
      exact ⟨⟨rfl, hle⟩, .right _ (hk.patience_lt hcalm)⟩
    · rw [hstream, hgot, append_assoc, take_append_drop]
      refine ⟨⟨rfl, ?_⟩, .left _ _ ?_⟩
      · rw [length_append, length_take_of_le hlong]
        omega
      · rw [length_drop]
        omega

/-! ### What the frames do -/

def frame (p : Bytes) : Bytes := header p.length ++ p

theorem toNat_ofNat_and (n : Nat) : (UInt8.ofNat (n &&& 255)).toNat = n % 256 := by
  rw [Nat.and_two_pow_sub_one_eq_mod n 8, UInt8.toNat_ofNat']
  omega

/-- Four bytes put together are the digits of a number. -/
theorem or_bytes {a b c d : Nat} (hb : b < 256) (hc : c < 256) (hd : d < 256) :
    a <<< 24 ||| b <<< 16 ||| c <<< 8 ||| d = ((a * 256 + b) * 256 + c) * 256 + d := by
  have hor : ∀ x {y}, y < 256 → x <<< 8 ||| y = x <<< 8 + y :=
    fun x _ hy => (Nat.shiftLeft_add_eq_or_of_lt hy x).symm
  have hmerge : ∀ x y k, x <<< (8 + k) ||| y <<< k = (x <<< 8 ||| y) <<< k := fun x y k => by
    rw [Nat.shiftLeft_or_distrib, ← Nat.shiftLeft_add]
  rw [hmerge a b 16, hmerge (a <<< 8 ||| b) c 8, hor a hb, hor _ hc, hor _ hd, Nat.shiftLeft_eq,
    Nat.shiftLeft_eq, Nat.shiftLeft_eq]

/-- A length reads back from its four bytes. -/
theorem headerLen_header {len : Nat} (h : len < 4294967296) : headerLen (header len) = len := by
  have hbyte : ∀ n : Nat, n % 256 < 256 := fun n => Nat.mod_lt n (by decide)
  simp only [headerLen, header, getD_cons_zero, getD_cons_succ, toNat_ofNat_and]
  rw [or_bytes (hbyte _) (hbyte _) (hbyte _), Nat.shiftRight_eq_div_pow, Nat.shiftRight_eq_div_pow,
    Nat.shiftRight_eq_div_pow]
  omega

variable {alloc : Nat → Bool} {p : Bytes} {ps : List Bytes}

/-- A fair kernel takes the whole frame. -/
theorem writeFrame_ends (hk : kernel.Fair) (hp : p.length ≤ maxFrameSize) :
    ∃ conn', Ends (writeFrame kernel conn p) (conn', true) ∧ conn'.stream = conn.stream ++
      frame p := by
  obtain ⟨⟨conn₁, _⟩, h₁, rfl, hs₁⟩ :=
    writeAll_ends hk { conn with lastError := none } (header p.length)
  obtain ⟨⟨conn₂, _⟩, h₂, rfl, hs₂⟩ := writeAll_ends hk conn₁ p
  unfold writeFrame
  simp only [not_lt.2 hp, if_false]
  by_cases hempty : p = []
  · refine ⟨conn₁, h₁.bind ?_, by rw [hs₁, frame, hempty, append_nil]⟩
    simp only [hempty, if_true, Bool.true_eq_false, if_false]
    exact .const
  · refine ⟨conn₂, h₁.bind ?_, by rw [hs₂, hs₁, frame, append_assoc]⟩
    simp only [hempty, Bool.true_eq_false, if_false]
    exact h₂.bind (.const)

theorem writeFrames_ends (hk : kernel.Fair) (conn : Conn)
    (hps : ∀ p ∈ ps, p.length ≤ maxFrameSize) :
    ∃ conn', Ends (fun fuel => writeFrames kernel conn fuel ps) (conn', true) ∧
      conn'.stream = conn.stream ++ ps.flatMap frame := by
  induction ps generalizing conn with
  | nil => exact ⟨conn, .const, by rw [flatMap_nil, append_nil]⟩
  | cons p ps ih =>
    obtain ⟨hp, hps⟩ := forall_mem_cons.1 hps
    obtain ⟨conn₁, h₁, hs₁⟩ := writeFrame_ends hk hp
    obtain ⟨conn₂, h₂, hs₂⟩ := ih conn₁ hps
    refine ⟨conn₂, h₁.bind ?_, by rw [hs₂, hs₁, flatMap_cons, append_assoc]⟩
    exact h₂

/-- The length of a payload within the limit, read from its frame's header. -/
theorem headerLen_of_le (hp : p.length ≤ maxFrameSize) : headerLen (header p.length) = p.length :=
  headerLen_header (lt_of_le_of_lt hp (by decide))

theorem length_header (len : Nat) : (header len).length = 4 := rfl

/-- A whole frame at the front of the stream is read as its payload. -/
theorem readFrame_payload (hk : kernel.Fair) {rest : Bytes} (hconn : conn.stream = frame p ++ rest)
    (hne : p ≠ []) (hp : p.length ≤ maxFrameSize) (halloc : alloc p.length = true) :
    ∃ conn', Ends (readFrame kernel alloc conn) (conn', .payload p) ∧ conn'.stream = rest := by
  obtain ⟨⟨conn₁, _⟩, h₁, rfl, hs₁⟩ := readAll_ends hk { conn with lastError := none } 4
  obtain ⟨⟨conn₂, _⟩, h₂, rfl, hs₂⟩ := readAll_ends hk conn₁ p.length
  have hsplit : conn.stream = header p.length ++ (p ++ rest) := by rw [hconn, frame, append_assoc]
  have hgot₁ : gotOf 4 conn.stream = .all (header p.length) := by
    rw [gotOf, if_pos (by rw [hsplit, length_append, length_header]; omega), hsplit]
    rfl
  have hrest₁ : conn₁.stream = p ++ rest := by
    rw [hs₁]
    change conn.stream.drop 4 = _
    rw [hsplit]
    rfl
  have hgot₂ : gotOf p.length conn₁.stream = .all p := by
    rw [hrest₁, gotOf, if_pos (by simp), take_left]
  have hzero : p.length ≠ 0 := fun h => hne (length_eq_zero_iff.1 h)
  refine ⟨conn₂, h₁.bind ?_, by rw [hs₂, hrest₁, drop_left]⟩
  rw [hgot₁]
  simp only [headerLen_of_le hp, hzero, not_lt.2 hp, halloc, Bool.true_eq_false, if_false]
  rw [hgot₂] at h₂
  exact h₂.bind (.const)

/-- At the end of the stream there is no frame. -/
theorem readFrame_eof (hk : kernel.Fair) (hconn : conn.stream = []) :
    ∃ conn', Ends (readFrame kernel alloc conn) (conn', .eof) ∧ conn'.stream = [] := by
  obtain ⟨⟨conn₁, _⟩, h₁, rfl, hs₁⟩ := readAll_ends hk { conn with lastError := none } 4
  have hgot : gotOf 4 conn.stream = .eof := by
    rw [hconn]
    rfl
  refine ⟨conn₁.fail "peer disconnected (EOF on length read)", h₁.bind ?_, ?_⟩
  · rw [hgot]
    exact .const
  · change conn₁.stream = []
    rw [hs₁]
    change conn.stream.drop 4 = []
    rw [hconn, drop_nil]

/-- A part of a frame is an error, and all of it is read. -/
theorem readFrame_cut (hk : kernel.Fair) {missing : Bytes}
    (hframe : frame p = conn.stream ++ missing)
    (hpart : conn.stream ≠ []) (hmissing : missing ≠ []) (hp : p.length ≤ maxFrameSize)
    (halloc : alloc p.length = true) :
    ∃ conn', Ends (readFrame kernel alloc conn) (conn', .err) ∧ conn'.stream = [] := by
  obtain ⟨⟨conn₁, _⟩, h₁, rfl, hs₁⟩ := readAll_ends hk { conn with lastError := none } 4
  have hlength : conn.stream.length + missing.length = 4 + p.length := by
    rw [← length_append, ← hframe, frame, length_append, length_header]
  have hpos : 0 < missing.length := length_pos_iff.2 hmissing
  have hs₁ : conn₁.stream = conn.stream.drop 4 := hs₁
  by_cases hshort : conn.stream.length < 4
  · -- the cut is inside the length
    have hgot : gotOf 4 conn.stream =
        .failed := by rw [gotOf, if_neg (not_le.2 hshort), if_neg hpart]
    refine ⟨conn₁.fail "read length failed", h₁.bind ?_, ?_⟩
    · rw [hgot]
      exact .const
    · exact hs₁.trans (drop_eq_nil_of_le (Nat.le_of_lt hshort))
  · have hlong : 4 ≤ conn.stream.length := Nat.le_of_not_lt hshort
    have hgot₁ : gotOf 4 conn.stream = .all (header p.length) := by
      have htake : (conn.stream ++ missing).take 4 = (frame p).take 4 := by rw [hframe]
      rw [take_append_of_le_length hlong] at htake
      rw [gotOf, if_pos hlong, htake]
      rfl
    obtain ⟨⟨conn₂, _⟩, h₂, rfl, hs₂⟩ := readAll_ends hk conn₁ p.length
    have hless : conn₁.stream.length < p.length := by
      rw [hs₁, length_drop]
      omega
    refine ⟨conn₂.fail s!"peer disconnected mid-frame (expected {p.length} bytes)", h₁.bind ?_, ?_⟩
    · rw [hgot₁]
      simp only [headerLen_of_le hp, Nat.ne_of_gt (Nat.lt_of_le_of_lt (Nat.zero_le _) hless),
        Nat.not_lt.2 hp, halloc, Bool.true_eq_false, if_false]
      refine h₂.bind ?_
      rw [gotOf, if_neg (Nat.not_le.2 hless)]
      by_cases hend : conn₁.stream = []
      · rw [if_pos hend]
        exact .const
      · rw [if_neg hend]
        exact .const
    · exact hs₂.trans (drop_eq_nil_of_le (le_of_lt hless))

/-- Reading frames off a stream: their payloads, then what the rest of the stream answers. -/
theorem readFrames_ends (hk : kernel.Fair) (conn : Conn) {tail : Bytes} {last : Frame}
    (hconn : conn.stream = ps.flatMap frame ++ tail)
    (hps : ∀ p ∈ ps, p ≠ [] ∧ p.length ≤ maxFrameSize ∧ alloc p.length = true)
    (hlast : ∀ conn : Conn, conn.stream = tail →
      ∃ conn', Ends (readFrame kernel alloc conn) (conn', last) ∧ conn'.stream = [])
    (hnot : ∀ p, last ≠ .payload p) :
    ∃ conn', Ends (fun fuel => readFrames kernel alloc fuel fuel conn) (conn', ps, last) ∧
      conn'.stream = [] := by
  have hends : ∃ conn', (∃ N, ∀ fuel, N ≤ fuel → ∀ n, ps.length < n →
      readFrames kernel alloc fuel n conn = some (conn', ps, last)) ∧ conn'.stream = [] := by
    induction ps generalizing conn with
    | nil =>
      obtain ⟨conn', ⟨N, hN⟩, hs⟩ := hlast conn hconn
      refine ⟨conn', ⟨N, fun fuel hfuel n hn => ?_⟩, hs⟩
      obtain ⟨n, rfl⟩ : ∃ m, n = m + 1 := ⟨n - 1, by omega⟩
      rw [readFrames, hN fuel hfuel]
      cases last with
      | payload p => exact absurd rfl (hnot p)
      | eof => rfl
      | err => rfl
    | cons p ps ih =>
      obtain ⟨⟨hne, hp, halloc⟩, hps⟩ := forall_mem_cons.1 hps
      rw [flatMap_cons, append_assoc] at hconn
      obtain ⟨conn₁, ⟨N₁, hN₁⟩, hs₁⟩ := readFrame_payload hk hconn hne hp halloc
      obtain ⟨conn', ⟨N₂, hN₂⟩, hs⟩ := ih conn₁ hs₁ hps
      refine ⟨conn', ⟨max N₁ N₂, fun fuel hfuel n hn => ?_⟩, hs⟩
      obtain ⟨n, rfl⟩ : ∃ m, n = m + 1 := ⟨n - 1, by omega⟩
      rw [readFrames, hN₁ fuel (by omega), Option.bind_some]
      dsimp only
      rw [hN₂ fuel (by omega) n (by simpa using hn)]
      rfl
  obtain ⟨conn', ⟨N, hN⟩, hs⟩ := hends
  exact ⟨conn', ⟨max N (ps.length + 1), fun fuel hfuel => hN fuel (by omega) fuel (by omega)⟩, hs⟩

/-- **Frames read back**, whatever the two kernels do within fairness. -/
theorem frames_read_back (kernel kernel' : Kernel) (hk : kernel.Fair) (hk' : kernel'.Fair)
    (alloc : Nat → Bool) (halloc : ∀ n ≤ maxFrameSize, alloc n = true) (ps : List Bytes)
    (hps : ∀ p ∈ ps, p ≠ [] ∧ p.length ≤ maxFrameSize) :
    (∃ conn conn', Ends (fun fuel => writeFrames kernel ⟨0, [], none⟩ fuel ps) (conn, true) ∧
        conn.stream = ps.flatMap frame ∧
        Ends (fun fuel => readFrames kernel' alloc fuel fuel ⟨0, conn.stream, none⟩)
          (conn', ps, .eof)) ∧
      ∀ pre p post part missing, ps = pre ++ p :: post → frame p = part ++ missing → part ≠ [] →
        missing ≠ [] → ∃ conn', Ends
          (fun fuel => readFrames kernel' alloc fuel fuel ⟨0, pre.flatMap frame ++ part, none⟩)
          (conn', pre, .err) ∧ ∃ conn'', Ends (readFrame kernel' alloc conn') (conn'', .eof) := by
  refine ⟨?_, fun pre p post part missing heq hframe hpart hmissing => ?_⟩
  · obtain ⟨conn, hwrite, hstream⟩ := writeFrames_ends hk ⟨0, [], none⟩ fun p hp => (hps p hp).2
    have hstream : conn.stream = ps.flatMap frame := hstream
    have hall : ∀ p ∈ ps, p ≠ [] ∧ p.length ≤ maxFrameSize ∧ alloc p.length = true :=
      fun p hp => ⟨(hps p hp).1, (hps p hp).2, halloc _ (hps p hp).2⟩
    have hend : ∀ conn : Conn, conn.stream = [] →
        ∃ conn', Ends (readFrame kernel' alloc conn) (conn', .eof) ∧ conn'.stream = [] :=
      fun conn hconn => readFrame_eof hk' hconn
    obtain ⟨conn', hread, -⟩ := readFrames_ends hk' ⟨0, conn.stream, none⟩
      (by rw [hstream, append_nil]) hall hend (nofun)
    exact ⟨conn, conn', hwrite, hstream, hread⟩
  · subst heq
    have hp := (hps p (by simp)).2
    have hpre : ∀ q ∈ pre, q ≠ [] ∧ q.length ≤ maxFrameSize ∧ alloc q.length = true := by
      intro q hq
      obtain ⟨hne, hle⟩ := hps q (mem_append_left _ hq)
      exact ⟨hne, hle, halloc _ hle⟩
    have hcut : ∀ conn : Conn, conn.stream = part →
        ∃ conn', Ends (readFrame kernel' alloc conn) (conn', .err) ∧ conn'.stream = [] := by
      rintro conn rfl
      exact readFrame_cut hk' hframe hpart hmissing hp (halloc _ hp)
    obtain ⟨conn', hread, hs⟩ :=
      readFrames_ends hk' ⟨0, pre.flatMap frame ++ part, none⟩ rfl hpre hcut (nofun)
    obtain ⟨conn'', heof, -⟩ := readFrame_eof hk' hs
    exact ⟨conn', hread, conn'', heof⟩

/-- A kernel that interrupts every other call and moves a byte at a time. -/
def byteWise : Kernel where
  sendto i _ := if i % 2 = 0 then -4 else 1
  write i _ := if i % 2 = 0 then -4 else 1
  read i m := if i % 2 = 0 then -4 else min 1 (m : Int)

theorem byteWise_fair : byteWise.Fair where
  sendto i m hm := by
    simp only [byteWise]
    split <;> omega
  write i m hm := by
    simp only [byteWise]
    split <;> omega
  read i m := by
    simp only [byteWise]
    split <;> omega
  calm i := by
    refine ⟨2 * i + 1, by omega, fun m => ?_⟩
    have hodd : (2 * i + 1) % 2 ≠ 0 := by omega
    simp only [byteWise, hodd, if_false]
    omega

theorem frames_read_back_byteWise : ∃ conn conn',
    Ends (fun fuel => writeFrames byteWise ⟨0, [], none⟩ fuel [ascii "a", ascii "bc"])
      (conn, true) ∧
      conn.stream = [0, 0, 0, 1, 97, 0, 0, 0, 2, 98, 99] ∧
      Ends (fun fuel => readFrames byteWise (fun _ => true) fuel fuel ⟨0, conn.stream, none⟩)
        (conn', [ascii "a", ascii "bc"], .eof) :=
  (frames_read_back byteWise byteWise byteWise_fair byteWise_fair (fun _ => true) (fun _ _ => rfl)
    [ascii "a", ascii "bc"] (by decide)).1

end Agnosai.Ipc
