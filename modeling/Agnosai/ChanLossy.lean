import Agnosai.Support.Loop

/-!
# ChanLossy

Channels and the push that drops the oldest value of a full one, after `chan_lossy.cyr`. The push
is three operations on the channel, one after the other: send, and where the ring is full receive,
throw away what came, and send again. A closed channel takes nothing more, and still gives what it
holds.
-/

namespace Agnosai.ChanLossy

/-- A channel, with its oldest value first. -/
structure Chan (α : Type) where
  buf : List α := []
  closed : Bool := false

/-- What `chan_try_send` answers: 0, -1 or -2. -/
inductive SendCode where
  | stored
  | closed
  | full

/-- What `agnosai_chan_push_lossy` answers: 0, 1, `AGNOSAI_CHAN_DROPPED` or
`AGNOSAI_CHAN_CLOSED`. -/
inductive PushCode where
  | stored
  | evicted
  | dropped
  | closed

namespace Chan

variable {α : Type} {cap : Nat} {c : Chan α} {v w : α}

/-- `chan_try_send`. -/
def trySend (cap : Nat) (c : Chan α) (v : α) : SendCode × Chan α :=
  if c.closed then (.closed, c)
  else if c.buf.length < cap then (.stored, { c with buf := c.buf ++ [v] })
  else (.full, c)

/-- `chan_try_recv`: the oldest value, or nothing where there is none. -/
def tryRecv (c : Chan α) : Option α × Chan α :=
  match c.buf with
  | [] => (none, c)
  | v :: rest => (some v, { c with buf := rest })

/-- `agnosai_chan_push_lossy`. -/
def pushLossy (cap : Nat) (c : Chan α) (v : α) : PushCode × Chan α :=
  match c.trySend cap v with
  | (.stored, c) => (.stored, c)
  | (.closed, c) => (.closed, c)
  | (.full, c) =>
    match c.tryRecv.2.trySend cap v with
    | (.closed, c) => (.closed, c)
    | (.full, c) => (.dropped, c)
    | (.stored, c) => (.evicted, c)

/-- `chan_close`. -/
def close (c : Chan α) : Chan α := { c with closed := true }

/-- `agnosai_chan_reopen`. -/
def reopen (c : Chan α) : Chan α := { c with closed := false }

/-- Receive until there is nothing. -/
def drainLoop (α : Type) : Loop (Chan α) (Chan α) where
  step c :=
    match c.tryRecv with
    | (none, c) => .inr c
    | (some _, c) => .inl c
  measure c := c.buf.length
  decreasing {c c'} h := by
    unfold tryRecv at h
    cases hbuf : c.buf with
    | nil =>
      rw [hbuf] at h
      cases h
    | cons v rest =>
      rw [hbuf] at h
      cases h
      exact Nat.lt_succ_self _

def drain (c : Chan α) : Chan α := (drainLoop α).run c

/-! ### What each operation does -/

/-- A channel takes a value when it is open and has room, and is left as it is otherwise. -/
theorem trySend_cases :
    c.trySend cap v = (.closed, c) ∧ c.closed = true ∨
    c.trySend cap v = (.stored, { c with buf := c.buf ++ [v] }) ∧ c.closed = false ∧
      c.buf.length < cap ∨
    c.trySend cap v = (.full, c) ∧ c.closed = false ∧ cap ≤ c.buf.length := by
  unfold trySend
  split
  next hclosed =>
    exact .inl ⟨rfl, hclosed⟩
  next hopen =>
    have hopen := Bool.eq_false_iff.2 hopen
    split
    next hroom =>
      exact .inr (.inl ⟨rfl, hopen, hroom⟩)
    next hfull =>
      exact .inr (.inr ⟨rfl, hopen, Nat.le_of_not_lt hfull⟩)

theorem tryRecv_cases (c : Chan α) :
    c.buf = [] ∧ c.tryRecv = (none, c) ∨
      ∃ v rest, c.buf = v :: rest ∧ c.tryRecv = (some v, { c with buf := rest }) := by
  unfold tryRecv
  split
  next hnil =>
    exact .inl ⟨hnil, rfl⟩
  next v rest hcons =>
    exact .inr ⟨v, rest, hcons, rfl⟩

theorem mem_trySend (h : w ∈ (c.trySend cap v).2.buf) : w ∈ c.buf ∨ w = v := by
  obtain ⟨heq, -⟩ | ⟨heq, -⟩ | ⟨heq, -⟩ := trySend_cases
  · rw [heq] at h
    exact .inl h
  · rw [heq] at h
    obtain h | h := List.mem_append.1 h
    · exact .inl h
    · exact .inr (List.mem_singleton.1 h)
  · rw [heq] at h
    exact .inl h

theorem mem_tryRecv (h : w ∈ c.tryRecv.2.buf) : w ∈ c.buf := by
  obtain ⟨-, heq⟩ | ⟨v, rest, hbuf, heq⟩ := tryRecv_cases c
  · rwa [heq] at h
  · rw [heq] at h
    exact hbuf ▸ List.mem_cons_of_mem v h

theorem trySend_of_room (hopen : c.closed = false) (hroom : c.buf.length < cap) :
    c.trySend cap v = (.stored, { c with buf := c.buf ++ [v] }) := by
  rw [trySend, if_neg (Bool.eq_false_iff.1 hopen), if_pos hroom]

theorem trySend_of_full (hopen : c.closed = false) (hfull : ¬ c.buf.length < cap) :
    c.trySend cap v = (.full, c) := by
  rw [trySend, if_neg (Bool.eq_false_iff.1 hopen), if_neg hfull]

theorem mem_of_tryRecv (h : c.tryRecv.1 = some v) : v ∈ c.buf := by
  obtain ⟨-, heq⟩ | ⟨w, rest, hbuf, heq⟩ := tryRecv_cases c
  · rw [heq] at h
    cases h
  · rw [heq] at h
    cases h
    exact hbuf ▸ List.mem_cons_self

/-- A full ring makes room by losing its oldest value; the retry of a single producer never
fails. -/
theorem pushLossy_open (hcap : 0 < cap) (hopen : c.closed = false) (hle : c.buf.length ≤ cap) :
    c.pushLossy cap v =
      if c.buf.length < cap then (.stored, { c with buf := c.buf ++ [v] })
      else (.evicted, { c with buf := c.buf.tail ++ [v] }) := by
  split
  next hroom =>
    rw [pushLossy, trySend_of_room hopen hroom]
  next hfull =>
    obtain ⟨hnil, -⟩ | ⟨w, rest, hbuf, heq⟩ := tryRecv_cases c
    · rw [hnil] at hfull
      exact absurd hcap hfull
    · have hroom : rest.length < cap := by
        rw [hbuf] at hle
        exact hle
      have hretry := trySend_of_room (c := { c with buf := rest }) (v := v) hopen hroom
      simp [pushLossy, trySend_of_full hopen hfull, heq, hretry, hbuf]

/-- What is in the ring after a push was there, or was pushed. -/
theorem mem_pushLossy (h : w ∈ (c.pushLossy cap v).2.buf) : w ∈ c.buf ∨ w = v := by
  have hfirst : ∀ code c', c.trySend cap v = (code, c') → w ∈ c'.buf → w ∈ c.buf ∨ w = v := by
    intro code c' heq hmem
    have hmem : w ∈ (c.trySend cap v).2.buf := by rwa [heq]
    exact mem_trySend hmem
  unfold pushLossy at h
  split at h
  next c' heq =>
    exact hfirst _ c' heq h
  next c' heq =>
    exact hfirst _ c' heq h
  next c' heq =>
    have hretry : w ∈ (c'.tryRecv.2.trySend cap v).2.buf := by
      split at h <;> rename_i heq' <;> rwa [heq']
    obtain hold | hnew := mem_trySend hretry
    · exact hfirst _ c' heq (mem_tryRecv hold)
    · exact .inr hnew

theorem drain_eq : c.drain = { c with buf := [] } := by
  refine (drainLoop α).run_spec (I := fun c' => c'.closed = c.closed)
    (Q := fun c' => c' = { c with buf := [] }) ?_ ?_ rfl
  · intro c₁ c₂ hclosed hstep
    obtain ⟨-, heq⟩ | ⟨v, rest, -, heq⟩ := tryRecv_cases c₁
    · simp only [drainLoop, heq, reduceCtorEq] at hstep
    · simp only [drainLoop, heq, Sum.inl.injEq] at hstep
      exact hstep ▸ hclosed
  · intro c₁ c₂ hclosed hstep
    obtain ⟨hbuf, heq⟩ | ⟨v, rest, -, heq⟩ := tryRecv_cases c₁
    · simp only [drainLoop, heq, Sum.inr.injEq] at hstep
      rw [← hstep, ← hbuf, ← hclosed]
    · simp only [drainLoop, heq, reduceCtorEq] at hstep

/-! ### Whole runs -/

/-- A channel with what was received from it, and how many pushes answered that they evicted
something. -/
structure Ring (α : Type) where
  chan : Chan α := {}
  got : List α := []
  lost : Nat := 0

/-- A push, or a receive where there is no value. -/
def Ring.step (cap : Nat) (r : Ring α) : Option α → Ring α
  | none =>
    let (v, chan) := r.chan.tryRecv
    { r with chan, got := r.got ++ v.toList }
  | some v =>
    let (code, chan) := r.chan.pushLossy cap v
    { r with chan, lost := r.lost + match code with | .evicted => 1 | _ => 0 }

/-- Where a ring stands after the values `vs` were pushed. -/
structure Ring.Holds (cap : Nat) (r : Ring α) (vs : List α) : Prop where
  opened : r.chan.closed = false
  le : r.chan.buf.length ≤ cap
  newest : r.chan.buf <:+ vs
  inOrder : (r.got ++ r.chan.buf).Sublist vs
  counted : (r.got ++ r.chan.buf).length + r.lost = vs.length
  room : vs.length ≤ cap → r.lost = 0

variable {r : Ring α} {vs : List α}

theorem Ring.Holds.recv (h : r.Holds cap vs) : (r.step cap none).Holds cap vs := by
  obtain ⟨⟨buf, closed⟩, got, lost⟩ := r
  cases buf with
  | nil => simpa [step, tryRecv] using h
  | cons v rest =>
    obtain ⟨hopen, hle, hnewest, horder, hcount, hroom⟩ := h
    refine ⟨hopen, Nat.le_of_succ_le hle, (List.suffix_cons v rest).trans hnewest, ?_, ?_, hroom⟩
    · simpa [step, tryRecv] using horder
    · simpa [step, tryRecv] using hcount

/-- A push appends. -/
theorem Ring.Holds.push (h : r.Holds (cap + 1) vs) (v : α) :
    (r.step (cap + 1) (some v)).Holds (cap + 1) (vs ++ [v]) := by
  obtain ⟨hopen, hle, hnewest, horder, hcount, hroom⟩ := h
  have hshort := hnewest.length_le
  rw [List.length_append] at hcount
  simp only [step, pushLossy_open (Nat.succ_pos cap) hopen hle]
  split
  next hfree =>
    refine ⟨hopen, ?_, List.suffix_append_self_iff.2 hnewest, ?_, ?_, ?_⟩
    · rw [List.length_append]
      exact hfree
    · rw [← List.append_assoc]
      exact horder.append_right _
    · simp only [List.length_append, List.length_singleton]
      omega
    · rw [List.length_append]
      exact fun hfits => hroom (Nat.le_of_succ_le hfits)
  next hfull =>
    refine ⟨hopen, ?_, List.suffix_append_self_iff.2 ((List.tail_suffix _).trans hnewest),
      ?_, ?_, ?_⟩ <;>
      simp only [List.length_append, List.length_singleton, List.length_tail]
    · omega
    · rw [← List.append_assoc]
      exact (((List.tail_sublist _).append_left _).trans horder).append_right _
    · omega
    · omega

/-- **A lossy channel** over any pushes and receives: it holds the newest values, what was received
and what it holds are values pushed, in order and each once, and what is missing was evicted by
pushes that said so, which none does while no more were pushed than there is room for. -/
theorem ring_run (cap : Nat) (ops : List (Option α)) :
    (ops.foldl (Ring.step (cap + 1)) {}).Holds (cap + 1) ops.reduceOption := by
  have hrun : ∀ (r : Ring α) vs, r.Holds (cap + 1) vs →
      (ops.foldl (Ring.step (cap + 1)) r).Holds (cap + 1) (vs ++ ops.reduceOption) := by
    induction ops with
    | nil => exact fun r vs h => (List.append_nil vs).symm ▸ h
    | cons op ops ih =>
      intro r vs h
      cases op with
      | none => exact ih _ vs h.recv
      | some v => exact List.append_assoc vs [v] _ ▸ ih _ (vs ++ [v]) (h.push v)
  exact hrun {} [] ⟨rfl, Nat.zero_le _, List.suffix_rfl, .refl _, rfl, fun _ => rfl⟩

end Chan

end Agnosai.ChanLossy
