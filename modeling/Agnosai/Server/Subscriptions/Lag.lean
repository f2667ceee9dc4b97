import Agnosai.ChanLossy
import Agnosai.Server.Sse

/-!
# Server — Subscriptions — Lag

One subscription between the sends of its crew and its reader, with each operation on the channel
and each load and store of the lag count a step of its own. The bus's mutex lets one send be under
way at a time. The reader takes no lock: it receives, and it takes the lag count with a load and
clears it with a store. Sends are numbered, so that what was received can be compared with what
was sent.

Three things disturb the balance (`balanced_iff`): the reader empties a full ring before the push
has evicted anything, so that nothing was lost and one is counted; and a store to the lag count
that comes after another one since its load, by which a loss is forgotten or counted again.
-/

namespace Agnosai.Subscriptions

open Sse ChanLossy Chan List

/-- An event, with the number of its send. -/
abbrev Numbered : Type := CrewEvent × Nat

/-- Where a send stands. -/
inductive Sending where
  | idle
  /-- About to send. -/
  | trying (v : Numbered)
  /-- The ring was full, and is about to lose its oldest. -/
  | evicting (v : Numbered)
  /-- About to send again. -/
  | retrying (v : Numbered)
  /-- The push lost something: about to load the lag count. -/
  | loading
  /-- About to store the count after `n`. -/
  | storing (n : Nat)

/-- Where the reader stands. -/
inductive Reading where
  | idle
  /-- It loaded `n` from the lag count, and is about to clear it. -/
  | clearing (n : Nat)

/-- One subscription. -/
structure Feed where
  chan : Chan Numbered := {}
  lagged : Nat := 0
  sending : Sending := .idle
  reading : Reading := .idle
  /-- What was sent since the subscription. -/
  sent : List CrewEvent := []
  received : List Numbered := []
  /-- The sum of what `agnosai_event_sub_lagged` answered. -/
  reported : Nat := 0

inductive FeedAct where
  /-- `agnosai_event_sender_send` comes to the subscription. -/
  | send (e : CrewEvent)
  /-- The operations of `agnosai_chan_push_lossy`. -/
  | trySend
  | evict
  | retry
  /-- The sender loads the lag count, and stores it raised. -/
  | load
  | store
  /-- `agnosai_event_sub_try_recv`. -/
  | recv
  /-- The load and the store of `agnosai_event_sub_lagged`. -/
  | loadLag
  | clear

def feedStep (s : Feed) : FeedAct → Option Feed
  | .send e =>
    match s.sending with
    | .idle => some { s with sent := s.sent ++ [e], sending := .trying (e, s.sent.length) }
    | _ => none
  | .trySend =>
    match s.sending with
    | .trying v =>
      match s.chan.trySend channelCapacity v with
      | (.stored, chan) | (.closed, chan) => some { s with chan, sending := .idle }
      | (.full, chan) => some { s with chan, sending := .evicting v }
    | _ => none
  | .evict =>
    match s.sending with
    | .evicting v => some { s with chan := s.chan.tryRecv.2, sending := .retrying v }
    | _ => none
  | .retry =>
    match s.sending with
    | .retrying v =>
      match s.chan.trySend channelCapacity v with
      | (.closed, chan) => some { s with chan, sending := .idle }
      | (.full, chan) | (.stored, chan) => some { s with chan, sending := .loading }
    | _ => none
  | .load =>
    match s.sending with
    | .loading => some { s with sending := .storing s.lagged }
    | _ => none
  | .store =>
    match s.sending with
    | .storing n => some { s with lagged := n + 1, sending := .idle }
    | _ => none
  | .recv =>
    match s.reading with
    | .idle =>
      let (v, chan) := s.chan.tryRecv
      some { s with chan, received := s.received ++ v.toList }
    | _ => none
  | .loadLag =>
    match s.reading with
    | .idle => some { s with reading := .clearing s.lagged }
    | _ => none
  | .clear =>
    match s.reading with
    | .clearing n => some { s with lagged := 0, reported := s.reported + n, reading := .idle }
    | _ => none

def feed : Machine Feed FeedAct := ⟨feedStep⟩

/-! ### What a step does -/

inductive FeedTrans (s : Feed) : FeedAct → Feed → Prop where
  | sent {e} (hs : s.sending = .idle) :
      FeedTrans s (.send e) { s with sent := s.sent ++ [e], sending := .trying (e, s.sent.length) }
  | stored {v} (hs : s.sending = .trying v) (hroom : s.chan.buf.length < channelCapacity) :
      FeedTrans s .trySend { s with
        chan := { s.chan with buf := s.chan.buf ++ [v] }, sending := .idle }
  | full {v} (hs : s.sending = .trying v) : FeedTrans s .trySend { s with sending := .evicting v }
  | evicted {v} (hs : s.sending = .evicting v) :
      FeedTrans s .evict { s with chan := s.chan.tryRecv.2, sending := .retrying v }
  | retried {v} (hs : s.sending = .retrying v) (hroom : s.chan.buf.length < channelCapacity) :
      FeedTrans s .retry { s with
        chan := { s.chan with buf := s.chan.buf ++ [v] }, sending := .loading }
  | dropped {v} (hs : s.sending = .retrying v) (hfull : channelCapacity ≤ s.chan.buf.length) :
      FeedTrans s .retry { s with sending := .loading }
  | refused {act v}
      (hs : act = .trySend ∧ s.sending = .trying v ∨ act = .retry ∧ s.sending = .retrying v)
      (hclosed : s.chan.closed = true) : FeedTrans s act { s with sending := .idle }
  | loaded (hs : s.sending = .loading) : FeedTrans s .load { s with sending := .storing s.lagged }
  | raised {n} (hs : s.sending = .storing n) :
      FeedTrans s .store { s with lagged := n + 1, sending := .idle }
  | received (hr : s.reading = .idle) :
      FeedTrans s .recv
        { s with chan := s.chan.tryRecv.2, received := s.received ++ s.chan.tryRecv.1.toList }
  | told (hr : s.reading = .idle) : FeedTrans s .loadLag { s with reading := .clearing s.lagged }
  | cleared {n} (hr : s.reading = .clearing n) :
      FeedTrans s .clear { s with lagged := 0, reported := s.reported + n, reading := .idle }

/-- **Inversion of a step.** -/
theorem feedStep_trans {s s' : Feed} {act : FeedAct} (h : feed.step s act = some s') :
    FeedTrans s act s' := by
  cases act with
  | send | evict | load | store | recv | loadLag | clear =>
    simp only [feed, feedStep] at h
    split at h <;> cases h
    constructor
    assumption
  | trySend =>
    simp only [feed, feedStep] at h
    split at h
    next v hs =>
      obtain ⟨heq, hclosed⟩ | ⟨heq, -, hroom⟩ | ⟨heq, -, -⟩ := trySend_cases
      all_goals
        rw [heq] at h
        cases h
      · exact .refused (.inl ⟨rfl, hs⟩) hclosed
      · exact .stored hs hroom
      · exact .full hs
    · cases h
  | retry =>
    simp only [feed, feedStep] at h
    split at h
    next v hs =>
      obtain ⟨heq, hclosed⟩ | ⟨heq, -, hroom⟩ | ⟨heq, -, hfull⟩ := trySend_cases
      all_goals
        rw [heq] at h
        cases h
      · exact .refused (.inr ⟨rfl, hs⟩) hclosed
      · exact .retried hs hroom
      · exact .dropped hs hfull
    · cases h

variable {s s' : Feed} {act : FeedAct}

/-! ### The order -/

/-- What the send under way is to store. -/
def Sending.held : Sending → List Numbered
  | .trying v | .evicting v | .retrying v => [v]
  | .idle | .loading | .storing _ => []

/-- What was received, is in the ring and is about to be: sends in their order. -/
def Ordered (s : Feed) : Prop :=
  (s.received ++ s.chan.buf ++ s.sending.held).Sublist s.sent.zipIdx

/-- A step keeps the events in order. -/
theorem Ordered.step (h : Ordered s) (ht : FeedTrans s act s') : Ordered s' := by
  unfold Ordered at h ⊢
  cases ht with
  | @sent e hs =>
    simp only [hs, Sending.held, append_nil] at h
    simp only [Sending.held, zipIdx_append, zipIdx_singleton, zero_add]
    exact h.append_right _
  | @stored v hs | @retried v hs =>
    simpa only [hs, Sending.held, append_nil, append_assoc] using h
  | full hs | loaded hs | raised hs => simpa only [hs, Sending.held] using h
  | @evicted v hs =>
    simp only [hs, Sending.held] at h ⊢
    refine List.Sublist.trans (List.Sublist.append_right (List.Sublist.append_left ?_ _) _) h
    obtain ⟨-, heq⟩ | ⟨w, rest, hbuf, heq⟩ := tryRecv_cases s.chan
    · rw [heq]
    · rw [heq, hbuf]
      exact sublist_cons_self w rest
  | dropped hs | refused hs =>
    simp only [Sending.held, append_nil]
    exact (sublist_append_left _ _).trans h
  | received =>
    obtain ⟨-, heq⟩ | ⟨w, rest, hbuf, heq⟩ := tryRecv_cases s.chan
    · simpa only [heq, Option.toList_none, append_nil] using h
    · simpa only [heq, hbuf, Option.toList_some, append_assoc, singleton_append] using h
  | told | cleared => exact h

/-- **The order.** In every interleaving what was received are sends, in the order of the sends and
each at most once. -/
theorem received_sublist {acts : List FeedAct} (h : feed.exec {} acts = some s) :
    s.received.Sublist s.sent.zipIdx := by
  have hstart : Ordered {} := List.Sublist.refl []
  have hordered : Ordered s := feed.exec_invariant hstart
    (fun _ _ _ hI hstep => hI.step (feedStep_trans hstep)) h
  rw [Ordered, append_assoc] at hordered
  exact (sublist_append_left _ _).trans hordered

/-! ### The balance -/

/-- The channel is open, and has room once the push has evicted something. -/
structure Sized (s : Feed) : Prop where
  opened : s.chan.closed = false
  bound : s.chan.buf.length ≤ channelCapacity
  room : ∀ v, s.sending = .retrying v → s.chan.buf.length < channelCapacity

theorem sized_start : Sized {} where
  opened := rfl
  bound := Nat.zero_le _
  room := nofun

theorem tryRecv_length {α : Type} (c : Chan α) : c.tryRecv.2.buf.length = c.buf.length - 1 := by
  obtain ⟨hnil, heq⟩ | ⟨w, rest, hbuf, heq⟩ := tryRecv_cases c
  · rw [heq, hnil]
    rfl
  · rw [heq, hbuf, length_cons, Nat.add_sub_cancel]

theorem tryRecv_closed {α : Type} (c : Chan α) : c.tryRecv.2.closed = c.closed := by
  obtain ⟨-, heq⟩ | ⟨w, rest, -, heq⟩ := tryRecv_cases c <;> rw [heq]

/-- A step keeps the buffer in bounds. -/
theorem Sized.step (h : Sized s) (ht : FeedTrans s act s') : Sized s' := by
  have hcap : 0 < channelCapacity := by decide
  obtain ⟨hopen, hbound, hroom⟩ := h
  cases ht with
  | sent | full | loaded | raised | dropped | refused => exact ⟨hopen, hbound, nofun⟩
  | stored _ hlt | retried _ hlt =>
    refine ⟨hopen, ?_, nofun⟩
    simp only [length_append, length_singleton]
    exact hlt
  | evicted =>
    have hlength := tryRecv_length s.chan
    refine ⟨(tryRecv_closed s.chan).trans hopen, ?_, fun _ _ => ?_⟩
    · rw [hlength]
      omega
    · rw [hlength]
      omega
  | received =>
    have hlength := tryRecv_length s.chan
    refine ⟨(tryRecv_closed s.chan).trans hopen, ?_, fun v hs => ?_⟩
    · rw [hlength]
      omega
    · have hlt := hroom v hs
      rw [hlength]
      omega
  | told | cleared => exact ⟨hopen, hbound, hroom⟩

/-- How many events the send under way has still to account for: its own until it is in the ring,
and the one that was lost until it is counted. -/
def Sending.inFlight : Sending → Nat
  | .idle => 0
  | .trying _ | .evicting _ | .loading | .storing _ => 1
  | .retrying _ => 2

/-- What was sent was received, is in the ring, was reported lost, is pending as lost, or is under
way. -/
def Balanced (s : Feed) : Prop :=
  s.sent.length =
    s.received.length + s.chan.buf.length + s.reported + s.lagged + s.sending.inFlight

/-- The ring was not emptied since it was full, and the lag count is still what was loaded. -/
def Undisturbed (s : Feed) : FeedAct → Prop
  | .evict => s.chan.buf ≠ []
  | .store => ∀ n, s.sending = .storing n → s.lagged = n
  | .clear => ∀ n, s.reading = .clearing n → s.lagged = n
  | _ => True

/-- **The balance, step by step.** A step keeps it exactly when it is not disturbed. -/
theorem balanced_iff (hsized : Sized s) (h : Balanced s) (ht : FeedTrans s act s') :
    Balanced s' ↔ Undisturbed s act := by
  unfold Balanced at h ⊢
  cases ht with
  | sent hs | stored hs | retried hs =>
    simp only [hs, Sending.inFlight] at h
    simp only [Undisturbed, length_append, length_singleton, Sending.inFlight, iff_true]
    omega
  | full hs | loaded hs =>
    simp only [hs, Sending.inFlight] at h
    simpa only [Undisturbed, Sending.inFlight, iff_true] using h
  | evicted hs =>
    simp only [hs, Sending.inFlight] at h
    simp only [Undisturbed, tryRecv_length, Sending.inFlight, ne_eq, ← length_eq_zero_iff]
    omega
  | dropped hs hfull => exact absurd (hsized.room _ hs) (Nat.not_lt_of_le hfull)
  | refused _ hclosed =>
    rw [hsized.opened] at hclosed
    cases hclosed
  | @raised n hs =>
    simp only [hs, Sending.inFlight] at h
    simp only [Undisturbed, hs, Sending.inFlight, Sending.storing.injEq, forall_eq']
    omega
  | received =>
    simp only [Undisturbed, iff_true]
    obtain ⟨-, heq⟩ | ⟨w, rest, hbuf, heq⟩ := tryRecv_cases s.chan
    · simpa only [heq, Option.toList_none, append_nil] using h
    · rw [hbuf, length_cons] at h
      simp only [heq, Option.toList_some, length_append, length_singleton]
      omega
  | told => simpa only [Undisturbed, iff_true] using h
  | @cleared n hr =>
    simp only [Undisturbed, hr, Reading.clearing.injEq, forall_eq']
    omega

/-! ### Runs -/

section Runs

variable {buf rest received : List Numbered} {v w : Numbered} {n k : Nat} {e : CrewEvent}
  {sending : Sending}
  {reading : Reading} {sent : List CrewEvent}

/-- A send, and its first operation on the channel. -/
def start (e : CrewEvent) : List FeedAct := [.send e, .trySend]

/-- The rest of a push that found the ring full. -/
def makeRoom : List FeedAct := [.evict, .retry]

/-- The count of a loss. -/
def count : List FeedAct := [.load, .store]

variable (es : List CrewEvent)

/-- Sends that find room. -/
def fill : List FeedAct := es.flatMap start

/-- Sends fill a buffer that has room. -/
theorem exec_fill (hroom : buf.length + es.length ≤ channelCapacity) :
    feed.exec ⟨⟨buf, false⟩, n, .idle, reading, sent, received, k⟩ (fill es) =
      some ⟨⟨buf ++ es.zipIdx sent.length, false⟩, n, .idle, reading, sent ++ es, received, k⟩ := by
  induction es generalizing buf sent with
  | nil =>
    rw [zipIdx_nil, append_nil, append_nil]
    rfl
  | cons e es ih =>
    rw [length_cons] at hroom
    have hstore : trySend channelCapacity ⟨buf, false⟩ (e, sent.length) =
        (.stored, ⟨buf ++ [(e, sent.length)], false⟩) := trySend_of_room rfl (by simp only; omega)
    have hfirst : feed.exec ⟨⟨buf, false⟩, n, .idle, reading, sent, received, k⟩ (start e) =
        some ⟨⟨buf ++ [(e, sent.length)], false⟩, n, .idle, reading, sent ++ [e], received, k⟩ := by
      simp only [start, feed, Machine.exec, feedStep, hstore]
    have hunfold : fill (e :: es) = start e ++ fill es := rfl
    rw [hunfold, feed.exec_append hfirst, ih (by rw [length_append, length_singleton]; omega)]
    simp

/-- The reader takes all there is. -/
theorem exec_reads {m : Nat} (hm : buf.length = m) :
    feed.exec ⟨⟨buf, false⟩, n, sending, .idle, sent, received, k⟩ (replicate m .recv) =
      some ⟨⟨[], false⟩, n, sending, .idle, sent, received ++ buf, k⟩ := by
  subst hm
  induction buf generalizing received with
  | nil =>
    rw [append_nil]
    rfl
  | cons v rest ih =>
    have hrecv : feed.step ⟨⟨v :: rest, false⟩, n, sending, .idle, sent, received, k⟩ .recv =
        some ⟨⟨rest, false⟩, n, sending, .idle, sent, received ++ [v], k⟩ := rfl
    rw [length_cons, replicate_succ, feed.exec_cons hrecv, ih, append_assoc, singleton_append]

/-- A send that finds the ring full. -/
theorem exec_full (hfull : buf.length = channelCapacity) :
    feed.exec ⟨⟨buf, false⟩, n, .idle, reading, sent, received, k⟩ (start e) =
      some ⟨⟨buf, false⟩, n, .evicting (e, sent.length), reading, sent ++ [e], received, k⟩ := by
  have hsend : trySend channelCapacity ⟨buf, false⟩ (e, sent.length) = (.full, ⟨buf, false⟩) :=
    trySend_of_full rfl (by simp only; omega)
  simp only [start, feed, Machine.exec, feedStep, hsend]

/-- It evicts what is oldest by then, if there is anything, and its event has room. -/
theorem exec_evict (hroom : buf.tail.length < channelCapacity) :
    feed.exec ⟨⟨buf, false⟩, n, .evicting w, reading, sent, received, k⟩ makeRoom =
      some ⟨⟨buf.tail ++ [w], false⟩, n, .loading, reading, sent, received, k⟩ := by
  have hrecv : (tryRecv ⟨buf, false⟩).2 = ⟨buf.tail, false⟩ := by
    cases buf with
    | nil => rfl
    | cons => rfl
  have hretry : trySend channelCapacity ⟨buf.tail, false⟩ w = (.stored, ⟨buf.tail ++ [w], false⟩) :=
    trySend_of_room rfl hroom
  simp only [makeRoom, feed, Machine.exec, feedStep, hrecv, hretry]

/-- **A send that nobody comes between** pushes its event, and counts where something was lost. -/
theorem exec_alone (hle : buf.length ≤ channelCapacity) :
    ∃ acts, feed.exec ⟨⟨buf, false⟩, n, .idle, reading, sent, received, k⟩ acts =
      some ⟨(pushLossy channelCapacity ⟨buf, false⟩ (e, sent.length)).2,
        if buf.length < channelCapacity then n else n + 1, .idle, reading, sent ++ [e],
          received, k⟩ := by
  have hcap : 0 < channelCapacity := by decide
  rw [pushLossy_open hcap rfl hle]
  by_cases hroom : buf.length < channelCapacity
  · refine ⟨fill [e], ?_⟩
    rw [exec_fill [e] hroom, if_pos hroom, if_pos hroom]
    rfl
  · have hfull : buf.length = channelCapacity := Nat.le_antisymm hle (Nat.le_of_not_lt hroom)
    have htail : buf.tail.length < channelCapacity := by
      rw [length_tail]
      omega
    refine ⟨start e ++ (makeRoom ++ count), ?_⟩
    rw [feed.exec_append (exec_full hfull), feed.exec_append (exec_evict htail), if_neg hroom,
      if_neg hroom]
    rfl

/-- One send more than `es`, up to the eviction where `es` fill the ring, and nothing is read. -/
def overfill (e : CrewEvent) : List FeedAct := fill es ++ start e

section Overfill

variable {es : List CrewEvent} (hes : es.length = channelCapacity) (e : CrewEvent)

include hes

theorem exec_overfill :
    feed.exec {} (overfill es e) =
      some ⟨⟨es.zipIdx, false⟩, 0, .evicting (e, es.length), .idle, es ++ [e], [], 0⟩ := by
  have hfill : feed.exec {} (fill es) = some ⟨⟨es.zipIdx, false⟩, 0, .idle, .idle, es, [], 0⟩ :=
    exec_fill es (Nat.le_of_eq ((Nat.zero_add _).trans hes))
  rw [overfill, feed.exec_append hfill, exec_full (length_zipIdx.trans hes)]

theorem length_tail_zipIdx : es.zipIdx.tail.length + 1 = channelCapacity := by
  rw [length_tail, length_zipIdx, hes]
  decide

/-- It has evicted the oldest. -/
theorem exec_evicted :
    feed.exec {} (overfill es e ++ makeRoom) =
      some ⟨⟨es.zipIdx.tail ++ [(e, es.length)], false⟩, 0, .loading, .idle, es ++ [e], [], 0⟩ := by
  have hroom : es.zipIdx.tail.length < channelCapacity :=
    Nat.lt_of_succ_le (Nat.le_of_eq (length_tail_zipIdx hes))
  rw [feed.exec_append (exec_overfill hes e), exec_evict hroom]

/-- The reader empties the ring before the push has evicted anything. -/
theorem exec_emptied :
    feed.exec {} (overfill es e ++ (replicate es.length FeedAct.recv ++ (makeRoom ++ count))) =
      some ⟨⟨[(e, es.length)], false⟩, 1, .idle, .idle, es ++ [e], es.zipIdx, 0⟩ := by
  rw [feed.exec_append (exec_overfill hes e), feed.exec_append (exec_reads length_zipIdx),
    feed.exec_append (exec_evict (by decide))]
  rfl

/-- The reader loads the lag count before the sender does, and clears it after the sender's
store. -/
theorem exec_forgotten :
    feed.exec {} (overfill es e ++ makeRoom ++ ([.loadLag, .load, .store, .clear] : List FeedAct)) =
      some ⟨⟨es.zipIdx.tail ++ [(e, es.length)], false⟩, 0, .idle, .idle, es ++ [e], [], 0⟩ := by
  rw [feed.exec_append (exec_evicted hes e)]
  rfl

/-- After one loss that was counted, the reader takes the lag count between the load and the store
of the next. -/
theorem exec_recounted :
    ∃ acts buf, buf.length = channelCapacity ∧
      feed.exec {} acts = some ⟨⟨buf, false⟩, 2, .idle, .idle, es ++ [e] ++ [e], [], 1⟩ := by
  have hbuf : (es.zipIdx.tail ++ [(e, es.length)]).length = channelCapacity := by
    rw [length_append]
    exact length_tail_zipIdx hes
  have hcount : feed.exec {} (overfill es e ++ makeRoom ++ count) =
      some ⟨⟨es.zipIdx.tail ++ [(e, es.length)], false⟩, 1, .idle, .idle, es ++ [e], [], 0⟩ := by
    rw [feed.exec_append (exec_evicted hes e)]
    rfl
  generalize es.zipIdx.tail ++ [(e, es.length)] = buf at hbuf hcount
  have htail : buf.tail.length + 1 = channelCapacity := by
    rw [length_tail, hbuf]
    decide
  refine ⟨overfill es e ++ makeRoom ++ count ++
      (start e ++ (makeRoom ++ ([.load, .loadLag, .clear, .store] : List FeedAct))),
    buf.tail ++ [(e, (es ++ [e]).length)], ?_, ?_⟩
  · rw [length_append]
    exact htail
  · rw [feed.exec_append hcount, feed.exec_append (exec_full hbuf),
      feed.exec_append (exec_evict (Nat.lt_of_succ_le (Nat.le_of_eq htail)))]
    rfl

end Overfill

end Runs

/-! ### Every interleaving -/

/-- **What was sent is accounted for.** In every interleaving whose evictions find something in the
ring, and whose stores to the lag count find in it what was loaded: what was received are sends in
their order, each at most once; and in every state what was sent was received, is in the ring, was
reported, is pending, or is under way, and nothing is under way when no send is. -/
theorem counted {acts : List FeedAct} (h : feed.exec {} acts = some s)
    (hcalm : feed.Along Undisturbed {} acts) :
    s.received.Sublist s.sent.zipIdx ∧
    s.sent.length =
      s.received.length + s.chan.buf.length + (s.reported + s.lagged) + s.sending.inFlight ∧
    (s.sending = .idle →
      s.sent.length = s.received.length + s.chan.buf.length + (s.reported + s.lagged)) := by
  have hbalanced : Sized s ∧ Balanced s :=
    feed.exec_rule (I := fun _ s => Sized s ∧ Balanced s) ⟨sized_start, rfl⟩
      (fun _ _ _ _ hI hact hstep => ⟨hI.1.step (feedStep_trans hstep),
        (balanced_iff hI.1 hI.2 (feedStep_trans hstep)).2 hact⟩) hcalm h
  have htotal : s.sent.length =
      s.received.length + s.chan.buf.length + (s.reported + s.lagged) + s.sending.inFlight := by
    rw [hbalanced.2, add_assoc _ s.reported]
  refine ⟨received_sublist h, htotal, fun hidle => ?_⟩
  rw [htotal, hidle]
  rfl

theorem exists_ringful : ∃ (_ : CrewEvent) (es : List CrewEvent), es.length = channelCapacity :=
  ⟨⟨"crew", "task_started", .null⟩, replicate _ ⟨"crew", "task_started", .null⟩, length_replicate⟩

/-- A loss that is counted, and then reported. -/
theorem counted_reported :
    ∃ acts s, feed.exec {} acts = some s ∧ s.sending = .idle ∧ s.reported = 1 ∧
      s.sent.length = s.received.length + s.chan.buf.length + (s.reported + s.lagged) := by
  obtain ⟨e, es, hes⟩ := exists_ringful
  have hquiet : ∀ act ∈ overfill es e, ∀ s, Undisturbed s act := by
    intro act hact s
    simp only [overfill, fill, start, mem_append, mem_flatMap, mem_cons, not_mem_nil,
      or_false] at hact
    obtain ⟨-, -, rfl | rfl⟩ | rfl | rfl := hact <;> trivial
  have hfirst : feed.Along Undisturbed {} (overfill es e) :=
    (feed.along_of_mem hquiet).mono feed fun s _ hact => hact s
  have hring : es.zipIdx ≠ [] := by
    rw [← length_pos_iff, length_zipIdx, hes]
    decide
  have hevict : feed.Along Undisturbed {} (overfill es e ++ makeRoom) :=
    hfirst.append feed (exec_overfill hes e) ⟨hring, fun _ _ => ⟨trivial, fun _ _ => trivial⟩⟩
  have hcount : feed.Along Undisturbed
      ⟨⟨es.zipIdx.tail ++ [(e, es.length)], false⟩, 0, .loading, .idle, es ++ [e], [], 0⟩
      [.load, .store, .loadLag, .clear] := by
    refine .cons _ rfl trivial <| .cons _ rfl ?_ <| .cons _ rfl trivial <| .cons _ rfl ?_ trivial
    · rintro n ⟨⟩
      rfl
    · rintro n ⟨⟩
      rfl
  have hrun : feed.exec {} (overfill es e ++ makeRoom ++
      ([.load, .store, .loadLag, .clear] : List FeedAct)) =
      some ⟨⟨es.zipIdx.tail ++ [(e, es.length)], false⟩, 0, .idle, .idle, es ++ [e], [], 1⟩ := by
    rw [feed.exec_append (exec_evicted hes e)]
    rfl
  exact ⟨_, _, hrun, rfl, rfl,
    (counted hrun (hevict.append feed (exec_evicted hes e) hcount)).2.2 rfl⟩

/-- **What is miscounted.** Where the reader empties the full ring before the push evicts, nothing
is lost and one is counted. Where it loads the lag count before the sender's load, and clears it
after the sender's store, a loss is forgotten. And where it takes the count between the sender's
load and store, what it was told is counted again. Each time nothing is under way in the end. -/
theorem miscounted :
    (∃ acts s, feed.exec {} acts = some s ∧ s.sending = .idle ∧ s.reading = .idle ∧
      s.sent.length = 257 ∧
      s.received.length + s.chan.buf.length + (s.reported + s.lagged) = 258) ∧
    (∃ acts s, feed.exec {} acts = some s ∧ s.sending = .idle ∧ s.reading = .idle ∧
      s.sent.length = 257 ∧
      s.received.length + s.chan.buf.length + (s.reported + s.lagged) = 256) ∧
    ∃ acts s, feed.exec {} acts = some s ∧ s.sending = .idle ∧ s.reading = .idle ∧
      s.sent.length = 258 ∧
      s.received.length + s.chan.buf.length + (s.reported + s.lagged) = 259 := by
  obtain ⟨e, es, hes⟩ := exists_ringful
  have hsent : (es ++ [e]).length = 257 := by
    rw [length_append, hes]
    rfl
  obtain ⟨acts, buf, hbuf, hrun⟩ := exec_recounted hes e
  refine ⟨⟨_, _, exec_emptied hes e, rfl, rfl, hsent, ?_⟩,
    ⟨_, _, exec_forgotten hes e, rfl, rfl, hsent, ?_⟩, ⟨acts, _, hrun, rfl, rfl, ?_, ?_⟩⟩
  · rw [length_zipIdx, hes]
    rfl
  · rw [length_append]
    exact congrArg (0 + · + 0) (length_tail_zipIdx hes)
  · rw [length_append, hsent]
    rfl
  · rw [hbuf]
    rfl

end Agnosai.Subscriptions
