import Agnosai.Core.Task
import Agnosai.Support.KeyMap
import Agnosai.Support.Machine

/-!
# Server — Sse

The event bus of the server, after `server/sse.cyr`, and the stream of one crew's events, after
`agnosai_sse_crew_stream`. Every section under the bus's mutex is one action: the runs look a
crew's sender up when they start, send through it and remove it when they end, and each stream
request takes its own sections one after the other.

A stream asks whether the crew has a channel, subscribes, and when it did not find the crew removes
the channel that the subscription made. Otherwise it polls its subscription until it lags or is
closed, and then looks the sender up **again** to hand the subscription back. That lookup makes a
channel where there is none, and a run that has ended will not remove it. Keep-alive frames, the
fallback texts of an event and the clock are left out.
-/

namespace Agnosai.Sse

open Function Option KeyMap

/-- `AGNOSAI_SSE_CHANNEL_CAPACITY`. -/
def channelCapacity : Nat := 256

/-- `AGNOSAI_SSE_MAX_EVENT_CHANNELS`. -/
def maxEventChannels : Nat := 10000

/-- `CrewEvent`. -/
structure CrewEvent where
  crewId : String
  eventType : String
  data : Json

/-- A subscription: the events in its ring, how many were lost, and whether it was closed. -/
structure Sub where
  chan : List CrewEvent := []
  lagged : Nat := 0
  closed : Bool := false

/-- `agnosai_chan_push_lossy`, with the count that the sender keeps of it: a full ring loses its
oldest event. -/
def Sub.pushLossy (sub : Sub) (e : CrewEvent) : Sub :=
  if sub.chan.length < channelCapacity then { sub with chan := sub.chan ++ [e] }
  else { sub with chan := sub.chan.tail ++ [e], lagged := sub.lagged + 1 }

/-- The registry of senders. A sender is an address with a list of subscribed streams; it outlives
its entry in the registry. -/
structure Bus where
  channels : KeyMap String Nat := .empty
  subs : Nat → List Nat := fun _ => []
  next : Nat := 0

variable (b : Bus)

variable (crew : String)

/-- `agnosai_event_bus_has`. -/
def Bus.has : Bool := (b.channels.lookup crew).isSome

/-- `_agnosai_event_bus_cleanup_locked`: drop every channel with no subscribers. -/
def Bus.cleanup : Bus :=
  { b with
    channels := b.channels.eraseAll
      ((b.channels.entries.filter fun e => (b.subs e.2).isEmpty).map Prod.fst) }

/-- The channels among which a new one is made: at the cap, without the orphans. -/
def Bus.room : Bus := if maxEventChannels ≤ b.channels.size then b.cleanup else b

/-- `agnosai_event_bus_sender`: the sender of a crew, made where there is none. -/
def Bus.sender : Bus × Nat :=
  match b.channels.lookup crew with
  | some tx => (b, tx)
  | none =>
    ({ channels := b.room.channels.set crew b.next
       subs := update b.subs b.next []
       next := b.next + 1 }, b.next)

/-- `_agnosai_event_sender_add`. -/
def Bus.add (tx k : Nat) : Bus :=
  { b with subs := update b.subs tx (b.subs tx ++ [k]) }

/-- Where a stream stands: the section it takes next. -/
inductive Phase where
  /-- It asked for the crew, and is about to look the sender up. -/
  | asked (found : Bool)
  /-- It has the sender, and is about to add its subscription. -/
  | looked (found : Bool) (tx : Nat)
  /-- It is subscribed, and is about to answer. -/
  | attached (found : Bool)
  /-- At the head of the loop, about to read the lag. -/
  | head
  /-- About to take an event. -/
  | polling
  /-- No event was ready: about to read the closed flag. -/
  | idle
  /-- Out of the loop, about to look the sender up. -/
  | leaving
  /-- It has a sender, and is about to hand the subscription back. -/
  | left (tx : Nat)
  | ended
  | notFound
  deriving Repr, DecidableEq

/-- What a stream writes to its client. -/
inductive Frame where
  | connected
  | event (e : CrewEvent)
  | lagged (n : Nat)
  | notFound (crew : String)

/-- One request for the events of `crew`. -/
structure Stream where
  crew : String
  phase : Phase
  sub : Sub := {}
  frames : List Frame := []

structure State where
  bus : Bus := {}
  stream : Nat → Option Stream := fun _ => none

variable (s : State)

def State.withBus (b : Bus) : State := { s with bus := b }

/-- Change what stream `k` holds. -/
def State.modify (k : Nat) (f : Stream → Stream) : State :=
  { s with stream := fun j => if j = k then (s.stream j).map f else s.stream j }

/-- Change the subscriptions of the streams in `ks`. -/
def State.modifySubs (ks : List Nat) (f : Sub → Sub) : State :=
  { s with
    stream := fun j =>
      if j ∈ ks then (s.stream j).map fun x => { x with sub := f x.sub } else s.stream j }

/-- `chan_close` on the subscriptions of the streams in `ks`, with the flag beside it. -/
def State.closeSubs (ks : List Nat) : State :=
  s.modifySubs ks fun sub => { sub with closed := true }

/-- `agnosai_event_sender_send`. -/
def State.send (tx : Nat) (e : CrewEvent) : State :=
  s.modifySubs (s.bus.subs tx) fun sub => sub.pushLossy e

/-- The bus without the channel of a crew whose sender is `tx`. -/
def Bus.drop (tx : Nat) : Bus :=
  { b with channels := b.channels.erase crew, subs := update b.subs tx [] }

/-- `agnosai_event_bus_remove`: close every subscription of the crew's sender, empty its list and
take it out of the registry. -/
def State.remove (s : State) (crew : String) : State :=
  match s.bus.channels.lookup crew with
  | none => s
  | some tx => (s.closeSubs (s.bus.subs tx)).withBus (s.bus.drop crew tx)

/-- `agnosai_event_sender_unsubscribe`: where the sender lists the stream, it is taken off the list
and its subscription closed. -/
def State.unsubscribe (tx k : Nat) : State :=
  if k ∈ s.bus.subs tx then
    (s.closeSubs [k]).withBus
      { s.bus with subs := update s.bus.subs tx ((s.bus.subs tx).erase k) }
  else s

/-- The next section of stream `k`, which holds `x`. -/
def State.advance (k : Nat) (x : Stream) : Option State :=
  match x.phase with
  | .asked found =>
    some ((s.withBus (s.bus.sender x.crew).1).modify k fun x =>
      { x with phase := .looked found (s.bus.sender x.crew).2 })
  | .looked found tx =>
    some ((s.withBus (s.bus.add tx k)).modify k fun x =>
      { x with phase := .attached found, sub := {} })
  | .attached false =>
    some ((s.remove x.crew).modify k fun x =>
      { x with phase := .notFound, frames := x.frames ++ [.notFound x.crew] })
  | .attached true =>
    some (s.modify k fun x => { x with phase := .head, frames := x.frames ++ [.connected] })
  | .head =>
    if x.sub.lagged = 0 then some (s.modify k fun x => { x with phase := .polling })
    else some (s.modify k fun x =>
      { x with
        phase := .leaving
        sub := { x.sub with lagged := 0 }
        frames := x.frames ++ [.lagged x.sub.lagged] })
  | .polling =>
    match x.sub.chan with
    | [] => some (s.modify k fun x => { x with phase := .idle })
    | e :: chan =>
      some (s.modify k fun x =>
        { x with
          phase := .head
          sub := { x.sub with chan := chan }
          frames := x.frames ++ [.event e] })
  | .idle => some (s.modify k fun x => { x with phase := if x.sub.closed then .leaving else .head })
  | .leaving =>
    some ((s.withBus (s.bus.sender x.crew).1).modify k fun x =>
      { x with phase := .left (s.bus.sender x.crew).2 })
  | .left tx => some ((s.unsubscribe tx k).modify k fun x => { x with phase := .ended })
  | .ended | .notFound => none

inductive Action where
  /-- A run starts: the orchestrator takes the crew's sender. -/
  | opens (crew : String)
  | send (tx : Nat) (e : CrewEvent)
  /-- A run has ended and its state is stored: the orchestrator removes the crew's channel. -/
  | close (crew : String)
  /-- A stream is requested, and asks whether the crew has a channel. -/
  | ask (k : Nat) (crew : String)
  /-- Stream `k` takes its next section. -/
  | turn (k : Nat)

/-- One section under the mutex. -/
def step : Action → Option State
  | .opens crew => some (s.withBus (s.bus.sender crew).1)
  | .send tx e => some (s.send tx e)
  | .close crew => some (s.remove crew)
  | .ask k crew =>
    match s.stream k with
    | some _ => none
    | none =>
      some { s with
        stream := update s.stream k
          (some { crew := crew, phase := .asked (s.bus.has crew) }) }
  | .turn k =>
    match s.stream k with
    | none => none
    | some x => s.advance k x

def machine : Machine State Action := ⟨step⟩

variable {s s' s₀ s₁ t : State} {a : Action} {k j tx : Nat} {crew id : String} {x : Stream}

/-! ### What the sections do to a channel -/

@[simp] theorem modify_bus (f : Stream → Stream) : (s.modify k f).bus = s.bus := rfl

@[simp] theorem withBus_bus (b : Bus) : (s.withBus b).bus = b := rfl

theorem room_lookup_none {b : Bus} (h : b.channels.lookup id = none) :
    b.room.channels.lookup id = none := by
  unfold Bus.room
  split
  · rw [Bus.cleanup, lookup_eraseAll, h, ite_self]
  · exact h

/-- Looking a sender up leaves a channel. -/
theorem sender_has : (b.sender crew).1.has crew = true := by
  unfold Bus.sender
  split
  next h =>
    rw [Bus.has, h, isSome_some]
  · rw [Bus.has, lookup_set, if_pos rfl, isSome_some]

/-- It makes none for another crew. -/
theorem sender_lookup_none {b : Bus} (hne : id ≠ crew) (h : b.channels.lookup id = none) :
    (b.sender crew).1.channels.lookup id = none := by
  unfold Bus.sender
  split
  · exact h
  · rw [lookup_set, if_neg hne, room_lookup_none h]

theorem remove_lookup_self : (s.remove crew).bus.channels.lookup crew = none := by
  unfold State.remove
  split
  · assumption
  · exact lookup_erase_self _ _

theorem remove_lookup_none (h : s.bus.channels.lookup id = none) :
    (s.remove crew).bus.channels.lookup id = none := by
  unfold State.remove
  split
  · exact h
  · rw [withBus_bus, Bus.drop, lookup_erase, h, ite_self]

theorem unsubscribe_channels : (s.unsubscribe tx k).bus.channels = s.bus.channels := by
  unfold State.unsubscribe
  split <;> rfl

/-! ### What the sections do to a stream -/

/-- What a stream shows: all of it but its subscription, which others write to. -/
def State.view (s : State) (k : Nat) : Option (String × Phase × List Frame) :=
  (s.stream k).map fun x => (x.crew, x.phase, x.frames)

theorem view_of_stream (h : s.stream k = some x) :
    s.view k = some (x.crew, x.phase, x.frames) := by
  rw [State.view, h, map_some]

variable {as : List Action} {frames : List Frame} {phase : Phase} {n : Nat}

theorem stream_of_view (h : s.view k = some (crew, phase, frames)) :
    ∃ x, s.stream k = some x ∧ x.crew = crew ∧ x.phase = phase ∧ x.frames = frames := by
  obtain ⟨x, hx, hxv⟩ := map_eq_some_iff.1 h
  obtain ⟨rfl, rfl, rfl⟩ := hxv
  exact ⟨x, hx, rfl, rfl, rfl⟩

variable (s)

theorem withBus_view (b : Bus) : (s.withBus b).view = s.view := rfl

theorem modifySubs_view (ks : List Nat) (f : Sub → Sub) :
    (s.modifySubs ks f).view = s.view := by
  funext j
  simp only [State.view, State.modifySubs]
  split
  · rw [map_map]
    rfl
  · rfl

theorem remove_view (crew : String) : (s.remove crew).view = s.view := by
  unfold State.remove
  split
  · rfl
  · rw [withBus_view, State.closeSubs, modifySubs_view]

theorem unsubscribe_view (tx k : Nat) : (s.unsubscribe tx k).view = s.view := by
  unfold State.unsubscribe
  split
  · rw [withBus_view, State.closeSubs, modifySubs_view]
  · rfl

theorem modify_view_of_ne (f : Stream → Stream) (h : j ≠ k) :
    (s.modify k f).view j = s.view j := by
  simp only [State.view, State.modify, if_neg h]

variable {s}

theorem modify_view_self (f : Stream → Stream) (h : s.stream k = some x) :
    (s.modify k f).view k = some ((f x).crew, (f x).phase, (f x).frames) := by
  simp [State.view, State.modify, h]

theorem modify_view {v : String × Phase × List Frame}
    (h : s.view k = some (crew, phase, frames)) (f : Stream → Stream)
    (hf : ∀ y, y.crew = crew → y.frames = frames → ((f y).crew, (f y).phase, (f y).frames) = v) :
    (s.modify k f).view k = some v := by
  obtain ⟨y, hy, hcrew, -, hframes⟩ := stream_of_view h
  rw [modify_view_self f hy, hf y hcrew hframes]

/-! ### The sections of a stream -/

/-- The phases whose next section looks the crew's sender up. -/
def Phase.looks : Phase → Bool
  | .asked _ => true
  | .leaving => true
  | _ => false

/-- Whether the request found the crew when it asked. -/
def Phase.found : Phase → Bool
  | .asked found => found
  | .looked found _ => found
  | .attached found => found
  | .notFound => false
  | _ => true

/-- How many sections are between a request that did not find the crew and its end. -/
def Phase.remaining : Phase → Nat
  | .asked _ => 3
  | .looked _ _ => 2
  | .attached _ => 1
  | _ => 0

/-- What a section of stream `k`, which holds `x`, does before it moves the stream on, and to
what. -/
inductive Section (s : State) (k : Nat) (x : Stream) : State → Phase → List Frame → Prop where
  | look {found : Bool} (hp : x.phase = .asked found) :
      Section s k x (s.withBus (s.bus.sender x.crew).1)
        (.looked found (s.bus.sender x.crew).2) x.frames
  | join {found : Bool} {tx : Nat} (hp : x.phase = .looked found tx) :
      Section s k x (s.withBus (s.bus.add tx k)) (.attached found) x.frames
  | miss (hp : x.phase = .attached false) :
      Section s k x (s.remove x.crew) .notFound (x.frames ++ [.notFound x.crew])
  /-- It answers that it is connected, or goes around its loop. -/
  | own {phase : Phase} {frames : List Frame} (hlooks : x.phase.looks = false)
      (hfound : x.phase.found = true) (hrest : phase.remaining = 0) : Section s k x s phase frames
  | leave (hp : x.phase = .leaving) :
      Section s k x (s.withBus (s.bus.sender x.crew).1) (.left (s.bus.sender x.crew).2) x.frames
  | quit {tx : Nat} (hp : x.phase = .left tx) : Section s k x (s.unsubscribe tx k) .ended x.frames

/-- **Inversion of a section.** -/
theorem advance_section (hx : s.stream k = some x) (h : s.advance k x = some s') :
    ∃ s₁ f phase frames, Section s k x s₁ phase frames ∧ s' = s₁.modify k f ∧
      s'.view k = some (x.crew, phase, frames) := by
  -- what it shows is what is said of the stream as it stands
  have hown : ∀ {f : Stream → Stream}, x.phase.looks = false → x.phase.found = true →
      (f x).phase.remaining = 0 → (f x).crew = x.crew → s' = s.modify k f →
      ∃ s₁ f phase frames, Section s k x s₁ phase frames ∧ s' = s₁.modify k f ∧
        s'.view k = some (x.crew, phase, frames) := by
    rintro f hlooks hfound hrest hcrew rfl
    exact ⟨s, f, _, _, .own hlooks hfound hrest, rfl, hcrew ▸ modify_view_self f hx⟩
  unfold State.advance at h
  split at h
  case h_1 hp =>
    cases h
    exact ⟨_, _, _, _, .look hp, rfl, modify_view_self _ hx⟩
  case h_2 hp =>
    cases h
    exact ⟨_, _, _, _, .join hp, rfl, modify_view_self _ hx⟩
  case h_3 hp =>
    cases h
    refine ⟨_, _, _, _, .miss hp, rfl, modify_view (remove_view s x.crew ▸ view_of_stream hx) _ ?_⟩
    rintro y hcrew hframes
    rw [hcrew, hframes]
  case h_4 hp => exact hown (by rw [hp]; rfl) (by rw [hp]; rfl) rfl rfl (some.inj h).symm
  case h_5 hp | h_6 hp =>
    split at h
    all_goals exact hown (by rw [hp]; rfl) (by rw [hp]; rfl) rfl rfl (some.inj h).symm
  case h_7 hp =>
    refine hown (by rw [hp]; rfl) (by rw [hp]; rfl) ?_ rfl (some.inj h).symm
    split <;> rfl
  case h_8 hp =>
    cases h
    exact ⟨_, _, _, _, .leave hp, rfl, modify_view_self _ hx⟩
  case h_9 tx hp =>
    cases h
    refine ⟨_, _, _, _, .quit hp, rfl,
      modify_view (unsubscribe_view s tx k ▸ view_of_stream hx) _ ?_⟩
    rintro y hcrew hframes
    rw [hcrew, hframes]
  case h_10 | h_11 => cases h

theorem Section.view {s₁ : State} (h : Section s k x s₁ phase frames) : s₁.view = s.view := by
  cases h with
  | look | join | own | leave => rfl
  | miss => exact remove_view _ _
  | quit => exact unsubscribe_view _ _ _

/-- A section of one stream shows nothing to another. -/
theorem advance_view_of_ne (hx : s.stream k = some x) (h : s.advance k x = some s') (hj : j ≠ k) :
    s'.view j = s.view j := by
  obtain ⟨s₁, f, phase, frames, hsection, rfl, -⟩ := advance_section hx h
  rw [modify_view_of_ne _ _ hj, hsection.view]

/-! ### Looking up -/

/-- The action looks the sender of crew `id` up: a run starts, or a stream subscribes or leaves. -/
def Looks (id : String) (s : State) : Action → Prop
  | .opens crew => crew = id
  | .turn k => ∃ x, s.stream k = some x ∧ x.crew = id ∧ x.phase.looks = true
  | _ => False

theorem advance_has (hx : s.stream k = some x) (hlooks : x.phase.looks = true)
    (h : s.advance k x = some s') : s'.bus.has x.crew = true := by
  obtain ⟨s₁, f, phase, frames, hsection, rfl, -⟩ := advance_section hx h
  cases hsection with
  | look | leave => exact sender_has _
  | join hp | miss hp | quit hp =>
    rw [hp] at hlooks
    cases hlooks
  | own hno =>
    rw [hno] at hlooks
    cases hlooks

theorem advance_lookup_none (hx : s.stream k = some x)
    (hlooks : ¬ (x.crew = id ∧ x.phase.looks = true))
    (hnone : s.bus.channels.lookup id = none) (h : s.advance k x = some s') :
    s'.bus.channels.lookup id = none := by
  obtain ⟨s₁, f, phase, frames, hsection, rfl, -⟩ := advance_section hx h
  rw [modify_bus]
  cases hsection with
  | look hp | leave hp =>
    exact sender_lookup_none (fun he => hlooks ⟨he.symm, by rw [hp]; rfl⟩) hnone
  | join | own => exact hnone
  | miss => exact remove_lookup_none hnone
  | quit => rwa [unsubscribe_channels]

theorem step_turn (h : step s (.turn k) = some s') :
    ∃ x, s.stream k = some x ∧ s.advance k x = some s' := by
  simp only [step] at h
  split at h
  · cases h
  · exact ⟨_, ‹_›, h⟩

theorem advance_of_turn (h : step s (.turn k) = some s') (hx : s.stream k = some x) :
    s.advance k x = some s' := by
  simpa only [step, hx] using h

theorem step_ask (h : step s (.ask k crew) = some s') :
    s.stream k = none ∧ s'.bus = s.bus ∧
      s'.stream = update s.stream k (some ⟨crew, .asked (s.bus.has crew), {}, []⟩) := by
  simp only [step] at h
  split at h <;> cases h
  exact ⟨‹_›, rfl, rfl⟩

/-- A step that looks the sender up leaves the bus with a channel for the crew. -/
theorem Looks.has (hl : Looks id s a) (h : step s a = some s') : s'.bus.has id = true := by
  cases a with
  | opens crew =>
    obtain rfl : crew = id := hl
    rw [← some.inj h]
    exact sender_has _
  | turn =>
    obtain ⟨x, hx, rfl, hlooks⟩ := hl
    exact advance_has hx hlooks (advance_of_turn h hx)
  | send | close | ask => exact hl.elim

/-- No other step makes one. -/
theorem step_lookup_none (hl : ¬ Looks id s a) (hnone : s.bus.channels.lookup id = none)
    (h : step s a = some s') : s'.bus.channels.lookup id = none := by
  cases a with
  | opens => exact some.inj h ▸ sender_lookup_none (fun he => hl he.symm) hnone
  | send => exact some.inj h ▸ hnone
  | close crew => exact some.inj h ▸ remove_lookup_none hnone
  | ask => rwa [(step_ask h).2.1]
  | turn =>
    obtain ⟨x, hx, hadv⟩ := step_turn h
    exact advance_lookup_none hx (fun hc => hl ⟨x, hx, hc⟩) hnone hadv

/-- A stream that is there shows the same after every action but its own turns. -/
theorem step_view (h : step s a = some s') (hk : (s.stream k).isSome) (ha : a ≠ .turn k) :
    s'.view k = s.view k := by
  cases a with
  | opens => rw [← some.inj h, withBus_view]
  | send => rw [← some.inj h, State.send, modifySubs_view]
  | close => rw [← some.inj h, remove_view]
  | ask j =>
    obtain ⟨hj, -, hstream⟩ := step_ask h
    have hne : k ≠ j := by
      rintro rfl
      rw [hj] at hk
      exact absurd hk (by decide)
    rw [State.view, State.view, hstream, update_of_ne hne]
  | turn =>
    obtain ⟨x, hx, hadv⟩ := step_turn h
    exact advance_view_of_ne hx hadv fun he => ha (he ▸ rfl)

/-! ### Requests that did not find the crew -/

/-- Stream `k` is a request for crew `id` that did not find it, with `n` sections to go; when it is
through them it has answered that the crew was not found, and nothing else. -/
def Refused (id : String) (k n : Nat) (s : State) : Prop :=
  ∃ phase frames, s.view k = some (id, phase, frames) ∧ phase.found = false ∧ phase.remaining = n ∧
    frames = if n = 0 then [.notFound id] else []

theorem Refused.isSome (h : Refused id k n s) : (s.stream k).isSome := by
  obtain ⟨phase, frames, hv, -⟩ := h
  obtain ⟨x, hx, -⟩ := stream_of_view hv
  rw [hx, isSome_some]

theorem refused_ask (hnone : s.bus.channels.lookup id = none) (h : step s (.ask k id) = some s') :
    Refused id k 3 s' := by
  obtain ⟨-, -, hstream⟩ := step_ask h
  have hhas : s.bus.has id = false := by rw [Bus.has, hnone, isSome_none]
  refine ⟨.asked false, [], ?_, rfl, rfl, rfl⟩
  rw [State.view, hstream, update_self, map_some, hhas]

/-- The sections of a request that did not find the crew, one after the other. -/
theorem advance_refused (hx : s.stream k = some x) (hfound : x.phase.found = false)
    (h : s.advance k x = some s') :
    ∃ phase, x.phase.remaining = phase.remaining + 1 ∧ phase.found = false ∧
      s'.view k = some (x.crew, phase,
        x.frames ++ if phase.remaining = 0 then [.notFound x.crew] else []) := by
  obtain ⟨s₁, f, phase, frames, hsection, -, hv⟩ := advance_section hx h
  refine ⟨phase, ?_⟩
  cases hsection with
  | look hp | join hp | miss hp | leave hp | quit hp => simp_all [Phase.found, Phase.remaining]
  | own _ hp =>
    rw [hfound] at hp
    cases hp

/-- The last of them removes the channel. -/
theorem advance_last (hx : s.stream k = some x) (hfound : x.phase.found = false)
    (hlast : x.phase.remaining = 1) (h : s.advance k x = some s') :
    s'.bus.channels.lookup x.crew = none := by
  obtain ⟨s₁, f, phase, frames, hsection, rfl, -⟩ := advance_section hx h
  cases hsection with
  | look hp | join hp | leave hp | quit hp => simp [hp, Phase.remaining] at hlast
  | own _ hp =>
    rw [hfound] at hp
    cases hp
  | miss => exact remove_lookup_self

/-- Its own turn takes it one section further. -/
theorem Refused.turn (hr : Refused id k n s) (h : step s (.turn k) = some s') :
    ∃ m, n = m + 1 ∧ Refused id k m s' := by
  obtain ⟨phase, frames, hv, hfound, rfl, hframes⟩ := hr
  obtain ⟨x, hx, rfl, rfl, rfl⟩ := stream_of_view hv
  obtain ⟨phase, hrem, hfound', hv'⟩ := advance_refused hx hfound (advance_of_turn h hx)
  have hnil : x.frames = [] := by rw [hframes, hrem, if_neg (Nat.succ_ne_zero _)]
  exact ⟨phase.remaining, hrem, phase, _, hv', hfound', rfl, by rw [hnil, List.nil_append]⟩

theorem Refused.other (hr : Refused id k n s) (ha : a ≠ .turn k)
    (h : step s a = some s') : Refused id k n s' := by
  have hview : s'.view k = s.view k := step_view h hr.isSome ha
  obtain ⟨phase, frames, hv, hrest⟩ := hr
  exact ⟨phase, frames, hview.trans hv, hrest⟩

/-- The action is a turn of stream `k`. -/
def Action.turnOf (k : Nat) : Action → Bool
  | .turn j => j = k
  | _ => false

theorem turnOf_eq_true : Action.turnOf k a = true ↔ a = .turn k := by
  cases a with
  | turn => simp [Action.turnOf]
  | _ => simp [Action.turnOf]

/-- Whatever else happens, each of its turns takes a refused request one section further. -/
theorem Refused.exec (hr : Refused id k n s) (h : machine.exec s as = some t) :
    ∃ m, m + as.countP (Action.turnOf k) = n ∧ Refused id k m t := by
  induction as generalizing s n with
  | nil =>
    cases h
    exact ⟨n, rfl, hr⟩
  | cons a as ih =>
    obtain ⟨s₁, hs, h₁⟩ := machine.exec_cons_some h
    by_cases ha : a = .turn k
    · subst ha
      obtain ⟨n, rfl, hr₁⟩ := hr.turn hs
      obtain ⟨m, hm, hrt⟩ := ih hr₁ h₁
      refine ⟨m, ?_, hrt⟩
      rw [List.countP_cons_of_pos (turnOf_eq_true.2 rfl), ← add_assoc, hm]
    · obtain ⟨m, hm, hrt⟩ := ih (hr.other ha hs) h₁
      refine ⟨m, ?_, hrt⟩
      rw [List.countP_cons_of_neg fun hc => ha (turnOf_eq_true.1 hc), hm]

/-! ### After the end of a run -/

/-- Every request for crew `id` made in the run is refused: three turns later it has answered that
the crew was not found, and has ended. -/
def AllRefused (id : String) (s : State) (as : List Action) : Prop :=
  ∀ mid k rest t, mid ++ .ask k id :: rest <+: as →
    machine.exec s (mid ++ .ask k id :: rest) = some t →
      ∃ n, n + rest.countP (Action.turnOf k) = 3 ∧ Refused id k n t

/-- The bus holds no channel for crew `id` in any state of the run, and every request is refused. -/
structure Gone (id : String) (s : State) (as : List Action) : Prop where
  absent : ∀ mid t, mid <+: as → machine.exec s mid = some t → t.bus.channels.lookup id = none
  refused : AllRefused id s as

/-- A run refuses every request made while the bus holds no channel for the crew. -/
theorem allRefused_of_absent
    (h : ∀ mid k rest s', as = mid ++ .ask k id :: rest → machine.exec s mid = some s' →
      s'.bus.channels.lookup id = none) : AllRefused id s as := by
  rintro mid k rest t ⟨more, hmore⟩ hrun
  obtain ⟨s', hmid, hrun⟩ := machine.exec_append_some hrun
  obtain ⟨s'', hask, hrest⟩ := machine.exec_cons_some hrun
  have hnone : s'.bus.channels.lookup id = none := by
    refine h mid k (rest ++ more) s' ?_ hmid
    rw [← hmore, List.append_assoc, List.cons_append]
  exact (refused_ask hnone hask).exec hrest

theorem absent_of_no_lookup (hnone : s.bus.channels.lookup id = none)
    (hP : machine.Along (fun s a => ¬ Looks id s a) s as) (h : machine.exec s as = some t) :
    t.bus.channels.lookup id = none :=
  machine.exec_rule (I := fun _ t => t.bus.channels.lookup id = none) hnone
    (fun _ _ _ _ hI hl hstep => step_lookup_none hl hI hstep) hP h

/-- Nothing looks up a crew that stays absent. -/
theorem no_lookup_of_absent (hrun : machine.exec s as = some t)
    (h : ∀ mid t, mid <+: as → machine.exec s mid = some t → t.bus.channels.lookup id = none) :
    machine.Along (fun s a => ¬ Looks id s a) s as := by
  induction as generalizing s with
  | nil => trivial
  | cons a as ih =>
    obtain ⟨s', hs, hrun'⟩ := machine.exec_cons_some hrun
    refine Machine.Along.cons machine hs ?_ (ih hrun' ?_)
    · intro hl
      have hnone : s'.bus.channels.lookup id = none :=
        h [a] s' ((List.prefix_cons_inj a).2 as.nil_prefix) (machine.exec_cons hs)
      have hhas : s'.bus.has id = true := hl.has hs
      rw [Bus.has, hnone] at hhas
      exact absurd hhas (by decide)
    · intro mid t hmid hmidrun
      exact h (a :: mid) t ((List.prefix_cons_inj a).2 hmid) ((machine.exec_cons hs).trans hmidrun)

/-- The request did not find the crew, and is between its lookup and its removal. -/
def Phase.Between (phase : Phase) : Prop :=
  phase.found = false ∧ (phase.remaining = 2 ∨ phase.remaining = 1)

/-- Some request for the crew is between its lookup and its removal. -/
def Between (id : String) (s : State) : Prop :=
  ∃ k phase frames, s.view k = some (id, phase, frames) ∧ phase.Between

/-- The step keeps out of the way of the requests for crew `id` that did not find it: no run of the
crew starts, no stream that found the crew looks its sender up, and no request is made while another
is between its lookup and its removal. -/
def Tidy (id : String) (s : State) : Action → Prop
  | .opens crew => crew ≠ id
  | .ask _ crew => crew = id → ¬ Between id s
  | .turn k => ∀ x, s.stream k = some x → x.crew = id → x.phase.looks = true → x.phase.found = false
  | _ => True

/-- A lookup by a request that did not find the crew puts it between. -/
theorem between_of_lookup (ht : Tidy id s a) (hl : Looks id s a) (h : step s a = some s') :
    Between id s' := by
  cases a with
  | opens => exact absurd hl ht
  | turn k =>
    obtain ⟨x, hx, rfl, hlooks⟩ := hl
    have hfound : x.phase.found = false := ht x hx rfl hlooks
    obtain ⟨phase, hrem, hfound', hv⟩ := advance_refused hx hfound (advance_of_turn h hx)
    refine ⟨k, phase, _, hv, hfound', .inl ?_⟩
    cases hp : x.phase with
    | asked => rw [hp] at hrem; exact (Nat.succ.inj hrem).symm
    | leaving => rw [hp] at hfound; exact absurd hfound (by decide)
    | _ => rw [hp] at hlooks; exact absurd hlooks (by simp [Phase.looks])
  | send | close | ask => exact hl.elim

/-- A request that is between stays so until it removes the channel. -/
theorem between_step (hb : Between id s) (h : step s a = some s')
    (hhas : s'.bus.channels.lookup id ≠ none) : Between id s' := by
  obtain ⟨k, phase, frames, hv, hfound, hrem⟩ := hb
  obtain ⟨x, hx, rfl, rfl, rfl⟩ := stream_of_view hv
  by_cases ha : a = .turn k
  · subst ha
    have hadv := advance_of_turn h hx
    rcases hrem with hrem | hrem
    · obtain ⟨phase, hrem', hfound', hv'⟩ := advance_refused hx hfound hadv
      exact ⟨k, phase, _, hv', hfound', .inr (Nat.succ.inj (hrem'.symm.trans hrem))⟩
    · exact absurd (advance_last hx hfound hrem hadv) hhas
  · have hview : s'.view k = s.view k := step_view h (by rw [hx, isSome_some]) ha
    exact ⟨k, _, _, hview.trans hv, hfound, hrem⟩

/-- **One step.** The bus holds a channel for the crew only while a request that did not find it is
between its lookup and its removal. -/
theorem Tidy.step (ht : Tidy id s a) (hI : s.bus.channels.lookup id ≠ none → Between id s)
    (h : step s a = some s') (hhas : s'.bus.channels.lookup id ≠ none) : Between id s' := by
  by_cases hl : Looks id s a
  · exact between_of_lookup ht hl h
  · exact between_step (hI fun hnone => hhas (step_lookup_none hl hnone h)) h hhas

/-- The run. -/
theorem Tidy.exec (hnone : s.bus.channels.lookup id = none)
    (hP : machine.Along (Tidy id) s as) (h : machine.exec s as = some t)
    (hhas : t.bus.channels.lookup id ≠ none) : Between id t :=
  machine.exec_rule
    (fun hne => absurd hnone hne) (fun _ _ _ _ hI ht hstep => ht.step hI hstep) hP h hhas

theorem Tidy.allRefused (hnone : s.bus.channels.lookup id = none)
    (hP : machine.Along (Tidy id) s as) : AllRefused id s as := by
  refine allRefused_of_absent fun mid k rest s' has hmid => ?_
  subst has
  by_contra hne
  have hask : Tidy id s' (.ask k id) := (hP.append_right machine hmid).1
  exact hask rfl (Tidy.exec hnone (hP.append_left machine) hmid hne)

/-- **A channel that was removed.** After the removal at the end of a run the bus holds no channel
for the crew, and every request is refused, exactly when no step looks the crew's sender up. Where
the steps are tidy, every request is refused all the same, and the bus holds a channel only while a
request that did not find the crew is between its lookup and its removal. -/
theorem gone_iff (id : String) (post : List Action) (hclose : step s₀ (.close id) = some s₁)
    (hrun : machine.exec s₁ post = some t) :
    (Gone id s₁ post ↔ machine.Along (fun s a => ¬ Looks id s a) s₁ post) ∧
    (machine.Along (Tidy id) s₁ post →
      AllRefused id s₁ post ∧ (t.bus.channels.lookup id ≠ none → Between id t)) := by
  have hnone : s₁.bus.channels.lookup id = none :=
    some.inj hclose ▸ remove_lookup_self
  refine ⟨⟨fun hgone => no_lookup_of_absent hrun hgone.absent, fun hP => ?_⟩, fun hP => ?_⟩
  · have habsent : ∀ mid s, mid <+: post → machine.exec s₁ mid = some s →
        s.bus.channels.lookup id = none := by
      rintro mid s ⟨rest, rfl⟩ hmid
      exact absent_of_no_lookup hnone (hP.append_left machine) hmid
    refine ⟨habsent, allRefused_of_absent fun mid k rest s has hmid => ?_⟩
    exact habsent mid s (has ▸ List.prefix_append mid _) hmid
  · exact ⟨Tidy.allRefused hnone hP, Tidy.exec hnone hP hrun⟩

/-- A request after the end of the crew, with nothing in between. -/
def lateRequest : List Action := [.ask 0 "crew", .turn 0, .turn 0, .turn 0]

theorem gone_iff_late :
    ∃ s₀ s₁, machine.exec {} [.opens "crew"] = some s₀ ∧ s₀.bus.has "crew" = true ∧
      step s₀ (.close "crew") = some s₁ ∧
      Gone "crew" s₁ [.ask 0 "crew"] ∧ AllRefused "crew" s₁ lateRequest := by
  refine ⟨_, _, rfl, rfl, rfl, ?_, ?_⟩
  · exact (gone_iff "crew" [.ask 0 "crew"] rfl rfl).1.2
      (Machine.Along.cons machine rfl (fun hl => hl) trivial)
  · refine ((gone_iff "crew" lateRequest rfl rfl).2 ?_).1
    refine .cons machine rfl ?_ (.cons machine rfl ?_ (.cons machine rfl ?_
      (.cons machine rfl ?_ trivial)))
    · rintro - ⟨k, phase, frames, hv, -⟩
      cases (hv : none = some _)
    all_goals
      rintro x hx - -
      exact some.inj hx ▸ rfl

/-- A stream of a running crew, up to its loop. -/
def watching : List Action := [.opens "crew", .ask 0 "crew", .turn 0, .turn 0, .turn 0]

/-- The stream sees that it was closed and leaves, and the crew is requested again. -/
def requestedAgain : List Action :=
  [.turn 0, .turn 0, .turn 0, .turn 0, .turn 0, .ask 1 "crew", .turn 1, .turn 1, .turn 1]

/-- A crew is watched to its end and its channel removed. The stream's exit makes the channel
again, and the next request waits on it: it was told that it is connected, and its subscription is
open. -/
theorem not_gone_watched :
    ∃ s₀ s₁ t x, machine.exec {} watching = some s₀ ∧ step s₀ (.close "crew") = some s₁ ∧
      machine.exec s₁ requestedAgain = some t ∧ ¬ Gone "crew" s₁ requestedAgain ∧
      t.stream 1 = some x ∧ x.phase = .head ∧ x.frames = [.connected] ∧ x.sub.closed = false := by
  refine ⟨_, _, _, _, rfl, rfl, rfl, ?_, rfl, rfl, rfl, rfl⟩
  intro hgone
  have hnone := hgone.absent requestedAgain _ List.prefix_rfl rfl
  exact absurd hnone (by decide)

end Agnosai.Sse
