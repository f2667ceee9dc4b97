import Agnosai.Orchestrator.CrewRunner.Threads

/-!
# Orchestrator — CrewRunner — Watch

Who hears of a crew's tasks. The runner builds its events only if somebody is attached to the
crew's sender, and `_agnosai_crew_wants_events` is asked once, at the start of the sequential loop
and of every wave. So a subscriber that attaches while a loop is under way that began with nobody
attached misses every event of the loop.

The model is the runner's thread with the waves of `Threads` inside, and subscribers that come and
go between any two steps. The bus's mutex makes a look, a send and a subscription one step each.
Each event that is due leaves a `Note`, sent or not.
-/

namespace Agnosai.CrewRunner.Watch

open List

open Wave (Event)

/-- A point at which an event was due. -/
structure Note where
  /-- The loop it belongs to: the sequential loop, or the wave. -/
  loop : Nat
  event : Event
  /-- Who was attached then, and who was when the loop began. -/
  attached : List Nat
  atStart : List Nat
  /-- Whether it was sent. -/
  sent : Bool

/-- Who received it. -/
def Note.receivers (n : Note) : List Nat := if n.sent then n.attached else []

/-- Where the runner is. -/
inductive Phase where
  | begin
  /-- At the head of the sequential loop, with `wants_events`. -/
  | sequential (wants : Bool) (next : Nat)
  | executing (wants : Bool) (next : Nat)
  /-- At the head of the DAG loop. (The state's own `run` is not used.) -/
  | dag (d : DagState)
  /-- In a wave: that of a parallel crew, or one of a DAG. -/
  | wave (d : Option DagState) (w : Wave) (s : Wave.State)
  | ended

structure State where
  phase : Phase := .begin
  /-- The subscribers attached to the crew's sender. -/
  subs : List Nat := []
  /-- How many loops have begun, and who was attached when the last one did. -/
  loops : Nat := 0
  atStart : List Nat := []
  notes : List Note := []

namespace State

variable (s : State)

/-- `_agnosai_crew_wants_events`. -/
def wantsEvents : Bool := s.subs.length != 0

def goto (p : Phase) : State := { s with phase := p }

/-- A loop begins. -/
def enter (p : Phase) : State := { s with phase := p, loops := s.loops + 1, atStart := s.subs }

/-- Events are due. -/
def note (es : List Event) (sent : Bool) : State :=
  { s with notes := s.notes ++ es.map fun e => ⟨s.loops, e, s.subs, s.atStart, sent⟩ }

def withSubs (xs : List Nat) : State := { s with subs := xs }

end State

inductive Action where
  | attach (x : Nat)
  | detach (x : Nat)
  /-- The runner's next step; `halt` is what it sees of the cancel flag and the clock. -/
  | main (halt : Bool)
  /-- The task that the sequential loop executes returns. -/
  | executed (r : TaskResult)
  /-- A step of the wave's threads. -/
  | thread (a : Wave.Action)

/-- What an action does to the subscribers. -/
def Action.onSubs : Action → List Nat → List Nat
  | .attach x, subs => subs ++ [x]
  | .detach x, subs => subs.filter (· != x)
  | .main _, subs | .executed _, subs | .thread _, subs => subs

variable (spec : CrewSpec)

/-- The loops of the runner. -/
def mainStep (s : State) (halt : Bool) : Option State :=
  match s.phase with
  | .begin =>
    match spec.process with
    | .sequential | .hierarchical _ => some (s.enter (.sequential s.wantsEvents 0))
    | .parallel _ =>
      some (s.enter (.wave none (.of spec.process spec.tasks) (Wave.start s.subs.length)))
    | .dag =>
      match Scheduler.sortTasks spec.tasks with
      | none => some (s.goto .ended)
      | some order =>
        some (s.goto (.dag
          { remaining := order, completed := [], anyFailed := false, results := [], run := {} }))
  | .sequential wants next =>
    if spec.tasks.length ≤ next ∨ halt = true then some (s.goto .ended)
    else some ((s.note [.started next] wants).goto (.executing wants next))
  | .executing _ _ => none
  | .dag d =>
    if d.remaining = [] ∨ halt = true ∨ d.ready spec.tasks = [] then some (s.goto .ended)
    else
      some (s.enter (.wave (some d) (.of spec.process (d.ready spec.tasks))
        (Wave.start s.subs.length)))
  | .wave d _ ws =>
    match ws.main with
    | .returned _ =>
      match d with
      | none => some (s.goto .ended)
      | some d =>
        let d' := d.settle spec.tasks (d.results ++ ws.results, {})
        some (s.goto (if d'.Stranded spec.tasks then .ended else .dag d'))
    | _ => none
  | .ended => none

def step (s : State) : Action → Option State
  | .attach x => some (s.withSubs ((Action.attach x).onSubs s.subs))
  | .detach x => some (s.withSubs ((Action.detach x).onSubs s.subs))
  | .main halt => mainStep spec s halt
  | .executed r =>
    match s.phase with
    | .executing wants next =>
      some ((s.note [.completed next r] wants).goto (.sequential wants (next + 1)))
    | _ => none
  | .thread a =>
    match s.phase with
    | .wave d w ws =>
      (w.step ws a).map fun ws' =>
        (s.note (ws'.log.drop ws.log.length) ws.wants).goto (.wave d w ws')
    | _ => none

def machine : Machine State Action := ⟨step spec⟩

/-! ### What a step can do -/

/-- No loop is under way, or the last one is over. -/
inductive Phase.Over : Phase → Prop where
  | begin : Over .begin
  | sequential (wants : Bool) (next : Nat) : Over (.sequential wants next)
  | dag (d : DagState) : Over (.dag d)
  | wave (d : Option DagState) (w : Wave) {s : Wave.State} {n : Nat} (h : s.main = .returned n) :
      Over (.wave d w s)

variable {spec} {s s' : State}

inductive Moved (s : State) : State → Prop where
  | ended (h : s.phase.Over) : Moved s (s.goto .ended)
  | dag (h : s.phase.Over) (d : DagState) : Moved s (s.goto (.dag d))
  | sequential (h : s.phase.Over) : Moved s (s.enter (.sequential s.wantsEvents 0))
  | wave (h : s.phase.Over) (d : Option DagState) (w : Wave) :
      Moved s (s.enter (.wave d w (Wave.start s.subs.length)))
  | dispatched {wants : Bool} {next : Nat} (h : s.phase = .sequential wants next) :
      Moved s ((s.note [.started next] wants).goto (.executing wants next))
  | completed {wants : Bool} {next : Nat} (h : s.phase = .executing wants next) (r : TaskResult) :
      Moved s ((s.note [.completed next r] wants).goto (.sequential wants (next + 1)))
  | thread {d : Option DagState} {w : Wave} {ws ws' : Wave.State} (h : s.phase = .wave d w ws)
      (hw : Wave.Stepped w ws ws') :
      Moved s ((s.note (ws'.log.drop ws.log.length) ws.wants).goto (.wave d w ws'))

/-- A step of the main thread is a move. -/
theorem mainStep_moved {halt : Bool} (h : mainStep spec s halt = some s') : Moved s s' := by
  unfold mainStep at h
  split at h
  next hp =>
    have hover : s.phase.Over := hp ▸ .begin
    split at h
    · cases h
      exact .sequential hover
    · cases h
      exact .sequential hover
    · cases h
      exact .wave hover _ _
    · split at h
      · cases h
        exact .ended hover
      · cases h
        exact .dag hover _
  next wants next hp =>
    split at h
    · cases h
      exact .ended (hp ▸ .sequential wants next)
    · cases h
      exact .dispatched hp
  next => cases h
  next d hp =>
    have hover : s.phase.Over := hp ▸ .dag d
    split at h
    · cases h
      exact .ended hover
    · cases h
      exact .wave hover _ _
  next d w ws hp =>
    split at h
    next hm =>
      have hover : s.phase.Over := hp ▸ .wave d w hm
      split at h
      · cases h
        exact .ended hover
      · cases h
        split
        · exact .ended hover
        · exact .dag hover _
    next => cases h
  next => cases h

variable {as : List Action} {a : Action} {es : List Event} {p : Phase} {x : Nat} {sent : Bool}

/-- A step is one of a subscriber, or of the runner. -/
theorem step_cases (h : step spec s a = some s') :
    s' = s.withSubs (a.onSubs s.subs) ∨ (Moved s s' ∧ ∀ subs, a.onSubs subs = subs) := by
  cases a with
  | attach =>
    cases h
    exact .inl rfl
  | detach =>
    cases h
    exact .inl rfl
  | main => exact .inr ⟨mainStep_moved h, fun _ => rfl⟩
  | executed r =>
    simp only [step] at h
    split at h
    next hp =>
      cases h
      exact .inr ⟨.completed hp r, fun _ => rfl⟩
    next => cases h
  | thread =>
    simp only [step] at h
    split at h
    next hp =>
      obtain ⟨ws', hw, rfl⟩ := Option.map_eq_some_iff.1 h
      exact .inr ⟨.thread hp (Wave.step_stepped hw), fun _ => rfl⟩
    next => cases h

/-! ### What is sent -/

/-- The note of an event that is due now. -/
def State.noteOf (s : State) (e : Event) (sent : Bool) : Note :=
  ⟨s.loops, e, s.subs, s.atStart, sent⟩

theorem mem_note {n : Note} :
    n ∈ (s.note es sent).notes ↔ n ∈ s.notes ∨ ∃ e ∈ es, n = s.noteOf e sent := by
  simp only [State.note, State.noteOf, mem_append, mem_map, eq_comm]

/-- The look that a loop began with. -/
def Phase.Wants (looked : Bool) : Phase → Prop
  | .sequential wants _ | .executing wants _ => wants = looked
  | .wave _ _ ws => ws.wants = looked
  | .begin | .dag _ | .ended => True

/-- The notes of a loop know who was attached when it began, and are sent if anybody was. -/
structure Kept (s : State) : Prop where
  bound : ∀ n ∈ s.notes, n.loop ≤ s.loops
  last : ∀ n ∈ s.notes, n.loop = s.loops → n.atStart = s.atStart
  same : ∀ a ∈ s.notes, ∀ b ∈ s.notes, a.loop = b.loop → a.atStart = b.atStart
  sent : ∀ n ∈ s.notes, n.sent = (n.atStart.length != 0)
  wants : s.phase.Wants (s.atStart.length != 0)

theorem kept_start : Kept {} where
  bound _ h := nomatch h
  last _ h := nomatch h
  same _ h := nomatch h
  sent _ h := nomatch h
  wants := trivial

theorem Kept.withSubs (h : Kept s) (xs : List Nat) : Kept (s.withSubs xs) :=
  ⟨h.bound, h.last, h.same, h.sent, h.wants⟩

theorem Kept.goto (h : Kept s) (hp : p.Wants (s.atStart.length != 0)) : Kept (s.goto p) :=
  ⟨h.bound, h.last, h.same, h.sent, hp⟩

/-- A new loop has no notes yet. -/
theorem Kept.enter (h : Kept s) (hp : p.Wants s.wantsEvents) : Kept (s.enter p) where
  bound n hn := Nat.le_succ_of_le (h.bound n hn)
  last n hn heq := absurd heq (ne_of_lt (Nat.lt_succ_of_le (h.bound n hn)))
  same := h.same
  sent := h.sent
  wants := hp

theorem Kept.note (h : Kept s)
    (hsent : sent = (s.atStart.length != 0)) : Kept (s.note es sent) where
  bound n hn := by
    rcases mem_note.1 hn with hn | ⟨e, -, rfl⟩
    · exact h.bound n hn
    · exact le_rfl
  last n hn hloop := by
    rcases mem_note.1 hn with hn | ⟨e, -, rfl⟩
    · exact h.last n hn hloop
    · rfl
  same a ha b hb hloop := by
    rcases mem_note.1 ha with ha | ⟨e, -, rfl⟩
    · rcases mem_note.1 hb with hb | ⟨e, -, rfl⟩
      · exact h.same a ha b hb hloop
      · exact h.last a ha hloop
    · rcases mem_note.1 hb with hb | ⟨e, -, rfl⟩
      · exact (h.last b hb hloop.symm).symm
      · rfl
  sent n hn := by
    rcases mem_note.1 hn with hn | ⟨e, -, rfl⟩
    · exact h.sent n hn
    · exact hsent
  wants := h.wants

/-- **A step keeps it.** -/
theorem Kept.moved (h : Kept s) (hs : Moved s s') : Kept s' := by
  have hwants := h.wants
  cases hs with
  | ended => exact h.goto trivial
  | dag => exact h.goto trivial
  | sequential => exact h.enter rfl
  | wave => exact h.enter rfl
  | dispatched hp | completed hp =>
    rw [hp] at hwants
    exact (h.note hwants).goto hwants
  | thread hp hw =>
    rw [hp] at hwants
    exact (h.note hwants).goto (hw.wants.trans hwants)

/-! ### What is completed -/

/-- An event was due in a loop. -/
def Noted (s : State) (loop : Nat) (e : Event) : Prop := ∃ n ∈ s.notes, n.loop = loop ∧ n.event = e

theorem noted_note {loop : Nat} {e : Event} :
    Noted (s.note es sent) loop e ↔ Noted s loop e ∨ (loop = s.loops ∧ e ∈ es) := by
  constructor
  · rintro ⟨n, hn, rfl, rfl⟩
    rcases mem_note.1 hn with hn | ⟨e, he, rfl⟩
    · exact .inl ⟨n, hn, rfl, rfl⟩
    · exact .inr ⟨rfl, he⟩
  · rintro (⟨n, hn, hloop, he⟩ | ⟨rfl, he⟩)
    · exact ⟨n, mem_note.2 (.inl hn), hloop, he⟩
    · exact ⟨s.noteOf e sent, mem_note.2 (.inr ⟨e, he, rfl⟩), rfl, rfl⟩

/-- What was dispatched in a loop was completed in it. -/
def Complete (s : State) (loop : Nat) : Prop :=
  ∀ i, Noted s loop (.started i) → ∃ r, Noted s loop (.completed i r)

/-- What the loop under way still owes. -/
def Phase.Owes (s : State) : Phase → Prop
  | .executing _ next =>
    ∀ i, Noted s s.loops (.started i) → i = next ∨ ∃ r, Noted s s.loops (.completed i r)
  | .wave _ w ws =>
    Wave.Control w ws ∧ Wave.Logged w ws ∧ ∀ e, e ∈ ws.log ↔ Noted s s.loops e
  | .begin | .sequential _ _ | .dag _ | .ended => Complete s s.loops

/-- Every loop but the last is complete. -/
structure Closed (s : State) : Prop where
  bound : ∀ loop e, Noted s loop e → loop ≤ s.loops
  old : ∀ loop < s.loops, Complete s loop
  owes : s.phase.Owes s

theorem closed_start : Closed {} where
  bound := by
    rintro loop e ⟨n, hn, -⟩
    cases hn
  old loop h := absurd h (Nat.not_lt_zero loop)
  owes := by
    rintro i ⟨n, hn, -⟩
    cases hn

theorem Closed.withSubs (h : Closed s) (xs : List Nat) : Closed (s.withSubs xs) := by
  refine ⟨h.bound, h.old, ?_⟩
  have howes := h.owes
  simp only [State.withSubs]
  cases hp : s.phase <;> rw [hp] at howes <;> exact howes

/-- A wave that has returned has completed what it started. -/
theorem complete_of_returned {w : Wave} {ws : Wave.State} {n : Nat} (hc : Wave.Control w ws)
    (hl : Wave.Logged w ws) (hm : ws.main = .returned n) {i : Nat} (hi : .started i ∈ ws.log) :
    ∃ r, .completed i r ∈ ws.log := by
  have hlen : i < ws.results.length := by
    have hmem := Wave.mem_startedJobs.2 hi
    rw [hl.started, hm, mem_range] at hmem
    rw [hc.length, hm]
    exact hmem
  refine ⟨ws.results.get ⟨i, hlen⟩, Wave.mem_completions.1 ?_⟩
  rw [hl.completed]
  exact mem_zipIdx_iff_getElem?.2 (getElem?_eq_getElem hlen)

/-- When no loop is under way, the last one is complete too. -/
theorem Closed.complete (h : Closed s) (hover : s.phase.Over) : Complete s s.loops := by
  have howes := h.owes
  cases hp : s.phase with
  | wave =>
    rw [hp] at howes hover
    obtain ⟨hc, hl, hlog⟩ := howes
    cases hover with
    | wave _ _ hm =>
      intro i hi
      obtain ⟨r, hr⟩ := complete_of_returned hc hl hm ((hlog _).2 hi)
      exact ⟨r, (hlog _).1 hr⟩
  | executing =>
    rw [hp] at hover
    cases hover
  | _ =>
    rw [hp] at howes
    exact howes

theorem Closed.goto (h : Closed s) (hp : p.Owes s) : Closed (s.goto p) := by
  refine ⟨h.bound, h.old, ?_⟩
  cases p <;> exact hp

/-- A loop begins when the one before it is over. -/
theorem Closed.enter (h : Closed s) (hover : s.phase.Over)
    (hp : p.Owes (s.enter p)) : Closed (s.enter p) where
  bound loop e hn := Nat.le_succ_of_le (h.bound loop e hn)
  old loop hlt := by
    rcases Nat.lt_succ_iff_lt_or_eq.1 hlt with hlt | rfl
    · exact h.old loop hlt
    · exact h.complete hover
  owes := hp

theorem not_noted_enter (h : Closed s) (e : Event) : ¬ Noted (s.enter p) (s.enter p).loops e := by
  intro hn
  have hle := h.bound _ _ hn
  simp only [State.enter] at hle
  omega

theorem Closed.note (h : Closed s)
    (hp : p.Owes (s.note es sent)) : Closed ((s.note es sent).goto p) where
  bound loop e hn := by
    rcases noted_note.1 hn with hn | ⟨rfl, -⟩
    · exact h.bound loop e hn
    · exact le_rfl
  old loop hlt i hi := by
    rcases noted_note.1 hi with hi | ⟨rfl, -⟩
    · obtain ⟨r, hr⟩ := h.old loop hlt i hi
      exact ⟨r, noted_note.2 (.inl hr)⟩
    · exact absurd hlt (lt_irrefl _)
  owes := by cases p <;> exact hp

/-- **A step keeps it.** -/
theorem Closed.moved (h : Closed s) (hs : Moved s s') : Closed s' := by
  have howes := h.owes
  cases hs with
  | ended hover | dag hover => exact h.goto (h.complete hover)
  | sequential hover => exact h.enter hover fun i hi => absurd hi (not_noted_enter h _)
  | wave hover d w =>
    refine h.enter hover ⟨Wave.control_start w _, Wave.logged_start w _, fun e => ?_⟩
    exact iff_of_false not_mem_nil (not_noted_enter h _)
  | @dispatched wants next hp =>
    rw [hp] at howes
    refine h.note fun i hi => ?_
    rcases noted_note.1 hi with hi | ⟨-, hi⟩
    · obtain ⟨r, hr⟩ := howes i hi
      exact .inr ⟨r, noted_note.2 (.inl hr)⟩
    · cases mem_singleton.1 hi
      exact .inl rfl
  | @completed wants next hp r =>
    rw [hp] at howes
    refine h.note fun i hi => ?_
    rcases noted_note.1 hi with hi | ⟨-, hi⟩
    · rcases howes i hi with rfl | ⟨q, hq⟩
      · exact ⟨r, noted_note.2 (.inr ⟨rfl, mem_singleton_self _⟩)⟩
      · exact ⟨q, noted_note.2 (.inl hq)⟩
    · cases mem_singleton.1 hi
  | @thread d w ws ws' hp hw =>
    rw [hp] at howes
    obtain ⟨hc, hl, hlog⟩ := howes
    refine h.note ⟨hc.step hw, hl.step hc hw, fun e => ?_⟩
    have hmem : e ∈ ws'.log ↔ e ∈ ws.log ∨ e ∈ ws'.log.drop ws.log.length := by
      rw [← mem_append, ← hw.log_eq]
    rw [hmem, hlog e, noted_note]
    exact or_congr_right ⟨fun he => ⟨rfl, he⟩, And.right⟩

/-! ### Who is attached -/

/-- What a step notes is noted with those who are attached. -/
theorem Moved.notes (hs : Moved s s') : ∃ (es : List Event) (sent : Bool),
    s'.notes = s.notes ++ es.map fun e => s.noteOf e sent := by
  cases hs with
  | dispatched => exact ⟨_, _, rfl⟩
  | completed => exact ⟨_, _, rfl⟩
  | thread => exact ⟨_, _, rfl⟩
  | _ => exact ⟨[], true, (append_nil _).symm⟩

theorem Moved.subs (hs : Moved s s') : s'.subs = s.subs := by
  cases hs <;> rfl

theorem step_subs (h : step spec s a = some s') : s'.subs = a.onSubs s.subs := by
  obtain rfl | ⟨hm, hsubs⟩ := step_cases h
  · rfl
  · rw [hm.subs, hsubs]

/-- Whoever is attached stays until it leaves. -/
theorem mem_onSubs {subs : List Nat} (hx : x ∈ subs) (ha : a ≠ .detach x) : x ∈ a.onSubs subs := by
  cases a with
  | attach y => exact mem_append_left [y] hx
  | detach =>
    refine mem_filter.2 ⟨hx, bne_iff_ne.2 ?_⟩
    rintro rfl
    exact ha rfl
  | _ => exact hx

/-- Whoever is attached was, or attaches now; and has not left. -/
theorem of_mem_onSubs {subs : List Nat} (hx : x ∈ a.onSubs subs) :
    a = .attach x ∨ (x ∈ subs ∧ a ≠ .detach x) := by
  cases a with
  | attach =>
    rcases mem_append.1 hx with hx | hx
    · exact .inr ⟨hx, nofun⟩
    · exact .inl (congrArg Action.attach (mem_singleton.1 hx).symm)
  | detach =>
    obtain ⟨hx, hne⟩ := mem_filter.1 hx
    refine .inr ⟨hx, fun h => ?_⟩
    cases h
    exact bne_iff_ne.1 hne rfl
  | _ => exact .inr ⟨hx, nofun⟩

/-- A step adds notes, which have those who are attached; and a step that adds one is nobody's
leaving. -/
theorem step_notes (h : step spec s a = some s') : ∃ new : List Note, s'.notes = s.notes ++ new ∧
      ∀ n ∈ new, n.attached = s.subs ∧ ∀ x, a ≠ .detach x := by
  obtain rfl | ⟨hm, hsubs⟩ := step_cases h
  · exact ⟨[], (append_nil _).symm, fun n hn => nomatch hn⟩
  · obtain ⟨es, sent, hnotes⟩ := hm.notes
    refine ⟨_, hnotes, fun n hn => ?_⟩
    obtain ⟨e, -, rfl⟩ := mem_map.1 hn
    refine ⟨rfl, fun x ha => ?_⟩
    have hleft := hsubs [x]
    rw [ha] at hleft
    simp [Action.onSubs] at hleft

/-- The notes of a run are those there were, and new ones. -/
theorem exec_notes (h : (machine spec).exec s as = some s') : s.notes <+: s'.notes := by
  refine (machine spec).exec_invariant (I := fun s' => s.notes <+: s'.notes) prefix_rfl ?_ h
  intro s₁ a s₂ hI hstep
  obtain ⟨new, hnotes, -⟩ := step_notes hstep
  rw [hnotes]
  exact hI.trans (prefix_append _ _)

/-- Whoever is attached and does not leave is attached at everything noted from then on. -/
theorem attached_later (hx : x ∈ s.subs) (hstays : .detach x ∉ as)
    (h : (machine spec).exec s as = some s') :
    ∀ n ∈ s'.notes.drop s.notes.length, x ∈ n.attached := by
  have hstay : ∀ a ∈ as, a ≠ .detach x := fun a ha heq => hstays (heq ▸ ha)
  refine ((machine spec).exec_rule (I := fun _ s' => x ∈ s'.subs ∧ s.notes <+: s'.notes ∧
      ∀ n ∈ s'.notes.drop s.notes.length, x ∈ n.attached) ?_ ?_
    ((machine spec).along_of_mem hstay) h).2.2
  · refine ⟨hx, prefix_rfl, fun n hn => ?_⟩
    rw [drop_length] at hn
    cases hn
  · rintro _ s₁ a s₂ ⟨hx₁, hle, hall⟩ ha hstep
    obtain ⟨new, hnotes, hnew⟩ := step_notes hstep
    refine ⟨(step_subs hstep).symm ▸ mem_onSubs hx₁ ha, ?_, fun n hn => ?_⟩
    · rw [hnotes]
      exact hle.trans (prefix_append _ _)
    · rw [hnotes, drop_append_of_le_length hle.length_le] at hn
      rcases mem_append.1 hn with hn | hn
      · exact hall n hn
      · rw [(hnew n hn).1]
        exact hx₁

/-- In the run, `x` attached after `pre` and has not left. -/
def Stays (x : Nat) (pre mid as : List Action) : Prop :=
  pre ++ .attach x :: mid = as ∧ .detach x ∉ mid

theorem Stays.snoc {pre mid : List Action} (h : Stays x pre mid as)
    (ha : a ≠ .detach x) : Stays x pre (mid ++ [a]) (as ++ [a]) := by
  refine ⟨by rw [← h.1, append_assoc, cons_append], fun hmem => ?_⟩
  rcases mem_append.1 hmem with hmem | hmem
  · exact h.2 hmem
  · exact ha (mem_singleton.1 hmem).symm

/-- Whoever is attached has attached, and not left since. -/
theorem stays_of_mem (h : (machine spec).exec {} as = some s)
    (hx : x ∈ s.subs) : ∃ pre mid, Stays x pre mid as := by
  refine (machine spec).exec_history (I := fun as s => ∀ x ∈ s.subs, ∃ pre mid, Stays x pre mid as)
    ?_ ?_ h x hx
  · exact nofun
  · intro as s₁ a s₂ _ hI hstep x hx
    rw [step_subs hstep] at hx
    obtain rfl | ⟨hx, ha⟩ := of_mem_onSubs hx
    · exact ⟨as, [], rfl, not_mem_nil⟩
    · obtain ⟨pre, mid, hstays⟩ := hI x hx
      exact ⟨pre, mid ++ [a], hstays.snoc ha⟩

/-- Whoever was attached at a note heard everything noted since it had attached, up to that note. -/
theorem stays_of_note {n : Note}
    (h : (machine spec).exec {} as = some s) (hn : n ∈ s.notes) (hx : x ∈ n.attached) :
    ∃ pre mid as' s₀ s₁, as' <+: as ∧ Stays x pre mid as' ∧ (machine spec).exec {} pre = some s₀ ∧
      (machine spec).exec {} as' = some s₁ ∧ n ∈ s₁.notes.drop s₀.notes.length := by
  refine (machine spec).exec_history (I := fun as s => ∀ n ∈ s.notes, ∀ x ∈ n.attached,
    ∃ pre mid as' s₀ s₁, as' <+: as ∧ Stays x pre mid as' ∧ (machine spec).exec {} pre = some s₀ ∧
      (machine spec).exec {} as' = some s₁ ∧ n ∈ s₁.notes.drop s₀.notes.length) ?_ ?_ h n hn x hx
  · exact fun n hn => nomatch hn
  · intro as s₁ a s₂ hrun hI hstep n hn x hx
    obtain ⟨new, hnotes, hnew⟩ := step_notes hstep
    rw [hnotes] at hn
    rcases mem_append.1 hn with hn | hn
    · obtain ⟨pre, mid, as', s₀, s', hle, hrest⟩ := hI n hn x hx
      exact ⟨pre, mid, as', s₀, s', hle.trans (prefix_append _ _), hrest⟩
    · obtain ⟨hattached, hstay⟩ := hnew n hn
      rw [hattached] at hx
      obtain ⟨pre, mid, hstays⟩ := stays_of_mem hrun hx
      obtain ⟨s₀, hpre, hrest⟩ := (machine spec).exec_append_some (hstays.1 ▸ hrun)
      refine ⟨pre, mid ++ [a], as ++ [a], s₀, s₂, prefix_rfl, hstays.snoc (hstay x), hpre,
        (machine spec).exec_snoc hrun hstep, ?_⟩
      rw [hnotes, drop_append_of_le_length (exec_notes hrest).length_le]
      exact mem_append_right _ hn

/-! ### Who hears -/

/-- `x` receives both events of every task dispatched after the first `k` notes. -/
structure Hears (x k : Nat) (s : State) : Prop where
  started : ∀ a ∈ s.notes.drop k, ∀ i, a.event = .started i → x ∈ a.receivers
  completed : ∀ a ∈ s.notes.drop k, ∀ b ∈ s.notes.drop k, ∀ i r, a.loop = b.loop →
    a.event = .started i → b.event = .completed i r → x ∈ b.receivers

/-- Every subscriber, from the moment it attaches and as long as it stays, hears of every task
dispatched since. -/
def AllHear (spec : CrewSpec) (as : List Action) : Prop :=
  ∀ x pre mid as', as' <+: as → Stays x pre mid as' →
    ∀ s₀ s₁, (machine spec).exec {} pre = some s₀ → (machine spec).exec {} as' = some s₁ →
      Hears x s₀.notes.length s₁

/-- Whenever a task was dispatched with somebody attached, somebody had been when its loop began. -/
def Watched (s : State) : Prop :=
  ∀ n ∈ s.notes, ∀ i, n.event = .started i → n.attached ≠ [] → n.atStart ≠ []

theorem invariants (h : (machine spec).exec {} as = some s) : Kept s ∧ Closed s := by
  refine (machine spec).exec_invariant (I := fun s => Kept s ∧ Closed s)
    ⟨kept_start, closed_start⟩ ?_ h
  rintro s₁ a s₂ ⟨hk, hc⟩ hstep
  obtain rfl | ⟨hm, -⟩ := step_cases hstep
  · exact ⟨hk.withSubs _, hc.withSubs _⟩
  · exact ⟨hk.moved hm, hc.moved hm⟩

/-- What is noted in a loop that began with somebody attached reaches whoever is. -/
theorem Kept.receivers (h : Kept s) {n : Note} (hn : n ∈ s.notes) (hstart : n.atStart ≠ []) :
    n.receivers = n.attached := by
  have hsent : n.sent = true := by
    rw [h.sent n hn, bne_iff_ne]
    exact fun hlen => hstart (length_eq_zero_iff.1 hlen)
  rw [Note.receivers, if_pos hsent]

/-- **Who hears of a crew's tasks.** In every run of every crew, in every process mode and with
subscribers that attach and leave at any moments: every subscriber receives both events of every
task dispatched after it attached, exactly if somebody was attached when the sequential loop or the
wave began in which a task was dispatched with somebody attached. And when the run has ended, every
task dispatched was completed. -/
theorem heard_iff (spec : CrewSpec) {as : List Action} {s : State}
    (h : (machine spec).exec {} as = some s) :
    (AllHear spec as ↔ Watched s) ∧
      (s.phase = .ended → ∀ loop i, Noted s loop (.started i) →
        ∃ r, Noted s loop (.completed i r)) := by
  obtain ⟨hkept, hclosed⟩ := invariants h
  refine ⟨⟨fun hall n hn i hi hne => ?_, ?_⟩, ?_⟩
  · obtain ⟨x, hx⟩ := exists_mem_of_ne_nil _ hne
    obtain ⟨pre, mid, as', s₀, s₁, hle, hstays, hpre, hrun, hlater⟩ := stays_of_note h hn hx
    have hreceived := (hall x pre mid as' hle hstays s₀ s₁ hpre hrun).started n hlater i hi
    intro hnil
    have hsent := hkept.sent n hn
    rw [hnil] at hsent
    rw [Note.receivers, hsent] at hreceived
    cases hreceived
  · rintro hwatched x pre mid as' ⟨rest, rfl⟩ hstays s₀ s₁ hpre hrun
    obtain ⟨s₂, hrun₂, hrest⟩ := (machine spec).exec_append_some h
    rw [hrun] at hrun₂
    cases hrun₂
    -- what is noted so far is noted at the end
    have hnotes : ∀ n ∈ s₁.notes.drop s₀.notes.length, n ∈ s.notes := fun n hn =>
      (exec_notes hrest).subset (mem_of_mem_drop hn)
    have hattached : ∀ n ∈ s₁.notes.drop s₀.notes.length, x ∈ n.attached := by
      obtain ⟨s₂, hpre₂, hmid⟩ := (machine spec).exec_append_some (hstays.1.symm ▸ hrun)
      rw [hpre] at hpre₂
      cases hpre₂
      obtain ⟨s₂, hattach, hmid⟩ := (machine spec).exec_cons_some hmid
      cases hattach
      have hx : x ∈ (s₀.withSubs ((Action.attach x).onSubs s₀.subs)).subs :=
        mem_append_right _ (mem_singleton_self x)
      exact fun n hn => attached_later hx hstays.2 hmid n hn
    constructor
    · intro a ha i hi
      have hx := hattached a ha
      have hstart := hwatched a (hnotes a ha) i hi (ne_nil_of_mem hx)
      rwa [hkept.receivers (hnotes a ha) hstart]
    · intro a ha b hb i r hloop hi hr
      have hstart := hwatched a (hnotes a ha) i hi (ne_nil_of_mem (hattached a ha))
      rw [hkept.same a (hnotes a ha) b (hnotes b hb) hloop] at hstart
      rw [hkept.receivers (hnotes b hb) hstart]
      exact hattached b hb
  · intro hended loop i hn
    have howes := hclosed.owes
    rw [hended] at howes
    rcases lt_or_eq_of_le (hclosed.bound loop _ hn) with hlt | rfl
    · exact hclosed.old loop hlt i hn
    · exact howes i hn

def sequentialPair : CrewSpec where
  id := "crew"
  name := "pair"
  agents := []
  tasks := [{ id := "a", description := "first" }, { id := "b", description := "second" }]
  process := .sequential

/-- A subscriber is there from the start, another comes when the first task runs. -/
def watchedRun : List Action :=
  [.attach 0, .main false, .main false, .attach 1,
    .executed { taskId := "a", output := "done", status := .completed }, .main false,
    .executed { taskId := "b", output := "done", status := .completed }, .main false]

theorem heard_iff_two :
    ∃ s, (machine sequentialPair).exec {} watchedRun = some s ∧
      s.notes.map Note.receivers = [[0], [0, 1], [0, 1], [0, 1]] ∧
        AllHear sequentialPair watchedRun := by
  obtain ⟨s, hrun, hreceivers, hstart⟩ : ∃ s, (machine sequentialPair).exec {} watchedRun = some s ∧
      s.notes.map Note.receivers = [[0], [0, 1], [0, 1], [0, 1]] ∧
      s.notes.map Note.atStart = [[0], [0], [0], [0]] := ⟨_, rfl, rfl, rfl⟩
  refine ⟨s, hrun, hreceivers, (heard_iff sequentialPair hrun).1.2 fun n hn _ _ _ hnil => ?_⟩
  have hmem := mem_map_of_mem (f := Note.atStart) hn
  rw [hstart, hnil] at hmem
  revert hmem
  decide

/-- A subscriber comes when the sequential loop has begun, before the first task. -/
def unwatchedRun : List Action :=
  [.main false, .attach 0, .main false,
    .executed { taskId := "a", output := "done", status := .completed }, .main false,
    .executed { taskId := "b", output := "done", status := .completed }, .main false]

/-- It receives none of the four events. -/
theorem not_heard_two :
    (∃ s, (machine sequentialPair).exec {} unwatchedRun = some s ∧
      s.notes.map Note.attached = [[0], [0], [0], [0]] ∧
      s.notes.map Note.receivers = [[], [], [], []]) ∧ ¬ AllHear sequentialPair unwatchedRun := by
  refine ⟨⟨_, rfl, rfl, rfl⟩, fun hall => ?_⟩
  have hstays : Stays 0 [.main false] (unwatchedRun.drop 2) unwatchedRun :=
    ⟨rfl, by simp [unwatchedRun]⟩
  have hhears := hall 0 _ _ _ prefix_rfl hstays _ _ rfl rfl
  have hreceived := hhears.started _ mem_cons_self 0 rfl
  cases hreceived

end Agnosai.CrewRunner.Watch
