import Agnosai.ModelCatalog.Invariant

/-!
# Model catalog — Reads

Reads of a gateway by any number of threads, in every interleaving, whatever the gateway and the
clock answer.

A read is in flight from the check that finds the count as its thread saw it to the step that
counts it. One read of a gateway is in flight at a time, as that is under the mutex of its one
slot; so the count a read is started with is the number of reads started before it, and no count
starts two.
-/

namespace Agnosai.ModelCatalog

open SlotPc Function Option List

variable {p : SlotPc} {fresh : Held} {m : Slot}

section Step

variable {setup : Setup} {s s' : State} {a : Act} {u : String}

/-! ### What a step shows of a gateway -/

theorem not_event_of_elsewhere (setup : Setup) (h : (s.pc a.thread).slotPc = none) :
    started s a = none ∧ ended s a = none ∧ published setup s a = none := by
  cases a with
  | call => exact ⟨rfl, rfl, rfl⟩
  | step t =>
    simp only [Act.thread] at h
    simp only [started, ended, published]
    cases hpc : s.pc t with
    | slot =>
      rw [hpc] at h
      cases h
    | _ => exact ⟨rfl, rfl, rfl⟩

theorem event_of_access (setup : Setup) (out : Outside) {t k : Nat} {c : Call}
    (hpc : s.pc t = .slot c k p) (hk : s.table.slots[k]? = some m) :
    started s (.step t out) = (p.starts m).map (fun seen => (c.url, seen)) ∧
      ended s (.step t out) = (if p.counts then some c.url else none) ∧
      published setup s (.step t out) = (p.fresh setup m).map fun fresh => (c.url, fresh) := by
  simp [started, ended, published, hpc, hk]

theorem Inv.slotOf {k : Nat} (hinv : Inv s) (hk : s.table.slots[k]? = some m)
    (hurl : m.baseUrl = u) : s.table.slotOf u = some m :=
  hinv.table.slotOf_eq_some.2 ⟨k, hk, hurl⟩

/-- What one move shows of the reads. -/
theorem Move.shows (hinv : Inv s) (h : Move setup s a s') :
    s'.reads u = s.reads u + (if ended s a = some u then 1 else 0) ∧
      s'.held u =
        ((published setup s a).bind fun e => if e.1 = u then some e.2 else none).or (s.held u) := by
  cases h with
  | elsewhere hpc =>
    obtain ⟨-, hended, hpub⟩ := not_event_of_elsewhere setup hpc
    rw [hended, hpub]
    exact ⟨rfl, rfl⟩
  | @push t out c hpc hnew =>
    have hended : ended s (.step t out) = none := by simp only [ended, hpc]
    have hpub : published setup s (.step t out) = none := by simp only [published, hpc]
    rw [hended, hpub]
    simp only [State.reads, State.held, Table.slotOf_push hnew]
    split
    next hurl =>
      subst hurl
      rw [Table.slotOf_eq_none hnew]
      exact ⟨rfl, rfl⟩
    · exact ⟨rfl, rfl⟩
  | @access t k out c p m m' q hpc hk hurl hfits hacc =>
    obtain ⟨-, hended, hpub⟩ := event_of_access setup out hpc hk
    rw [hended, hpub]
    simp only [State.reads, State.held, hinv.table.slotOf_set hk hacc.baseUrl hacc.next]
    by_cases hu : m.baseUrl = u
    · rw [if_pos hu, hinv.slotOf hk hu]
      have hcu : c.url = u := hurl.symm.trans hu
      constructor
      · cases hcounts : p.counts <;> simp [hacc.reads, hcounts, hcu]
      · cases hfresh : p.fresh setup m <;> simp [hacc.catalog, hfresh, hcu]
    · have hcu : c.url ≠ u := fun heq => hu (hurl.trans heq)
      rw [if_neg hu]
      constructor
      · cases hcounts : p.counts <;> simp [hcu]
      · cases hfresh : p.fresh setup m <;> simp [hcu]

/-- **The count goes up where a read ends**, by one. -/
theorem Move.reads (hinv : Inv s) (h : Move setup s a s') :
    s'.reads u = s.reads u + if ended s a = some u then 1 else 0 :=
  (h.shows hinv).1

/-- **The catalog changes where one is published.** -/
theorem Move.held (hinv : Inv s) (h : Move setup s a s') :
    s'.held u =
      ((published setup s a).bind fun e => if e.1 = u then some e.2 else none).or (s.held u) :=
  (h.shows hinv).2

theorem Move.held_of_published (hinv : Inv s) (h : Move setup s a s')
    (hpub : published setup s a = some (u, fresh)) : s'.held u = some fresh := by
  rw [h.held hinv, hpub, bind_some, if_pos rfl, some_or]

theorem Move.held_of_not_published (hinv : Inv s) (h : Move setup s a s')
    (hpub : ∀ fresh, published setup s a ≠ some (u, fresh)) : s'.held u = s.held u := by
  rw [h.held hinv]
  cases heq : published setup s a with
  | none => rfl
  | some e =>
    have hne : e.1 ≠ u := fun hu => hpub e.2 (by rw [heq, ← hu])
    rw [bind_some, if_neg hne, none_or]

/-! ### Reads in flight -/

/-- The gateway of a read that is started and not counted yet, and the count it was started with. -/
def Pc.flight : Pc → Option (String × Nat)
  | .slot c _ p => p.flight.map fun seen => (c.url, seen)
  | _ => none

theorem SlotPc.locked_of_flight {n : Nat} (h : p.flight = some n) : p.Locked := by
  cases p with
  | read seen r =>
    cases r with
    | lock => cases h
    | _ => trivial
  | _ => cases h

theorem SlotPc.flight_of_counts (h : p.counts = true) : ∃ n, p.flight = some n := by
  unfold counts at h
  split at h
  · exact ⟨_, rfl⟩
  · cases h

theorem SlotPc.of_starts {n : Nat} (h : p.starts m = some n) :
    p = .read n .check ∧ m.reads = n := by
  unfold starts at h
  split at h
  · split at h
    next hsame =>
      cases h
      exact ⟨rfl, hsame⟩
    · cases h
  · cases h

theorem SlotPc.of_fresh (h : p.fresh setup m = some fresh) :
    ∃ n last body, p = .read n (.store last body) := by
  unfold SlotPc.fresh at h
  split at h
  · exact ⟨_, _, _, rfl⟩
  · cases h

variable {t t' k n : Nat} {c : Call} {p : SlotPc}

theorem flight_slot : (Pc.slot c k p).flight = some (u, n) ↔ c.url = u ∧ p.flight = some n := by
  simp only [Pc.flight, map_eq_some_iff, Prod.mk.injEq]
  constructor
  · rintro ⟨n', hn, rfl, rfl⟩
    exact ⟨rfl, hn⟩
  · rintro ⟨rfl, hn⟩
    exact ⟨n, hn, rfl, rfl⟩

theorem slot_of_flight {p : Pc} (h : p.flight = some (u, n)) :
    ∃ c k p₁, p = .slot c k p₁ ∧ c.url = u ∧ p₁.flight = some n := by
  cases p with
  | slot c k p₁ => exact ⟨c, k, p₁, rfl, flight_slot.1 h⟩
  | _ => cases h

/-- **One read of a gateway at a time.** While a read is in flight, no other thread has the
mutex. -/
theorem Inv.one_reader (hinv : Inv s) (h : (s.pc t).flight = some (u, n))
    (hpc : s.pc t' = .slot c k p) (hurl : c.url = u) (hp : p.Locked) : t = t' := by
  obtain ⟨c₁, k₁, p₁, hpc₁, hurl₁, hflight⟩ := slot_of_flight h
  have hplaced := hinv.placed t'
  have hplaced₁ := hinv.placed t
  rw [hpc] at hplaced
  rw [hpc₁] at hplaced₁
  obtain ⟨m, hk, hm, -⟩ := hplaced
  obtain ⟨m₁, hk₁, hm₁, -⟩ := hplaced₁
  have hurls : ∀ {j : Nat} {x : Slot}, s.table.slots[j]? = some x → x.baseUrl = u →
      (s.table.slots.map Slot.baseUrl)[j]? = some u := by
    intro j x hj hx
    rw [getElem?_map, hj, map_some, hx]
  have hlt : k < (s.table.slots.map Slot.baseUrl).length := by
    rw [length_map]
    exact (List.getElem?_eq_some_iff.1 hk).1
  have hsame : k = k₁ := (getElem?_inj hlt hinv.table.urls).1
    ((hurls hk (hm.trans hurl)).trans (hurls hk₁ (hm₁.trans hurl₁)).symm)
  subst hsame
  refine (hinv.mutex k m hk).unique ?_ ?_
  · rw [hpc₁]
    exact ⟨rfl, locked_of_flight hflight⟩
  · rw [hpc]
    exact ⟨rfl, hp⟩

theorem flight_after {q : SlotPc ⊕ Answer} :
    (Pc.after c k q).flight = (q.elim flight fun _ => none).map fun seen => (c.url, seen) := by
  cases q <;> rfl

/-- Two threads cannot both have a read of one gateway in flight. -/
theorem Inv.flight_unique {n' : Nat} (hinv : Inv s) (h : (s.pc t).flight = some (u, n))
    (h' : (s.pc t').flight = some (u, n')) : t = t' := by
  obtain ⟨c, k, p, hpc, hurl, hflight⟩ := slot_of_flight h'
  exact hinv.one_reader h hpc hurl (locked_of_flight hflight)

/-- An event is an access of a thread to its slot. -/
theorem Inv.event (hinv : Inv s) (setup : Setup) :
    (started s a = none ∧ ended s a = none ∧ published setup s a = none) ∨
      ∃ c k p m, s.pc a.thread = .slot c k p ∧ s.table.slots[k]? = some m ∧ m.baseUrl = c.url ∧
        started s a = (p.starts m).map (fun seen => (c.url, seen)) ∧
        ended s a = (if p.counts then some c.url else none) ∧
        published setup s a = (p.fresh setup m).map fun fresh => (c.url, fresh) := by
  cases a with
  | call => exact .inl ⟨rfl, rfl, rfl⟩
  | step t out =>
    cases hpc : s.pc t with
    | slot c k p =>
      have hplaced := hinv.placed t
      rw [hpc] at hplaced
      obtain ⟨m, hk, hurl, -⟩ := hplaced
      exact .inr ⟨c, k, p, m, hpc, hk, hurl, event_of_access setup out hpc hk⟩
    | _ => exact .inl (not_event_of_elsewhere setup (by rw [Act.thread, hpc]; rfl))

/-- A read is started with the count as it stands, and while none is in flight. -/
theorem Inv.started (hinv : Inv s) (setup : Setup) (h : started s a = some (u, n)) :
    s.reads u = n ∧ (s.pc a.thread).flight = none ∧ ended s a = none ∧ published setup s a = none ∧
      ∀ t n', (s.pc t).flight ≠ some (u, n') := by
  obtain ⟨hnone, -, -⟩ | ⟨c, k, p, m, hpc, hk, hurl, hstarted, hended, hpublished⟩ :=
    hinv.event setup
  · rw [hnone] at h
    cases h
  · rw [hstarted, map_eq_some_iff] at h
    obtain ⟨seen, hstarts, heq⟩ := h
    cases heq
    obtain ⟨rfl, hreads⟩ := of_starts hstarts
    refine ⟨?_, ?_, hended, hpublished, fun t₁ n' h₁ => ?_⟩
    · rw [State.reads, hinv.slotOf hk hurl]
      exact hreads
    · rw [hpc]
      rfl
    · obtain rfl := hinv.one_reader h₁ hpc rfl trivial
      rw [hpc] at h₁
      cases h₁

/-- A read is ended by the thread that has it in flight. -/
theorem Inv.ended (hinv : Inv s) (setup : Setup) (h : ended s a = some u) :
    ∃ n, (s.pc a.thread).flight = some (u, n) := by
  obtain ⟨-, hnone, -⟩ | ⟨c, k, p, m, hpc, hk, hurl, -, hended, -⟩ := hinv.event setup
  · rw [hnone] at h
    cases h
  · rw [hended] at h
    split at h
    next hcounts =>
      cases h
      obtain ⟨n, hflight⟩ := flight_of_counts hcounts
      rw [hpc]
      exact ⟨n, flight_slot.2 ⟨rfl, hflight⟩⟩
    · cases h

/-- A catalog is published by the thread that has a read in flight. -/
theorem Inv.published (hinv : Inv s) (h : published setup s a = some (u, fresh)) :
    ∃ n, (s.pc a.thread).flight = some (u, n) := by
  obtain ⟨-, -, hnone⟩ | ⟨c, k, p, m, hpc, hk, hurl, -, -, hpublished⟩ := hinv.event setup
  · rw [hnone] at h
    cases h
  · rw [hpublished, map_eq_some_iff] at h
    obtain ⟨fresh', hfresh, heq⟩ := h
    cases heq
    obtain ⟨n, last, body, rfl⟩ := of_fresh hfresh
    rw [hpc]
    exact ⟨n, rfl⟩

theorem Move.pc_other (h : Move setup s a s') (ht : t ≠ a.thread) : s'.pc t = s.pc t := by
  cases h <;> exact update_of_ne ht _ _

/-- **Whether a thread has a read in flight after its step**: not if it ended one, and else the one
it started, or had. -/
theorem Move.flight (h : Move setup s a s') :
    (s'.pc a.thread).flight = if (ended s a).isSome then none
      else (started s a).or (s.pc a.thread).flight := by
  cases h with
  | @elsewhere _ p lock hpc hp =>
    obtain ⟨hstarted, hended, -⟩ := not_event_of_elsewhere setup hpc
    have hbefore : (s.pc a.thread).flight = none := by
      cases hpc' : s.pc a.thread with
      | slot =>
        rw [hpc'] at hpc
        cases hpc
      | _ => rfl
    have hafter : p.flight = none := by
      cases p with
      | slot => rcases hp with hp | hp <;> cases hp; rfl
      | _ => rfl
    simp only [update_self, hstarted, hended, hbefore, hafter]
    rfl
  | @push t₁ out c hpc hnew =>
    simp only [Act.thread, update_self, started, ended, hpc]
    rfl
  | @access t₁ k out c p m m' q hpc hk hurl hfits hacc =>
    obtain ⟨hstarted, hended, -⟩ := event_of_access setup out hpc hk
    have hbefore : (s.pc t₁).flight = p.flight.map fun seen => (c.url, seen) := by
      rw [hpc]
      rfl
    simp only [Act.thread, update_self, hstarted, hended, hbefore, flight_after, hacc.flight]
    cases p.counts <;> cases p.starts m <;> rfl

/-- A thread that has a read in flight after its step made an access to its slot. -/
theorem Move.access_of_flight (h : Move setup s a s') (hpc : s'.pc a.thread = .slot c k p)
    (hflight : p.flight = some n) :
    ∃ p₁ m m', s.pc a.thread = .slot c k p₁ ∧ Access setup a.thread m p₁ m' (.inl p) ∧
      started s a = (p₁.starts m).map (fun seen => (c.url, seen)) ∧
      published setup s a = (p₁.fresh setup m).map fun fresh => (c.url, fresh) := by
  cases h with
  | @elsewhere _ p' lock hpc' hp =>
    have hp' : p' = .slot c k p := (update_self _ _ _).symm.trans hpc
    rw [hp'] at hp
    rcases hp with hp | hp <;> cases hp
    cases hflight
  | @push t₁ out c' hpc' hnew =>
    have hp' : Pc.unlockSlots c' s.table.slots.length = .slot c k p :=
      (update_self _ _ _).symm.trans hpc
    cases hp'
  | @access t₁ k' out c' p₁ m m' q hpc' hk hurl hfits hacc =>
    have hp' : Pc.after c' k' q = .slot c k p := (update_self _ _ _).symm.trans hpc
    cases q with
    | inl =>
      cases hp'
      obtain ⟨hstarted, -, hpublished⟩ := event_of_access setup out hpc' hk
      exact ⟨p₁, m, m', hpc', hacc, hstarted, hpublished⟩
    | inr => cases hp'

/-! ### The count -/

/-- Whether the action starts a read of the gateway. -/
def startsOf (u : String) (s : State) (a : Act) : Bool := (started s a).any fun e => e.1 = u

/-- The reads of a gateway that have been started are those counted, and the one in flight. -/
structure Counted (u : String) (starts : Nat) (s : State) : Prop where
  rest : (∀ t n, (s.pc t).flight ≠ some (u, n)) → starts = s.reads u
  busy : ∀ t n, (s.pc t).flight = some (u, n) → s.reads u = n ∧ starts = n + 1

theorem startsOf_eq_true : startsOf u s a = true ↔ ∃ n, started s a = some (u, n) := by
  unfold startsOf
  cases started s a with
  | none => simp
  | some => simp [Prod.ext_iff]

/-- A step that starts and ends no read of the gateway leaves those in flight as they are, whatever
it does to another's. -/
theorem Move.flight_same (hinv : Inv s) (hmove : Move setup s a s')
    (hstarts : startsOf u s a = false) (hended : ended s a ≠ some u) :
    (s'.pc t).flight = some (u, n) ↔ (s.pc t).flight = some (u, n) := by
  by_cases htt : t = a.thread
  · subst htt
    rw [hmove.flight]
    cases hend : ended s a with
    | some u' =>
      obtain ⟨n', hfl⟩ := hinv.ended setup hend
      have hne : u' ≠ u := fun heq => hended (heq ▸ hend)
      simp [hfl, hne]
    | none =>
      cases hst : started s a with
      | some e =>
        obtain ⟨-, hfl, -⟩ := hinv.started setup hst
        have hne : e.1 ≠ u :=
          fun heq => Bool.eq_false_iff.1 hstarts (startsOf_eq_true.2 ⟨e.2, by rw [hst, ← heq]⟩)
        simp [hfl, Prod.ext_iff, hne]
      | none => rfl
  · rw [hmove.pc_other htt]

/-- Only the start of a read moves the count. -/
theorem Counted.move {starts : Nat} (h : Counted u starts s) (hinv : Inv s)
    (hmove : Move setup s a s') : Counted u (starts + if startsOf u s a then 1 else 0) s' := by
  by_cases hstarts : startsOf u s a = true
  · obtain ⟨n, hn⟩ := startsOf_eq_true.1 hstarts
    obtain ⟨hreads, -, hended, -, hnone⟩ := hinv.started setup hn
    have hself : (s'.pc a.thread).flight = some (u, n) := by
      rw [hmove.flight, hended, hn]
      rfl
    have hreads' : s'.reads u = n := by rw [hmove.reads hinv, hended, hreads]; rfl
    have hbefore : starts = n := (h.rest hnone).trans hreads
    rw [if_pos hstarts, hbefore]
    refine ⟨fun hno => absurd hself (hno a.thread n), fun t n' hfl => ?_⟩
    by_cases htt : t = a.thread
    · subst htt
      cases hself.symm.trans hfl
      exact ⟨hreads', rfl⟩
    · rw [hmove.pc_other htt] at hfl
      exact absurd hfl (hnone t n')
  · rw [if_neg hstarts, Nat.add_zero]
    by_cases hended : ended s a = some u
    · obtain ⟨n, hfl⟩ := hinv.ended setup hended
      obtain ⟨hreads, hbefore⟩ := h.busy a.thread n hfl
      refine ⟨fun _ => ?_, fun t n' hfl' => ?_⟩
      · rw [hmove.reads hinv, if_pos hended, hreads, hbefore]
      · by_cases htt : t = a.thread
        · subst htt
          rw [hmove.flight, hended] at hfl'
          cases hfl'
        · rw [hmove.pc_other htt] at hfl'
          exact absurd (hinv.flight_unique hfl' hfl) htt
    · have hreads : s'.reads u = s.reads u := by rw [hmove.reads hinv, if_neg hended, Nat.add_zero]
      have hsame : ∀ t n, (s'.pc t).flight = some (u, n) ↔ (s.pc t).flight = some (u, n) :=
        fun t n => hmove.flight_same hinv (Bool.eq_false_iff.2 hstarts) hended
      refine ⟨fun hno => ?_, fun t n hfl => ?_⟩
      · rw [hreads]
        exact h.rest fun t n hfl => hno t n ((hsame t n).2 hfl)
      · rw [hreads]
        exact h.busy t n ((hsame t n).1 hfl)

end Step

/-! ### Runs -/

section Run

variable {setup : Setup} {as : List Act} {s₀ s s' : State} {a : Act} {u : String} {t k n : Nat}
  {c : Call} {p : SlotPc}

theorem inv_of_exec (hinv : Inv s₀) (h : (threads setup).exec s₀ as = some s) : Inv s :=
  (threads setup).exec_invariant hinv (fun _ _ _ hinv hstep => (hinv.step hstep).1) h

theorem reads_mono (hinv : Inv s₀) (h : (threads setup).exec s₀ as = some s) :
    s₀.reads u ≤ s.reads u := by
  refine ((threads setup).exec_invariant (I := fun s => Inv s ∧ s₀.reads u ≤ s.reads u)
    ⟨hinv, le_rfl⟩ ?_ h).2
  rintro s₁ a s₂ ⟨hinv₁, hle⟩ hstep
  obtain ⟨hinv₂, hmove⟩ := hinv₁.step hstep
  rw [hmove.reads hinv₁]
  exact ⟨hinv₂, Nat.le_add_right_of_le hle⟩

/-- **A catalog that is held stays**, until a read puts another in its place. -/
theorem held_isSome (hinv : Inv s₀) (h : (threads setup).exec s₀ as = some s)
    (hheld : (s₀.held u).isSome) : (s.held u).isSome := by
  refine ((threads setup).exec_invariant (I := fun s => Inv s ∧ (s.held u).isSome)
    ⟨hinv, hheld⟩ ?_ h).2
  rintro s₁ a s₂ ⟨hinv₁, hsome⟩ hstep
  obtain ⟨hinv₂, hmove⟩ := hinv₁.step hstep
  rw [hmove.held hinv₁, isSome_or, hsome, Bool.or_true]
  exact ⟨hinv₂, rfl⟩

theorem starts_counted (h : (threads setup).exec {} as = some s) :
    Counted u ((threads setup).times (startsOf u) {} as) s := by
  refine (threads setup).exec_history
    (I := fun as s => Counted u ((threads setup).times (startsOf u) {} as) s) ?_ ?_ h
  · exact ⟨fun _ => rfl, nofun⟩
  · intro as s₁ a s₂ hrun hcounted hstep
    have hinv₁ := inv_of_exec inv_start hrun
    rw [(threads setup).times_snoc hrun hstep]
    exact hcounted.move hinv₁ (hinv₁.step hstep).2

/-- The count a read is started with is the number of reads started before it. -/
theorem started_eq_times (h : (threads setup).exec {} as = some s)
    (hstarted : started s a = some (u, n)) : (threads setup).times (startsOf u) {} as = n := by
  obtain ⟨hreads, -, -, -, hnone⟩ := (inv_of_exec inv_start h).started setup hstarted
  rw [(starts_counted h).rest hnone, hreads]

/-- **One read for each count.** -/
theorem started_once {pre mid : List Act} {b : Act} {s₁ s₂ : State}
    (hpre : (threads setup).exec {} pre = some s₁)
    (hmid : (threads setup).exec {} (pre ++ a :: mid) = some s₂) (ha : started s₁ a = some (u, n)) :
    started s₂ b ≠ some (u, n) := by
  intro hb
  have hbefore := started_eq_times hpre ha
  have hafter := started_eq_times hmid hb
  obtain ⟨s', hrun, hrest⟩ := (threads setup).exec_append_some hmid
  cases hpre.symm.trans hrun
  rw [(threads setup).times_append hpre, hbefore, Machine.times,
    if_pos (startsOf_eq_true.2 ⟨n, ha⟩)] at hafter
  omega

/-- The run in which thread `t` started the read it has in flight, and what has become of the
catalog since: it is as it was, or the read has gone well and the catalog is the body it got. -/
def ReadSoFar (setup : Setup) (as : List Act) (s : State) (t : Nat) (c : Call) (k n : Nat)
    (p : SlotPc) : Prop :=
  ∃ pre a post s₁, as = pre ++ a :: post ∧ (threads setup).exec {} pre = some s₁ ∧ a.thread = t ∧
    started s₁ a = some (c.url, n) ∧
    (s.held c.url = s₁.held c.url ∨ ∃ last, p.outcome = some last ∧ isOk last = true ∧
      ∃ mid b rest s₂ body fresh, post = mid ++ b :: rest ∧
        (threads setup).exec {} (pre ++ a :: mid) = some s₂ ∧
        s₂.pc t = .slot c k (.read n (.store last body)) ∧ b.thread = t ∧
          parse setup body = some fresh ∧
        s.held c.url = some fresh)

/-- One more action that leaves the catalog as it is. -/
theorem ReadSoFar.snoc {p' : SlotPc} (h : ReadSoFar setup as s t c k n p)
    (hheld : s'.held c.url = s.held c.url)
    (houtcome : ∀ last, p.outcome = some last → p'.outcome = some last) :
    ReadSoFar setup (as ++ [a]) s' t c k n p' := by
  obtain ⟨pre, b, post, s₁, rfl, hpre, hthread, hstarted, hcases⟩ := h
  refine ⟨pre, b, post ++ [a], s₁, by rw [append_assoc, cons_append], hpre, hthread, hstarted, ?_⟩
  rw [hheld]
  refine hcases.imp_right ?_
  rintro ⟨last, hlast, hok, mid, b', rest, s₂, body, fresh, rfl, hrest⟩
  exact ⟨last, houtcome last hlast, hok, mid, b', rest ++ [a], s₂, body, fresh,
    by rw [append_assoc, cons_append], hrest⟩

/-- A step of the thread itself: it starts the read, publishes the body, or goes on with it. -/
theorem ReadSoFar.own (hrun : (threads setup).exec {} as = some s) (hmove : Move setup s a s')
    (ih : ∀ p, s.pc a.thread = .slot c k p → p.flight = some n →
      ReadSoFar setup as s a.thread c k n p)
    (hpc : s'.pc a.thread = .slot c k p) (hflight : p.flight = some n) :
    ReadSoFar setup (as ++ [a]) s' a.thread c k n p := by
  have hinv := inv_of_exec inv_start hrun
  obtain ⟨p₁, m, m', hpc₁, hacc, hstarted, hpublished⟩ := hmove.access_of_flight hpc hflight
  have hnow : (if p₁.counts then none else (p₁.starts m).or p₁.flight) = some n :=
    hacc.flight.symm.trans hflight
  cases hcounts : p₁.counts with
  | true =>
    rw [hcounts] at hnow
    cases hnow
  | false =>
    rw [hcounts, if_neg (by decide)] at hnow
    cases hstarts : p₁.starts m with
    | some =>
      rw [hstarts, some_or] at hnow
      cases hnow
      rw [hstarts] at hstarted
      obtain ⟨-, -, -, hnone, -⟩ := hinv.started setup hstarted
      refine ⟨as, a, [], s, rfl, hrun, rfl, hstarted,
        .inl (hmove.held_of_not_published hinv fun fresh hpub => ?_)⟩
      cases hnone.symm.trans hpub
    | none =>
      rw [hstarts, none_or] at hnow
      have hsofar := ih p₁ hpc₁ hnow
      cases hfresh : p₁.fresh setup m with
      | none =>
        refine hsofar.snoc (hmove.held_of_not_published hinv fun fresh hpub => ?_)
          (hacc.outcome p rfl (by rw [hflight]; simp))
        rw [hpublished, hfresh] at hpub
        cases hpub
      | some fresh =>
        obtain ⟨n', last, body, rfl, hq, hok, hparse⟩ := hacc.fresh fresh hfresh
        cases hq
        cases hnow
        obtain ⟨pre, b, post, s₀, rfl, hpre, hthread, hstarted₀, -⟩ := hsofar
        refine ⟨pre, b, post ++ [a],
          s₀, by rw [append_assoc, cons_append], hpre, hthread, hstarted₀,
          .inr ⟨last, rfl, hok, post, a, [], s, body, fresh, rfl, hrun, hpc₁, rfl, hparse, ?_⟩⟩
        rw [hfresh] at hpublished
        exact hmove.held_of_published hinv hpublished

/-- A read in flight has read so far. -/
theorem readSoFar (h : (threads setup).exec {} as = some s) (hpc : s.pc t = .slot c k p)
    (hflight : p.flight = some n) : ReadSoFar setup as s t c k n p := by
  refine (threads setup).exec_history (I := fun as s => ∀ t c k n p, s.pc t = .slot c k p →
    p.flight = some n →
    ReadSoFar setup as s t c k n p) (fun _ _ _ _ _ hpc => by cases hpc) ?_ h t c k n p hpc hflight
  intro as s₁ a s₂ hrun ih hstep t c k n p hpc hflight
  have hinv := inv_of_exec inv_start hrun
  obtain ⟨-, hmove⟩ := hinv.step hstep
  by_cases htt : t = a.thread
  · subst htt
    exact .own hrun hmove (ih a.thread c k n) hpc hflight
  · rw [hmove.pc_other htt] at hpc
    refine (ih t c k n p hpc hflight).snoc
      (hmove.held_of_not_published hinv fun fresh hpub => htt ?_) fun _ => id
    -- whoever publishes has a read of this gateway in flight, as has `t`
    obtain ⟨n', hfl⟩ := hinv.published hpub
    exact hinv.flight_unique (by rw [hpc]; exact flight_slot.2 ⟨rfl, hflight⟩) hfl

/-- For a thread whose read is over, by its own hand or another's: the gateway and the count it
asked with. It looks at the catalog next. -/
def Pc.waited : Pc → Option (String × Nat)
  | .slot c _ (.again seen) => some (c.url, seen)
  | _ => none

theorem lt_reads_of_waited (h : (threads setup).exec {} as = some s)
    (hpc : (s.pc t).waited = some (u, n)) : n < s.reads u := by
  have hinv := inv_of_exec inv_start h
  have hplaced := hinv.placed t
  unfold Pc.waited at hpc
  split at hpc
  next heq =>
    cases hpc
    rw [heq] at hplaced
    obtain ⟨m, hk, hurl, hfits⟩ := hplaced
    rw [State.reads, hinv.slotOf hk hurl]
    exact hfits
  · cases hpc

/-- **What a thread sees after a read**: the catalog that the read of its count left, or one that a
later read has put in its place since. -/
theorem seen_after_read (h : (threads setup).exec {} as = some s)
    (hpc : (s.pc t).waited = some (u, n)) :
    ∃ pre a post s₁ s₂, as = pre ++ a :: post ∧ (threads setup).exec {} pre = some s₁ ∧
      step setup s₁ a = some s₂ ∧
      s₁.reads u = n ∧ s₂.reads u = n + 1 ∧
      (s.held u = s₂.held u ∨ ∃ mid b rest s₃ fresh, post = mid ++ b :: rest ∧
        (threads setup).exec s₂ mid = some s₃ ∧
        n < s₃.reads u ∧ published setup s₃ b = some (u, fresh) ∧ s.held u = some fresh) := by
  obtain ⟨pre, a, post, s₁, s₂, rfl, hpre, hstep, hbefore, hafter, hpost⟩ :=
    (threads setup).exec_enters (s := {}) (Q := fun s => n < s.reads u) n.not_lt_zero h
      (lt_reads_of_waited h hpc)
  have hinv₁ := inv_of_exec inv_start hpre
  obtain ⟨hinv₂, hmove₁⟩ := hinv₁.step hstep
  have hreads : s₁.reads u = n ∧ s₂.reads u = n + 1 := by
    have hle := hmove₁.reads hinv₁ (u := u)
    split at hle <;> omega
  refine ⟨pre, a, post, s₁, s₂, rfl, hpre, hstep, hreads.1, hreads.2, ?_⟩
  refine (eq_or_ne (s.held u) (s₂.held u)).imp_right fun hchanged => ?_
  obtain ⟨mid, b, rest, s₃, s₄, rfl, hmid, hb, hne, hheld, -⟩ :=
    (threads setup).exec_enters (Q := fun s₃ => s₃.held u = s.held u) hchanged.symm hpost rfl
  have hinv₃ := inv_of_exec hinv₂ hmid
  obtain ⟨-, hmove⟩ := hinv₃.step hb
  obtain ⟨fresh, hpub⟩ : ∃ fresh, published setup s₃ b = some (u, fresh) := by
    by_contra hnot
    refine hne (Eq.trans ?_ hheld)
    exact (hmove.held_of_not_published hinv₃ fun fresh hpub => hnot ⟨fresh, hpub⟩).symm
  refine ⟨mid, b, rest, s₃, fresh, rfl, hmid, hafter.trans_le (reads_mono hinv₂ hmid), hpub, ?_⟩
  exact hheld.symm.trans (hmove.held_of_published hinv₃ hpub)

end Run

/-- What holds of the reads of a gateway after a run. -/
structure SingleFlight (setup : Setup) (as : List Act) (s : State) (u : String) : Prop where
  /-- Two reads are not started with one count. -/
  once : ∀ pre a mid b post s₁ s₂ n, as = pre ++ a :: (mid ++ b :: post) →
    (threads setup).exec {} pre = some s₁ →
    (threads setup).exec {} (pre ++ a :: mid) = some s₂ → started s₁ a = some (u, n) →
      started s₂ b ≠ some (u, n)
  /-- A read that is to be counted next has left the catalog as it was when it was started, unless
  it went well, and the catalog is the body it got. -/
  left : ∀ t c k n last, s.pc t = .slot c k (.read n (.count last)) → c.url = u →
    ∃ pre a post s₁, as = pre ++ a :: post ∧ (threads setup).exec {} pre = some s₁ ∧ a.thread = t ∧
      started s₁ a = some (u, n) ∧
      (s.held u = s₁.held u ∨ isOk last = true ∧
        ∃ mid b rest s₂ body fresh, post = mid ++ b :: rest ∧
          (threads setup).exec {} (pre ++ a :: mid) = some s₂ ∧
          s₂.pc t = .slot c k (.read n (.store last body)) ∧ b.thread = t ∧
            parse setup body = some fresh ∧
          s.held u = some fresh)
  /-- The count is the number of reads that were started, without the one in flight. -/
  count : Counted u ((threads setup).times (startsOf u) {} as) s
  /-- A thread whose read is over finds the catalog that the read of its count left, or one that a
  later read has published since. -/
  waited : ∀ t n, (s.pc t).waited = some (u, n) →
    ∃ pre a post s₁ s₂, as = pre ++ a :: post ∧ (threads setup).exec {} pre = some s₁ ∧
      step setup s₁ a = some s₂ ∧
      s₁.reads u = n ∧ s₂.reads u = n + 1 ∧
      (s.held u = s₂.held u ∨ ∃ mid b rest s₃ fresh, post = mid ++ b :: rest ∧
        (threads setup).exec s₂ mid = some s₃ ∧
        n < s₃.reads u ∧ published setup s₃ b = some (u, fresh) ∧ s.held u = some fresh)
  /-- Once a catalog is held, one is. -/
  kept : ∀ pre post s₁, as = pre ++ post → (threads setup).exec {} pre = some s₁ →
    (s₁.held u).isSome → (s.held u).isSome

/-- **Reads of a gateway**, in every interleaving. -/
theorem single_flight (setup : Setup) (as : List Act) (s : State)
    (h : (threads setup).exec {} as = some s) (u : String) : SingleFlight setup as s u where
  once pre a mid b post s₁ s₂ n _ hpre hmid ha := started_once hpre hmid ha
  left t c k n last hpc hurl := by
    subst hurl
    obtain ⟨pre, a, post, s₁, has, hpre, hthread, hstarted, hheld⟩ := readSoFar h hpc rfl
    refine ⟨pre, a, post, s₁, has, hpre, hthread, hstarted, hheld.imp_right ?_⟩
    rintro ⟨last', hlast, hok, hrest⟩
    cases hlast
    exact ⟨hok, hrest⟩
  count := starts_counted h
  waited t n hpc := seen_after_read h hpc
  kept pre post s₁ has hpre hheld := by
    subst has
    obtain ⟨s', hpre', hpost⟩ := (threads setup).exec_append_some h
    cases hpre.symm.trans hpre'
    exact held_isSome (inv_of_exec inv_start hpre) hpost hheld

/-! ### A run -/

/-- What a gateway answers that has one model. -/
def oneModel : Json := .obj [("data", .arr [.obj [("id", .str "m")]])]

/-- That gateway, and no override. -/
def modelGateway : Setup where
  lib := .reading ascii [oneModel]
  hash body := body.length.toUInt64
  errInternal := 1
  errKindName _ := "internal"
  override _ := none
  rereadMs := 60000

/-- Thread `t` makes `n` accesses. -/
def accesses (t n : Nat) (out : Outside) : List Act := replicate n (.step t out)

/-- Two threads ask for the catalog. The first makes the slot and starts a read, while the other
waits; the gateway does not answer. The read is counted next. -/
def refusedRead : List Act :=
  .call 0 (.catalogOf "g") :: accesses 0 8 {} ++ .call 1 (.catalogOf "g") :: accesses 1 4 {} ++
    accesses 0 7 { status := -6 }

/-- The waiter finds that it need not read. Before it looks at the catalog, a third thread asks for
a model, finds no catalog, and reads one. -/
def laterRead : List Act :=
  accesses 0 1 {} ++ accesses 1 3 {} ++
    .call 2 (.forTier "g" .fast) :: accesses 2 9 { status := 200, body := ascii oneModel.text }

theorem single_flight_laterRead : ∃ s,
    (threads modelGateway).exec {} (refusedRead ++ .step 0 {} :: laterRead) = some s ∧
      SingleFlight modelGateway (refusedRead ++ .step 0 {} :: laterRead) s "g" := by
  have hrun : ((threads modelGateway).exec {} (refusedRead ++ .step 0 {} :: laterRead)).isSome =
      true := by
    decide +kernel
  obtain ⟨s, hs⟩ := isSome_iff_exists.1 hrun
  exact ⟨s, hs, single_flight modelGateway _ s hs "g"⟩

/-- A read ends without a catalog, and the thread that waited for it finds one. -/
theorem seen_later : ∃ pre a post s₁ s₂ s, (threads modelGateway).exec {} pre = some s₁ ∧
    step modelGateway s₁ a = some s₂ ∧ (threads modelGateway).exec s₂ post = some s ∧
      s₁.reads "g" = 0 ∧
    s₂.reads "g" = 1 ∧ (s.pc 1).waited = some ("g", 0) ∧ s.held "g" ≠ s₂.held "g" := by
  have hrun : ((threads modelGateway).exec {} (refusedRead ++ .step 0 {} :: laterRead)).map
      (fun s => ((s.pc 1).waited, (s.held "g").isSome)) = some (some ("g", 0), true) := by
    decide +kernel
  have hbefore : ((threads modelGateway).exec {} refusedRead).map (fun s => s.reads "g") =
      some 0 := by
    decide +kernel
  have hafter : ((threads modelGateway).exec {} (refusedRead ++ [.step 0 {}])).map
      (fun s => (s.reads "g", (s.held "g").isSome)) = some (1, false) := by
    decide +kernel
  obtain ⟨s, hs, hseen⟩ := map_eq_some_iff.1 hrun
  obtain ⟨s₁, hs₁, hrest⟩ := (threads modelGateway).exec_append_some hs
  obtain ⟨s₂, hstep, hpost⟩ := (threads modelGateway).exec_cons_some hrest
  rw [hs₁] at hbefore
  rw [(threads modelGateway).exec_snoc hs₁ hstep] at hafter
  obtain ⟨hwaited, hheld⟩ := Prod.mk.inj hseen
  obtain ⟨hreads, hnone⟩ := Prod.mk.inj (some.inj hafter)
  refine ⟨refusedRead, .step 0 {}, laterRead, s₁, s₂, s, hs₁, hstep, hpost, some.inj hbefore,
    hreads, hwaited, fun heq => ?_⟩
  rw [heq, hnone] at hheld
  cases hheld

end Agnosai.ModelCatalog
