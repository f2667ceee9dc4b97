import Agnosai.ModelCatalog.Threads

/-!
# Model catalog — Access

What one access of a thread to its slot does (`Access`, `slotStep_access`). A read is in flight
from the check that finds the count as its thread saw it to the step that counts it
(`SlotPc.flight`); that is inside the part that has the mutex (`SlotPc.Locked`).
-/

namespace Agnosai.ModelCatalog

open SlotPc

/-! ### Regions -/

/-- The accesses of a read with the mutex. -/
def SlotPc.Locked : SlotPc → Prop
  | .read _ .lock => False
  | .read _ _ => True
  | _ => False

/-- The count with which a read was started that is not counted yet. -/
def SlotPc.flight : SlotPc → Option Nat
  | .read _ .lock | .read _ .check | .read _ .unlock => none
  | .read seen _ => some seen
  | _ => none

/-- How a read went, once its thread has looked at the body. -/
def SlotPc.outcome : SlotPc → Option Int
  | .read _ (.setLast last) | .read _ (.stamp last) | .read _ (.count last) => some last
  | _ => none

/-- What a thread knows of the count of its slot: it saw it before, it has checked it and holds the
mutex, or the read it asked for has been made. -/
def SlotPc.Fits (reads : Nat) : SlotPc → Prop
  | .picking seen | .read seen .lock | .read seen .check => seen ≤ reads
  | .read seen .unlock | .again seen => seen < reads
  | .read seen _ => reads = seen
  | _ => True

theorem SlotPc.locked_of_counts {p : SlotPc} (h : p.counts = true) : p.Locked := by
  unfold counts at h
  split at h
  · trivial
  · cases h

theorem SlotPc.Fits.mono {p : SlotPc} {n n' : Nat} (h : p.Fits n) (hp : ¬ p.Locked) (hle : n ≤ n') :
    p.Fits n' := by
  cases p with
  | read seen r =>
    cases r with
    | lock => exact le_trans h hle
    | _ => exact absurd trivial hp
  | picking => exact le_trans h hle
  | again => exact lt_of_lt_of_le h hle
  | _ => trivial

/-! ### An access to a slot -/

/-- What an access of thread `t` does to a slot, and where it takes the thread. -/
structure Access (setup : Setup) (t : Nat) (m : Slot) (p : SlotPc) (m' : Slot)
    (q : SlotPc ⊕ Answer) : Prop where
  baseUrl : m'.baseUrl = m.baseUrl
  next : m'.next = m.next
  reads : m'.reads = m.reads + if p.counts then 1 else 0
  catalog : m'.catalog = (p.fresh setup m).or m.catalog
  mutex : m'.mutex = m.mutex ∧ (p.Locked ↔ ∃ p', q = .inl p' ∧ p'.Locked) ∨
    m.mutex = none ∧ m'.mutex = some t ∧ (∃ p', q = .inl p' ∧ p'.Locked) ∨
    m'.mutex = none ∧ p.Locked ∧ ¬ ∃ p', q = .inl p' ∧ p'.Locked
  fits : p.Fits m.reads → ∀ p', q = .inl p' → p'.Fits m'.reads
  flight : q.elim flight (fun _ => none) = if p.counts then none else (p.starts m).or p.flight
  outcome : ∀ p', q = .inl p' → p'.flight ≠ none → ∀ last, p.outcome = some last →
    p'.outcome = some last
  fresh : ∀ fresh, p.fresh setup m = some fresh → ∃ n last body, p = .read n (.store last body) ∧
    q = .inl (.read n (.setLast last)) ∧ isOk last = true ∧ parse setup body = some fresh

section Access

variable {setup : Setup} {t : Nat} {out : Outside} {c : Call} {m m' : Slot} {p p' : SlotPc}
  {q : SlotPc ⊕ Answer}
  {seen : Nat}

theorem enter_inl (h : enter setup out m c = .inl p') :
    p' = .loadReads ∨ p' = .picking m.reads := by
  cases c with
  | catalogOf | reread =>
    simp only [enter] at h
    split at h <;> cases h
    exact .inl rfl
  | forTier =>
    cases h
    exact .inr rfl

theorem seeReads_inl (h : seeReads m c = .inl p') : p' = .read m.reads .lock := by
  cases c with
  | catalogOf =>
    simp only [seeReads] at h
    split at h
    next hzero =>
      cases h
      rw [hzero]
    · cases h
  | _ =>
    cases h
    rfl

theorem seeCatalog_inl (h : seeCatalog m p c = .inl p') : p' = p := by
  cases c with
  | forTier =>
    simp only [seeCatalog] at h
    split at h <;> cases h
    rfl
  | _ => cases h

/-- A body is published that came with a status that says so, and parses. -/
theorem judge_fresh {held : Option Held} {last last' : Int} {body : Bytes} {fresh : Held}
    (h : judge setup held last body = (some fresh, last')) :
    last' = last ∧ isOk last = true ∧ parse setup body = some fresh := by
  unfold judge at h
  split at h
  next hok =>
    split at h
    · cases h
    · split at h
      · cases h
      next hparse =>
        cases h
        exact ⟨rfl, hok, hparse⟩
  · cases h

/-- An access outside a read looks at the slot. -/
theorem Access.look (hp : ∀ seen r, p ≠ .read seen r)
    (hq : ∀ p', q = .inl p' →
      (p' = .loadReads ∨ (∃ seen, p' = .picking seen) ∨ (∃ seen, p' = .read seen .lock) ∨
      p' = .why) ∧ (p.Fits m.reads → p'.Fits m.reads)) : Access setup t m p m q := by
  have hcounts : p.counts = false ∧ p.fresh setup m = none ∧ ¬ p.Locked ∧ p.starts m = none ∧
      p.flight = none := by
    cases p with
    | read seen r => exact absurd rfl (hp seen r)
    | _ => exact ⟨rfl, rfl, id, rfl, rfl⟩
  obtain ⟨hcounts, hfresh, hlocked, hstarts, hflight⟩ := hcounts
  have hquiet : ∀ p', q = .inl p' → ¬ p'.Locked ∧ p'.flight = none := by
    intro p' hp'
    obtain ⟨rfl | ⟨seen, rfl⟩ | ⟨seen, rfl⟩ | rfl, -⟩ := hq p' hp' <;> exact ⟨id, rfl⟩
  exact
    { baseUrl := rfl
      next := rfl
      reads := by rw [hcounts]; rfl
      catalog := by rw [hfresh]; rfl
      mutex := .inl ⟨rfl, iff_of_false hlocked fun ⟨p', hp', hl⟩ => (hquiet p' hp').1 hl⟩
      fits := fun hfits p' hp' => (hq p' hp').2 hfits
      flight := by
        rw [hcounts, hstarts, hflight]
        cases q with
        | inl p' => exact (hquiet p' rfl).2
        | inr => rfl
      outcome := fun p' hp' hfl => absurd (hquiet p' hp').2 hfl
      fresh := fun fresh heq => by cases hfresh.symm.trans heq }

/-- An access with the mutex, before and after, that publishes nothing. -/
theorem Access.inside (hp : p.Locked) (hp' : p'.Locked)
    (hslot : m'.baseUrl = m.baseUrl ∧ m'.next = m.next ∧ m'.mutex = m.mutex)
    (hreads : m'.reads = m.reads + if p.counts then 1 else 0) (hcatalog : m'.catalog = m.catalog)
    (hfits : p.Fits m.reads → p'.Fits m'.reads)
    (hflight : p'.flight = if p.counts then none else (p.starts m).or p.flight)
    (houtcome : p'.flight ≠ none → ∀ last, p.outcome = some last → p'.outcome = some last)
    (hfresh : p.fresh setup m = none) : Access setup t m p m' (.inl p') where
  baseUrl := hslot.1
  next := hslot.2.1
  reads := hreads
  catalog := by rw [hcatalog, hfresh, Option.none_or]
  mutex := .inl ⟨hslot.2.2, iff_of_true hp ⟨p', rfl, hp'⟩⟩
  fits hp _ hq := Sum.inl.inj hq ▸ hfits hp
  flight := hflight
  outcome _ hq := Sum.inl.inj hq ▸ houtcome
  fresh _ heq := by cases hfresh.symm.trans heq

/-- A thread takes the mutex. -/
theorem Access.acquire (hfree : m.mutex = none) :
    Access setup t m (.read seen .lock) { m with mutex := some t } (.inl (.read seen .check)) where
  baseUrl := rfl
  next := rfl
  reads := rfl
  catalog := rfl
  mutex := .inr (.inl ⟨hfree, rfl, _, rfl, trivial⟩)
  fits hfits _ hq := Sum.inl.inj hq ▸ hfits
  flight := rfl
  outcome := nofun
  fresh := nofun

/-- A thread publishes the body it read. -/
theorem Access.publish {last last' : Int} {body : Bytes} {fresh : Held}
    (hjudge : judge setup m.catalog last body = (some fresh, last')) :
    Access setup t m (.read seen (.store last body)) { m with catalog := some fresh }
      (.inl (.read seen (.setLast last'))) := by
  obtain ⟨rfl, hok, hparse⟩ := judge_fresh hjudge
  have hfresh : (SlotPc.read seen (.store last' body)).fresh setup m = some fresh := by
    simp [SlotPc.fresh, hjudge]
  exact
    { baseUrl := rfl
      next := rfl
      reads := rfl
      catalog := by rw [hfresh]; rfl
      mutex := .inl ⟨rfl, iff_of_true trivial ⟨_, rfl, trivial⟩⟩
      fits := fun hfits _ hq => Sum.inl.inj hq ▸ hfits
      flight := rfl
      outcome := nofun
      fresh := fun _ heq => by
        cases hfresh.symm.trans heq
        exact ⟨seen, last', body, rfl, rfl, hok, hparse⟩ }

/-- A thread gives the mutex back. -/
theorem Access.release :
    Access setup t m (.read seen .unlock) { m with mutex := none } (.inl (.again seen)) where
  baseUrl := rfl
  next := rfl
  reads := rfl
  catalog := rfl
  mutex := .inr (.inr ⟨rfl, trivial, by rintro ⟨p', hq, hl⟩; cases hq; exact hl⟩)
  fits hfits _ hq := Sum.inl.inj hq ▸ hfits
  flight := rfl
  outcome := nofun
  fresh := nofun

/-- A step of a read is one of the accesses. -/
theorem readStep_access {r : ReadPc} {r' : Option ReadPc}
    (h : readStep setup t out seen m r = some (m', r')) :
    Access setup t m (.read seen r) m' (.inl (r'.elim (.again seen) (.read seen))) := by
  cases r with
  | lock =>
    simp only [readStep] at h
    split at h
    next hfree =>
      cases h
      exact .acquire hfree
    · cases h
  | check =>
    cases h
    by_cases hsame : m.reads = seen
    · rw [if_pos hsame]
      refine .inside trivial trivial ⟨rfl, rfl, rfl⟩ rfl rfl (fun _ => hsame) ?_
        (fun _ _ hlast => by cases hlast) rfl
      simp [flight, counts, starts, hsame]
    · rw [if_neg hsame]
      refine .inside trivial trivial ⟨rfl, rfl, rfl⟩ rfl rfl
        (fun hle => lt_of_le_of_ne hle (Ne.symm hsame)) ?_ (fun hfl => absurd rfl hfl) rfl
      simp [flight, counts, starts, hsame]
  | arena =>
    simp only [readStep] at h
    split at h <;> cases h <;>
      exact .inside trivial trivial ⟨rfl, rfl, rfl⟩ rfl rfl id rfl
        (fun _ _ hlast => by cases hlast) rfl
  | get =>
    cases h
    split <;> exact .inside trivial trivial ⟨rfl, rfl, rfl⟩ rfl rfl id rfl
      (fun _ _ hlast => by cases hlast) rfl
  | getModels =>
    cases h
    exact .inside trivial trivial ⟨rfl, rfl, rfl⟩ rfl rfl id rfl
      (fun _ _ hlast => by cases hlast) rfl
  | store =>
    simp only [readStep] at h
    split at h
    next hjudge =>
      cases h
      refine .inside trivial trivial ⟨rfl, rfl, rfl⟩ rfl rfl id rfl
        (fun _ _ hlast => by cases hlast) ?_
      simp [fresh, hjudge]
    next hjudge =>
      cases h
      exact .publish hjudge
  | setLast | stamp =>
    cases h
    exact .inside trivial trivial ⟨rfl, rfl, rfl⟩ rfl rfl id rfl (fun _ _ hlast => hlast) rfl
  | count =>
    cases h
    refine .inside trivial trivial ⟨rfl, rfl, rfl⟩ rfl rfl (fun heq => ?_) rfl
      (fun hfl => absurd rfl hfl) rfl
    exact Nat.lt_succ_of_le (le_of_eq heq.symm)
  | unlock =>
    cases h
    exact .release

/-- **What an access does.** -/
theorem slotStep_access (h : slotStep setup t out c m p = some (m', q)) :
    Access setup t m p m' q := by
  cases p with
  | entered =>
    cases h
    refine .look (fun _ _ => by simp) fun p' hq => ?_
    obtain rfl | rfl := enter_inl hq
    · exact ⟨.inl rfl, fun _ => trivial⟩
    · exact ⟨.inr (.inl ⟨_, rfl⟩), fun _ => le_rfl⟩
  | loadReads =>
    cases h
    refine .look (fun _ _ => by simp) fun p' hq => ?_
    obtain rfl := seeReads_inl hq
    exact ⟨.inr (.inr (.inl ⟨_, rfl⟩)), fun _ => le_rfl⟩
  | picking =>
    cases h
    refine .look (fun _ _ => by simp) fun p' hq => ?_
    obtain rfl := seeCatalog_inl hq
    exact ⟨.inr (.inr (.inl ⟨_, rfl⟩)), id⟩
  | read =>
    simp only [slotStep] at h
    split at h
    · cases h
    next hread =>
      cases h
      exact readStep_access hread
    next hread =>
      cases h
      exact readStep_access hread
  | again =>
    cases h
    refine .look (fun _ _ => by simp) fun p' hq => ?_
    obtain rfl := seeCatalog_inl hq
    exact ⟨.inr (.inr (.inr rfl)), fun _ => trivial⟩
  | why =>
    cases h
    exact .look (fun _ _ => by simp) nofun

end Access

end Agnosai.ModelCatalog
