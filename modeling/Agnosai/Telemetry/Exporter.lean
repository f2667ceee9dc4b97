import Agnosai.Support.Machine
import Agnosai.Telemetry.Ring

/-!
# Telemetry — Exporter

Flushes and enqueues in any order, after `telemetry/otlp.cyr`. A flush holds the exporter's lock,
which an enqueue does not take: it reads the count of the ring, drains the ring, and adds what it
read to the spans exported. A span enqueued between the two is exported and not counted
(`spans_uncounted`).
-/

namespace Agnosai.Otlp

/-- Where the flush that holds the lock is: what it has counted, and how many spans it has
drained. -/
inductive Flush where
  | idle
  | counted (n : Nat)
  | drained (n batch : Nat)
  /-- It has loaded the exported count. -/
  | loaded (n batch exported : Nat)
  | stored (n batch : Nat)

/-- The exporter, with the spans ever enqueued, and what each flush returned for how large a
batch. -/
structure Exporter where
  ring : Ring := .new
  exported : Nat := 0
  flush : Flush := .idle
  enqueued : Nat := 0
  returned : List (Nat × Nat) := []

inductive Act where
  | enqueue (text : String)
  /-- The next load, store or section of a flush. -/
  | flush (service : String)

variable {e : Exporter}

namespace Exporter

def leave (e : Exporter) (n batch : Nat) : Exporter :=
  { e with flush := .idle, returned := e.returned ++ [(n, batch)] }

/-- `agnosai_otlp_exporter_flush`, one access at a time. -/
def flushStep (e : Exporter) (service : String) : Exporter :=
  match e.flush with
  | .idle => if e.ring.count = 0 then e.leave 0 0 else { e with flush := .counted e.ring.count }
  | .counted n =>
    match e.ring.drain service with
    | (ring, none) => { e with ring := ring }.leave 0 0
    | (ring, some _) => { e with ring := ring, flush := .drained n e.ring.count }
  | .drained n batch => { e with flush := .loaded n batch e.exported }
  | .loaded n batch exported => { e with exported := exported + n, flush := .stored n batch }
  | .stored n batch => e.leave n batch

def machine : Machine Exporter Act where
  step e
    | .enqueue text => some { e with ring := (e.ring.enqueue text).1, enqueued := e.enqueued + 1 }
    | .flush service => some (e.flushStep service)

/-- No span is enqueued between the count of a flush and its drain, unless the ring is full and it
takes the place of the oldest. -/
def Apart (e : Exporter) : Act → Bool
  | .enqueue _ =>
    match e.flush with
    | .counted _ => ringMax ≤ e.ring.count
    | _ => true
  | .flush _ => true

/-- What a flush has drained and not yet counted. -/
def Pending : Flush → Nat
  | .drained n _ | .loaded n _ _ => n
  | _ => 0

/-- A flush has counted what it is to drain, and counts what it drained. -/
def Exact (e : Exporter) : Prop :=
  match e.flush with
  | .idle => True
  | .counted n => e.ring.count = n
  | .drained n batch | .stored n batch => n = batch
  | .loaded n batch exported => n = batch ∧ exported = e.exported

structure Conserved (e : Exporter) : Prop where
  spans : e.enqueued = e.exported + Pending e.flush + e.ring.dropped + e.ring.count
  exact : e.Exact
  returned : ∀ p ∈ e.returned, p.1 = p.2

theorem Conserved.leave {n batch : Nat} (h : Conserved e) (hpending : Pending e.flush = 0)
    (hn : n = batch) : Conserved (e.leave n batch) where
  spans := by rw [Exporter.leave, h.spans, hpending]; rfl
  exact := trivial
  returned := by simpa [Exporter.leave, or_imp, forall_and, hn] using h.returned

/-- A step of a flush loses no span. -/
theorem Conserved.flushStep (h : Conserved e) (service : String) :
    Conserved (e.flushStep service) := by
  obtain ⟨ring, exported, flush, enqueued, returned⟩ := e
  cases flush with
  | idle =>
    simp only [Exporter.flushStep]
    split
    · exact h.leave rfl rfl
    · exact ⟨h.spans, rfl, h.returned⟩
  | counted n =>
    obtain rfl : ring.count = n := h.exact
    by_cases hzero : ring.count = 0
    · simp only [Exporter.flushStep, Ring.drain, hzero, if_true]
      exact h.leave rfl rfl
    · simp only [Exporter.flushStep, Ring.drain, hzero, if_false]
      refine ⟨?_, rfl, h.returned⟩
      have hspans := h.spans
      simp only [Pending] at hspans ⊢
      omega
  | drained => exact ⟨h.spans, ⟨h.exact, rfl⟩, h.returned⟩
  | loaded n batch exported' =>
    obtain ⟨hn, rfl⟩ := h.exact
    exact ⟨h.spans, hn, h.returned⟩
  | stored => exact h.leave rfl h.exact

/-- What a flush has counted stays the count of the ring. -/
theorem Conserved.enqueue {text : String} (h : Conserved e) (hapart : e.Apart (.enqueue text)) :
    Conserved { e with ring := (e.ring.enqueue text).1, enqueued := e.enqueued + 1 } := by
  obtain ⟨ring, exported, flush, enqueued, returned⟩ := e
  refine ⟨?_, ?_, h.returned⟩
  · have hspans := h.spans
    unfold Ring.enqueue
    split <;> simp only at hspans ⊢ <;> omega
  · cases flush with
    | counted n =>
      have hfull : ringMax ≤ ring.count := of_decide_eq_true hapart
      simp only [Exact, Ring.enqueue, if_pos hfull]
      exact h.exact
    | idle | drained | loaded | stored => exact h.exact

/-- **Spans are conserved.** In every order of enqueues and flushes where no span comes between the
count and the drain of a flush, a full ring apart: while no flush is under way, the spans enqueued
are those exported, dropped and in the ring, and each flush returned the size of its batch. -/
theorem spans_conserved {as : List Act} (h : machine.exec {} as = some e)
    (hapart : machine.Along (fun e a => e.Apart a) {} as) :
    (e.flush = .idle → e.enqueued = e.exported + e.ring.dropped + e.ring.count) ∧
      ∀ p ∈ e.returned, p.1 = p.2 := by
  have hstart : Conserved {} := ⟨rfl, trivial, nofun⟩
  have hinv : Conserved e := by
    refine machine.exec_rule (I := fun _ => Conserved) hstart ?_ hapart h
    rintro - s (text | service) s' hinv hs ⟨⟩
    · exact hinv.enqueue hs
    · exact hinv.flushStep service
  exact ⟨fun hidle => by rw [hinv.spans, hidle]; rfl, hinv.returned⟩

/-- A flush of one span, and another span that comes after its drain. -/
def lateSpan : List Act :=
  [.enqueue "a", .flush "service", .flush "service", .enqueue "b"] ++
    List.replicate 3 (.flush "service")

theorem spans_conserved_lateSpan : ∃ e, machine.exec {} lateSpan = some e ∧
    e.enqueued = 2 ∧ e.enqueued = e.exported + e.ring.dropped + e.ring.count ∧
      (1, 1) ∈ e.returned ∧ ∀ p ∈ e.returned, p.1 = p.2 := by
  have hrun : machine.exec {} lateSpan = some _ := rfl
  obtain ⟨hidle, hreturned⟩ := spans_conserved hrun (by decide)
  exact ⟨_, hrun, rfl, hidle rfl, by decide, hreturned⟩

/-- A span enqueued between count and drain is exported and not counted. -/
theorem spans_uncounted : ∃ e, machine.exec {} ([.enqueue "a", .flush "service", .enqueue "b"] ++
      List.replicate 4 (.flush "service")) = some e ∧
    e.flush = .idle ∧ e.enqueued ≠ e.exported + e.ring.dropped + e.ring.count ∧
      (1, 2) ∈ e.returned :=
  ⟨_, rfl, rfl, by decide, by decide⟩

end Exporter

end Agnosai.Otlp
