import Agnosai.Core.JsonLib
import Mathlib.Logic.Function.Basic

/-!
# Telemetry — Ring

The ring of span fragments waiting for export, after `telemetry/otlp.cyr`. A fragment is text in
an arena that a drain resets; the epoch of the arena counts its resets, and a slot written in an
earlier epoch points to nothing. What a drain writes is the text of a JSON document
(`document_text`).
-/

namespace Agnosai.Otlp

open List

/-- `AGNOSAI_OTLP_RING_MAX`. -/
def ringMax : Nat := 256

/-- What a slot points to, and the epoch of its arena. -/
structure Fragment where
  text : String
  epoch : Nat

/-- The ring of `AgnosaiOtlpRingOff`, with the epoch of its fragment arena. -/
structure Ring where
  slots : Nat → Option Fragment
  head : Nat
  count : Nat
  dropped : Nat
  epoch : Nat

/-- `agnosai_otlp_ring_new`. -/
def Ring.new : Ring := ⟨fun _ => none, 0, 0, 0, 0⟩

variable (r : Ring)

/-- `agnosai_otlp_ring_enqueue`, of an encoded span. -/
def Ring.enqueue (text : String) : Ring × Bool :=
  let slots := Function.update r.slots (r.head % ringMax) (some ⟨text, r.epoch⟩)
  if ringMax ≤ r.count then
    ({ r with slots := slots, head := r.head + 1, dropped := r.dropped + 1 }, false)
  else ({ r with slots := slots, head := r.head + 1, count := r.count + 1 }, true)

/-- The fragment a slot points to, while its arena has not been reset. -/
def Ring.load (i : Nat) : Option String :=
  ((r.slots (i % ringMax)).filter fun f => f.epoch = r.epoch).map Fragment.text

/-- The batch document, around the service attribute and the spans. -/
def document (service : String) (spans : List String) : String :=
  "\x7b\"resourceSpans\":[\x7b\"resource\":\x7b\"attributes\":[" ++ service ++
    "]\x7d,\"scopeSpans\":[\x7b\"scope\":\x7b\"name\":\"agnosai\"\x7d,\"spans\":[" ++
    ",".intercalate spans ++ "]\x7d]\x7d]\x7d"

/-- The batch as a JSON value, with the spans in one array. -/
def batchValue (service : Json) (spans : List Json) : Json :=
  .obj [("resourceSpans", .arr [.obj [("resource", .obj [("attributes", .arr [service])]),
    ("scopeSpans", .arr [.obj [("scope", .obj [("name", .str "agnosai")]),
      ("spans", .arr spans)]])]])]

/-- The document of fragments that are the texts of values holds these values, in order. -/
theorem document_text (service : Json) (spans : List Json) :
    document service.text (spans.map Json.text) = (batchValue service spans).text := by
  have hhead : "\x7b\"resourceSpans\":[\x7b\"resource\":\x7b\"attributes\":[" =
      "\x7b" ++ quoted "resourceSpans" ++ ":" ++ "[" ++ "\x7b" ++ quoted "resource" ++ ":" ++
        "\x7b" ++ quoted "attributes" ++ ":" ++ "[" := by
    decide +kernel
  have hscope : "]\x7d,\"scopeSpans\":[\x7b\"scope\":\x7b\"name\":\"agnosai\"\x7d,\"spans\":[" =
      "]" ++ "\x7d" ++ "," ++ quoted "scopeSpans" ++ ":" ++ "[" ++ "\x7b" ++ quoted "scope" ++
        ":" ++ "\x7b" ++ quoted "name" ++ ":" ++ quoted "agnosai" ++ "\x7d" ++ "," ++
        quoted "spans" ++ ":" ++ "[" := by
    decide +kernel
  have htail : "]\x7d]\x7d]\x7d" = "]" ++ "\x7d" ++ "]" ++ "\x7d" ++ "]" ++ "\x7d" := by
    decide +kernel
  have hone : ∀ a : String, ",".intercalate [a] = a := fun _ => rfl
  have htwo : ∀ a b : String, ",".intercalate [a, b] = a ++ "," ++ b := fun _ _ => rfl
  unfold document batchValue
  -- `rw` would try to close the goal by evaluating the literals
  rewrite [hhead, hscope, htail]
  simp only [Json.text, Json.fieldTexts, Json.texts_eq, map_cons, map_nil, hone, htwo,
    String.append_assoc]

/-- What a drain loads: the last `count` slots before the head. -/
def Ring.loads : List (Option String) :=
  (range r.count).map fun i => r.load (r.head - r.count + i)

/-- `agnosai_otlp_ring_drain`: nothing of an empty ring, and otherwise a document, unless a slot
points to nothing. -/
def Ring.drain (service : String) : Ring × Option (Option String) :=
  if r.count = 0 then (r, none)
  else ({ r with count := 0, epoch := r.epoch + 1 },
    some ((r.loads.mapM id).map (document service)))

inductive Op where
  | enqueue (text : String)
  | drain (service : String)

def Ring.call : Op → Ring
  | .enqueue text => (r.enqueue text).1
  | .drain service => (r.drain service).1

/-- What was enqueued since the last drain, and how much was dropped before it. -/
structure Queue where
  since : List String := []
  before : Nat := 0

namespace Queue

/-- A queue of 256 holds the last ones. -/
def held (q : Queue) : List String := q.since.drop (q.since.length - ringMax)

/-- It has dropped the others. -/
def dropped (q : Queue) : Nat := q.before + (q.since.length - ringMax)

def call (q : Queue) : Op → Queue
  | .enqueue text => { q with since := q.since ++ [text] }
  | .drain _ => { since := [], before := q.dropped }

/-- What a drain returns. -/
def batch (q : Queue) (service : String) : Option String :=
  if q.since = [] then none else some (document service q.held)

end Queue

/-- The ring holds what the queue does, each fragment `since.length` places or fewer behind the
head. -/
structure Represents (r : Ring) (q : Queue) : Prop where
  count : r.count = min q.since.length ringMax
  dropped : r.dropped = q.dropped
  head : q.since.length ≤ r.head
  slots : ∀ i text, q.since[i]? = some text → q.since.length ≤ i + ringMax →
    r.slots ((r.head - q.since.length + i) % ringMax) = some ⟨text, r.epoch⟩

theorem mapM_some (spans : List String) : (spans.map some).mapM id = some spans := by
  induction spans with
  | nil => rfl
  | cons text spans ih => simp [ih]

namespace Represents

theorem empty {r : Ring} {n : Nat} (hcount : r.count = 0) (hdropped : r.dropped = n) :
    Represents r ⟨[], n⟩ :=
      ⟨by simp [hcount], by simp [Queue.dropped, hdropped], Nat.zero_le _, by simp⟩

variable {r : Ring} {q : Queue} (h : Represents r q)
include h

/-- The ring enqueues as the queue does. -/
theorem enqueue (text : String) : Represents (r.enqueue text).1 (q.call (.enqueue text)) := by
  obtain ⟨hcount, hdropped, hhead, hslots⟩ := h
  have hplaced : ∀ i t, (q.since ++ [text])[i]? = some t → q.since.length + 1 ≤ i + ringMax →
      Function.update r.slots (r.head % ringMax) (some ⟨text, r.epoch⟩)
        ((r.head + 1 - (q.since.length + 1) + i) % ringMax) = some ⟨t, r.epoch⟩ := by
    intro i t hi hle
    rw [Nat.add_sub_add_right]
    rcases Nat.lt_trichotomy i q.since.length with hlt | rfl | hgt
    · -- an older fragment that is still held lies in another slot
      rw [getElem?_append_left hlt] at hi
      rw [Function.update_of_ne (by unfold ringMax at *; omega)]
      exact hslots i t hi (by omega)
    · obtain rfl : text = t := by simpa using hi
      rw [Nat.sub_add_cancel hhead, Function.update_self]
    · rw [getElem?_eq_none (by simp; omega)] at hi
      cases hi
  simp only [Ring.enqueue, Queue.call, Queue.dropped] at hdropped ⊢
  split <;> refine ⟨?_, ?_, ?_, by simpa using hplaced⟩ <;> simp [Queue.dropped] <;> omega

/-- Every slot a drain loads points to the fragment in its turn. -/
theorem loads : r.loads = q.held.map some := by
  have hcount := h.count
  have hhead := h.head
  refine ext_getElem (by simp [Ring.loads, Queue.held]; omega) fun i hi hi' => ?_
  simp only [Queue.held, length_map, length_drop] at hi'
  have hslot := h.slots (q.since.length - ringMax + i) _ (getElem?_eq_getElem (by omega)) (by omega)
  rw [show r.head - q.since.length + (q.since.length - ringMax + i) = r.head - r.count + i by omega]
    at hslot
  simp [Ring.loads, Ring.load, Queue.held, hslot, Option.filter]

theorem drain (service : String) : Represents (r.drain service).1 (q.call (.drain service)) ∧
    (r.drain service).2 = (q.batch service).map some := by
  have hcount := h.count
  unfold Ring.drain Queue.batch
  split
  next hzero =>
    have hnil : q.since = [] := length_eq_zero_iff.1 (by unfold ringMax at hcount; omega)
    exact ⟨.empty hzero h.dropped, by simp [hnil]⟩
  next hpos =>
    have hne : q.since ≠ [] := by
      intro hnil
      simp [hnil] at hcount
      exact hpos hcount
    refine ⟨.empty rfl h.dropped, ?_⟩
    rw [if_neg hne, h.loads, mapM_some]
    rfl

theorem call (op : Op) : Represents (r.call op) (q.call op) :=
  match op with
  | .enqueue text => h.enqueue text
  | .drain service => (h.drain service).1

end Represents

/-- **Drains.** After any calls, a drain writes the last 256 fragments since the one before, oldest
first; the counter has grown by the others; and no slot that is loaded points to nothing. -/
theorem drain_run (ops : List Op) :
    let r := ops.foldl Ring.call .new
    let q := ops.foldl Queue.call {}
    r.dropped = q.dropped ∧ ∀ service, (r.drain service).2 = (q.batch service).map some := by
  intro r q
  have h : Represents r q := foldl_rel (.empty rfl rfl) fun op _ _ _ h => h.call op
  exact ⟨h.dropped, fun service => (h.drain service).2⟩

end Agnosai.Otlp
