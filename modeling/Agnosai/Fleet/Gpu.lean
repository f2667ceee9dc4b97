import Mathlib.Algebra.Order.BigOperators.Group.List
import Mathlib.Algebra.Order.Ring.Int
import Mathlib.Data.List.Induction
import Agnosai.Core.Agent
import Agnosai.Support.KeyMap
import Agnosai.Support.Machine

/-!
# Fleet — Gpu

The scheduler of device memory, after `fleet/gpu.cyr`: devices with their memory, and at most one
allocation per task, placed on the device with the most free memory among those of the type asked
for. Sizes are 64-bit.

Allocating for a task that has memory returns that memory first, and keeps it returned when the new
request finds no room. The memory in use on a device is kept beside the allocations, and is their
sum (`Conserved`).
-/

namespace Agnosai.Fleet.Gpu

open KeyMap List Int64 Bool

/-- `AgnosaiComputeDeviceOff`. -/
structure ComputeDevice where
  index : Nat
  name : String
  accelerator : AcceleratorType
  memoryTotalMb : Int64
  memoryAvailableMb : Int64

/-- `AgnosaiDeviceStateOff`. -/
structure DeviceState where
  device : ComputeDevice
  memoryUsedMb : Int64

/-- `AgnosaiComputeAllocationOff`. -/
structure ComputeAllocation where
  taskId : String
  deviceIndex : Nat
  memoryMb : Int64

/-- `AgnosaiComputeSchedulerOff`. -/
structure Scheduler where
  devices : List DeviceState
  allocations : KeyMap String ComputeAllocation

namespace DeviceState

variable (ds : DeviceState)

/-- `_agnosai_gpu_ds_available`. -/
def available : Int64 :=
  if ds.device.memoryTotalMb ≤ ds.memoryUsedMb then 0 else ds.device.memoryTotalMb - ds.memoryUsedMb

/-- `_agnosai_gpu_sync_avail`. -/
def syncAvail : DeviceState :=
  { ds with device := { ds.device with memoryAvailableMb := ds.available } }

/-- The device after more memory of it is in use. -/
def charge (memoryMb : Int64) : DeviceState :=
  syncAvail { ds with memoryUsedMb := ds.memoryUsedMb + memoryMb }

/-- The device after memory is returned to it. More than is in use cannot be. -/
def refund (freed : Int64) : DeviceState :=
  syncAvail { ds with
    memoryUsedMb := if ds.memoryUsedMb ≤ freed then 0 else ds.memoryUsedMb - freed }

/-- Whether the device is of the type asked for; `none` is `AGNOSAI_ACCEL_ANY`. -/
def ofType (accel : Option AcceleratorType) : Bool := accel.all (ds.device.accelerator = ·)

/-- The device is of the type, and has the room if any is asked for. -/
def qualifies (accel : Option AcceleratorType) (minFree : Int64) (ds : DeviceState) : Bool :=
  ds.ofType accel && !(0 < minFree && ds.available < minFree)

end DeviceState

/-- One turn of the search: a device that qualifies displaces the best one so far unless it has
less. -/
def better (accel : Option AcceleratorType) (minFree : Int64) (best : Option (Nat × Int64))
    (d : DeviceState × Nat) : Option (Nat × Int64) :=
  if d.1.qualifies accel minFree then
    match best with
    | none => some (d.2, d.1.available)
    | some (i, bestAvail) =>
      if bestAvail ≤ d.1.available then some (d.2, d.1.available) else some (i, bestAvail)
  else best

namespace Scheduler

/-- `agnosai_compute_scheduler_new`. -/
def new : Scheduler := ⟨[], .empty⟩

variable (s : Scheduler)

/-- `agnosai_compute_scheduler_add_device`. -/
def addDevice (name : String) (accelerator : AcceleratorType) (memoryTotalMb : Int64) :
    Scheduler :=
  { s with devices := s.devices ++
      [⟨⟨s.devices.length, name, accelerator, memoryTotalMb, memoryTotalMb⟩, 0⟩] }

/-- `_agnosai_gpu_max_avail_idx`. -/
def maxAvailIdx (accel : Option AcceleratorType) (minFree : Int64) : Option Nat :=
  (s.devices.zipIdx.foldl (better accel minFree) none).map Prod.fst

/-- `agnosai_compute_scheduler_release`. -/
def release (taskId : String) : Scheduler × Bool :=
  match s.allocations.lookup taskId with
  | none => (s, false)
  | some a =>
    (⟨s.devices.modify a.deviceIndex (·.refund a.memoryMb), s.allocations.erase taskId⟩, true)

/-- `agnosai_compute_scheduler_allocate`. -/
def allocate (taskId : String) (memoryMb : Int64) (accel : Option AcceleratorType) :
    Scheduler × Option ComputeAllocation :=
  let s := (s.release taskId).1
  match s.maxAvailIdx accel memoryMb with
  | none => (s, none)
  | some best =>
    let a : ComputeAllocation := ⟨taskId, best, memoryMb⟩
    (⟨s.devices.modify best (·.charge memoryMb), s.allocations.set taskId a⟩, some a)

/-- `agnosai_compute_scheduler_allocations`. -/
def live : List ComputeAllocation := s.allocations.entries.map Prod.snd

end Scheduler

inductive Action where
  | addDevice (name : String) (accelerator : AcceleratorType) (memoryTotalMb : Int64)
  | allocate (taskId : String) (memoryMb : Int64) (accel : Option AcceleratorType)
  | release (taskId : String)

/-- An allocation asks for a size that is not negative. -/
def Action.Sized : Action → Prop
  | .allocate _ memoryMb _ => 0 ≤ memoryMb
  | .addDevice .. | .release _ => True

def Scheduler.call (s : Scheduler) : Action → Scheduler
  | .addDevice name accelerator memoryTotalMb => s.addDevice name accelerator memoryTotalMb
  | .allocate taskId memoryMb accel => (s.allocate taskId memoryMb accel).1
  | .release taskId => (s.release taskId).1

/-- The scheduler's machine: every call is possible in every state. -/
def scheduler : Machine Scheduler Action where
  step s a := some (s.call a)

/-! ### The device that is chosen -/

variable {accel : Option AcceleratorType} {minFree memoryMb : Int64} {s : Scheduler}
  {ds d : DeviceState}
  {l : List DeviceState} {taskId : String} {p : Int} {i : Nat}

/-- The device `ds` at `i` is the one to choose among `l`: it qualifies, none that qualifies has
more, and none after it has as much. -/
structure Best (accel : Option AcceleratorType) (minFree : Int64) (l : List DeviceState) (i : Nat)
    (ds : DeviceState) : Prop where
  here : l[i]? = some ds
  qualifies : ds.qualifies accel minFree = true
  most : ∀ d ∈ l, d.qualifies accel minFree = true → d.available ≤ ds.available
  last : ∀ d ∈ l.drop (i + 1), d.qualifies accel minFree = true → d.available < ds.available

/-- A device after all the others is the one to choose when it has as much as the best of them. -/
theorem Best.displace (hd : d.qualifies accel minFree = true)
    (h : ∀ d' ∈ l, d'.qualifies accel minFree = true → d'.available ≤ d.available) :
    Best accel minFree (l ++ [d]) l.length d where
  here := getElem?_concat_length
  qualifies := hd
  most d' hd' hyes := by
    rcases mem_append.1 hd' with hd' | hd'
    · exact h d' hd' hyes
    · rw [mem_singleton.1 hd']
      exact Int64.le_refl _
  last d' hd' hyes := by
    rw [drop_eq_nil_of_le (by simp)] at hd'
    cases hd'

/-- A device after all the others leaves the best of them where it does not qualify or has less. -/
theorem Best.keep (h : Best accel minFree l i ds)
    (hd : d.qualifies accel minFree = true → d.available < ds.available) :
    Best accel minFree (l ++ [d]) i ds where
  here := by
    obtain ⟨hlt, -⟩ := List.getElem?_eq_some_iff.1 h.here
    rw [List.getElem?_append_left hlt, h.here]
  qualifies := h.qualifies
  most d' hd' hyes := by
    rcases mem_append.1 hd' with hd' | hd'
    · exact h.most d' hd' hyes
    · obtain rfl := List.mem_singleton.1 hd'
      exact Int64.le_of_lt (hd hyes)
  last d' hd' hyes := by
    obtain ⟨hlt, -⟩ := List.getElem?_eq_some_iff.1 h.here
    rw [List.drop_append_of_le_length hlt] at hd'
    rcases List.mem_append.1 hd' with hd' | hd'
    · exact h.last d' hd' hyes
    · obtain rfl := mem_singleton.1 hd'
      exact hd hyes

/-- **The search**: nothing qualifies, or the last of those with the most is found. -/
theorem foldl_better :
    (l.zipIdx.foldl (better accel minFree) none = none ∧
      ∀ d ∈ l, d.qualifies accel minFree = false) ∨
      ∃ i ds, l.zipIdx.foldl (better accel minFree) none = some (i, ds.available) ∧
        Best accel minFree l i ds := by
  induction l using reverseRecOn with
  | nil => exact .inl ⟨rfl, by simp⟩
  | append_singleton l d ih =>
    have hsnoc : (l ++ [d]).zipIdx = l.zipIdx ++ [(d, l.length)] := by
      rw [zipIdx_append, zero_add, zipIdx_singleton]
    rw [hsnoc, foldl_append, foldl_cons, foldl_nil]
    by_cases hd : d.qualifies accel minFree = true
    · obtain ⟨heq, hnone⟩ | ⟨i, ds, heq, hbest⟩ := ih
      · refine .inr
          ⟨l.length, d, by simp only [heq, better, hd, if_true], .displace hd fun d' hd' hyes => ?_⟩
        rw [hnone d' hd'] at hyes
        cases hyes
      · by_cases hle : ds.available ≤ d.available
        · exact .inr ⟨l.length, d, by simp only [heq, better, hd, hle, if_true],
            .displace hd fun d' hd' hyes => Int64.le_trans (hbest.most d' hd' hyes) hle⟩
        · exact .inr ⟨i, ds, by simp only [heq, better, hd, hle, if_true, if_false],
            hbest.keep fun _ => Int64.not_le.1 hle⟩
    · have hkeep : ∀ best, better accel minFree best (d, l.length) = best := fun best => if_neg hd
      rw [hkeep]
      obtain ⟨heq, hnone⟩ | ⟨i, ds, heq, hbest⟩ := ih
      · refine .inl ⟨heq, fun d' hd' => ?_⟩
        rcases mem_append.1 hd' with hd' | hd'
        · exact hnone d' hd'
        · rw [mem_singleton.1 hd']
          exact eq_false_iff.2 hd
      · exact .inr ⟨i, ds, heq, hbest.keep fun hyes => absurd hyes hd⟩

theorem Scheduler.maxAvailIdx_eq_none (h : s.maxAvailIdx accel minFree = none) :
    ∀ ds ∈ s.devices, ds.qualifies accel minFree = false := by
  obtain ⟨-, hnone⟩ | ⟨i, d, heq, -⟩ := foldl_better
  · exact hnone
  · rw [maxAvailIdx, heq] at h
    cases h

theorem Scheduler.maxAvailIdx_eq_some (h : s.maxAvailIdx accel minFree = some i) :
    ∃ ds, Best accel minFree s.devices i ds := by
  obtain ⟨heq, -⟩ | ⟨j, ds, heq, hbest⟩ := foldl_better
  · rw [maxAvailIdx, heq] at h
    cases h
  · rw [maxAvailIdx, heq] at h
    cases h
    exact ⟨ds, hbest⟩

/-! ### What is in use -/

/-- The memory of the allocations placed on device `i`. -/
def placed (allocations : KeyMap String ComputeAllocation) (i : Nat) : Int :=
  allocations.sum fun a => if a.deviceIndex = i then a.memoryMb.toInt else 0

theorem placed_eq_sum_live :
    placed s.allocations i = ((s.live.filter (·.deviceIndex = i)).map (·.memoryMb.toInt)).sum := by
  rw [placed, KeyMap.sum, Scheduler.live]
  induction s.allocations.entries with
  | nil => rfl
  | cons e es ih =>
    rw [map_cons, sum_cons, ih, map_cons]
    by_cases hi : e.2.deviceIndex = i
    · rw [if_pos hi, filter_cons_of_pos (by simpa using hi), map_cons, sum_cons]
    · rw [if_neg hi, filter_cons_of_neg (by simpa using hi), zero_add]

/-- The device with `p` of its memory in use. A device added with a total below zero has none. -/
structure DeviceState.Holds (ds : DeviceState) (p : Int) : Prop where
  used : ds.memoryUsedMb.toInt = p
  nonneg : 0 ≤ p
  within : p ≤ max 0 ds.device.memoryTotalMb.toInt
  published : 0 ≤ ds.device.memoryTotalMb → ds.device.memoryAvailableMb.toInt =
    ds.device.memoryTotalMb.toInt - p

namespace DeviceState.Holds

theorem toInt_available (hused : ds.memoryUsedMb.toInt = p) (hnonneg : 0 ≤ p) :
    ds.available.toInt = max 0 (ds.device.memoryTotalMb.toInt - p) := by
  have hlt := ds.device.memoryTotalMb.toInt_lt
  by_cases h : ds.device.memoryTotalMb ≤ ds.memoryUsedMb
  · rw [available, if_pos h, max_eq_left]
    · rfl
    · have := le_iff_toInt_le.1 h
      omega
  · have h' := Int64.lt_iff_toInt_lt.1 (Int64.not_le.1 h)
    rw [available, if_neg h, toInt_sub, hused, max_eq_right (by omega)]
    exact Int.bmod_eq_of_le (by omega) (by omega)

/-- Publishing what is left. -/
theorem sync (hused : ds.memoryUsedMb.toInt = p) (hnonneg : 0 ≤ p)
    (hwithin : p ≤ max 0 ds.device.memoryTotalMb.toInt) : ds.syncAvail.Holds p where
  used := hused
  nonneg := hnonneg
  within := hwithin
  published h := by
    have htotal : 0 ≤ ds.device.memoryTotalMb.toInt := le_iff_toInt_le.1 h
    have havail : ds.syncAvail.device.memoryAvailableMb = ds.available := rfl
    rw [havail, toInt_available hused hnonneg, max_eq_right]
    · rfl
    · omega

theorem charge (h : ds.Holds p) (hmem : 0 ≤ memoryMb.toInt)
    (hroom : memoryMb.toInt ≤ ds.available.toInt) :
    (ds.charge memoryMb).Holds (p + memoryMb.toInt) := by
  have hlt := ds.device.memoryTotalMb.toInt_lt
  have hp := h.nonneg
  have hle := h.within
  rw [toInt_available h.used h.nonneg] at hroom
  refine sync ?_ (by omega) (by change p + _ ≤ max 0 ds.device.memoryTotalMb.toInt; omega)
  change (ds.memoryUsedMb + memoryMb).toInt = _
  rw [toInt_add, h.used]
  exact Int.bmod_eq_of_le (by omega) (by omega)

theorem refund {q : Int} (h : ds.Holds p) (hq : 0 ≤ q) (hfreed : p = q + memoryMb.toInt)
    (hmem : 0 ≤ memoryMb.toInt) : (ds.refund memoryMb).Holds q := by
  have hle := h.within
  refine sync ?_ hq (by change q ≤ max 0 ds.device.memoryTotalMb.toInt; omega)
  change (if ds.memoryUsedMb ≤ memoryMb then (0 : Int64) else ds.memoryUsedMb - memoryMb).toInt = q
  have hused := h.used
  have hlt := ds.memoryUsedMb.toInt_lt
  by_cases hcmp : ds.memoryUsedMb ≤ memoryMb
  · have := le_iff_toInt_le.1 hcmp
    rw [if_pos hcmp, toInt_zero]
    omega
  · rw [if_neg hcmp, toInt_sub, Int.bmod_eq_of_le (by omega) (by omega)]
    omega

end DeviceState.Holds

/-- The memory in use is that of the allocations, and each allocation is of a device there is. -/
structure Conserved (s : Scheduler) : Prop where
  device : ∀ (i : Nat) ds, s.devices[i]? = some ds → ds.Holds (placed s.allocations i)
  allocation : ∀ taskId a, s.allocations.lookup taskId = some a →
    a.taskId = taskId ∧ a.deviceIndex < s.devices.length ∧ 0 ≤ a.memoryMb

variable {allocations : KeyMap String ComputeAllocation}

theorem placed_nonneg (h : ∀ taskId a, allocations.lookup taskId = some a → 0 ≤ a.memoryMb) :
    0 ≤ placed allocations i := by
  refine sum_nonneg fun x hx => ?_
  obtain ⟨⟨taskId, a⟩, hmem, rfl⟩ := mem_map.1 hx
  dsimp only
  split
  · exact le_iff_toInt_le.1 (h taskId a (lookup_eq_some.2 hmem))
  · exact le_rfl

theorem placed_eq_zero (h : ∀ taskId a, allocations.lookup taskId = some a → a.deviceIndex ≠ i) :
    placed allocations i = 0 := by
  refine sum_eq_zero fun x hx => ?_
  obtain ⟨⟨taskId, a⟩, hmem, rfl⟩ := mem_map.1 hx
  exact if_neg (h taskId a (lookup_eq_some.2 hmem))

/-- A device that qualifies has the memory asked for. -/
theorem DeviceState.Holds.room (h : ds.Holds p) (hq : ds.qualifies accel memoryMb = true)
    (hmem : 0 ≤ memoryMb.toInt) : memoryMb.toInt ≤ ds.available.toInt := by
  have havail := toInt_available h.used h.nonneg
  simp only [qualifies, and_eq_true, not_eq_true', and_eq_false_iff, decide_eq_false_iff_not,
    lt_iff_toInt_lt, toInt_zero] at hq
  omega

/-- A device of the type that does not qualify has less than is asked for. -/
theorem DeviceState.Holds.lt_of_not_qualifies (h : ds.Holds p)
    (hq : ds.qualifies accel memoryMb = false) (htype : ds.ofType accel = true) :
    ds.device.memoryTotalMb.toInt - ds.memoryUsedMb.toInt < memoryMb.toInt := by
  have havail := toInt_available h.used h.nonneg
  simp only [qualifies, htype, Bool.true_and, Bool.not_eq_false', Bool.and_eq_true,
    decide_eq_true_eq, lt_iff_toInt_lt, toInt_zero] at hq
  rw [h.used]
  omega

namespace Conserved

theorem new : Conserved .new where
  device := nofun
  allocation := nofun

/-- A new device is all free. -/
theorem addDevice (h : Conserved s) (name : String) (accelerator : AcceleratorType)
    (total : Int64) : Conserved (s.addDevice name accelerator total) where
  device i ds hds := by
    have hsame : (s.addDevice name accelerator total).allocations = s.allocations := rfl
    rw [hsame]
    rcases lt_trichotomy i s.devices.length with hlt | rfl | hlt
    · rw [Scheduler.addDevice, getElem?_append_left hlt] at hds
      exact h.device i ds hds
    · -- no allocation is of the device that is added
      rw [Scheduler.addDevice, getElem?_concat_length] at hds
      cases hds
      rw [placed_eq_zero fun taskId a ha => ne_of_lt (h.allocation taskId a ha).2.1]
      exact ⟨rfl, le_rfl, le_max_left _ _, fun _ => (sub_zero _).symm⟩
    · rw [Scheduler.addDevice, getElem?_eq_none (by simpa using Nat.succ_le_of_lt hlt)] at hds
      cases hds
  allocation taskId a ha := by
    obtain ⟨htask, hlt, hmem⟩ := h.allocation taskId a ha
    refine ⟨htask, lt_of_lt_of_le hlt ?_, hmem⟩
    simp [Scheduler.addDevice]

/-- Changing one device, where what is placed on it changes with it and nothing else does. -/
theorem modify {f : DeviceState → DeviceState} {k : Nat} (h : Conserved s)
    (hother : ∀ i, k ≠ i → placed allocations i = placed s.allocations i)
    (hthis : ∀ ds, s.devices[k]? = some ds → (f ds).Holds (placed allocations k))
    (hallocs : ∀ taskId a, allocations.lookup taskId = some a →
      a.taskId = taskId ∧ a.deviceIndex < s.devices.length ∧ 0 ≤ a.memoryMb) :
    Conserved ⟨s.devices.modify k f, allocations⟩ where
  device i ds hds := by
    by_cases hk : k = i
    · subst hk
      rw [getElem?_modify_eq] at hds
      obtain ⟨d, hd, rfl⟩ := Option.map_eq_some_iff.1 hds
      exact hthis d hd
    · rw [getElem?_modify_ne _ _ hk] at hds
      rw [hother i hk]
      exact h.device i ds hds
  allocation taskId a ha := by
    rw [length_modify]
    exact hallocs taskId a ha

/-- A release conserves the memory. -/
theorem release (h : Conserved s) (taskId : String) : Conserved (s.release taskId).1 := by
  cases hget : s.allocations.lookup taskId with
  | none =>
    rw [Scheduler.release, hget]
    exact h
  | some a =>
    have hmem : 0 ≤ a.memoryMb.toInt := le_iff_toInt_le.1 (h.allocation taskId a hget).2.2
    have hsum : ∀ i, placed s.allocations i =
        placed (s.allocations.erase taskId) i + if a.deviceIndex = i then a.memoryMb.toInt else 0 :=
      fun i => sum_erase _ hget
    have hallocs : ∀ id b, (s.allocations.erase taskId).lookup id = some b →
        b.taskId = id ∧ b.deviceIndex < s.devices.length ∧ 0 ≤ b.memoryMb := by
      intro id b hb
      rw [lookup_erase] at hb
      split at hb
      · cases hb
      · exact h.allocation id b hb
    rw [Scheduler.release, hget]
    refine h.modify (fun i hi => ?_) (fun ds hds => ?_) hallocs
    · rw [hsum, if_neg hi, add_zero]
    · refine (h.device _ ds hds).refund ?_ ?_ hmem
      · exact placed_nonneg (fun id b hb => (hallocs id b hb).2.2)
      · rw [hsum, if_pos rfl]

theorem lookup_release (s : Scheduler) (taskId : String) :
    (s.release taskId).1.allocations.lookup taskId = none := by
  cases hget : s.allocations.lookup taskId with
  | none => rw [Scheduler.release, hget, hget]
  | some =>
    rw [Scheduler.release, hget]
    exact lookup_erase_self _ _

/-- An allocation conserves the memory. -/
theorem allocate (h : Conserved s) (hmem : 0 ≤ memoryMb) :
    Conserved (s.allocate taskId memoryMb accel).1 := by
  have hrel := h.release taskId
  have hgone := lookup_release s taskId
  rw [Scheduler.allocate]
  generalize (s.release taskId).1 = s' at hrel hgone
  cases hbest : s'.maxAvailIdx accel memoryMb with
  | none => exact hrel
  | some best =>
    obtain ⟨ds, hds⟩ := s'.maxAvailIdx_eq_some hbest
    have hsum : ∀ i, placed (s'.allocations.set taskId ⟨taskId, best, memoryMb⟩) i =
        placed s'.allocations i + if best = i then memoryMb.toInt else 0 := by
      intro i
      have hset :=
        sum_set (fun a : ComputeAllocation => if a.deviceIndex = i then a.memoryMb.toInt else 0)
        s'.allocations taskId ⟨taskId, best, memoryMb⟩
      rw [hgone] at hset
      exact (add_zero _).symm.trans hset
    have hmem' : 0 ≤ memoryMb.toInt := le_iff_toInt_le.1 hmem
    refine hrel.modify (fun i hi => ?_) (fun d hd => ?_) (fun id b hb => ?_)
    · rw [hsum, if_neg hi, add_zero]
    · obtain rfl : ds = d := Option.some.inj (hds.here.symm.trans hd)
      have hholds := hrel.device _ ds hd
      rw [hsum, if_pos rfl]
      exact hholds.charge hmem' (hholds.room hds.qualifies hmem')
    · rw [lookup_set] at hb
      split at hb
      next hid =>
        cases hb
        exact ⟨hid.symm, (List.getElem?_eq_some_iff.1 hds.here).1, hmem⟩
      · exact hrel.allocation id b hb

/-- Every call keeps it. -/
theorem call (h : Conserved s) {a : Action} (ha : a.Sized) : Conserved (s.call a) := by
  cases a with
  | addDevice name accelerator total => exact h.addDevice name accelerator total
  | allocate taskId memoryMb accel => exact h.allocate ha
  | release taskId => exact h.release taskId

/-- No task has two allocations: each is under its own task. -/
theorem nodup (h : Conserved s) : (s.live.map ComputeAllocation.taskId).Nodup := by
  have hkeys : s.live.map ComputeAllocation.taskId = s.allocations.keys := by
    rw [Scheduler.live, map_map]
    refine map_congr_left fun e he => ?_
    exact (h.allocation e.1 e.2 (lookup_eq_some.2 he)).1
  rw [hkeys]
  exact s.allocations.nodup

/-- A refused allocation finds no room on any device of the type, once the task's own memory is
returned. -/
theorem refused (h : Conserved s) (hnone : (s.allocate taskId memoryMb accel).2 = none) :
    ∀ ds ∈ (s.release taskId).1.devices, ds.ofType accel = true →
      ds.device.memoryTotalMb.toInt - ds.memoryUsedMb.toInt < memoryMb.toInt := by
  have hrel := h.release taskId
  rw [Scheduler.allocate] at hnone
  generalize (s.release taskId).1 = s' at hrel hnone
  cases hbest : s'.maxAvailIdx accel memoryMb with
  | none =>
    intro ds hds htype
    obtain ⟨i, hi⟩ := getElem?_of_mem hds
    exact (hrel.device i ds hi).lt_of_not_qualifies (s'.maxAvailIdx_eq_none hbest ds hds) htype
  | some =>
    simp only [hbest] at hnone
    cases hnone

end Conserved

/-- **Memory is conserved**, over every history in which no allocation asks for a negative size. -/
theorem conserved (as : List Action) (hsized : ∀ a ∈ as, a.Sized) (s : Scheduler)
    (h : scheduler.exec .new as = some s) :
    (∀ (i : Nat) ds, s.devices[i]? = some ds →
      ds.memoryUsedMb.toInt = ((s.live.filter (·.deviceIndex = i)).map (·.memoryMb.toInt)).sum ∧
        0 ≤ ds.memoryUsedMb ∧
        (0 ≤ ds.device.memoryTotalMb → ds.memoryUsedMb ≤ ds.device.memoryTotalMb ∧
          ds.device.memoryAvailableMb.toInt =
            ds.device.memoryTotalMb.toInt - ds.memoryUsedMb.toInt)) ∧
      (s.live.map (·.taskId)).Nodup ∧
      ∀ taskId memoryMb accel, (s.allocate taskId memoryMb accel).2 = none →
        ∀ ds ∈ (s.release taskId).1.devices, ds.ofType accel = true →
          ds.device.memoryTotalMb.toInt - ds.memoryUsedMb.toInt < memoryMb.toInt := by
  have hs : Conserved s := by
    refine scheduler.exec_rule (I := fun _ => Conserved) .new ?_ (scheduler.along_of_mem hsized) h
    rintro hist s a s' hs ha hstep
    cases hstep
    exact hs.call ha
  refine ⟨fun i ds hds => ?_, hs.nodup, fun taskId memoryMb accel => hs.refused⟩
  have hholds := hs.device i ds hds
  have hnonneg : 0 ≤ ds.memoryUsedMb.toInt := hholds.used ▸ hholds.nonneg
  refine ⟨by rw [hholds.used, placed_eq_sum_live], le_iff_toInt_le.2 hnonneg,
    fun htotal => ⟨?_, ?_⟩⟩
  · have hwithin := hholds.within
    have htotal' : 0 ≤ ds.device.memoryTotalMb.toInt := le_iff_toInt_le.1 htotal
    rw [max_eq_right htotal', ← hholds.used] at hwithin
    exact le_iff_toInt_le.2 hwithin
  · rw [hholds.published htotal, hholds.used]

/-- Two devices of 8 GiB, and a task that allocates again: its first memory goes back, then it asks
for too much and has none. -/
def reuse : List Action :=
  [.addDevice "a" .cuda 8192, .addDevice "b" .cuda 8192, .allocate "t" 6144 none,
    .allocate "u" 1024 (some .cuda), .allocate "t" 2048 none, .allocate "t" 9000 none]

theorem reuse_sized : ∀ a ∈ reuse, a.Sized := by
  simp only [reuse, forall_mem_cons, not_mem_nil, false_implies, implies_true, Action.Sized]
  decide

theorem conserved_reuse : ∃ s, scheduler.exec .new reuse = some s ∧
    s.live.map (·.taskId) = ["u"] ∧ s.devices.map (·.memoryUsedMb) = [1024, 0] ∧
    (s.live.map (·.taskId)).Nodup :=
  ⟨_, rfl, by decide +kernel, by decide +kernel, (conserved reuse reuse_sized _ rfl).2.1⟩

end Agnosai.Fleet.Gpu
