import Agnosai.Core.Agent
import Agnosai.Support.KeyMap
import Agnosai.Support.Slide

/-!
# Definitions — Versioning

The store of versioned definitions, after `definitions/versioning.cyr`. It keeps 500 versions of a
key, and numbers the next one after the last it still has. `versions_run`: it says what a log of
everything that was ever stored says, as far back as it goes.
-/

namespace Agnosai.Versioning

open List Option

/-- `DefinitionVersion`. -/
structure Version where
  number : Nat
  definition : AgentDefinition
  createdAt : Int
  message : Option String

/-- `VersionStore`. -/
abbrev Store := KeyMap String (List Version)

/-- `AGNOSAI_MAX_VERSIONS_PER_AGENT`. -/
def maxVersions : Nat := 500

/-- `_agnosai_version_drain_front`. -/
def drainFront (history : List Version) (n : Nat) : List Version :=
  if history.length ≤ n then [] else slide (fun _ => true) n 0 history

variable (s : Store)

/-- `agnosai_version_store_list`. -/
def Store.list (key : String) : List Version := (s.lookup key).getD []

/-- `agnosai_version_store_save`. -/
def Store.save (d : AgentDefinition) (message : Option String) (now : Int) : Store × Nat :=
  let history := s.list d.agentKey
  let history :=
    if maxVersions ≤ history.length then drainFront history (history.length - maxVersions + 1)
    else history
  let number := (history.getLast?.map Version.number).getD 0 + 1
  (s.set d.agentKey (history ++ [⟨number, d, now, message⟩]), number)

/-- `agnosai_version_store_get`. -/
def Store.get (key : String) (version : Int) : Option Version :=
  (s.list key).find? fun v => v.number = version

def rollbackMessage (version : Int) : Option String :=
  some ("Rollback to version " ++ toString version)

/-- `agnosai_version_store_rollback`. -/
def Store.rollback (key : String) (version now : Int) : Store × Option AgentDefinition :=
  match s.get key version with
  | none => (s, none)
  | some target =>
    ((s.save target.definition (rollbackMessage version) now).1, some target.definition)

/-- A call that may store something. -/
inductive Op where
  | save (d : AgentDefinition) (message : Option String)
  | rollback (key : String) (version : Int)

def Store.call : Op × Int → Store
  | (.save d message, now) => (s.save d message now).1
  | (.rollback key version, now) => (s.rollback key version now).1

/-! ### The log -/

/-- What was ever stored under each key. -/
abbrev Log := String → List Version

/-- One more version of a key, whose number is how many there are then. -/
def Log.add (l : Log) (key : String) (d : AgentDefinition) (message : Option String) (now : Int) :
    Log :=
  Function.update l key (l key ++ [⟨(l key).length + 1, d, now, message⟩])

/-- What was stored as the `version`-th, if it is one of the last 500. -/
def Log.get (l : Log) (key : String) (version : Int) : Option Version :=
  if 0 < version ∧ (l key).length < version + maxVersions then (l key)[version.toNat - 1]? else none

/-- One call: a rollback adds a copy of the version it goes back to, under the same key. -/
def Log.call (l : Log) : Op × Int → Log
  | (.save d message, now) => l.add d.agentKey d message now
  | (.rollback key version, now) =>
    match l.get key version with
    | none => l
    | some target => l.add key target.definition (rollbackMessage version) now

/-- The store has the last 500 versions of each key, and all of them are numbered from one. -/
structure Represents (s : Store) (l : Log) : Prop where
  list : ∀ key, s.list key = (l key).drop ((l key).length - maxVersions)
  number : ∀ key i v, (l key)[i]? = some v → v.number = i + 1
  key : ∀ key, ∀ v ∈ l key, v.definition.agentKey = key

theorem drainFront_eq (history : List Version) (n : Nat) :
    drainFront history n = history.drop n := by
  unfold drainFront
  split
  next h => exact (drop_eq_nil_of_le h).symm
  next h => simp [slide_eq (Nat.le_of_not_le h) (Nat.zero_le n)]

/-- What is left of a history once there is room for one more. -/
theorem trim_drop (vs : List Version) :
    (if maxVersions ≤ (vs.drop (vs.length - maxVersions)).length then
      drainFront (vs.drop (vs.length - maxVersions))
        ((vs.drop (vs.length - maxVersions)).length - maxVersions + 1)
    else vs.drop (vs.length - maxVersions)) = vs.drop (vs.length + 1 - maxVersions) := by
  rw [length_drop, drainFront_eq, drop_drop]
  generalize maxVersions = m
  split <;> congr 1 <;> omega

/-- The last version of a history has the number of all that were stored. -/
theorem last_number {vs : List Version} (h : ∀ i v, vs[i]? = some v → v.number = i + 1) :
    ((vs.drop (vs.length + 1 - maxVersions)).getLast?.map Version.number).getD 0 = vs.length := by
  rw [getLast?_drop]
  split
  next hle =>
    simp only [maxVersions] at hle
    simp
    omega
  · cases hlast : vs.getLast? with
    | none => simp [getLast?_eq_none_iff.1 hlast]
    | some v =>
      rw [getLast?_eq_getElem?] at hlast
      have hlt := (List.getElem?_eq_some_iff.1 hlast).1
      simp [h _ v hlast]
      omega

/-- In a list numbered from `k + 1`, a number says where to look. -/
theorem find_number {vs : List Version} {k : Nat}
    (h : ∀ i v, vs[i]? = some v → v.number = k + i + 1)
    (version : Int) : vs.find? (fun v => v.number = version) =
      if (k : Int) < version then vs[(version - k - 1).toNat]? else none := by
  induction vs generalizing k with
  | nil => simp
  | cons v vs ih =>
    have hv : v.number = k + 1 := h 0 v rfl
    have ih := @ih (k + 1) fun i w hw => (h (i + 1) w hw).trans (by omega)
    rw [find?_cons, ih]
    by_cases hhead : (v.number : Int) = version
    · have hidx : version - k - 1 = 0 := by omega
      simp [hhead, hidx, show (k : Int) < version by omega]
    · by_cases hlt : (k : Int) < version
      · have hidx : (version - k - 1).toNat = (version - (k + 1 : Nat) - 1).toNat + 1 := by omega
        rw [if_pos hlt, if_pos (by omega), hidx, getElem?_cons_succ]
        simp [hhead]
      · rw [if_neg hlt, if_neg (by omega)]
        simp [hhead]

namespace Represents

variable {s : Store} {l : Log} (h : Represents s l)
include h

/-- **A version is found exactly while it is one of the last 500.** -/
theorem get (key : String) (version : Int) : s.get key version = l.get key version := by
  have hnumber : ∀ i v, ((l key).drop ((l key).length - maxVersions))[i]? = some v →
      v.number = (l key).length - maxVersions + i + 1 := by
    intro i v hv
    rw [getElem?_drop] at hv
    exact h.number key _ v hv
  rw [Store.get, h.list, Log.get, find_number hnumber, getElem?_drop]
  split
  · rw [if_pos (by omega)]
    congr 1
    omega
  · rw [if_neg (by omega)]

theorem key_of_get {key : String} {version : Int} {v : Version} (hv : s.get key version = some v) :
    v.definition.agentKey = key := by
  rw [h.get, Log.get, ite_none_right_eq_some] at hv
  exact h.key key v (mem_of_getElem? hv.2)

/-- A save adds one version of the definition's key, and returns its number. -/
theorem save (d : AgentDefinition) (message : Option String) (now : Int) :
    Represents (s.save d message now).1 (l.add d.agentKey d message now) ∧
    (s.save d message now).2 = (l d.agentKey).length + 1 := by
  simp only [Store.save, h.list, trim_drop, last_number (h.number d.agentKey), and_true]
  have hle : (l d.agentKey).length + 1 - maxVersions ≤ (l d.agentKey).length := by
    simp only [maxVersions]
    omega
  refine ⟨fun key => ?_, fun key => ?_, fun key => ?_⟩ <;>
    rcases eq_or_ne key d.agentKey with rfl | hne
  · simp [Store.list, KeyMap.lookup_set, Log.add, drop_append_of_le_length hle]
  · simpa [Store.list, KeyMap.lookup_set, Log.add, hne] using h.list key
  · intro i v hv
    simp only [Log.add, Function.update_self, getElem?_append, getElem?_singleton] at hv
    split at hv
    · exact h.number _ i v hv
    · obtain ⟨hi, rfl⟩ := by simpa only [ite_none_right_eq_some, some.injEq] using hv
      dsimp only
      omega
  · simpa [Log.add, hne] using h.number key
  · intro v hv
    simp only [Log.add, Function.update_self, mem_append, mem_singleton] at hv
    rcases hv with hv | rfl
    · exact h.key _ v hv
    · rfl
  · simpa [Log.add, hne] using h.key key

/-- Every call on the store is one on the log. -/
theorem call (op : Op × Int) : Represents (s.call op) (l.call op) := by
  obtain ⟨op, now⟩ := op
  cases op with
  | save d message => exact (h.save d message now).1
  | rollback key version =>
    simp only [Store.call, Store.rollback, Log.call, ← h.get]
    cases hv : s.get key version with
    | none => exact h
    | some target =>
      obtain rfl := h.key_of_get hv
      exact (h.save target.definition _ now).1

end Represents

/-- **Versions.** After any calls the store has the last 500 versions of each key, numbered as they
were stored; a version is found while it is one of those; a rollback returns what it finds, and adds
it to the log of the key as `Log.call` says; and a save returns a number that the key had not
had. -/
theorem versions_run (ops : List (Op × Int)) :
    let s := ops.foldl Store.call .empty
    let l := ops.foldl Log.call fun _ => []
    Represents s l ∧
    (∀ key version, s.get key version = l.get key version) ∧
    (∀ key version now, (s.rollback key version now).2 =
      (l.get key version).map Version.definition) ∧
    ∀ d message now, (s.save d message now).2 = (l d.agentKey).length + 1 := by
  intro s l
  have hstart : Represents .empty fun _ => [] := ⟨by simp [Store.list], by simp, by simp⟩
  have h : Represents s l := foldl_rel hstart fun op _ _ _ h => h.call op
  refine ⟨h, h.get, fun key version now => ?_, fun d message now => (h.save d message now).2⟩
  rw [Store.rollback, ← h.get]
  split
  next hv => rw [hv, map_none]
  next hv => rw [hv, map_some]

end Agnosai.Versioning
