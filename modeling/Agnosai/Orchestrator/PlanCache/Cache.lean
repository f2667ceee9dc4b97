import Agnosai.Support.Machine
import Mathlib.Data.List.Infix
import Mathlib.Data.List.Nodup

/-!
# Orchestrator — Plan cache — Cache

The plan cache, after `orchestrator/plan_cache.cyr`. A lookup removes the entry it finds expired;
an insert replaces the entry of its key, or evicts the entry with the earliest last access when the
cache is full and the key is new.

Each operation holds the mutex and reads the clock once, so a history is a list of operations with
their times. What it says of a key is told by the last operation that inserted or evicted it
(`Settles`), and the last that inserted or hit it (`Touches`).
-/

namespace Agnosai.PlanCache

open List

/-- `AGNOSAI_PLAN_CACHE_MAX`. -/
def maxPlans : Nat := 256

/-- `AGNOSAI_PLAN_CACHE_TTL_NS`. -/
def defaultTtl : Int := 3600000000000

/-- `AgnosaiCacheEntryOff`. -/
structure Entry (π : Type*) where
  key : Int64
  plan : π
  createdAt : Int
  lastAccessed : Int

/-- `AgnosaiPlanCacheOff`. -/
structure Cache (π : Type*) where
  entries : List (Entry π) := []
  ttl : Int := defaultTtl

variable {π : Type*}

variable (c : Cache π)

/-- `_agnosai_plan_find`. -/
def find (key : Int64) : Option Nat := c.entries.findIdx? fun e => e.key = key

/-- `agnosai_plan_cache_get` at the time `now`: what it returns, and the cache after it. -/
def get (key : Int64) (now : Int) : Option π × Cache π :=
  match find c key with
  | none => (none, c)
  | some idx =>
    match c.entries[idx]? with
    | none => (none, c)
    | some e =>
      if c.ttl < now - e.createdAt then (none, { c with entries := c.entries.eraseIdx idx })
      else (some e.plan, { c with entries := c.entries.set idx { e with lastAccessed := now } })

variable (entries : List (Entry π))

/-- When the entry at a position was last accessed. -/
def accessedAt (i : Nat) : Int := (entries[i]?.map Entry.lastAccessed).getD 0

/-- The loop of `_agnosai_plan_evict_lru` over the positions from 1 on. -/
def oldest : Nat :=
  (range' 1 (entries.length - 1)).foldl
    (fun oldest i => if accessedAt entries i < accessedAt entries oldest then i else oldest) 0

/-- `_agnosai_plan_evict_lru`. -/
def evictLru : List (Entry π) :=
  if entries.length = 0 then entries else entries.eraseIdx (oldest entries)

/-- `agnosai_plan_cache_insert` at the time `now`. -/
def insert (key : Int64) (plan : π) (now : Int) : Cache π :=
  let kept :=
    match find c key with
    | some existing => c.entries.eraseIdx existing
    | none => if maxPlans ≤ c.entries.length then evictLru c.entries else c.entries
  { c with entries := kept ++ [{ key, plan, createdAt := now, lastAccessed := now }] }

def keys : List Int64 := c.entries.map Entry.key

/-! ### What an operation does -/

variable {c : Cache π} {entries : List (Entry π)} {e : Entry π} {key key' : Int64} {plan : π}
  {now t : Int}

/-- With distinct keys, an entry is between entries of other keys. -/
theorem split_of_getElem? {i : Nat} (hnodup : (entries.map Entry.key).Nodup)
    (hi : entries[i]? = some e) :
    ∃ pre post, entries = pre ++ e :: post ∧ i = pre.length ∧ (∀ e' ∈ pre, e'.key ≠ e.key) ∧
      ∀ e' ∈ post, e'.key ≠ e.key := by
  obtain ⟨hlt, rfl⟩ := List.getElem?_eq_some_iff.1 hi
  have hsplit : entries = entries.take i ++ entries[i] :: entries.drop (i + 1) := by simp
  rw [hsplit, map_append, map_cons, nodup_middle, nodup_cons, mem_append] at hnodup
  refine ⟨_, _, hsplit, by simp [hlt.le], fun e' he' heq => hnodup.1 (.inl ?_),
    fun e' he' heq => hnodup.1 (.inr ?_)⟩
  · exact heq ▸ mem_map_of_mem he'
  · exact heq ▸ mem_map_of_mem he'

/-- With distinct keys, to remove a position is to remove its key. -/
theorem eraseIdx_eq_filter {i : Nat} (hnodup : (entries.map Entry.key).Nodup)
    (hi : entries[i]? = some e) : entries.eraseIdx i = entries.filter fun e' => e'.key ≠ e.key := by
  obtain ⟨pre, post, rfl, rfl, hpre, hpost⟩ := split_of_getElem? hnodup hi
  rw [eraseIdx_append_of_length_le le_rfl, Nat.sub_self, eraseIdx_cons_zero, filter_append,
    filter_cons_of_neg (by simp), filter_eq_self.2, filter_eq_self.2]
  · simpa using hpost
  · simpa using hpre

/-- With distinct keys, to touch a position is to touch its key. -/
theorem set_eq_map {i : Nat} (hnodup : (entries.map Entry.key).Nodup) (hi : entries[i]? = some e) :
    entries.set i { e with lastAccessed := now } =
      entries.map fun e₁ => if e₁.key = e.key then { e₁ with lastAccessed := now } else e₁ := by
  obtain ⟨pre, post, rfl, rfl, hpre, hpost⟩ := split_of_getElem? hnodup hi
  rw [set_append_right _ _ le_rfl, Nat.sub_self, set_cons_zero, map_append, map_cons, if_pos rfl,
    map_congr_left fun e₁ he₁ => if_neg (hpre e₁ he₁), map_congr_left fun e₁ he₁ =>
      if_neg (hpost e₁ he₁)]
  simp

theorem find_cases (c : Cache π) (key : Int64) :
    (find c key = none ∧ key ∉ keys c) ∨
      ∃ idx e, find c key = some idx ∧ c.entries[idx]? = some e ∧ e ∈ c.entries ∧ e.key = key := by
  cases hfind : find c key with
  | none =>
    refine .inl ⟨rfl, fun hin => ?_⟩
    obtain ⟨e, he, hkey⟩ := mem_map.1 hin
    have hnot := findIdx?_eq_none_iff.1 hfind e he
    exact absurd hkey (of_decide_eq_false hnot)
  | some idx =>
    obtain ⟨hidx, hkey, -⟩ := findIdx?_eq_some_iff_getElem.1 hfind
    exact .inr ⟨idx, c.entries[idx], rfl, getElem?_eq_getElem hidx, getElem_mem hidx,
      of_decide_eq_true hkey⟩

/-- **A lookup**: no entry, one that is expired and goes, or a hit. -/
theorem get_cases (hnodup : (keys c).Nodup) (key : Int64) (now : Int) :
    (key ∉ keys c ∧ get c key now = (none, c)) ∨
      ∃ e ∈ c.entries, e.key = key ∧
        (c.ttl < now - e.createdAt ∧
            get c key now = (none, { c with entries := c.entries.filter fun e' => e'.key ≠ key }) ∨
          now - e.createdAt ≤ c.ttl ∧ get c key now = (some e.plan, { c with
            entries := c.entries.map fun e' => if e'.key = key then { e' with lastAccessed := now }
              else e' })) := by
  obtain ⟨hfind, hout⟩ | ⟨idx, e, hfind, hget, he, rfl⟩ := find_cases c key
  · refine .inl ⟨hout, ?_⟩
    simp only [get, hfind]
  · refine .inr ⟨e, he, rfl, ?_⟩
    by_cases hexpired : c.ttl < now - e.createdAt
    · refine .inl ⟨hexpired, ?_⟩
      simp only [get, hfind, hget, if_pos hexpired, eraseIdx_eq_filter hnodup hget]
    · refine .inr ⟨Int.not_lt.1 hexpired, ?_⟩
      simp only [get, hfind, hget, if_neg hexpired, set_eq_map hnodup hget]

/-- The position that is evicted has the earliest last access. -/
theorem oldest_spec (hne : entries ≠ []) : ∃ e, entries[oldest entries]? = some e ∧ e ∈ entries ∧
    ∀ e' ∈ entries, e.lastAccessed ≤ e'.lastAccessed := by
  -- the loop over the positions below `n` has the earliest of them
  have hloop : ∀ n, n < entries.length → ∃ i ≤ n, (range' 1 n).foldl
      (fun oldest i => if accessedAt entries i < accessedAt entries oldest then i else oldest) 0 =
        i ∧
      ∀ j ≤ n, accessedAt entries i ≤ accessedAt entries j := by
    intro n
    induction n with
    | zero =>
      intro _
      refine ⟨0, Nat.le_refl 0, rfl, fun j hj => ?_⟩
      obtain rfl := Nat.le_zero.1 hj
      exact Int.le_refl _
    | succ n ih =>
      intro hlt
      obtain ⟨i, hi, heq, hmin⟩ := ih (by omega)
      rw [range'_1_concat, foldl_append, heq, foldl_cons, foldl_nil, Nat.add_comm 1 n]
      split
      next hless =>
        refine ⟨n + 1, le_rfl, rfl, fun j hj => ?_⟩
        rcases Nat.le_succ_iff.1 hj with hj | rfl
        · exact Int.le_trans (Int.le_of_lt hless) (hmin j hj)
        · exact Int.le_refl _
      next hless =>
        refine ⟨i, Nat.le_succ_of_le hi, rfl, fun j hj => ?_⟩
        rcases Nat.le_succ_iff.1 hj with hj | rfl
        · exact hmin j hj
        · exact Int.not_lt.1 hless
  have hpos := length_pos_iff.2 hne
  obtain ⟨i, hi, heq, hmin⟩ := hloop (entries.length - 1) (by omega)
  have hlt : i < entries.length := by omega
  have hat : ∀ j (hj : j < entries.length), accessedAt entries j = entries[j].lastAccessed := by
    intro j hj
    rw [accessedAt, getElem?_eq_getElem hj, Option.map_some, Option.getD_some]
  rw [oldest, heq]
  refine ⟨entries[i], getElem?_eq_getElem hlt, getElem_mem hlt, fun e' he' => ?_⟩
  obtain ⟨j, hj, rfl⟩ := mem_iff_getElem.1 he'
  rw [← hat i hlt, ← hat j hj]
  exact hmin j (by omega)

/-- **An insert** drops what is under its key, or, if the cache is full and the key is new, an entry
with the earliest last access. -/
theorem insert_cases (hnodup : (keys c).Nodup) (key : Int64) (plan : π) (now : Int) :
    ∃ gone, insert c key plan now = { c with
        entries := (c.entries.filter fun e => e.key ≠ gone) ++ [⟨key, plan, now, now⟩] } ∧
      (gone = key ∧ (key ∈ keys c ∨ c.entries.length < maxPlans) ∨
        key ∉ keys c ∧ maxPlans ≤ c.entries.length ∧
          ∃ e ∈ c.entries, e.key = gone ∧ ∀ e' ∈ c.entries, e.lastAccessed ≤ e'.lastAccessed) := by
  obtain ⟨hfind, hout⟩ | ⟨idx, e, hfind, hget, he, rfl⟩ := find_cases c key
  · by_cases hfull : maxPlans ≤ c.entries.length
    · have hpos : 0 < c.entries.length := lt_of_lt_of_le (by decide) hfull
      obtain ⟨e, hget, he, hmin⟩ := oldest_spec (length_pos_iff.1 hpos)
      refine ⟨e.key, ?_, .inr ⟨hout, hfull, e, he, rfl, hmin⟩⟩
      simp only [insert, hfind, if_pos hfull, evictLru, if_neg (ne_of_gt hpos),
        eraseIdx_eq_filter hnodup hget]
    · refine ⟨key, ?_, .inl ⟨rfl, .inr (not_le.1 hfull)⟩⟩
      have hself : c.entries.filter (fun e => e.key ≠ key) = c.entries :=
        filter_eq_self.2 fun e he =>
        decide_eq_true fun heq => hout (mem_map.2 ⟨e, he, heq⟩)
      simp only [insert, hfind, if_neg hfull, hself]
  · refine ⟨e.key, ?_, .inl ⟨rfl, .inl (mem_map_of_mem he)⟩⟩
    simp only [insert, hfind, eraseIdx_eq_filter hnodup hget]

/-! ### Histories -/

/-- An operation, with the time it reads. -/
inductive Op (π : Type*) where
  | insert (key : Int64) (plan : π) (now : Int)
  | get (key : Int64) (now : Int)

def Op.time : Op π → Int
  | .insert _ _ now => now
  | .get _ now => now

def apply (c : Cache π) : Op π → Cache π
  | .insert key plan now => insert c key plan now
  | .get key now => (get c key now).2

/-- The cache over a history of operations. -/
def history (π : Type*) : Machine (Cache π) (Op π) where
  step c op := some (apply c op)

/-- The operation is an insert that drops the entry of `key'`. -/
def Evicts (c : Cache π) (key' : Int64) : Op π → Prop
  | .insert key plan now => key' ∈ keys c ∧ key' ∉ keys (insert c key plan now)
  | .get _ _ => False

/-- The operation inserts or evicts `key'`. -/
def Settles (key' : Int64) (c : Cache π) : Op π → Prop
  | .insert key plan now => key = key' ∨ Evicts c key' (.insert key plan now)
  | .get _ _ => False

/-- The operation inserts or hits `key'`. -/
def Touches (key' : Int64) (c : Cache π) : Op π → Prop
  | .insert key _ _ => key = key'
  | .get key now => key = key' ∧ (get c key now).1.isSome

/-- The last insert of the key was of this plan at this time, and it has not been evicted since. -/
def Inserted (ttl : Int) (ops : List (Op π)) (key : Int64) (plan : π) (t : Int) : Prop :=
  ∃ c, (history π).Last (Settles key) { ttl } ops c (.insert key plan t)

/-- The key was last inserted or hit at this time. -/
def Touched (ttl : Int) (ops : List (Op π)) (key : Int64) (t : Int) : Prop :=
  ∃ c op, (history π).Last (Touches key) { ttl } ops c op ∧ op.time = t

/-- What a cache says of the history that led to it. -/
structure Tracks (ttl : Int) (ops : List (Op π)) (c : Cache π) : Prop where
  ttl_eq : c.ttl = ttl
  nodup : (keys c).Nodup
  length : c.entries.length ≤ maxPlans
  inserted : ∀ e ∈ c.entries, Inserted ttl ops e.key e.plan e.createdAt
  touched : ∀ e ∈ c.entries, Touched ttl ops e.key e.lastAccessed
  /-- An insert that has not been evicted is cached, or was too old for some operation. -/
  kept : ∀ key plan t, Inserted ttl ops key plan t →
    (∃ e ∈ c.entries, e.key = key ∧ e.plan = plan ∧ e.createdAt = t) ∨ ∃ op ∈ ops, ttl < op.time - t

variable {ttl : Int} {ops : List (Op π)} {op : Op π}

theorem inserted_snoc (hrun : (history π).exec { ttl } ops = some c) :
    Inserted ttl (ops ++ [op]) key plan t ↔
      Settles key c op ∧ op = .insert key plan t ∨ ¬ Settles key c op ∧
        Inserted ttl ops key plan t := by
  simp only [Inserted, (history π).last_snoc hrun]
  constructor
  · rintro ⟨c₁, ⟨hsettles, -, heq⟩ | ⟨hnot, hlast⟩⟩
    · exact .inl ⟨hsettles, heq.symm⟩
    · exact .inr ⟨hnot, c₁, hlast⟩
  · rintro (⟨hsettles, heq⟩ | ⟨hnot, c₁, hlast⟩)
    · exact ⟨c, .inl ⟨hsettles, rfl, heq.symm⟩⟩
    · exact ⟨c₁, .inr ⟨hnot, hlast⟩⟩

theorem touched_snoc (hrun : (history π).exec { ttl } ops = some c) :
    Touched ttl (ops ++ [op]) key t ↔
      Touches key c op ∧ op.time = t ∨ ¬ Touches key c op ∧ Touched ttl ops key t := by
  simp only [Touched, (history π).last_snoc hrun]
  constructor
  · rintro ⟨c₁, op₁, ⟨htouch, rfl, rfl⟩ | ⟨hnot, hlast⟩, ht⟩
    · exact .inl ⟨htouch, ht⟩
    · exact .inr ⟨hnot, c₁, op₁, hlast, ht⟩
  · rintro (⟨htouch, ht⟩ | ⟨hnot, c₁, op₁, hlast, ht⟩)
    · exact ⟨c, op, .inl ⟨htouch, rfl, rfl⟩, ht⟩
    · exact ⟨c₁, op₁, .inr ⟨hnot, hlast⟩, ht⟩

/-- Entries with one key are one entry. -/
theorem eq_of_key_eq (hnodup : (keys c).Nodup) {e e' : Entry π} (he : e ∈ c.entries)
    (he' : e' ∈ c.entries) (h : e.key = e'.key) : e = e' :=
  inj_on_of_nodup_map hnodup he he' h

theorem Tracks.start : Tracks ttl [] ({ ttl } : Cache π) where
  ttl_eq := rfl
  nodup := nodup_nil
  length := Nat.zero_le _
  inserted := nofun
  touched := nofun
  kept _ _ _ h := by
    obtain ⟨c, hlast⟩ := h
    exact absurd hlast (history π).not_last_nil

/-- A lookup settles nothing. -/
theorem inserted_snoc_get (hrun : (history π).exec { ttl } ops = some c) :
    Inserted ttl (ops ++ [.get key' now]) key plan t ↔ Inserted ttl ops key plan t := by
  rw [inserted_snoc hrun]
  simp [Settles]

/-- A lookup keeps the history tracked. -/
theorem Tracks.lookup (hrun : (history π).exec { ttl } ops = some c) (h : Tracks ttl ops c) :
    Tracks ttl (ops ++ [.get key now]) (get c key now).2 := by
  have hmore : ∀ t, (∃ op ∈ ops, ttl < op.time - t) → ∃ op ∈ ops ++ [Op.get key now], ttl <
      op.time - t := by
    rintro t ⟨op, hop, hlt⟩
    exact ⟨op, mem_append_left _ hop, hlt⟩
  obtain ⟨hout, hget⟩ | ⟨e, he, rfl, ⟨hexpired, hget⟩ | ⟨hlive, hget⟩⟩ := get_cases h.nodup key now
  · -- no entry
    rw [hget]
    refine ⟨h.ttl_eq, h.nodup, h.length, fun e he => ?_, fun e he => ?_, fun k p t hins => ?_⟩
    · exact (inserted_snoc_get hrun).2 (h.inserted e he)
    · exact (touched_snoc hrun).2 (.inr ⟨by simp [Touches, hget], h.touched e he⟩)
    · exact (h.kept k p t ((inserted_snoc_get hrun).1 hins)).imp_right (hmore t)
  · -- an entry that is expired
    rw [hget]
    have hsub : (c.entries.filter fun e' => e'.key ≠ e.key).Sublist c.entries := filter_sublist
    refine ⟨h.ttl_eq, h.nodup.sublist (hsub.map _), hsub.length_le.trans h.length, fun e' he' => ?_,
      fun e' he' => ?_, fun k p t hins => ?_⟩
    · exact (inserted_snoc_get hrun).2 (h.inserted e' (hsub.subset he'))
    · exact (touched_snoc hrun).2 (.inr ⟨by simp [Touches, hget], h.touched e' (hsub.subset he')⟩)
    · rcases h.kept k p t ((inserted_snoc_get hrun).1 hins) with ⟨e₀, he₀, rfl, rfl, rfl⟩ | hold
      · by_cases hkey : e₀.key = e.key
        · obtain rfl := eq_of_key_eq h.nodup he₀ he hkey
          exact .inr ⟨.get e₀.key now, mem_append_right _ mem_cons_self, h.ttl_eq ▸ hexpired⟩
        · exact .inl ⟨e₀, mem_filter.2 ⟨he₀, decide_eq_true hkey⟩, rfl, rfl, rfl⟩
      · exact .inr (hmore t hold)
  · -- a hit
    rw [hget]
    refine ⟨h.ttl_eq, ?_, (length_map _).trans_le h.length, forall_mem_map.2 fun e' he' => ?_,
      forall_mem_map.2 fun e' he' => ?_, fun k p t hins => ?_⟩
    · have hkeys : ∀ e' ∈ c.entries,
          (Entry.key ∘ fun e' => if e'.key = e.key then { e' with lastAccessed := now } else e')
            e' = e'.key :=
        fun e' _ => by dsimp only [Function.comp_apply]; split <;> rfl
      rw [keys, map_map, map_congr_left hkeys]
      exact h.nodup
    · refine (inserted_snoc_get hrun).2 ?_
      split <;> exact h.inserted e' he'
    · refine (touched_snoc hrun).2 ?_
      split
      next hkey => exact .inl ⟨by simp [Touches, hget, hkey], rfl⟩
      next hne => exact .inr ⟨fun htouch => hne htouch.1.symm, h.touched e' he'⟩
    · rcases h.kept k p t ((inserted_snoc_get hrun).1 hins) with ⟨e₀, he₀, rfl, rfl, rfl⟩ | hold
      · exact .inl ⟨_, mem_map_of_mem he₀, by split <;> exact ⟨rfl, rfl, rfl⟩⟩
      · exact .inr (hmore t hold)

theorem keys_insert {gone : Int64} (hinsert : insert c key plan now = { c with
      entries :=
        (c.entries.filter fun e => e.key ≠ gone) ++ [⟨key, plan, now, now⟩] }) (k : Int64) :
    k ∈ keys (insert c key plan now) ↔ k ∈ keys c ∧ k ≠ gone ∨ k = key := by
  rw [hinsert]
  simp only [keys, map_append, map_cons, map_nil, mem_append, mem_singleton,
    mem_map, mem_filter, decide_eq_true_eq]
  refine or_congr_left ⟨?_, ?_⟩
  · rintro ⟨e, ⟨he, hne⟩, rfl⟩
    exact ⟨⟨e, he, rfl⟩, hne⟩
  · rintro ⟨⟨e, he, rfl⟩, hne⟩
    exact ⟨e, ⟨he, hne⟩, rfl⟩

/-- An insert keeps the history tracked. -/
theorem Tracks.write (hrun : (history π).exec { ttl } ops = some c) (h : Tracks ttl ops c) :
    Tracks ttl (ops ++ [.insert key plan now]) (insert c key plan now) := by
  obtain ⟨gone, hinsert, hgone⟩ := insert_cases h.nodup key plan now
  -- the key of an entry that stays is not the new one
  have hstay : ∀ e ∈ c.entries, e.key ≠ gone → e.key ≠ key := by
    rintro e he hne rfl
    rcases hgone with ⟨rfl, -⟩ | ⟨hnew, -⟩
    · exact hne rfl
    · exact hnew (mem_map_of_mem he)
  have hcases : ∀ e ∈ (insert c key plan now).entries,
      e = ⟨key, plan, now, now⟩ ∨ e ∈ c.entries ∧ e.key ≠ key ∧
        ¬ Settles e.key c (.insert key plan now) := by
    intro e he
    have hin : e.key ∈ keys (insert c key plan now) := mem_map_of_mem he
    rw [hinsert, mem_append, mem_singleton, mem_filter, decide_eq_true_eq] at he
    rcases he with ⟨he, hne⟩ | rfl
    · refine .inr ⟨he, hstay e he hne, ?_⟩
      rintro (heq | ⟨-, hout⟩)
      · exact hstay e he hne heq.symm
      · exact hout hin
    · exact .inl rfl
  refine ⟨?_, ?_, ?_, fun e he => (inserted_snoc hrun).2 ?_, fun e he => (touched_snoc hrun).2 ?_,
    fun k p t hins => ?_⟩
  · exact h.ttl_eq
  · rw [hinsert, keys, map_append, nodup_append]
    refine ⟨h.nodup.sublist (filter_sublist.map _), nodup_singleton _, ?_⟩
    rintro k hk k' hk' rfl
    obtain ⟨e, he, rfl⟩ := mem_map.1 hk
    obtain ⟨he, hne⟩ := mem_filter.1 he
    exact hstay e he (of_decide_eq_true hne) (mem_singleton.1 hk')
  · -- room was made, or there was some
    rw [hinsert, length_append, length_singleton]
    have hle := length_filter_le (fun e : Entry π => decide (e.key ≠ gone)) c.entries
    have hmax := h.length
    by_cases hroom : c.entries.length < maxPlans
    · omega
    · have hin : gone ∈ keys c := by
        rcases hgone with ⟨rfl, hin | hlt⟩ | ⟨-, -, e, he, rfl, -⟩
        · exact hin
        · exact absurd hlt hroom
        · exact mem_map_of_mem he
      obtain ⟨e, he, rfl⟩ := mem_map.1 hin
      have hlt : (c.entries.filter fun e' => e'.key ≠ e.key).length < c.entries.length :=
        length_filter_lt_length_iff_exists.2 ⟨e, he, by simp⟩
      omega
  · rcases hcases e he with rfl | ⟨he, -, hnot⟩
    · exact .inl ⟨.inl rfl, rfl⟩
    · exact .inr ⟨hnot, h.inserted e he⟩
  · rcases hcases e he with rfl | ⟨he, hne, -⟩
    · exact .inl ⟨rfl, rfl⟩
    · exact .inr ⟨Ne.symm hne, h.touched e he⟩
  · obtain ⟨-, heq⟩ | ⟨hnot, hold⟩ := (inserted_snoc hrun).1 hins
    · cases heq
      refine .inl ⟨⟨key, plan, now, now⟩, ?_, rfl, rfl, rfl⟩
      exact mem_append_right _ mem_cons_self
    · rcases h.kept k p t hold with ⟨e, he, rfl, rfl, rfl⟩ | ⟨op, hop, hlt⟩
      · -- it was not evicted, so it stays
        have hin : e.key ∈ keys (insert c key plan now) := by
          by_contra hout
          exact hnot (.inr ⟨mem_map_of_mem he, hout⟩)
        have hne : e.key ≠ gone := by
          rcases (keys_insert hinsert e.key).1 hin with ⟨-, hne⟩ | heq
          · exact hne
          · exact absurd (.inl heq.symm) hnot
        refine .inl ⟨e, ?_, rfl, rfl, rfl⟩
        rw [hinsert]
        exact mem_append_left _ (mem_filter.2 ⟨he, decide_eq_true hne⟩)
      · exact .inr ⟨op, mem_append_left _ hop, hlt⟩

theorem tracks_of_exec (hrun : (history π).exec { ttl } ops = some c) : Tracks ttl ops c := by
  refine (history π).exec_history (.start) ?_ hrun
  intro ops c op c' hrun h hstep
  cases hstep
  cases op with
  | insert key plan now => exact h.write hrun
  | get key now => exact h.lookup hrun

/-! ### The cache -/

/-- What an insert evicts. -/
theorem evicts_insert (hnodup : (keys c).Nodup) (h : Evicts c key' (.insert key plan now)) :
    key ∉ keys c ∧ maxPlans ≤ c.entries.length ∧
      (∀ key'', Evicts c key'' (.insert key plan now) → key'' = key') ∧
      ∃ e ∈ c.entries, e.key = key' ∧ ∀ e' ∈ c.entries, e.lastAccessed ≤ e'.lastAccessed := by
  obtain ⟨gone, hinsert, hgone⟩ := insert_cases hnodup key plan now
  have hevicted : ∀ k, Evicts c k (.insert key plan now) → k = gone ∧ k ≠ key := by
    rintro k ⟨hin, hout⟩
    rw [keys_insert hinsert, not_or] at hout
    exact ⟨by_contra fun hne => hout.1 ⟨hin, hne⟩, hout.2⟩
  obtain ⟨rfl, hne⟩ := hevicted key' h
  rcases hgone with ⟨heq, -⟩ | ⟨hnew, hfull, hvictim⟩
  · exact absurd heq hne
  · exact ⟨hnew, hfull, fun k hk => (hevicted k hk).1, hvictim⟩

/-- **The plan cache.** Take any history of inserts and lookups and the cache it leads to. The keys
of the entries are distinct and there are at most 256. A lookup, no earlier than any operation of
the history, returns the plan of the last insert of its key if that has not been evicted and is not
older than the TTL, and nothing otherwise. An insert evicts one entry at most, and only if the
cache is full and the key new; no entry was last inserted or hit before it. -/
theorem planCache_correct (ttl : Int) (ops : List (Op π)) (c : Cache π)
    (hrun : (history π).exec { ttl } ops = some c) :
    (keys c).Nodup ∧ c.entries.length ≤ maxPlans ∧
      (∀ key now, (∀ op ∈ ops, op.time ≤ now) → ∀ plan,
        (get c key now).1 = some plan ↔ ∃ t, Inserted ttl ops key plan t ∧ now - t ≤ ttl) ∧
      ∀ key plan now key', Evicts c key' (.insert key plan now) →
        c.entries.length = maxPlans ∧ key ∉ keys c ∧
          (∀ key'', Evicts c key'' (.insert key plan now) → key'' = key') ∧
          ∃ t, Touched ttl ops key' t ∧ ∀ k ∈ keys c, ∃ t', Touched ttl ops k t' ∧ t ≤ t' := by
  have h := tracks_of_exec hrun
  refine ⟨h.nodup, h.length, fun key now hclock plan => ⟨fun hget => ?_, ?_⟩,
    fun key plan now key' hevicts => ?_⟩
  · obtain ⟨-, heq⟩ | ⟨e, he, rfl, ⟨-, heq⟩ | ⟨hlive, heq⟩⟩ := get_cases h.nodup key now
    · rw [heq] at hget
      cases hget
    · rw [heq] at hget
      cases hget
    · rw [heq] at hget
      cases hget
      exact ⟨e.createdAt, h.inserted e he, h.ttl_eq ▸ hlive⟩
  · rintro ⟨t, hins, hlive⟩
    rcases h.kept key plan t hins with ⟨e, he, rfl, rfl, rfl⟩ | ⟨op, hop, hlt⟩
    · obtain ⟨hout, -⟩ | ⟨e', he', hkey, ⟨hexpired, -⟩ | ⟨-, heq⟩⟩ := get_cases h.nodup e.key now
      · exact absurd (mem_map_of_mem he) hout
      · obtain rfl := eq_of_key_eq h.nodup he' he hkey
        rw [h.ttl_eq] at hexpired
        omega
      · obtain rfl := eq_of_key_eq h.nodup he' he hkey
        rw [heq]
    · have hle := hclock op hop
      omega
  · obtain ⟨hnew, hfull, hone, e, he, rfl, hmin⟩ := evicts_insert h.nodup hevicts
    refine ⟨le_antisymm h.length hfull, hnew, hone, e.lastAccessed, h.touched e he, fun k hk => ?_⟩
    obtain ⟨e', he', rfl⟩ := mem_map.1 hk
    exact ⟨e'.lastAccessed, h.touched e' he', hmin e' he'⟩

/-- A plan that is replaced, hit, and looked up again just before it is too old. -/
def replacedPlan : List (Op String) := [.insert 1 "first" 0, .insert 1 "second" 5, .get 1 7]

/-- Plans 0 to `n - 1`, each inserted at its number. -/
def filled (n : Nat) : List (Op String) := (range n).map fun i => .insert (.ofNat i) "plan" i

def full (n : Nat) : Cache String where
  entries := (range n).map fun i => ⟨.ofNat i, "plan", i, i⟩
  ttl := 1000

theorem not_mem_keys_full {n m : Nat} (hm : n ≤ m) (hmax : m ≤ maxPlans) :
    Int64.ofNat m ∉ keys (full n) := by
  simp only [keys, full, map_map, mem_map, mem_range, Function.comp_apply, not_exists, not_and]
  intro i hi heq
  simp only [maxPlans] at hmax
  rw [← Int64.toInt_inj, Int64.toInt_ofNat_of_lt (by omega), Int64.toInt_ofNat_of_lt (by omega)]
    at heq
  omega

/-- Below the cap nothing is evicted. -/
theorem exec_filled {n : Nat} (hn : n ≤ maxPlans) :
    (history String).exec { ttl := 1000 } (filled n) = some (full n) := by
  induction n with
  | zero => rfl
  | succ n ih =>
    have hfind : find (full n) (.ofNat n) = none := by
      obtain ⟨hnone, -⟩ | ⟨idx, e, -, -, he, hkey⟩ := find_cases (full n) (.ofNat n)
      · exact hnone
      · exact absurd (hkey ▸ mem_map_of_mem he) (not_mem_keys_full le_rfl (Nat.le_of_succ_le hn))
    have hroom : ¬ maxPlans ≤ (full n).entries.length := by
      simp only [full, length_map, length_range]
      omega
    rw [filled, range_succ, map_append]
    refine (history String).exec_snoc (ih (Nat.le_of_succ_le hn)) ?_
    simp only [history, apply, insert, hfind, if_neg hroom]
    simp only [full, range_succ, map_append]
    rfl

/-- One plan more than fits evicts the first. -/
theorem evicts_full : Evicts (full maxPlans) 0 (.insert 256 "plan" 256) := by
  have hnew : (256 : Int64) ∉ keys (full maxPlans) := not_mem_keys_full le_rfl le_rfl
  obtain ⟨gone, hinsert, ⟨-, hin | hlt⟩ | ⟨-, -, e, he, rfl, hmin⟩⟩ :=
    insert_cases (tracks_of_exec (exec_filled le_rfl)).nodup 256 "plan" 256
  · exact absurd hin hnew
  · cases hlt.ne (by simp [full, maxPlans])
  · have hzero : (⟨0, "plan", 0, 0⟩ : Entry String) ∈ (full maxPlans).entries :=
      mem_map.2 ⟨0, by decide, rfl⟩
    obtain ⟨i, -, rfl⟩ := mem_map.1 he
    obtain rfl : i = 0 := Nat.le_zero.1 (Int.ofNat_le.1 (hmin _ hzero))
    refine ⟨mem_map_of_mem hzero, ?_⟩
    rw [keys_insert hinsert]
    rintro (⟨-, hne⟩ | heq)
    · exact hne rfl
    · cases heq

theorem planCache_correct_filled :
    (∃ c, (history String).exec { ttl := 10 } replacedPlan = some c ∧
      (get c 1 15).1 = some "second" ∧ ∃ t, Inserted 10 replacedPlan 1 "second" t ∧ 15 - t ≤ 10) ∧
    ∃ c, (history String).exec { ttl := 1000 } (filled maxPlans) = some c ∧
      Evicts c 0 (.insert 256 "plan" 256) ∧
      ∃ t, Touched 1000 (filled maxPlans) 0 t ∧
        ∀ k ∈ keys c, ∃ t', Touched 1000 (filled maxPlans) k t' ∧ t ≤ t' := by
  constructor
  · have hrun : (history String).exec { ttl := 10 } replacedPlan = some _ := rfl
    obtain ⟨-, -, hget, -⟩ := planCache_correct 10 replacedPlan _ hrun
    have hlookup := hget 1 15 (by decide) "second"
    exact ⟨_, hrun, rfl, hlookup.1 rfl⟩
  · have hrun : (history String).exec { ttl := 1000 } (filled maxPlans) = some (full maxPlans) :=
      exec_filled le_rfl
    obtain ⟨-, -, -, hevicts⟩ := planCache_correct 1000 (filled maxPlans) _ hrun
    obtain ⟨-, -, -, htouched⟩ := hevicts 256 "plan" 256 0 evicts_full
    exact ⟨_, hrun, evicts_full, htouched⟩

end Agnosai.PlanCache
