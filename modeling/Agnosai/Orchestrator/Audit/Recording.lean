import Agnosai.Orchestrator.Audit.Definitions
import Agnosai.Support.HashChain

/-!
# Orchestrator — concurrent recorders keep the audit chain

What has been linked is a chain from genesis, the last hash is its tip, and the retained entries
are what is left of it after the evicted ones, whose tip is the anchor (`Sound`). A call that
waits holds the hash of its own data, so it does not matter how long it waited or who linked before
it.
-/

namespace Agnosai.Audit

open List

variable {c : Crypto} {chain : Chain c} {d : EntryData} {h : String}

/-- The chain an audit key makes of entries. -/
def links (c : Crypto) (key : c.Key) : HashChain Entry String where
  digest e := entryHash c e.toEntryData
  prev := Entry.prevHash
  Sealed e := e.signature = sign c key (entryHash c e.toEntryData) e.prevHash

theorem verifyFrom_eq_none {key : c.Key} {i : Nat} {prev : String} {es : List Entry} :
    verifyFrom key i prev es = none ↔ (links c key).Chained prev es := by
  induction es generalizing i prev with
  | nil => simp only [verifyFrom, HashChain.chained_nil]
  | cons e es ih =>
    rw [verifyFrom, HashChain.Chained]
    by_cases hprev : e.prevHash = prev
    · subst hprev
      by_cases hsign : e.signature = sign c key (entryHash c e.toEntryData) e.prevHash
      · simp only [links, hsign, ne_eq, not_true_eq_false, if_false, true_and]
        exact ih
      · simp [links, hsign]
    · simp [links, hprev]

/-- A chain verifies iff its entries are chained from its anchor. -/
theorem verify_eq_none :
    chain.verify = none ↔ (links c chain.key).Chained chain.firstValidHash chain.entries :=
  verifyFrom_eq_none

/-- What the locked part does: append, or at capacity drop the oldest entry, anchor at it and
append. -/
theorem link_cases :
    (chain.entries.length < chain.maxEntries ∧
      chain.link d h =
        { chain with lastHash := h, entries := chain.entries ++ [chain.sealEntry d h] }) ∨
    ∃ oldest rest, chain.maxEntries ≤ chain.entries.length ∧ chain.entries = oldest :: rest ∧
      chain.link d h =
        { chain with
          lastHash := h
          firstValidHash := entryHash c oldest.toEntryData
          entries := rest ++ [chain.sealEntry d h] } := by
  have hpos := chain.max_pos
  by_cases hfull : chain.maxEntries ≤ chain.entries.length
  · right
    cases hes : chain.entries with
    | nil =>
      rw [hes, length_nil] at hfull
      omega
    | cons oldest rest =>
      rw [hes] at hfull
      refine ⟨oldest, rest, hfull, rfl, ?_⟩
      simp only [Chain.link, Chain.evict, hes, hfull, if_true]
  · left
    refine ⟨Int.not_le.1 hfull, ?_⟩
    simp [Chain.link, Chain.evict, hfull]

/-! ### The invariant -/

/-- The chain is what is left of all that was linked. -/
structure Sound (key : c.Key) (maxEntries : Int) (s : Log c) : Prop where
  key_eq : s.chain.key = key
  max_eq : s.chain.maxEntries = maxEntries
  waiting : ∀ w ∈ s.waiting, w.2 = entryHash c w.1
  chained : (links c key).Chained genesis s.linked
  last : s.chain.lastHash = (links c key).tip genesis s.linked
  short : s.chain.entries.length ≤ maxEntries
  retained : ∃ gone, s.linked = gone ++ s.chain.entries ∧
    s.chain.firstValidHash = (links c key).tip genesis gone ∧
    (gone ≠ [] → s.chain.entries.length = maxEntries)

variable {key : c.Key} {maxEntries : Int} {draw : Nat → Uuid} {s s' : Log c}

theorem Sound.start (max_pos : 0 < maxEntries) :
    Sound key maxEntries (Log.start key maxEntries max_pos) where
  key_eq := rfl
  max_eq := rfl
  waiting := nofun
  chained := trivial
  last := rfl
  short := Int.le_of_lt max_pos
  retained := ⟨[], rfl, rfl, fun hne => absurd rfl hne⟩

namespace Sound

variable (hs : Sound key maxEntries s)
include hs

theorem hash (d : EntryData) (n : Nat) : Sound key maxEntries
      { s with waiting := s.waiting ++ [(d, entryHash c d)], draws := n } where
  key_eq := hs.key_eq
  max_eq := hs.max_eq
  waiting w hw := by
    rcases mem_append.1 hw with hw | hw
    · exact hs.waiting w hw
    · obtain rfl := mem_singleton.1 hw
      rfl
  chained := hs.chained
  last := hs.last
  short := hs.short
  retained := hs.retained

/-- An entry sealed with the hash of its data extends the linked ones to a longer chain. -/
theorem chained_seal (hh : h = entryHash c d) :
    (links c key).Chained genesis (s.linked ++ [s.chain.sealEntry d h]) := by
  refine hs.chained.snoc _ hs.last ?_
  subst hh
  exact congrArg (sign c · _ _) hs.key_eq

/-- Linking a waiting entry keeps the log sound. -/
theorem link {k : Nat} (hk : s.waiting[k]? = some (d, h)) : Sound key maxEntries { s with
        chain := s.chain.link d h
        waiting := s.waiting.eraseIdx k
        linked := s.linked ++ [s.chain.sealEntry d h] } := by
  have hh : h = entryHash c d := hs.waiting _ (mem_of_getElem? hk)
  have hwaiting : ∀ w ∈ s.waiting.eraseIdx k, w.2 = entryHash c w.1 := fun w hw =>
    hs.waiting w (mem_of_mem_eraseIdx hw)
  have hlast : h = (links c key).tip genesis (s.linked ++ [s.chain.sealEntry d h]) := by
    rw [HashChain.tip_append]
    exact hh
  have hmax := hs.max_eq
  obtain ⟨gone, hlinked, hanchor, hfull⟩ := hs.retained
  rcases link_cases with ⟨hroom, hlink⟩ | ⟨oldest, rest, hcap, hes, hlink⟩
  · rw [hlink]
    refine ⟨hs.key_eq, hmax, hwaiting, hs.chained_seal hh, hlast, ?_, gone, ?_, hanchor, ?_⟩
    · rw [length_append, length_singleton]
      push_cast
      omega
    · rw [hlinked, append_assoc]
    · -- nothing has been evicted while there is room
      intro hne
      have := hfull hne
      omega
  · rw [hlink]
    have hcount : (rest ++ [s.chain.sealEntry d h]).length = s.chain.entries.length := by
      rw [hes, length_append, length_singleton, length_cons]
    refine ⟨hs.key_eq, hmax, hwaiting, hs.chained_seal hh, hlast, ?_, gone ++ [oldest], ?_, ?_, ?_⟩
    · rw [hcount]
      exact hs.short
    · rw [hlinked, hes, append_assoc, append_assoc, singleton_append, cons_append]
    · rw [HashChain.tip_append]
      rfl
    · intro _
      rw [hcount]
      have := hs.short
      omega

/-- A step of any recorder keeps the invariant. -/
theorem step {a : Action} (h : (log c draw).step s a = some s') : Sound key maxEntries s' := by
  cases a with
  | hash =>
    obtain rfl := Option.some.inj h
    exact hs.hash _ _
  | link =>
    simp only [log] at h
    split at h
    · cases h
    next hk =>
      obtain rfl := Option.some.inj h
      exact hs.link hk

/-- The retained entries are the end of the linked ones, as many as the chain may hold. -/
theorem entries_eq : s.chain.entries = s.linked.drop (s.linked.length - maxEntries.toNat) := by
  obtain ⟨gone, hlinked, -, hfull⟩ := hs.retained
  have hshort := hs.short
  have hgone : s.linked.length - maxEntries.toNat = gone.length := by
    rw [hlinked, length_append]
    rcases eq_or_ne gone [] with rfl | hne
    · rw [length_nil]
      omega
    · have := hfull hne
      omega
  rw [hgone, hlinked, drop_left]

theorem verify : s.chain.verify = none := by
  obtain ⟨gone, hlinked, hanchor, -⟩ := hs.retained
  rw [verify_eq_none, hs.key_eq, hanchor]
  have hchained := hs.chained
  rw [hlinked] at hchained
  exact ((links c key).chained_append.1 hchained).2

end Sound

/-- **The log verifies at every moment.** However the parts of the record calls interleave, the
chain holds at most as many entries as it may, they are the last ones linked, in the order they were
linked in, and they verify. -/
theorem recording_verifies (c : Crypto) (draw : Nat → Uuid) (key : c.Key) {maxEntries : Int}
    (max_pos : 0 < maxEntries) {as : List Action} {s : Log c}
    (hrun : (log c draw).exec (Log.start key maxEntries max_pos) as = some s) :
    s.chain.entries.length ≤ maxEntries ∧
      s.chain.entries = s.linked.drop (s.linked.length - maxEntries.toNat) ∧
      s.chain.verify = none := by
  have hs : Sound key maxEntries s :=
    (log c draw).exec_invariant (Sound.start max_pos) (fun _ _ _ hs h => hs.step h) hrun
  exact ⟨hs.short, hs.entries_eq, hs.verify⟩

/-! ### A chain of one entry, two recorders -/

/-- An entry hashes to its id, filled up to the length of a digest, and a message is its own mac as
far as it fits. -/
def sampleCrypto : Crypto where
  Key := Unit
  jsonBuild
    | .obj (_ :: (_, .str id) :: _) => id
    | _ => ""
  sha256Hex s := String.ofList ((s.toList ++ replicate 64 'f').take 64)
  hmacSha256 _ m := Vector.ofFn fun i => UInt8.ofNat (m.toList.getD i ' ').toNat

def sampleDraw (n : Nat) : Uuid := ⟨replicate 16 (UInt8.ofNat n), length_replicate⟩

def sampleCall : Call where
  event := "task_completed"
  level := "info"
  message := "Task completed"
  provider := none
  model := none
  metadata := some (.obj [("task_id", .str "t1")])
  epochNs := 1700000000000000000

theorem recording_verifies_evicting :
    ∃ s, (log sampleCrypto sampleDraw).exec (Log.start () 1 (by decide))
        [.hash sampleCall, .hash sampleCall, .link 1, .link 0] = some s ∧
      s.linked.length = 2 ∧ s.chain.entries.length ≤ (1 : Int) ∧
      s.chain.entries = s.linked.drop (s.linked.length - Int.toNat 1) ∧ s.chain.verify = none := by
  have htwo : ((log sampleCrypto sampleDraw).exec (Log.start () 1 (by decide))
      [.hash sampleCall, .hash sampleCall, .link 1, .link 0]).map (·.linked.length) = some 2 := rfl
  obtain ⟨s, hrun, hlinked⟩ := Option.map_eq_some_iff.1 htwo
  exact ⟨s, hrun, hlinked, recording_verifies sampleCrypto sampleDraw () (by decide) hrun⟩

end Agnosai.Audit
