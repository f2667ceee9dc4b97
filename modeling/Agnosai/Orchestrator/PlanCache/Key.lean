import Agnosai.Order

/-!
# Orchestrator — Plan cache — Key

The key of a crew in the plan cache, after `orchestrator/plan_cache.cyr`: FNV-1a over the agent
keys and the task descriptions, each sorted, and the process mode. The walk that feeds the hash is
written once, for any state that takes a byte (`planFeed`); with a list it gives the bytes that
were fed, and the key is the hash of those bytes (`planKey_eq`). A list is preceded by its length
and a string by its own, but each length goes in as one byte.
-/

namespace Agnosai.PlanCache

open List

section Feed

variable {σ : Type*} (byte : σ → UInt8 → σ)

/-- `_agnosai_fnv_str`: the length, of which one byte is taken, and the bytes. -/
def feedStr (h : σ) (s : Bytes) : σ := s.foldl byte (byte h (UInt8.ofNat s.length))

/-- The number of strings, of which one byte is taken, and the strings. -/
def feedStrs (h : σ) (v : List Bytes) : σ := v.foldl (feedStr byte) (byte h (UInt8.ofNat v.length))

/-- The body of `agnosai_plan_key`. -/
def planFeed (h : σ) (agentKeys taskDescriptions : List Bytes) (processMode : Bytes) : σ :=
  feedStr byte (feedStrs byte (feedStrs byte h (sortStrs agentKeys)) (sortStrs taskDescriptions))
    processMode

end Feed

/-- `AGNOSAI_FNV_OFFSET`. -/
def fnvOffset : Int64 := 0 - 3750763034362895579

/-- `AGNOSAI_FNV_PRIME`. -/
def fnvPrime : Int64 := 1099511628211

/-- `_agnosai_fnv_byte`. -/
def fnvByte (h : Int64) (b : UInt8) : Int64 := (h ^^^ Int64.ofNat b.toNat) * fnvPrime

/-- `agnosai_plan_key`. -/
def planKey (agentKeys taskDescriptions : List Bytes) (processMode : Bytes) : Int64 :=
  planFeed fnvByte fnvOffset agentKeys taskDescriptions processMode

/-- The bytes that `agnosai_plan_key` feeds to its hash. -/
def planBytes (agentKeys taskDescriptions : List Bytes) (processMode : Bytes) : Bytes :=
  planFeed (fun fed b => fed ++ [b]) [] agentKeys taskDescriptions processMode

/-! ### The bytes that are fed -/

/-- A string as it is fed. -/
def frame (s : Bytes) : Bytes := UInt8.ofNat s.length :: s

/-- A list of strings as it is fed. -/
def frames (v : List Bytes) : Bytes := UInt8.ofNat v.length :: v.flatMap frame

section Feed

variable {σ : Type*} (byte : σ → UInt8 → σ)

theorem feedStr_eq (h : σ) (s : Bytes) : feedStr byte h s = (frame s).foldl byte h := rfl

theorem feedStrs_eq (h : σ) (v : List Bytes) : feedStrs byte h v = (frames v).foldl byte h := by
  rw [feedStrs, frames, foldl_cons]
  generalize byte h (UInt8.ofNat v.length) = h'
  induction v generalizing h' with
  | nil => rfl
  | cons s v ih => rw [foldl_cons, flatMap_cons, foldl_append, feedStr_eq, ih]

theorem planFeed_eq (h : σ) (agents tasks : List Bytes) (mode : Bytes) :
    planFeed byte h agents tasks mode =
    (frames (sortStrs agents) ++ (frames (sortStrs tasks) ++ frame mode)).foldl byte h := by
  rw [planFeed, feedStr_eq, feedStrs_eq, feedStrs_eq, foldl_append, foldl_append]

end Feed

variable {agents agents' tasks tasks' v w : List Bytes} {mode mode' s t x y : Bytes}

theorem planBytes_eq :
    planBytes agents tasks mode = frames (sortStrs agents) ++
      (frames (sortStrs tasks) ++ frame mode) := by
  have hfed : ∀ l fed : Bytes, l.foldl (fun fed b => fed ++ [b]) fed = fed ++ l := by
    intro l
    induction l with
    | nil => exact fun fed => (append_nil fed).symm
    | cons b l ih =>
      intro fed
      rw [foldl_cons, ih, append_assoc, singleton_append]
  rw [planBytes, planFeed_eq, hfed, nil_append]

/-- The key is the hash of the bytes, so crews that feed the same bytes share a key. -/
theorem planKey_eq :
    planKey agents tasks mode = (planBytes agents tasks mode).foldl fnvByte fnvOffset := by
  rw [planBytes_eq, planKey, planFeed_eq]

/-! ### Telling crews apart -/

/-- At most `most` strings, of at most `size` bytes each. -/
structure Framed (most size : Nat) (v : List Bytes) : Prop where
  count : v.length ≤ most
  each : ∀ s ∈ v, s.length ≤ size

theorem ofNat_inj {m n : Nat} (hm : m ≤ 255) (hn : n ≤ 255) (h : UInt8.ofNat m = UInt8.ofNat n) :
    m = n := by
  have hnat := congrArg UInt8.toNat h
  rw [UInt8.toNat_ofNat', UInt8.toNat_ofNat'] at hnat
  omega

/-- A string whose length fits in a byte ends where it says. -/
theorem frame_append_inj (hs : s.length ≤ 255) (ht : t.length ≤ 255)
    (h : frame s ++ x = frame t ++ y) : s = t ∧ x = y := by
  obtain ⟨hlength, happend⟩ := cons.inj h
  exact append_inj happend (ofNat_inj hs ht hlength)

/-- As many frames on both sides are the same. -/
theorem flatMap_frame_append_inj (hlength : v.length = w.length) (hv : ∀ s ∈ v, s.length ≤ 255)
    (hw : ∀ s ∈ w, s.length ≤ 255) (h : v.flatMap frame ++ x = w.flatMap frame ++ y) :
    v = w ∧ x = y := by
  induction v generalizing w with
  | nil =>
    obtain rfl := length_eq_zero_iff.1 hlength.symm
    exact ⟨rfl, h⟩
  | cons s v ih =>
    cases w with
    | nil => cases hlength
    | cons =>
      rw [flatMap_cons, flatMap_cons, append_assoc, append_assoc] at h
      rw [forall_mem_cons] at hv hw
      obtain ⟨rfl, hrest⟩ := frame_append_inj hv.1 hw.1 h
      obtain ⟨rfl, rfl⟩ := ih (Nat.succ.inj hlength) hv.2 hw.2 hrest
      exact ⟨rfl, rfl⟩

theorem frames_append_inj (hv : Framed 255 255 v) (hw : Framed 255 255 w)
    (h : frames v ++ x = frames w ++ y) : v = w ∧ x = y := by
  obtain ⟨hcount, happend⟩ := cons.inj h
  exact flatMap_frame_append_inj (ofNat_inj hv.count hw.count hcount) hv.each hw.each happend

variable {most size : Nat}

/-- A limit on the size matters only where there may be a string. -/
theorem Framed.byte (hmost : most ≤ 255) (hsize : 0 < most → size ≤ 255) (h : Framed most size v) :
    Framed 255 255 v :=
  ⟨h.count.trans hmost, fun s hs =>
    (h.each s hs).trans (hsize ((length_pos_of_mem hs).trans_le h.count))⟩

theorem Framed.nil : Framed most size [] := ⟨Nat.zero_le most, nofun⟩

theorem Framed.singleton (hmost : 0 < most) (hs : s.length ≤ size) : Framed most size [s] :=
  ⟨hmost, by simpa using hs⟩

theorem Framed.sortStrs (h : Framed most size v) : Framed most size (sortStrs v) :=
  ⟨(perm_sortStrs v).length_eq ▸ h.count, fun s hs => h.each s (mem_sortStrs.1 hs)⟩

/-- Crews of one shape feed the same bytes, however they list their agents and tasks. -/
theorem planBytes_of_perm (hagents : agents.Perm agents') (htasks : tasks.Perm tasks') :
    planBytes agents tasks mode = planBytes agents' tasks' mode := by
  rw [planBytes_eq, planBytes_eq, sortStrs_eq_iff.2 hagents, sortStrs_eq_iff.2 htasks]

/-- Where every length they carry fits in a byte, the bytes tell crews apart. -/
theorem planBytes_eq_iff (hagents : Framed 255 255 agents) (hagents' : Framed 255 255 agents')
    (htasks : Framed 255 255 tasks) (htasks' : Framed 255 255 tasks') (mode mode' : Bytes) :
    planBytes agents tasks mode = planBytes agents' tasks' mode' ↔
      agents.Perm agents' ∧ tasks.Perm tasks' ∧ mode = mode' := by
  constructor
  · intro h
    rw [planBytes_eq, planBytes_eq] at h
    obtain ⟨hsame, hrest⟩ := frames_append_inj hagents.sortStrs hagents'.sortStrs h
    obtain ⟨hsame', hmode⟩ := frames_append_inj htasks.sortStrs htasks'.sortStrs hrest
    exact ⟨sortStrs_eq_iff.1 hsame, sortStrs_eq_iff.1 hsame', (cons.inj hmode).2⟩
  · rintro ⟨hperm, hperm', rfl⟩
    exact planBytes_of_perm hperm hperm'

/-- Within the limits two crews feed the same bytes exactly when they have the same agent keys and
task descriptions, in whatever order, and the same process mode. -/
def Separate (agentsMost keySize tasksMost taskSize : Nat) : Prop :=
  ∀ agents agents' tasks tasks' mode mode', Framed agentsMost keySize agents →
    Framed agentsMost keySize agents' → Framed tasksMost taskSize tasks →
    Framed tasksMost taskSize tasks' →
    (planBytes agents tasks mode = planBytes agents' tasks' mode' ↔
      agents.Perm agents' ∧ tasks.Perm tasks' ∧ mode = mode')

/-- 256 zero bytes. As a length or a count, 256 is fed as a zero as well. -/
def zeros : Bytes := replicate 256 0

/-- Past each limit, the zeros of keys, tasks or their lengths pass for those of a mode. -/
theorem planBytes_zeros :
    planBytes (replicate 256 []) [] [] = planBytes [] [] zeros ∧
      planBytes [zeros] [] [] = planBytes [[]] [] zeros ∧
      planBytes [] (replicate 256 []) [] = planBytes [] [] zeros ∧
      planBytes [] [zeros] [] = planBytes [] [[]] zeros := by
  decide +kernel

/-- **Which limits tell crews apart**: none of them may be above 255, where a size matters only if
there may be a string of it. -/
theorem planBytes_separate_iff (agentsMost keySize tasksMost taskSize : Nat) :
    Separate agentsMost keySize tasksMost taskSize ↔
      (agentsMost ≤ 255 ∧ (0 < agentsMost → keySize ≤ 255)) ∧
        tasksMost ≤ 255 ∧ (0 < tasksMost → taskSize ≤ 255) := by
  constructor
  · intro h
    have apart : ∀ {a a' t t' : List Bytes}, planBytes a t [] = planBytes a' t' zeros →
        Framed agentsMost keySize a → Framed agentsMost keySize a' → Framed tasksMost taskSize t →
        Framed tasksMost taskSize t' → False := by
      intro a a' t t' heq ha ha' ht ht'
      exact absurd ((h a a' t t' [] zeros ha ha' ht ht').1 heq).2.2 (by decide)
    have many : ∀ {most size : Nat}, 255 < most → Framed most size (replicate 256 []) := by
      intro most size hlt
      exact ⟨by rwa [length_replicate], fun s hs => by simp [(mem_replicate.1 hs).2]⟩
    have long : ∀ {most size : Nat}, 0 < most → 255 < size → Framed most size [zeros] := by
      intro most size hpos hlt
      exact .singleton hpos ((Nat.le_of_eq length_replicate).trans hlt)
    obtain ⟨hagents, hkey, htasks, htask⟩ := planBytes_zeros
    refine ⟨⟨Nat.not_lt.1 fun hlt => ?_, fun hpos => Nat.not_lt.1 fun hlt => ?_⟩,
      Nat.not_lt.1 fun hlt => ?_, fun hpos => Nat.not_lt.1 fun hlt => ?_⟩
    · exact apart hagents (many hlt) .nil .nil .nil
    · exact apart hkey (long hpos hlt) (.singleton hpos (Nat.zero_le _)) .nil .nil
    · exact apart htasks .nil .nil (many hlt) .nil
    · exact apart htask .nil .nil (long hpos hlt) (.singleton hpos (Nat.zero_le _))
  · rintro ⟨⟨hagents, hkeys⟩, htasks, hsizes⟩ a a' t t' mode mode' ha ha' ht ht'
    exact planBytes_eq_iff (ha.byte hagents hkeys) (ha'.byte hagents hkeys) (ht.byte htasks hsizes)
      (ht'.byte htasks hsizes) mode mode'

/-- A short task and one of 288 bytes, whose length leaves 32, a space. -/
def longTasks : List Bytes := [ascii "a", replicate 255 98 ++ ascii " " ++ replicate 32 98]

/-- The first task has taken over all of the second up to its space. -/
def longTasks' : List Bytes := [ascii "a " ++ replicate 255 98, replicate 32 98]

/-- Two crews with other tasks feed the same bytes, so they share a key and a plan. -/
theorem planBytes_longTasks :
    planBytes [] longTasks (ascii "sequential") = planBytes [] longTasks' (ascii "sequential") ∧
      planKey [] longTasks (ascii "sequential") = planKey [] longTasks' (ascii "sequential") ∧
      ¬ longTasks.Perm longTasks' := by
  have hbytes : planBytes [] longTasks (ascii "sequential") =
      planBytes [] longTasks' (ascii "sequential") := by
    decide +kernel
  refine ⟨hbytes, ?_, fun hperm => ?_⟩
  · rw [planKey_eq, planKey_eq, hbytes]
  · exact absurd (hperm.mem_iff.1 (mem_cons_self)) (by decide +kernel)

end Agnosai.PlanCache
