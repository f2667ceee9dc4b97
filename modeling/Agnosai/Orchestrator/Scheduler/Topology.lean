import Agnosai.Orchestrator.Scheduler.Definitions
import Agnosai.Support.Kahn
import Mathlib.Data.List.ProdSigma

/-!
# Orchestrator — Scheduler — Topology

The topological sort of a DAG. The two maps hold, for each key, the targets and the sources of its
edges, each once. The sort counts for each key of the DAG the sources it waits for, known or not,
so it is Kahn's algorithm on the edges into known keys (`waits`), and what is queued is the keys
that count zero (`KahnInv`).
-/

namespace Agnosai.Scheduler

open Adjacency List KeyMap

variable {dag dag' : TaskDag} {m : KeyMap Bytes (List Bytes)} {c k v : Bytes}

variable (dag)

/-- The key `x` waits for `y`: an edge between known keys. -/
def Waits (x y : Bytes) : Prop :=
  (y, x) ∈ dag.edges ∧ x ∈ dag.tasks.keys ∧ y ∈ dag.tasks.keys

/-- No edge leads from an unknown key into a known one. -/
def Rooted : Prop :=
  ∀ a b, (a, b) ∈ dag.edges → b ∈ dag.tasks.keys → a ∈ dag.tasks.keys

/-! ### The two maps -/

variable (m)

/-- What a map lists under a key. -/
def listed (k : Bytes) : List Bytes := (m.lookup k).getD []

theorem listed_addKey (k' k : Bytes) :
    listed (addKey m k') k = listed m k := by
  unfold addKey
  split
  next hnone =>
    rw [listed, lookup_set]
    split
    next heq =>
      rw [heq, listed, Option.isNone_iff_eq_none.1 hnone]
      rfl
    · rfl
  · rfl

variable {m}

theorem mem_listed_addEdge {key value : Bytes} :
    v ∈ listed (addEdge m key value) k ↔ v ∈ listed m k ∨ k = key ∧ v = value := by
  rw [listed, addEdge, lookup_set]
  by_cases hk : k = key
  · rw [if_pos hk, hk]
    change v ∈ (if value ∈ listed m key then listed m key else listed m key ++ [value]) ↔ _
    split
    next hin =>
      constructor
      · exact .inl
      · rintro (h | ⟨-, rfl⟩)
        · exact h
        · exact hin
    · simp
  · simp [hk, listed]

theorem nodup_listed_addEdge (h : ∀ k, (listed m k).Nodup) (key value k : Bytes) :
    (listed (addEdge m key value) k).Nodup := by
  rw [listed, addEdge, lookup_set]
  split
  · change (if value ∈ listed m key then listed m key else listed m key ++ [value]).Nodup
    split
    · exact h key
    next hout =>
      exact nodup_append.2 ⟨h key, nodup_singleton value, by
        rintro a ha b hb rfl
        exact hout (mem_singleton.1 hb ▸ ha)⟩
  · exact h k

/-- Adding edges lists each value under its key, once. -/
theorem listed_addEdges (l : List (Bytes × Bytes)) (hm : ∀ k, listed m k = []) :
    (∀ k v, v ∈ listed (l.foldl (fun m e => addEdge m e.1 e.2) m) k ↔ (k, v) ∈ l) ∧
      ∀ k, (listed (l.foldl (fun m e => addEdge m e.1 e.2) m) k).Nodup := by
  induction l using reverseRecOn with
  | nil =>
    refine ⟨fun k v => ?_, fun k => ?_⟩
    · rw [foldl_nil, hm]
      exact iff_of_false not_mem_nil not_mem_nil
    · rw [foldl_nil, hm]
      exact nodup_nil
  | append_singleton l e ih =>
    simp only [foldl_append, foldl_cons, foldl_nil]
    refine ⟨fun k v => ?_, nodup_listed_addEdge ih.2 e.1 e.2⟩
    rw [mem_listed_addEdge, ih.1, mem_append, mem_singleton, Prod.ext_iff]

theorem listed_addKeys (keys : List Bytes) : listed (keys.foldl addKey m) k = listed m k := by
  induction keys generalizing m with
  | nil => rfl
  | cons key keys ih => rw [foldl_cons, ih, listed_addKey]

theorem build_dependents : (build dag).dependents =
    dag.edges.foldl (fun m e => addEdge m e.1 e.2) (dag.tasks.keys.foldl addKey .empty) := by
  change _ = dag.edges.foldl _ (dag.tasks.keys.foldl addKey (dependents {}))
  have hkeys : dag.tasks.keys.foldl addKey (dependents {}) =
      (dag.tasks.keys.foldl seed {}).dependents :=
    foldl_hom dependents fun _ _ => rfl
  rw [hkeys]
  exact (foldl_hom dependents fun _ _ => rfl).symm

theorem build_dependencies : (build dag).dependencies =
    (dag.edges.map Prod.swap).foldl (fun m e => addEdge m e.1 e.2)
      (dag.tasks.keys.foldl addKey .empty) := by
  change _ = (dag.edges.map Prod.swap).foldl _ (dag.tasks.keys.foldl addKey (dependencies {}))
  have hkeys : dag.tasks.keys.foldl addKey (dependencies {}) =
      (dag.tasks.keys.foldl seed {}).dependencies :=
    foldl_hom dependencies fun _ _ => rfl
  rw [hkeys, foldl_map]
  exact (foldl_hom dependencies fun _ _ => rfl).symm

theorem listed_keys (k : Bytes) : listed (dag.tasks.keys.foldl addKey .empty) k = [] :=
  listed_addKeys dag.tasks.keys

variable {dag}

theorem mem_dependents : v ∈ listed (build dag).dependents k ↔ (k, v) ∈ dag.edges := by
  rw [build_dependents]
  exact (listed_addEdges dag.edges (listed_keys dag)).1 k v

theorem nodup_dependents (dag : TaskDag) (k : Bytes) : (listed (build dag).dependents k).Nodup := by
  rw [build_dependents]
  exact (listed_addEdges dag.edges (listed_keys dag)).2 k

theorem mem_dependencies : v ∈ listed (build dag).dependencies k ↔ (v, k) ∈ dag.edges := by
  rw [build_dependencies]
  exact ((listed_addEdges _ (listed_keys dag)).1 k v).trans (mem_map_swap v k dag.edges)

theorem nodup_dependencies : (listed (build dag).dependencies k).Nodup := by
  rw [build_dependencies]
  exact (listed_addEdges (dag.edges.map Prod.swap) (listed_keys dag)).2 k

/-! ### The counts -/

/-- What seeding does over any list of keys. -/
theorem foldl_seedDegree (dependencies : KeyMap Bytes (List Bytes)) (keys : List Bytes)
    (acc : KeyMap Bytes Int × List Bytes) :
    (∀ c, (keys.foldl (seedDegree dependencies) acc).1.lookup c =
      if c ∈ keys then some ↑(listed dependencies c).length else acc.1.lookup c) ∧
    (keys.foldl (seedDegree dependencies) acc).2 =
      acc.2 ++ keys.filter fun c => (listed dependencies c).length = 0 := by
  induction keys generalizing acc with
  | nil => exact ⟨fun c => by simp, by simp⟩
  | cons key keys ih =>
    obtain ⟨hlookup, hqueue⟩ := ih (seedDegree dependencies acc key)
    rw [foldl_cons]
    refine ⟨fun c => ?_, ?_⟩
    · rw [hlookup]
      by_cases hin : c ∈ keys
      · simp [hin]
      · by_cases heq : c = key
        · simp [heq, seedDegree, lookup_set, listed]
        · simp [hin, heq, seedDegree, lookup_set]
    · rw [hqueue, filter_cons]
      change (if (listed dependencies key).length = 0 then acc.2 ++ [key] else acc.2) ++ _ = _
      by_cases hzero : (listed dependencies key).length = 0
      · simp [hzero]
      · simp [hzero]

/-- Releasing distinct successors counts each down once and queues those that counted one. -/
theorem foldl_releaseOne {succs : List Bytes} (hnodup : succs.Nodup)
    (acc : KeyMap Bytes Int × List Bytes) :
    (∀ c, (succs.foldl releaseOne acc).1.lookup c =
      (acc.1.lookup c).map fun deg => if c ∈ succs then deg - 1 else deg) ∧
    (succs.foldl releaseOne acc).2 = acc.2 ++ succs.filter fun c => acc.1.lookup c = some 1 := by
  induction succs generalizing acc with
  | nil => exact ⟨fun c => by simp, by simp⟩
  | cons succ succs ih =>
    obtain ⟨hnot, hnodup⟩ := nodup_cons.1 hnodup
    obtain ⟨hlookup, hqueue⟩ := ih hnodup (releaseOne acc succ)
    have hone : ∀ c, (releaseOne acc succ).1.lookup c =
        (acc.1.lookup c).map fun deg => if c = succ then deg - 1 else deg := by
      intro c
      rw [releaseOne]
      by_cases heq : c = succ <;> split <;> simp [lookup_set, *]
    refine ⟨fun c => ?_, ?_⟩
    · rw [foldl_cons, hlookup, hone, Option.map_map]
      refine congrArg (Option.map · _) (funext fun deg => ?_)
      by_cases heq : c = succ
      · simp [heq, hnot]
      · simp [heq]
    · have hrest : (succs.filter fun c => (releaseOne acc succ).1.lookup c = some 1) =
          succs.filter fun c => acc.1.lookup c = some 1 := by
        refine filter_congr fun c hc => ?_
        have hne : c ≠ succ := fun heq => hnot (heq ▸ hc)
        simp [hone, hne]
      rw [foldl_cons, hqueue, hrest, filter_cons]
      unfold releaseOne
      split
      next hnone =>
        simp [hnone]
      next deg hdeg =>
        by_cases hdone : deg = 1
        · simp [hdeg, hdone]
        · have hnz : deg - 1 ≠ 0 := by omega
          simp [hdeg, hdone, hnz]

/-! ### Kahn's algorithm -/

/-- The edges into known keys, each once: the first waits for the second. -/
def waits (dag : TaskDag) : List (Bytes × Bytes) :=
  (dag.edges.map Prod.swap).dedup.filter fun e => e.1 ∈ dag.tasks.keys

theorem mem_waits {x y : Bytes} : (x, y) ∈ waits dag ↔ (y, x) ∈ dag.edges ∧ x ∈ dag.tasks.keys := by
  rw [waits, mem_filter, mem_dedup, mem_map_swap, decide_eq_true_eq]

theorem nodup_waits : (waits dag).Nodup := (nodup_dedup _).filter _

/-- The dependencies of a known key are what it waits for at the start. -/
theorem length_dependencies (hc : c ∈ dag.tasks.keys) :
    (listed (build dag).dependencies c).length = Kahn.waiting (waits dag) [] c := by
  have hperm : (((waits dag).filter fun e => e.1 = c).map Prod.snd).Perm
      (listed (build dag).dependencies c) := by
    refine (perm_ext_iff_of_nodup ?_ nodup_dependencies).2 fun b => ?_
    · refine List.Nodup.map_on ?_ (nodup_waits.filter _)
      rintro ⟨x, y⟩ hx ⟨x', y'⟩ hx' rfl
      obtain rfl : x = c := of_decide_eq_true (mem_filter.1 hx).2
      obtain rfl : x' = x := of_decide_eq_true (mem_filter.1 hx').2
      rfl
    · rw [mem_dependencies, mem_map]
      constructor
      · rintro ⟨⟨x, y⟩, hx, rfl⟩
        obtain ⟨hw, hxc⟩ := mem_filter.1 hx
        obtain rfl : x = c := of_decide_eq_true hxc
        exact (mem_waits.1 hw).1
      · exact fun he => ⟨(c, b), mem_filter.2 ⟨mem_waits.2 ⟨he, hc⟩, decide_eq_true rfl⟩, rfl⟩
  rw [← hperm.length_eq, length_map, Kahn.waiting, countP_eq_length_filter]
  simp

/-- What holds at each round of the sort. -/
structure KahnInv (dag : TaskDag) (s : KahnState) : Prop where
  kahn : Kahn.Inv (waits dag) s.order fun c => Kahn.waiting (waits dag) s.order c
  degree : ∀ c, s.inDegree.lookup c =
    if c ∈ dag.tasks.keys then some ↑(Kahn.waiting (waits dag) s.order c) else none
  queued : ∀ c, c ∈ s.order ∨ c ∈ s.queue ↔
    c ∈ dag.tasks.keys ∧ Kahn.waiting (waits dag) s.order c = 0
  nodup : (s.order ++ s.queue).Nodup

/-- The invariant holds at the seeded degrees. -/
theorem KahnInv.init :
    KahnInv dag
      { inDegree := (dag.tasks.keys.foldl (seedDegree (build dag).dependencies) (.empty, [])).1
        queue := sortStrs
          (dag.tasks.keys.foldl (seedDegree (build dag).dependencies) (.empty, [])).2
        order := [] } := by
  obtain ⟨hlookup, hqueue⟩ := foldl_seedDegree (build dag).dependencies dag.tasks.keys (.empty, [])
  refine ⟨⟨fun _ => rfl, nodup_nil, fun l₁ c l₂ h => by simp at h⟩, fun c => ?_, fun c => ?_, ?_⟩
  · rw [hlookup]
    split
    next hc =>
      rw [length_dependencies hc]
    · rfl
  · rw [hqueue, mem_sortStrs, nil_append, mem_filter, decide_eq_true_eq]
    constructor
    · rintro (h | ⟨hc, hzero⟩)
      · cases h
      · exact ⟨hc, length_dependencies hc ▸ hzero⟩
    · rintro ⟨hc, hzero⟩
      exact .inr ⟨hc, (length_dependencies hc).trans hzero⟩
  · rw [nil_append, (perm_sortStrs _).nodup_iff, hqueue, nil_append]
    exact dag.tasks.nodup.filter _

variable {s s' : KahnState}

/-- Take the head of the queue and release its successors. -/
def KahnState.take (m : KeyMap Bytes (List Bytes)) (s : KahnState) (node : Bytes)
    (rest : List Bytes) : KahnState where
  inDegree := ((sortStrs (listed m node)).foldl releaseOne (s.inDegree, rest)).1
  queue := ((sortStrs (listed m node)).foldl releaseOne (s.inDegree, rest)).2
  order := s.order ++ [node]

theorem kahnLoop_step_nil {keys : List Bytes} (hqueue : s.queue = []) :
    (kahnLoop keys m).step s =
      .inr (if s.order.length ≠ keys.length then none else some s.order) := by
  simp only [kahnLoop, hqueue]

theorem kahnLoop_step_cons {keys : List Bytes} {node : Bytes} {rest : List Bytes}
    (hqueue : s.queue = node :: rest) : (kahnLoop keys m).step s = .inl (s.take m node rest) := by
  simp only [kahnLoop, hqueue, KahnState.take, listed]

/-- A round that continues keeps the invariant. -/
theorem KahnInv.round (h : KahnInv dag s)
    (hs : (kahnLoop dag.tasks.keys (build dag).dependents).step s = .inl s') : KahnInv dag s' := by
  obtain ⟨node, rest, hqueue⟩ : ∃ node rest, s.queue = node :: rest := by
    cases hqueue : s.queue with
    | nil =>
      rw [kahnLoop_step_nil hqueue] at hs
      cases hs
    | cons node rest => exact ⟨node, rest, rfl⟩
  rw [kahnLoop_step_cons hqueue] at hs
  cases hs
  have hnodup := h.nodup
  rw [hqueue] at hnodup
  have hout : node ∉ s.order := fun hin =>
    (nodup_append.1 hnodup).2.2 node hin node mem_cons_self rfl
  obtain ⟨-, hzero⟩ := (h.queued node).1 (.inr (hqueue ▸ mem_cons_self))
  obtain ⟨hlookup, hpushed⟩ := foldl_releaseOne
    ((perm_sortStrs _).nodup_iff.2 (nodup_dependents dag node)) (s.inDegree, rest)
  -- a known key waits for one less exactly when it is a successor
  have hless : ∀ c ∈ dag.tasks.keys, Kahn.waiting (waits dag) s.order c =
      Kahn.waiting (waits dag) (s.order ++ [node]) c +
        if c ∈ sortStrs (listed (build dag).dependents node) then 1 else 0 := by
    intro c hc
    rw [Kahn.waiting_snoc_of_nodup nodup_waits hout c]
    simp [mem_sortStrs, mem_dependents, mem_waits, hc]
  have hnew : ∀ c, c ∈ (sortStrs (listed (build dag).dependents node)).filter
      (fun c => s.inDegree.lookup c = some 1) ↔ c ∈ dag.tasks.keys ∧
        c ∈ sortStrs (listed (build dag).dependents node) ∧
          Kahn.waiting (waits dag) s.order c = 1 := by
    intro c
    rw [mem_filter, decide_eq_true_eq, h.degree]
    by_cases hc : c ∈ dag.tasks.keys
    · simp only [hc, if_true, Option.some.injEq, true_and]
      exact and_congr_right fun _ => by omega
    · simp [hc]
  refine ⟨?_, fun c => ?_, fun c => ?_, ?_⟩
  · have htake := h.kahn.take hout (by exact_mod_cast hzero)
    exact ⟨fun _ => rfl, htake.nodup, htake.ordered⟩
  · simp only [KahnState.take]
    rw [hlookup, h.degree]
    by_cases hc : c ∈ dag.tasks.keys
    · rw [if_pos hc, if_pos hc, hless c hc, Option.map_some]
      split <;> simp
    · rw [if_neg hc, if_neg hc, Option.map_none]
  · simp only [KahnState.take]
    rw [hpushed, mem_append, mem_append, mem_singleton, hnew]
    have hold := h.queued c
    rw [hqueue, mem_cons] at hold
    rw [← or_assoc, or_assoc (a := c ∈ s.order), hold, ← and_or_left]
    refine and_congr_right fun hc => ?_
    rw [hless c hc]
    split <;> simp [*]
  · simp only [KahnState.take]
    rw [hpushed, append_assoc, singleton_append, ← cons_append, ← append_assoc]
    refine nodup_append.2 ⟨hnodup, ?_, ?_⟩
    · exact ((perm_sortStrs _).nodup_iff.2 (nodup_dependents dag node)).filter _
    · rintro a ha b hb rfl
      obtain ⟨-, hz⟩ := (h.queued a).1 (mem_append.1 (hqueue ▸ ha))
      have hone := ((hnew a).1 hb).2.2
      omega

/-- What the sort's result says. -/
def Arranged (dag : TaskDag) : Option (List Bytes) → Prop
  | none => ¬ (Rooted dag ∧ Graph.Acyclic (Waits dag))
  | some order => Rooted dag ∧ Graph.Acyclic (Waits dag) ∧ order.Perm dag.tasks.keys ∧
      ∀ l₁ x l₂, order = l₁ ++ x :: l₂ → ∀ y, Waits dag x y → y ∈ l₁

/-- What the loop returns is an arrangement. -/
theorem KahnInv.leave (h : KahnInv dag s) {r : Option (List Bytes)}
    (hs : (kahnLoop dag.tasks.keys (build dag).dependents).step s = .inr r) : Arranged dag r := by
  have hqueue : s.queue = [] := by
    cases hqueue : s.queue with
    | nil => rfl
    | cons =>
      rw [kahnLoop_step_cons hqueue] at hs
      cases hs
  rw [kahnLoop_step_nil hqueue] at hs
  cases hs
  have hqueued : ∀ c, c ∈ s.order ↔ c ∈ dag.tasks.keys ∧
      Kahn.waiting (waits dag) s.order c = 0 := by
    intro c
    have hc := h.queued c
    rw [hqueue] at hc
    simpa using hc
  have hsub : s.order ⊆ dag.tasks.keys := fun c hc => ((hqueued c).1 hc).1
  split
  next hlen =>
    rintro ⟨hrooted, hacyclic⟩
    -- fewer keys were taken than there are, so one is left, and then one counts zero
    obtain ⟨c, hc, hct⟩ : ∃ c ∈ dag.tasks.keys, c ∉ s.order := by
      by_contra hne
      have hall : dag.tasks.keys ⊆ s.order := fun c hc => by
        by_contra hct
        exact hne ⟨c, hc, hct⟩
      have hle := (subperm_of_subset dag.tasks.nodup hall).length_le
      have hge := (subperm_of_subset h.kahn.nodup hsub).length_le
      exact hlen (le_antisymm hge hle)
    have hmono : ∀ x y, (x, y) ∈ waits dag → Waits dag x y := by
      intro x y he
      obtain ⟨he, hx⟩ := mem_waits.1 he
      exact ⟨he, hx, hrooted y x he hx⟩
    obtain ⟨c', hc', hct', hzero⟩ := h.kahn.exists_ready
      (fun x hx => hacyclic x (Relation.TransGen.mono hmono x x hx))
        (fun x y he => (hmono x y he).2.2) hc hct
    exact hct' ((hqueued c').2 ⟨hc', by exact_mod_cast hzero⟩)
  next hlen =>
    have hperm : s.order.Perm dag.tasks.keys :=
      (subperm_of_subset h.kahn.nodup hsub).perm_of_length_le (le_of_eq (not_not.1 hlen).symm)
    have hwaits : ∀ x y, Waits dag x y → (x, y) ∈ waits dag :=
      fun x y hxy => mem_waits.2 ⟨hxy.1, hxy.2.1⟩
    have hacyclic := h.kahn.acyclic fun x y he => hperm.mem_iff.2 (mem_waits.1 he).2
    refine ⟨fun a b he hb => ?_, fun x hx => hacyclic x (Relation.TransGen.mono hwaits x x hx),
      hperm, fun l₁ x l₂ hsplit y hxy => h.kahn.ordered l₁ x l₂ hsplit y (hwaits x y hxy)⟩
    obtain ⟨l₁, l₂, hsplit⟩ := append_of_mem (hperm.mem_iff.2 hb)
    have hin := h.kahn.ordered l₁ b l₂ hsplit a (mem_waits.2 ⟨he, hb⟩)
    exact hsub (hsplit ▸ mem_append_left _ hin)

theorem topologicalSort_arranged (dag : TaskDag) : Arranged dag (topologicalSort dag) :=
  (kahnLoop dag.tasks.keys (build dag).dependents).run_spec (fun _ _ h hs => h.round hs)
    (fun _ _ h hs => h.leave hs) KahnInv.init

/-! ### However it is listed -/

/-- Two states of the sort that differ in the order of the counts at most. -/
structure Alike (s s' : KahnState) : Prop where
  inDegree : ∀ c, s.inDegree.lookup c = s'.inDegree.lookup c
  queue : s.queue = s'.queue
  order : s.order = s'.order

/-- The sort is the same however the keys and the edges are listed. -/
theorem topologicalSort_congr (hkeys : dag'.tasks.keys.Perm dag.tasks.keys)
    (hedges : ∀ e, e ∈ dag'.edges ↔ e ∈ dag.edges) :
    topologicalSort dag' = topologicalSort dag := by
  have hdependents : ∀ k,
      (listed (build dag').dependents k).Perm (listed (build dag).dependents k) :=
    fun k => (perm_ext_iff_of_nodup (nodup_dependents dag' k) (nodup_dependents dag k)).2
      fun v => by
      rw [mem_dependents, mem_dependents, hedges]
  have hdependencies : ∀ k,
      (listed (build dag').dependencies k).Perm (listed (build dag).dependencies k) :=
    fun k => (perm_ext_iff_of_nodup nodup_dependencies nodup_dependencies).2 fun v => by
      rw [mem_dependencies, mem_dependencies, hedges]
  refine (kahnLoop dag'.tasks.keys (build dag').dependents).run_rel (R := Alike) ?_ ?_
  · rintro s s' ⟨hdeg, hqueue, horder⟩
    cases hqueue' : s'.queue with
    | nil =>
      rw [kahnLoop_step_nil hqueue', kahnLoop_step_nil (hqueue.trans hqueue'), horder,
        hkeys.length_eq]
      exact .inr rfl
    | cons node rest =>
      rw [kahnLoop_step_cons hqueue', kahnLoop_step_cons (hqueue.trans hqueue')]
      have hsorted := sortStrs_eq_iff.2 (hdependents node)
      have hnodup := (perm_sortStrs _).nodup_iff.2 (nodup_dependents dag node)
      obtain ⟨hlookup, hpushed⟩ := foldl_releaseOne hnodup (s.inDegree, rest)
      obtain ⟨hlookup', hpushed'⟩ := foldl_releaseOne hnodup (s'.inDegree, rest)
      simp only [KahnState.take, hsorted, horder]
      refine .inl ⟨fun c => ?_, ?_, rfl⟩
      · rw [hlookup, hlookup', hdeg]
      · rw [hpushed, hpushed']
        simp only [hdeg]
  · obtain ⟨hlookup, hqueue⟩ :=
      foldl_seedDegree (build dag).dependencies dag.tasks.keys (.empty, [])
    obtain ⟨hlookup', hqueue'⟩ :=
      foldl_seedDegree (build dag').dependencies dag'.tasks.keys (.empty, [])
    refine ⟨fun c => ?_, sortStrs_eq_iff.2 ?_, rfl⟩
    · rw [hlookup, hlookup', (hdependencies c).length_eq]
      simp only [hkeys.mem_iff]
    · rw [hqueue, hqueue', nil_append, nil_append]
      simp only [(hdependencies _).length_eq]
      exact hkeys.filter _

/-- **The topological sort.** It returns an order exactly when no edge leads from an unknown task
into a known one and the edges between known tasks have no cycle. The order then holds every key
once, with the source of each such edge before its target, and it is the same however keys and edges
are listed. -/
theorem topologicalSort_correct (dag : TaskDag) :
    ((topologicalSort dag).isSome ↔ Rooted dag ∧ Graph.Acyclic (Waits dag)) ∧
      (∀ order, topologicalSort dag = some order →
        order.Perm dag.tasks.keys ∧ order.Nodup ∧
          ∀ l₁ x l₂, order = l₁ ++ x :: l₂ → ∀ y, Waits dag x y → y ∈ l₁) ∧
      ∀ dag' : TaskDag, dag'.tasks.keys.Perm dag.tasks.keys →
        (∀ e, e ∈ dag'.edges ↔ e ∈ dag.edges) → topologicalSort dag' = topologicalSort dag := by
  have harranged := topologicalSort_arranged dag
  refine ⟨?_, fun order horder => ?_, fun dag' hkeys hedges => topologicalSort_congr hkeys hedges⟩
  · cases hsort : topologicalSort dag with
    | none =>
      rw [hsort] at harranged
      exact iff_of_false Bool.false_ne_true harranged
    | some =>
      rw [hsort] at harranged
      exact iff_of_true rfl ⟨harranged.1, harranged.2.1⟩
  · rw [horder] at harranged
    obtain ⟨-, -, hperm, hbefore⟩ := harranged
    exact ⟨hperm, hperm.nodup_iff.2 dag.tasks.nodup, hbefore⟩

end Agnosai.Scheduler
